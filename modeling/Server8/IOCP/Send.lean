import Mathlib
import Server8.IOCP.Context

namespace Server8

-- A call of a receive or send callback: the bytes it is shown, and the length it is told.
structure Call where
  data   : Bytes
  length : Int
  deriving DecidableEq, Repr

-- What the module does to a send context. A descriptor that is no `WSABUF` of the context is `none`.
inductive SendEffect
  | post (descriptor : Option WSABUF)
  | callback (call : Call)
  | remove (contextIndex : Int)
  deriving DecidableEq, Repr

namespace IOCPContext

-- `&pIC->wsabuf + (pIC->wsabuf.len - pIC->bytesToRecv)`: the difference is unsigned, and it counts
-- descriptors, not bytes.
def descriptor (pIC : IOCPContext) : Option WSABUF :=
  if ((pIC.wsabuf.len : Int) - pIC.bytesToRecv) % 4294967296 = 0 then some pIC.wsabuf else none

def postSend (pIC : IOCPContext) : IOCPContext × SendEffect :=
  ({ pIC with operation := .send }, .post pIC.descriptor)

-- `posted` is the result of `WSASend`.
def doSend (posted : Bool) (pIC : IOCPContext) (dataLength : Int) :
    IOCPContext × List SendEffect × Bool :=
  let remove := SendEffect.remove pIC.contextIndex
  if dataLength = pIC.bytesToRecv then
    (pIC, [.callback ⟨pIC.wsabuf.buf.take dataLength.toNat, dataLength⟩, remove], true)
  else if dataLength < pIC.bytesToRecv then
    let (pIC, post) := { pIC with bytesToRecv := pIC.bytesToRecv - dataLength }.postSend
    if posted then (pIC, [post], true) else (pIC, [post, remove], false)
  else (pIC, [remove], false)

-- How `sendData` fills the context for `data`.
def setSend (pIC : IOCPContext) (socket : Option Socket) (data : Bytes) : IOCPContext :=
  { pIC with
    socket
    wsabuf      := { pIC.wsabuf with buf := data ++ pIC.wsabuf.buf.drop data.length }
    operation   := .send
    bytesToRecv := data.length }

end IOCPContext

namespace Send

-- The context of `sendData` for a message, and the first `WSASend`.
def start (data : Bytes) : Option (IOCPContext × SendEffect) :=
  (IOCPContext.new data.length).map fun pIC => (pIC.setSend none data).postSend

-- What each completion of a send leads to, if every further `WSASend` succeeds.
def completions (pIC : IOCPContext) : List Nat → List (List SendEffect)
  | []      => []
  | d :: ds =>
    let (pIC, effects, _) := pIC.doSend true d
    effects :: completions pIC ds

def posts (effects : List SendEffect) : List (Option WSABUF) :=
  effects.filterMap fun
    | .post descriptor => some descriptor
    | _                => none

def calls (effects : List SendEffect) : List Call :=
  effects.filterMap fun
    | .callback call => some call
    | _              => none

-- Before each completion `WSASend` got the bytes that were not sent yet, and the callback got the
-- whole message after the last one.
def Exact (data : Bytes) (ds : List Nat) : Prop :=
  ∃ pIC first, start data = some (pIC, first) ∧
    (posts (first :: (completions pIC ds).flatten)).map (Option.map WSABUF.bytes) =
      (List.range ds.length).map (fun i => some (data.drop (ds.take i).sum)) ∧
    (completions pIC ds).map calls =
      List.replicate (ds.length - 1) [] ++ [[⟨data, data.length⟩]]

variable {data : Bytes} {ds : List Nat}

-- A new send context offers the whole message.
theorem start_spec (h : 0 < data.length) :
    ∃ pIC w, start data = some (pIC, .post (some w)) ∧ w.bytes = data ∧
      pIC.wsabuf.len = data.length ∧ pIC.wsabuf.buf = data ∧ pIC.bytesToRecv = data.length := by
  have hb : data ++ (List.replicate data.length 0).drop data.length = data := by simp
  let pIC : IOCPContext := { wsabuf := ⟨data.length, List.replicate data.length 0⟩ }
  have hn : IOCPContext.new data.length = some pIC := if_pos (Int.natCast_pos.mpr h)
  refine ⟨(pIC.setSend none data).postSend.1, ⟨data.length, data⟩, ?_, List.take_length, rfl, hb, rfl⟩
  simp [start, hn, pIC, IOCPContext.setSend, IOCPContext.postSend, IOCPContext.descriptor]

-- After a completion of a part the next descriptor is `d` descriptors behind the right one.
theorem doSend_part {pIC : IOCPContext} {d : Nat} (hl : pIC.bytesToRecv = pIC.wsabuf.len)
    (hd : 0 < d) (hlt : d < pIC.wsabuf.len) (hb : pIC.wsabuf.len < 4294967296) :
    (pIC.doSend true d).2.1 = [.post none] := by
  have hne : (d : Int) ≠ pIC.wsabuf.len := by omega
  have hlt : (d : Int) < pIC.wsabuf.len := by omega
  have ho : ((pIC.wsabuf.len : Int) - (pIC.wsabuf.len - d)) % 4294967296 ≠ 0 := by omega
  simp only [IOCPContext.doSend, hl, hne, hlt, if_true, if_false, IOCPContext.postSend,
    IOCPContext.descriptor, ho]

theorem doSend_whole {pIC : IOCPContext} (hl : pIC.bytesToRecv = pIC.wsabuf.buf.length) :
    (pIC.doSend true pIC.wsabuf.buf.length).2.1 =
      [.callback ⟨pIC.wsabuf.buf, pIC.wsabuf.buf.length⟩, .remove pIC.contextIndex] := by
  simp only [IOCPContext.doSend, hl, if_true, Int.toNat_natCast, List.take_length]

-- A message goes out as it should just in case it goes out in one piece.
theorem exact_iff_whole (hlen : 0 < data.length ∧ data.length ≤ 0x800100) (hpos : ∀ d ∈ ds, 0 < d)
    (hsum : ds.sum = data.length) : Exact data ds ↔ ds = [data.length] := by
  have ⟨pIC, w, hs, hw, hl, hb, hr⟩ := start_spec hlen.left
  constructor
  case mp =>
    intro ⟨pIC', first, hs', hp, hc⟩
    cases hs.symm.trans hs'
    cases ds
    case nil =>
      rw [List.sum_nil] at hsum
      omega
    case cons d ds =>
      have hd := hpos d List.mem_cons_self
      rw [List.sum_cons] at hsum
      cases ds
      case nil =>
        rw [List.sum_nil, Nat.add_zero] at hsum
        rw [hsum]
      case cons e ds =>
        have he := hpos e (List.mem_cons_of_mem _ List.mem_cons_self)
        rw [List.sum_cons] at hsum
        have hn := doSend_part (by rw [hr, hl]) hd (by omega) (by omega)
        have := congrArg (·[1]?) hp
        simp [completions, hn, posts] at this
  case mpr =>
    intro hds
    have he := doSend_whole (by rw [hr, hb])
    rw [hb] at he
    refine ⟨pIC, _, hs, ?_, ?_⟩
    · simp [hds, completions, he, posts, hw]
    · simp [hds, completions, he, calls]

theorem whole_exact_two : Exact [1, 2] [2] :=
  (exact_iff_whole ⟨by decide, by decide⟩ (by decide) (by decide)).mpr rfl

-- Two bytes that go out one by one.
theorem partial_not_exact : ¬Exact [1, 2] [1, 1] := by
  intro ⟨_, _, hs, hp, _⟩
  cases hs
  exact absurd hp (by decide)

end Send
end Server8
