import Server8.Protocol.Header
import Server8.IOCP.Send

namespace Server8

-- A `memcpy` out of the receive buffer: its size, the offset it reads from, and the offset it
-- writes to in the array at `prevData`, which has `room` bytes.
structure Copy where
  size   : Int
  source : Int
  dest   : Int
  room   : Option Int
  deriving DecidableEq, Repr

-- The copy reads only the first `length` bytes, and writes only inside of the array.
structure Copy.InBounds (c : Copy) (length : Int) : Prop where
  size   : 0 ≤ c.size
  source : 0 ≤ c.source
  read   : c.source + c.size ≤ length
  dest   : 0 ≤ c.dest
  write  : ∃ n, c.room = some n ∧ c.dest + c.size ≤ n

theorem Copy.inBounds_iff {size source dest length : Int} {room : Option Int} :
    Copy.InBounds ⟨size, source, dest, room⟩ length ↔
      0 ≤ size ∧ 0 ≤ source ∧ source + size ≤ length ∧ 0 ≤ dest ∧
        ∃ n, room = some n ∧ dest + size ≤ n :=
  ⟨fun h => ⟨h.size, h.source, h.read, h.dest, h.write⟩,
    fun ⟨h₁, h₂, h₃, h₄, h₅⟩ => ⟨h₁, h₂, h₃, h₄, h₅⟩⟩

instance (c : Copy) (length : Int) : Decidable (c.InBounds length) :=
  decidable_of_iff (0 ≤ c.size ∧ 0 ≤ c.source ∧ c.source + c.size ≤ length ∧ 0 ≤ c.dest ∧
    c.room.any fun n => c.dest + c.size ≤ n) <| by
  rw [show c.InBounds length ↔ _ from Copy.inBounds_iff, Option.any_eq_true]
  simp only [decide_eq_true_eq]

-- What the handlers of received bytes do besides posting the next receive: every call of the
-- callback comes with the offset at which the packet it is made for ends.
structure Received where
  context : IOCPContext
  calls   : List (Int × Call)
  copies  : List Copy
  deriving DecidableEq, Repr

-- `buf` is the content of `wsabuf.buf`, of which the first `dataLength` bytes are received.
def shown (buf : Bytes) (dataLength : Int) : Call where
  data   := buf.take dataLength.toNat
  length := dataLength

namespace IOCPContext

-- The part of `doAccept` between the two posts: `this` is the context of the new connection, and the
-- call is the one that `processFlag` asks for.
def doAccept (pContext : IOCPContext) (buf : Bytes) (dataLength : Int) : Received :=
  match ({} : Packet).matchHeader (some buf) dataLength with
  | (false, _)     => { context := pContext, calls := [], copies := [] }
  | (true, packet) =>
    if packet.getPacketLength = dataLength then
      { context := pContext, calls := [(dataLength, shown buf dataLength)], copies := [] }
    else {
      context := { pContext with
        prevFlag    := true
        prevData    := some packet.getPacketLength
        bytesToRecv := packet.getPacketLength - dataLength
        packet }
      calls  := []
      copies := [⟨dataLength, 0, 0, some packet.getPacketLength⟩] }

-- The loop of `doRecv` over the packets from offset `count` on: the last packet matched, the offset
-- behind it, and where the packets end that are complete.
def splice (buf : Bytes) (dataLength : Int) (pack : Packet) (count : Int) :
    Packet × Int × List Int :=
  if count < dataLength then
    match _h : pack.matchHeader (some (buf.drop count.toNat)) (dataLength - count) with
    | (false, pack) => (pack, count, [])
    | (true, pack)  =>
      let next := count + pack.getPacketLength
      let (last, count', stops) := splice buf dataLength pack next
      (last, count', if dataLength - count ≥ pack.getPacketLength then next :: stops else stops)
  else (pack, count, [])
termination_by (dataLength - count).toNat
decreasing_by
  have := Packet.matchHeader_pos _h
  omega

-- What `doRecv` keeps of a last packet that is not complete.
def carry (pIC : IOCPContext) (pack : Packet) (count dataLength : Int) :
    IOCPContext × List Copy :=
  if count > dataLength then
    let bytesToRecv := count - dataLength
    ({ pIC with prevFlag := true, bytesToRecv, prevData := some bytesToRecv },
      [⟨bytesToRecv, count - pack.getPacketLength, 0, some bytesToRecv⟩])
  else (pIC, [])

-- `doRecv` up to its `postRecv`.
def doRecv (bufferSize : Int) (pIC : IOCPContext) (buf : Bytes) (dataLength : Int) : Received :=
  let call := shown buf dataLength
  let done := { pIC with prevFlag := false, bytesToRecv := 0, prevData := none }
  let dest := pIC.packet.getPacketLength - pIC.bytesToRecv
  if pIC.prevFlag then
    if pIC.bytesToRecv = dataLength then
      { context := done, calls := [(dataLength, call)], copies := [] }
    else if dataLength < pIC.bytesToRecv then {
      context := { pIC with bytesToRecv := pIC.bytesToRecv - dataLength }
      calls   := []
      copies  := [⟨dataLength, 0, dest, pIC.prevData⟩] }
    else if dataLength > pIC.bytesToRecv ∧ dataLength ≤ bufferSize then
      let (pack, count, stops) := splice buf dataLength {} pIC.bytesToRecv
      let (context, copies) := done.carry pack count dataLength
      {
        context
        calls  := (pIC.bytesToRecv, call) :: stops.map (·, call)
        copies := ⟨pIC.bytesToRecv, 0, dest, pIC.prevData⟩ :: copies }
    else { context := done, calls := [], copies := [] }
  else
    let (pack, count, stops) := splice buf dataLength {} 0
    let (context, copies) := pIC.carry pack count dataLength
    { context, calls := stops.map (·, call), copies }

end IOCPContext

-- The packet whose header `doRecv` recognises at an offset of the received bytes.
def headerAt (buf : Bytes) (dataLength o : Int) : Option Packet :=
  match ({} : Packet).matchHeader (some (buf.drop o.toNat)) (dataLength - o) with
  | (false, _)     => none
  | (true, packet) => some packet

section Splice

variable {buf : Bytes} {dataLength o : Int} {q : Packet}

theorem headerAt_eq_some : headerAt buf dataLength o = some q ↔
    ({} : Packet).matchHeader (some (buf.drop o.toNat)) (dataLength - o) = (true, q) := by
  unfold headerAt
  split
  case h_1 h => simp [h]
  case h_2 h => simp [h]

theorem headerAt_zero : headerAt buf dataLength 0 = some q ↔
    ({} : Packet).matchHeader (some buf) dataLength = (true, q) := by
  rw [headerAt_eq_some, Int.toNat_zero, List.drop_zero, Int.sub_zero]

theorem headerAt_pos (h : headerAt buf dataLength o = some q) : 1 ≤ q.getPacketLength :=
  Packet.matchHeader_pos (headerAt_eq_some.mp h)

theorem headerAt_lt (h : headerAt buf dataLength o = some q) : o < dataLength :=
  Int.sub_pos.mp (Packet.matchHeader_true (headerAt_eq_some.mp h)).left

theorem splice_of_none (h : headerAt buf dataLength o = none) (pack : Packet) :
    IOCPContext.splice buf dataLength pack o = (pack, o, []) := by
  rw [IOCPContext.splice]
  split
  case isFalse => rfl
  case isTrue =>
    split
    case h_1 _ hm => rw [Packet.matchHeader_false hm]
    case h_2 _ hm => simp [headerAt_eq_some.mpr (Packet.matchHeader_congr hm {})] at h

theorem splice_of_some (h : headerAt buf dataLength o = some q) (pack : Packet) :
    IOCPContext.splice buf dataLength pack o =
      let next := o + q.getPacketLength
      let rest := IOCPContext.splice buf dataLength q next
      (rest.1, rest.2.1, if next ≤ dataLength then next :: rest.2.2 else rest.2.2) := by
  have hm := Packet.matchHeader_congr (headerAt_eq_some.mp h) pack
  have hc : dataLength - o ≥ q.getPacketLength ↔ o + q.getPacketLength ≤ dataLength := by omega
  rw [IOCPContext.splice, if_pos (headerAt_lt h)]
  split
  case h_1 _ hm' => simp [hm] at hm'
  case h_2 _ hm' =>
    cases hm.symm.trans hm'
    simp only [hc]

-- The recursion of `splice`: a statement about offsets holds if it holds where no header is
-- recognised, and carries over from the end of a packet to its start.
theorem splice_induction (buf : Bytes) (dataLength : Int) {motive : Int → Prop}
    (none : ∀ o, headerAt buf dataLength o = none → motive o)
    (some : ∀ o q, headerAt buf dataLength o = some q → motive (o + q.getPacketLength) → motive o)
    (o : Int) : motive o := by
  cases h : headerAt buf dataLength o
  case none   => exact none o h
  case some q => exact some o q h (splice_induction buf dataLength none some (o + q.getPacketLength))
termination_by (dataLength - o).toNat
decreasing_by
  have := headerAt_pos h
  have := headerAt_lt h
  omega

end Splice

-- What a receive left in a buffer: at least one byte, and no more than the buffer holds.
structure Segment where
  buf        : Bytes
  dataLength : Int
  pos        : 1 ≤ dataLength
  le         : dataLength ≤ buf.length

-- The receives that follow on one context.
def receives (bufferSize : Int) : IOCPContext → List Segment → List Received
  | _, []              => []
  | pIC, s :: segments =>
    let r := pIC.doRecv bufferSize s.buf s.dataLength
    r :: receives bufferSize r.context segments

end Server8
