import Server8.IOCP.Ownership

-- A call of `sendData` that no other thread comes between.

namespace Server8

open Runs

-- What a call leaves, and the operations that it posted.
structure Sent where
  ret    : Bool
  module : Module
  posted : List Item

-- The results of `CreateIoCompletionPort`, `WSARecv` and `WSASend`.
structure Results where
  bound    : Bool
  received : Bool
  sent     : Bool
  deriving DecidableEq

def Results.of (results : Results) : Task → Bool
  | .bind ..     => results.bound
  | .publish ..  => results.received
  | .postSend .. => results.sent
  | _            => true

-- Whether a call that ends with this has a send posted.
def Task.posts : Task → Bool
  | .sent _ _ posted => posted
  | _                => false

namespace Module

-- A thread that takes its steps one after the other. The call succeeds if it ends with a send that is
-- posted, and fails if it ends with anything else.
def uninterrupted (results : Results) : Nat → Module → Task → Except Stop Sent
  | 0, _, _            => throw .disabled
  | fuel + 1, m, task  => do
    let (m, items) ← m.run false (results.of task) true task
    match items with
    | .thread _ next :: posted =>
      let r ← uninterrupted results fuel m next
      return { r with posted := r.posted ++ posted }
    | posted                   => return { ret := task.posts, module := m, posted }

-- There are seven steps at most: to find, bind, publish, create, post, write `operation` and remove.
def sendData (m : Module) (pSC : Option Nat) (data : Option Bytes) (length : Int) (results : Results) :
    Except Stop Sent :=
  match pSC, data with
  | some pSC, some data =>
    if length ≤ 0 ∨ length > 0x800100 then return { ret := false, module := m, posted := [] }
    else uninterrupted results 7 m (.find pSC (data.take length.toNat))
  | _, _                => return { ret := false, module := m, posted := [] }

end Module

namespace ContextHeap

variable {h h' : ContextHeap} {pSC pIC q : Nat} {sc : SocketContext} {bufSize k : Int}
  {set : IOCPContext → IOCPContext}

def Registered (h : ContextHeap) (pSC pIC : Nat) : Prop :=
  ∃ k, h.Files pSC k pIC

theorem setContext_total {c : IOCPContext} (hc : h.contexts.block pIC = some c) (c' : IOCPContext) :
    ∃ h', h.setContext pIC c' = .ok h' := by
  obtain ⟨contexts, hw⟩ := Memory.write_of_block (x := c') hc
  exact ⟨_, setContext_ok.mpr ⟨contexts, hw, rfl⟩⟩

theorem createIOCPContext_total (hsc : h.socketContexts.block pSC = some sc) (pos : 0 < bufSize) :
    ∃ r, h.createIOCPContext pSC bufSize set = .ok r := by
  obtain ⟨c, _, he⟩ := sc.createIOCPContext_eq (m := h.contexts) pos
  obtain ⟨socketContexts, hw⟩ := Memory.write_of_block (x := filed sc h.contexts.newAddress) hsc
  have hb := h.contexts.alloc_self { c with contextIndex := sc.count }
  obtain ⟨contexts, hw'⟩ := Memory.write_of_block (x := set { c with contextIndex := sc.count }) hb
  refine ⟨({ contexts, socketContexts }, h.contexts.newAddress), ?_⟩
  simp only [createIOCPContext, bind_ok, pure_ok, socketContext_ok, context_ok, setContext_ok,
    setSocketContext_ok, need_ok]
  exact ⟨sc, hsc, _, he, _, ⟨_, hw, rfl⟩, _, hb, _, ⟨_, hw', rfl⟩, rfl⟩

theorem createIOCPContext_exit (hsc : h.socketContexts.block pSC = some sc) (neg : ¬0 < bufSize) :
    h.createIOCPContext pSC bufSize set = .error .exit := by
  simp [createIOCPContext, socketContext, hsc, need, SocketContext.createIOCPContext, IOCPContext.new, neg,
    bind, Except.bind]

theorem Filed.removeIOCPContext_total (hf : h.Filed) (hsc : h.socketContexts.block pSC = some sc) (k : Int) :
    ∃ h', h.removeIOCPContext pSC k = .ok h' := by
  obtain ⟨contexts, sc', removed, hr⟩ : ∃ contexts sc' removed,
      sc.removeIOCPContext h.contexts k = some (contexts, sc', removed) := by
    cases hk : sc.iocpContextMap[k]?
    case none   => exact ⟨_, _, _, SocketContext.removeIOCPContext_absent hk⟩
    case some p =>
      obtain ⟨c, hc, _⟩ := hf.live ⟨sc, hsc, hk⟩
      obtain ⟨contexts, hm⟩ := Memory.free_of_block hc
      exact ⟨_, _, _, SocketContext.removeIOCPContext_present hk hm⟩
  obtain ⟨socketContexts, hw⟩ := Memory.write_of_block (x := sc') hsc
  refine ⟨{ contexts, socketContexts }, ?_⟩
  simp only [ContextHeap.removeIOCPContext, bind_ok, socketContext_ok, need_ok, setSocketContext_ok]
  exact ⟨sc, hsc, _, hr, _, hw, rfl⟩

-- What is still registered is not deleted.
theorem Filed.removeIOCPContext_kept {p : Nat} (hf : h.Filed) (hr : h.removeIOCPContext pSC k = .ok h')
    (hq : h'.Registered p q) : h'.contexts.block q = h.contexts.block q := by
  obtain ⟨_, hq⟩ := hq
  obtain ⟨c, hc, _⟩ := (hf.removeIOCPContext hr).live hq
  obtain ⟨_, _, _, hb, _⟩ := removeIOCPContext_ok hr
  rw [hb] at hc ⊢
  split at hc
  case isTrue     => cases hc
  case isFalse hn => rw [if_neg hn]

end ContextHeap

namespace Module

variable {m m' : Module} {pSC pIC q : Nat} {sc : SocketContext} {data : Bytes} {results : Results}
  {s s' : State} {r : Sent}

-- A context that is new among those of the connection, and made for a send.
structure NewSend (h h' : ContextHeap) (pSC pIC : Nat) : Prop where
  registered : h'.Registered pSC pIC
  new        : ¬h.Registered pSC pIC
  operation  : ∃ c, h'.contexts.block pIC = some c ∧ c.operation = .send

section Uninterrupted

variable {task next : Task} {posted : List Item} {worker : Bool} {fuel : Nat}

theorem uninterrupted_next
    (h : m.run false (results.of task) true task = .ok (m', .thread worker next :: posted))
    (hr : uninterrupted results fuel m' next = .ok r) :
    uninterrupted results (fuel + 1) m task = .ok { r with posted := r.posted ++ posted } := by
  rw [uninterrupted, h]
  exact bind_ok.mpr ⟨_, rfl, bind_ok.mpr ⟨r, hr, rfl⟩⟩

theorem uninterrupted_last (h : m.run false (results.of task) true task = .ok (m', posted))
    (hp : ∀ item ∈ posted, ∃ kind p q, item = .operation kind p q) :
    uninterrupted results (fuel + 1) m task = .ok { ret := task.posts, module := m', posted } := by
  rw [uninterrupted, h]
  cases posted
  case nil              => rfl
  case cons item posted =>
    obtain ⟨_, _, _, rfl⟩ := hp _ List.mem_cons_self
    rfl

end Uninterrupted

section Transmit

-- The send context is registered, and its send is posted.
theorem create_total (hsc : m.socketContexts.block pSC = some sc) (hpos : 0 < data.length) :
    ∃ m', m.create pSC data = .ok (m', [.thread false (.postSend pSC m.contexts.newAddress)]) := by
  have hc : ∃ r, m.createIOCPContext pSC data.length (fun c => c.setSend sc.socket data) = .ok r :=
    ContextHeap.createIOCPContext_total hsc (by omega)
  obtain ⟨⟨heap, pContext⟩, hc⟩ := hc
  obtain ⟨_, _, _, _, rfl, _⟩ := ContextHeap.createIOCPContext_ok hc
  refine ⟨{ m with toContextHeap := heap }, ?_⟩
  simp only [create, bind_ok, ContextHeap.socketContext_ok]
  exact ⟨sc, hsc, _, hc, rfl⟩

-- What the creation of the send context leaves.
structure Created (m m' : Module) (pSC pIC : Nat) : Prop where
  map   : m'.socketContextMap = m.socketContextMap
  keys  : m'.keys = m.keys
  filed : m'.Filed
  files : ∀ q k, m'.Files pSC k q ↔
    m.Files pSC k q ∨ q = pIC ∧ ∃ sc, m.socketContexts.block pSC = some sc ∧ k = sc.count + 1
  live  : ∃ sc, m'.socketContexts.block pSC = some sc
  kept  : ∀ q, q ≠ pIC → m'.contexts.block q = m.contexts.block q
  send  : ∃ c sc, m'.contexts.block pIC = some c ∧ m.socketContexts.block pSC = some sc ∧
    c.socket = sc.socket ∧ c.contextIndex = sc.count ∧ c.operation = .send

theorem created {new : List Item} (hf : m.Filed) (hl : pSC ≠ listening)
    (h : m.create pSC data = .ok (m', new)) : Created m m' pSC m.contexts.newAddress := by
  obtain ⟨sc, heap, pContext, hsc, hc, rfl, _⟩ := create_ok h
  have hf' := hf.createIOCPContext hc (by simp [IOCPContext.setSend, hl])
  have hfiles {q k} := hf.files_createIOCPContext (p := pSC) (k := k) (a := q) hc
  obtain ⟨sc', c, hsc', hindex, rfl, hb, _, hb', _⟩ := ContextHeap.createIOCPContext_ok hc
  cases hsc.symm.trans hsc'
  constructor
  case map   => rfl
  case keys  => rfl
  case filed => exact hf'
  case files => exact fun q k => hfiles.trans (by simp)
  case live  => exact ⟨_, by rw [hb', Function.update_self]⟩
  case kept  => exact fun q hq => by rw [hb, Function.update_of_ne hq]
  case send  =>
    exact ⟨c.setSend sc.socket data, sc, by rw [hb, Function.update_self], hsc, rfl, hindex.contextIndex, rfl⟩

-- Posting the send changes nothing of this, nor does what is written then.
theorem Created.postSend (hc : Created m m' pSC pIC) (hsc : m.socketContexts.block pSC = some sc)
    (hkey : sc.socket.bind m.keys = some pSC) (sent : Bool) :
    m'.postSend pSC pIC sent = .ok (m', .thread false (.sent pSC pIC sent) ::
      if sent then [.operation .send pSC pIC] else []) := by
  obtain ⟨c, sc', hb, hsc', hsocket, _⟩ := hc.send
  cases hsc.symm.trans hsc'
  have hp : posted m'.keys c.socket .send pIC = [.operation .send pSC pIC] :=
    posted_of_key (by rw [hsocket, hc.keys, hkey])
  simp only [Module.postSend, bind_ok, ContextHeap.context_ok]
  exact ⟨c, hb, by rw [hp]; rfl⟩

theorem Created.sent (hc : Created m m' pSC pIC) (sent : Bool) :
    m'.sent pSC pIC sent = .ok (m', if sent then [] else [.thread false (.removeIOCPContext pSC pIC)]) := by
  obtain ⟨c, _, hb, _, _, _, ho⟩ := hc.send
  have hset : m'.setOperation pIC = .ok m' := by
    refine setOperation_ok.mpr ⟨c, _, hb, ContextHeap.setContext_ok.mpr ⟨_, ?_, rfl⟩, rfl⟩
    rw [← ho]
    exact Memory.write_block hb
  exact bind_ok.mpr ⟨m', hset, rfl⟩

-- What the steps from the creation of the send context on leave. After a failure the index of that
-- context removes the one before it.
structure Transmitted (m : Module) (pSC : Nat) (sent : Bool) (r : Sent) : Prop where
  ret    : r.ret = sent
  map    : r.module.socketContextMap = m.socketContextMap
  posted : r.posted = if sent then [.operation .send pSC m.contexts.newAddress] else []
  filed  : r.module.Registered pSC m.contexts.newAddress
  kept   : ∀ q, q ≠ m.contexts.newAddress → r.module.Registered pSC q →
    m.Registered pSC q ∧ r.module.contexts.block q = m.contexts.block q
  send   : ∃ c, r.module.contexts.block m.contexts.newAddress = some c ∧ c.operation = .send

theorem Created.registered (hc : Created m m' pSC pIC) (hq : q ≠ pIC) (h : m'.Registered pSC q) :
    m.Registered pSC q :=
  have ⟨k, h⟩ := h
  ⟨k, ((hc.files q k).mp h).resolve_right fun h => hq h.left⟩

theorem Created.remove (hc : Created m m' pSC m.contexts.newAddress) (results : Results) (fuel : Nat) :
    ∃ r, uninterrupted results (fuel + 1) m' (.removeIOCPContext pSC m.contexts.newAddress) = .ok r ∧
      Transmitted m pSC false r := by
  obtain ⟨c, sc, hb, hsc, _, hindex, ho⟩ := hc.send
  obtain ⟨sc', hsc'⟩ := hc.live
  obtain ⟨heap, hr⟩ := hc.filed.removeIOCPContext_total hsc' c.contextIndex
  have hrun : m'.run false (results.of (.removeIOCPContext pSC m.contexts.newAddress)) true
      (.removeIOCPContext pSC m.contexts.newAddress) = .ok ({ m' with toContextHeap := heap }, []) := by
    simp only [run, Module.remove, bind_ok, ContextHeap.context_ok]
    exact ⟨c, hb, heap, hr, rfl⟩
  have hfiles {p k a} := ContextHeap.Filed.files_removeIOCPContext (p := p) (k := k) (a := a) hr
  have hreg : heap.Registered pSC m.contexts.newAddress := by
    refine ⟨_, hfiles.mpr ⟨(hc.files _ _).mpr (.inr ⟨rfl, sc, hsc, rfl⟩), ?_⟩⟩
    omega
  refine ⟨_, uninterrupted_last hrun (List.forall_mem_nil _), ?_⟩
  constructor
  case ret    => rfl
  case map    => exact hc.map
  case posted => rfl
  case filed  => exact hreg
  case kept   =>
    intro q hq hq'
    have hkept := hc.filed.removeIOCPContext_kept hr hq'
    obtain ⟨k, hk⟩ := hq'
    exact ⟨hc.registered hq ⟨k, (hfiles.mp hk).left⟩, hkept.trans (hc.kept q hq)⟩
  case send   => exact ⟨c, (hc.filed.removeIOCPContext_kept hr hreg).trans hb, ho⟩

theorem transmitted (results : Results) (fuel : Nat) (hf : m.Filed) (hl : pSC ≠ listening)
    (hsc : m.socketContexts.block pSC = some sc) (hkey : sc.socket.bind m.keys = some pSC)
    (hpos : 0 < data.length) :
    ∃ r, uninterrupted results (fuel + 4) m (.create pSC data) = .ok r ∧
      Transmitted m pSC results.sent r := by
  obtain ⟨m₁, hcreate⟩ := create_total (m := m) hsc hpos
  have hc := created hf hl hcreate
  have hpost : m₁.run false (results.of (.postSend pSC m.contexts.newAddress)) true
      (.postSend pSC m.contexts.newAddress) = _ := hc.postSend hsc hkey results.sent
  have hsent : m₁.run false (results.of (.sent pSC m.contexts.newAddress results.sent)) true
      (.sent pSC m.contexts.newAddress results.sent) = _ := hc.sent results.sent
  cases hs : results.sent
  case true =>
    rw [hs, if_pos rfl] at hpost hsent
    refine ⟨_, uninterrupted_next hcreate (uninterrupted_next hpost
      (uninterrupted_last hsent (List.forall_mem_nil _))), ?_⟩
    obtain ⟨c, sc', hb, hsc', _, _, ho⟩ := hc.send
    constructor
    case ret    => rfl
    case map    => exact hc.map
    case posted => rfl
    case filed  => exact ⟨_, (hc.files _ _).mpr (.inr ⟨rfl, sc, hsc, rfl⟩)⟩
    case kept   => exact fun q hq hq' => ⟨hc.registered hq hq', hc.kept q hq⟩
    case send   => exact ⟨c, hb, ho⟩
  case false =>
    rw [hs, if_neg Bool.false_ne_true] at hpost hsent
    obtain ⟨r, hr, ht⟩ := hc.remove results fuel
    refine ⟨_, uninterrupted_next hcreate (uninterrupted_next hpost (uninterrupted_next hsent hr)), ?_⟩
    simp only [List.append_nil]
    exact ht

end Transmit

section Open

-- Whether `CreateIoCompletionPort` can bind the connection.
def Bindable (m : Module) (pSC : Nat) : Prop :=
  ∃ sc keys, m.socketContexts.block pSC = some sc ∧ m.bind sc.socket pSC = some keys

-- What the steps before the creation of the send context leave of a connection that was not in the map.
structure Opened (m m' : Module) (pSC : Nat) : Prop where
  member : m'.socketContextMap[pSC]? ≠ none
  filed  : m'.Filed
  le     : m.contexts.newAddress ≤ m'.contexts.newAddress
  live   : ∃ sc, m'.socketContexts.block pSC = some sc ∧ sc.socket.bind m'.keys = some pSC
  recv   : ∀ q, m'.Registered pSC q →
    m.Registered pSC q ∨ ∃ c, m'.contexts.block q = some c ∧ c.operation = .recv

theorem bindSocket_fails {bound : Bool} (hsc : m.socketContexts.block pSC = some sc)
    (h : ¬(bound = true ∧ m.Bindable pSC)) : m.bindSocket pSC data bound = .ok (m, []) := by
  have hn : (if bound then m.bind sc.socket pSC else none) = none := by
    cases bound
    case false => rfl
    case true  =>
      cases hb : m.bind sc.socket pSC
      case none      => simp
      case some keys => exact absurd ⟨rfl, sc, keys, hsc, hb⟩ h
  simp only [bindSocket, bind_ok, ContextHeap.socketContext_ok]
  exact ⟨sc, hsc, by rw [hn]; rfl⟩

theorem bindSocket_eq {keys : Socket → Option Nat} (hsc : m.socketContexts.block pSC = some sc)
    (hb : m.bind sc.socket pSC = some keys) :
    m.bindSocket pSC data true = (do
      let (heap, pContext) ← m.createIOCPContext pSC m.bufferSize fun c =>
        { c with socket := sc.socket, operation := .recv }
      return ({ m with toContextHeap := heap, keys }, [.thread false (.publish pSC pContext data)])) := by
  have hsc' : m.socketContext pSC = .ok sc := ContextHeap.socketContext_ok.mpr hsc
  rw [bindSocket, hsc']
  simp only [Bind.bind, Except.bind, if_true, hb]

theorem bindSocket_exit (h : m.Bindable pSC) (neg : ¬0 < m.bufferSize) :
    m.bindSocket pSC data true = .error .exit := by
  obtain ⟨sc, keys, hsc, hb⟩ := h
  rw [bindSocket_eq hsc hb, ContextHeap.createIOCPContext_exit hsc neg]
  rfl

theorem bindSocket_total (h : m.Bindable pSC) (pos : 0 < m.bufferSize) (data : Bytes) :
    ∃ m' pIC, m.bindSocket pSC data true = .ok (m', [.thread false (.publish pSC pIC data)]) := by
  obtain ⟨sc, keys, hsc, hb⟩ := h
  have hc : ∃ r, m.createIOCPContext pSC m.bufferSize
      (fun c => { c with socket := sc.socket, operation := .recv }) = .ok r :=
    ContextHeap.createIOCPContext_total hsc pos
  obtain ⟨⟨heap, pContext⟩, hc⟩ := hc
  exact ⟨_, pContext, by rw [bindSocket_eq hsc hb, hc]; rfl⟩

theorem publish_total {c : IOCPContext} (hf : m.Filed) (hlock : m.lock = .free)
    (hsc : m.socketContexts.block pSC = some sc) (hc : m.contexts.block pIC = some c)
    (ho : c.operation = .recv) (received : Bool) : ∃ r, m.publish pSC pIC data received = .ok r := by
  obtain ⟨heap, hset⟩ := ContextHeap.setContext_total hc { c.resetBuffer with operation := .recv }
  have hf' := hf.setContext hset fun c' hc' => by
    cases hc.symm.trans hc'
    simp [ho]
  have hsc' : heap.socketContexts.block pSC = some sc := by
    obtain ⟨_, _, rfl⟩ := ContextHeap.setContext_ok.mp hset
    exact hsc
  obtain ⟨heap', hr⟩ := hf'.removeIOCPContext_total hsc' c.contextIndex
  obtain ⟨_, sc', _, _, _, hb, _⟩ := ContextHeap.removeIOCPContext_ok hr
  have hsc'' : heap'.socketContexts.block pSC = some sc' := by rw [hb, Function.update_self]
  cases received
  case true  =>
    refine ⟨_, bind_ok.mpr ⟨(), unlocked_ok.mpr hlock, bind_ok.mpr ⟨c, ContextHeap.context_ok.mpr hc,
      bind_ok.mpr ⟨heap, hset, bind_ok.mpr ⟨heap, rfl, bind_ok.mpr ⟨sc, ?_, rfl⟩⟩⟩⟩⟩⟩
    exact ContextHeap.socketContext_ok.mpr hsc'
  case false =>
    refine ⟨_, bind_ok.mpr ⟨(), unlocked_ok.mpr hlock, bind_ok.mpr ⟨c, ContextHeap.context_ok.mpr hc,
      bind_ok.mpr ⟨heap, hset, bind_ok.mpr ⟨heap', hr, bind_ok.mpr ⟨sc', ?_, rfl⟩⟩⟩⟩⟩⟩
    exact ContextHeap.socketContext_ok.mpr hsc''

-- A connection that is bound has a receive context.
structure Bound (m m' : Module) (pSC pIC : Nat) : Prop where
  filed : m'.Filed
  lock  : m'.lock = m.lock
  le    : m.contexts.newAddress ≤ m'.contexts.newAddress
  files : ∀ q, m'.Registered pSC q → m.Registered pSC q ∨ q = pIC
  recv  : ∃ sc c, m'.socketContexts.block pSC = some sc ∧ m'.contexts.block pIC = some c ∧
    c.operation = .recv ∧ c.socket = sc.socket ∧ sc.socket.bind m'.keys = some pSC

theorem bound (hf : m.Filed) (hl : pSC ≠ listening)
    (h : m.bindSocket pSC data true = .ok (m', [.thread false (.publish pSC pIC data)])) :
    Bound m m' pSC pIC := by
  rcases bindSocket_ok h with ⟨_, hn⟩ | ⟨k, sc, heap, pContext, hsc, hk, _, hc, rfl, hnew⟩
  · cases hn
  · cases hnew
    have hf' := hf.createIOCPContext hc (by simp [hl])
    have hfiles {q k} := hf.files_createIOCPContext (p := pSC) (k := k) (a := q) hc
    obtain ⟨sc', c, hsc', _, rfl, hb, hn, hb', _⟩ := ContextHeap.createIOCPContext_ok hc
    cases hsc.symm.trans hsc'
    constructor
    case filed => exact hf'
    case lock  => rfl
    case le    => exact Nat.le_of_lt (Nat.lt_of_succ_le (Nat.le_of_eq hn.symm))
    case files => exact fun q ⟨k, hq⟩ => (hfiles.mp hq).imp (fun h => ⟨k, h⟩) fun h => h.right.left
    case recv  =>
      exact ⟨ContextHeap.filed sc m.contexts.newAddress, { c with socket := sc.socket, operation := .recv },
        by rw [hb', Function.update_self], by rw [hb, Function.update_self], rfl, rfl, by simp [ContextHeap.filed, hk]⟩

-- The connection comes into the map, whatever becomes of the receive.
theorem Bound.publish (hb : Bound m m' pSC pIC) (hlock : m.lock = .free) (data : Bytes)
    (received : Bool) :
    ∃ m'', m'.publish pSC pIC data received = .ok (m'', .thread false (.create pSC data) ::
        if received then [.operation .recv pSC pIC] else []) ∧ Opened m m'' pSC := by
  obtain ⟨sc, c, hsc, hc, ho, hs, hkey⟩ := hb.recv
  have ht : ∃ r, m'.publish pSC pIC data received = .ok r :=
    publish_total hb.filed (hb.lock.trans hlock) hsc hc ho received
  obtain ⟨⟨m'', new⟩, hp⟩ := ht
  obtain ⟨c', sc₂, heap, heap', hc', hset, hr, hsc₂, rfl, rfl⟩ := publish_ok hp
  cases hc.symm.trans hc'
  rw [posted_of_key (by rw [hs, hkey])] at hp
  refine ⟨_, hp, ?_⟩
  have hf := hb.filed.setContext hset fun c₁ hc₁ => by
    cases hc.symm.trans hc₁
    simp [ho]
  obtain ⟨contexts, hw, rfl⟩ := ContextHeap.setContext_ok.mp hset
  obtain ⟨hwb, hwn, _⟩ := Memory.write_eq_some hw
  have hmember : (m'.socketContextMap.insertIfNew pSC sc₂.socket)[pSC]? ≠ none := by
    rw [member_iff]
    simp
  have hself : contexts.block pIC = some { c.resetBuffer with operation := .recv } := by
    rw [hwb, Function.update_self]
  cases hr
  case inl hr =>
    obtain ⟨_, rfl⟩ := hr
    cases hsc.symm.trans hsc₂
    constructor
    case member => exact hmember
    case filed  => exact hf
    case le     => exact hwn ▸ hb.le
    case live   => exact ⟨sc, hsc, hkey⟩
    case recv   =>
      refine fun q hq => (hb.files q hq).imp_right fun h => ?_
      exact ⟨_, h ▸ hself, rfl⟩
  case inr hr =>
    obtain ⟨_, hr⟩ := hr
    have hkept {q : Nat} := hf.removeIOCPContext_kept (p := pSC) (q := q) hr
    obtain ⟨sc₁, sc', hsc₁, _, hn, hb', _, hs', _⟩ := ContextHeap.removeIOCPContext_ok hr
    cases hsc.symm.trans hsc₁
    have hfiles {p k a} := ContextHeap.Filed.files_removeIOCPContext (p := p) (k := k) (a := a) hr
    constructor
    case member => exact hmember
    case filed  => exact hf.removeIOCPContext hr
    case le     => exact (hn.trans hwn) ▸ hb.le
    case live   => exact ⟨sc', by rw [hb', Function.update_self], by rw [hs']; exact hkey⟩
    case recv   =>
      intro q hq
      have hq' : m'.Registered pSC q := hq.imp fun _ h => (hfiles.mp h).left
      refine (hb.files q hq').imp_right fun h => ?_
      subst h
      exact ⟨_, (hkept hq).trans hself, rfl⟩

end Open

section Result

-- Only the send context is new, and made for a send.
theorem Transmitted.newSend {h : ContextHeap} {sent : Bool} (ht : Transmitted m pSC sent r)
    (hf : h.Filed) (hle : h.contexts.newAddress ≤ m.contexts.newAddress)
    (hrecv : ∀ q, m.Registered pSC q →
      h.Registered pSC q ∨ ∃ c, m.contexts.block q = some c ∧ c.operation = .recv) (q : Nat) :
    NewSend h r.module.toContextHeap pSC q ↔ q = m.contexts.newAddress := by
  constructor
  case mp =>
    intro hn
    by_contra hq
    obtain ⟨hreg, hkept⟩ := ht.kept q hq hn.registered
    obtain ⟨c, hc, ho⟩ := hn.operation
    rw [hkept] at hc
    cases hrecv q hreg
    case inl hreg => exact hn.new hreg
    case inr hr   =>
      obtain ⟨c', hc', ho'⟩ := hr
      cases hc.symm.trans hc'
      simp [ho] at ho'
  case mpr =>
    intro hq
    subst hq
    refine ⟨ht.filed, fun ⟨k, hk⟩ => ?_, ht.send⟩
    obtain ⟨c, hc, _⟩ := hf.live hk
    have := Memory.lt_newAddress hc
    omega

end Result

end Module

namespace State

variable {s : State} {pSC : Option Nat} {p : Nat} {r : Sent} {data : Option Bytes} {d : Bytes}
  {length : Int} {results : Results} {bufferSize : Int} {maxThreadNum threads standby : Nat}
  {actions : List Action}

def Receiving (items : List Item) (pSC : Nat) : Prop :=
  ∃ pIC, .operation .recv pSC pIC ∈ items

-- What a call that failed leaves as it was.
structure Untouched (s : State) (pSC : Option Nat) (r : Sent) : Prop where
  map        : r.module.socketContextMap = s.socketContextMap
  registered : ∀ p ∈ pSC, ∀ q, r.module.Registered p q ↔ s.Registered p q
  posted     : r.posted = []

-- What a call that succeeded did.
structure Done (s : State) (pSC : Nat) (r : Sent) : Prop where
  member    : r.module.socketContextMap[pSC]? ≠ none
  receiving : Receiving (r.posted ++ s.items) pSC
  send      : ∃ pIC, (∀ q, Module.NewSend s.toContextHeap r.module.toContextHeap pSC q ↔ q = pIC) ∧
    r.posted.filter (fun | .operation .send _ _ => true | _ => false) = [.operation .send pSC pIC]

def Honest (s : State) (pSC : Option Nat) (r : Sent) : Prop :=
  if r.ret then ∃ p ∈ pSC, Done s p r else Untouched s pSC r

-- When the call does what its result says: its arguments are invalid, or it cannot bind a connection
-- that is not in the map, or it posts the send and the connection has a receive.
def Posts (s : State) (results : Results) (p : Nat) : Prop :=
  (s.socketContextMap[p]? = none ∧ ¬(results.bound = true ∧ s.Bindable p)) ∨
    results.sent = true ∧
      (Receiving s.items p ∨ s.socketContextMap[p]? = none ∧ results.received = true)

theorem filed_reached
    (h : Runs.run step (start bufferSize maxThreadNum threads standby) actions = .ok s) :
    s.Valid ∧ s.Filed :=
  invariant (I := fun s => s.Valid ∧ s.Filed) ⟨.start, filed_start⟩ along_true
    (fun _ _ _ hi _ h => ⟨hi.left.step h, filed_step hi.left hi.right h⟩) h

theorem honest_transmitted {m : Module} {posted : List Item} (hf : s.Filed)
    (ht : Module.Transmitted m p results.sent r)
    (hle : s.contexts.newAddress ≤ m.contexts.newAddress)
    (hrecv : ∀ q, m.Registered p q →
      s.Registered p q ∨ ∃ c, m.contexts.block q = some c ∧ c.operation = .recv)
    (hm : m.socketContextMap[p]? ≠ none)
    (hp : posted = [] ∨ ∃ q, posted = [.operation .recv p q]) :
    Honest s (some p) { r with posted := r.posted ++ posted } ↔
      results.sent = true ∧ Receiving (posted ++ s.items) p := by
  have hsend := ht.newSend hf hle hrecv
  have hposted := ht.posted
  simp only [Honest, ht.ret]
  cases hs : results.sent
  case false =>
    have hn := (hsend m.contexts.newAddress).mpr rfl
    simp only [Bool.false_eq_true, if_false, false_and, iff_false]
    exact fun hu => hn.new ((hu.registered p rfl _).mp hn.registered)
  case true =>
    rw [hs, if_pos rfl] at hposted
    simp only [if_true, true_and, Option.mem_some_iff, exists_eq_left']
    constructor
    case mp =>
      intro hd
      obtain ⟨q, hq⟩ := hd.receiving
      exact ⟨q, by simpa [hposted] using hq⟩
    case mpr =>
      intro ⟨q, hq⟩
      constructor
      case member    => exact ht.map ▸ hm
      case receiving => exact ⟨q, by simpa [hposted] using hq⟩
      case send      =>
        refine ⟨_, hsend, ?_⟩
        rcases hp with rfl | ⟨q, rfl⟩
        · simp [hposted]
        · simp [hposted]

theorem honest_rejected : Honest s pSC { ret := false, module := s.toModule, posted := [] } :=
  ⟨rfl, fun _ _ _ => Iff.rfl, rfl⟩

theorem find_member (hlock : s.lock = .free) (hm : s.socketContextMap[p]? ≠ none) :
    s.run false (results.of (.find p d)) true (.find p d) =
      .ok (s.toModule, [.thread false (.create p d)]) := by
  obtain ⟨value, hvalue⟩ := Option.ne_none_iff_exists'.mp hm
  refine bind_ok.mpr ⟨(), Module.unlocked_ok.mpr hlock, ?_⟩
  rw [hvalue]
  rfl

theorem find_fresh (hlock : s.lock = .free) (hm : s.socketContextMap[p]? = none) :
    s.run false (results.of (.find p d)) true (.find p d) =
      .ok (s.toModule, [.thread false (.bind p d)]) := by
  refine bind_ok.mpr ⟨(), Module.unlocked_ok.mpr hlock, ?_⟩
  rw [hm]
  rfl

-- A call for a connection that is in the map.
theorem member_spec (results : Results) (hv : s.Valid) (hf : s.Filed) (hlock : s.lock = .free)
    (hm : s.socketContextMap[p]? ≠ none) (hlive : s.socketContexts.block p ≠ none) (hd : 0 < d.length) :
    ∃ r, Module.uninterrupted results 7 s.toModule (.find p d) = .ok r ∧
      (Honest s (some p) r ↔ results.sent = true ∧ Receiving s.items p) := by
  obtain ⟨sc, hsc⟩ := Option.ne_none_iff_exists'.mp hlive
  obtain ⟨⟨k, hk⟩, hl⟩ := hv.bound p hm
  have hs := hv.wired.socket hk hsc
  obtain ⟨r, hr, ht⟩ := Module.transmitted results 2 hf hl hsc (by rw [hs]; exact hk) hd
  refine ⟨_, Module.uninterrupted_next (find_member hlock hm) hr, ?_⟩
  exact honest_transmitted hf ht (Nat.le_refl _) (fun q hq => .inl hq) hm (.inl rfl)

-- A call for a connection that is not in the map and can be bound.
theorem bindable_spec (results : Results) (hv : s.Valid) (hf : s.Filed) (hlock : s.lock = .free)
    (hm : s.socketContextMap[p]? = none) (hb : s.Bindable p) (hbound : results.bound = true)
    (pos : 0 < s.bufferSize) (hd : 0 < d.length) :
    ∃ r, Module.uninterrupted results 7 s.toModule (.find p d) = .ok r ∧
      (Honest s (some p) r ↔
        results.sent = true ∧ (Receiving s.items p ∨ results.received = true)) := by
  have hl : p ≠ listening := by
    rintro rfl
    obtain ⟨sc, keys, hsc, hbind⟩ := hb
    obtain ⟨k, hk, _, hn, _⟩ := Module.bind_eq_some hbind
    have hs := hv.wired.socket hv.wired.listen hsc
    cases hk.symm.trans hs
    simp [hv.wired.listen] at hn
  obtain ⟨m₁, pIC, hbind⟩ := Module.bindSocket_total hb pos d
  obtain ⟨m₂, hpublish, ho⟩ := (Module.bound hf hl hbind).publish hlock d results.received
  obtain ⟨sc, hsc, hkey⟩ := ho.live
  obtain ⟨r, hr, ht⟩ := Module.transmitted results 0 ho.filed hl hsc hkey hd
  rw [← hbound] at hbind
  refine ⟨_, Module.uninterrupted_next (find_fresh hlock hm) (Module.uninterrupted_next hbind
    (Module.uninterrupted_next hpublish hr)), ?_⟩
  simp only [List.append_nil]
  refine (honest_transmitted hf ht ho.le ho.recv ho.member ?_).trans (and_congr_right fun _ => ?_)
  · cases results.received
    case true  => exact .inr ⟨pIC, rfl⟩
    case false => exact .inl rfl
  · cases results.received
    case true  => simp [Receiving]
    case false => simp

-- A call for a connection that cannot be bound.
theorem unbindable_eq (hlock : s.lock = .free) (hm : s.socketContextMap[p]? = none)
    (hlive : s.socketContexts.block p ≠ none) (hb : ¬(results.bound = true ∧ s.Bindable p)) :
    Module.uninterrupted results 7 s.toModule (.find p d) =
      .ok { ret := false, module := s.toModule, posted := [] } := by
  obtain ⟨sc, hsc⟩ := Option.ne_none_iff_exists'.mp hlive
  have hbind : s.run false (results.of (.bind p d)) true (.bind p d) = .ok (s.toModule, []) :=
    Module.bindSocket_fails hsc hb
  exact Module.uninterrupted_next (find_fresh hlock hm)
    (Module.uninterrupted_last hbind (List.forall_mem_nil _))

-- A buffer size that is not positive ends the program.
theorem bindable_exit (hlock : s.lock = .free) (hm : s.socketContextMap[p]? = none)
    (hb : s.Bindable p) (hbound : results.bound = true) (neg : ¬0 < s.bufferSize) :
    Module.uninterrupted results 7 s.toModule (.find p d) = .error .exit := by
  have hbind : s.run false (results.of (.bind p d)) true (.bind p d) = .error .exit := by
    rw [Results.of, hbound]
    exact Module.bindSocket_exit hb neg
  rw [Module.uninterrupted, find_fresh hlock hm]
  simp only [Bind.bind, Except.bind, Module.uninterrupted, hbind]

theorem call_spec (results : Results) (hv : s.Valid) (hf : s.Filed) (hlock : s.lock = .free)
    (hlive : s.socketContexts.block p ≠ none) (hd : 0 < d.length) :
    match Module.uninterrupted results 7 s.toModule (.find p d) with
    | .ok r    => Honest s (some p) r ↔ Posts s results p
    | .error e => e = .exit ∧ s.bufferSize ≤ 0 := by
  by_cases hm : s.socketContextMap[p]? = none
  case neg =>
    obtain ⟨r, hr, hiff⟩ := member_spec results hv hf hlock hm hlive hd
    rw [hr]
    simp only [hiff, Posts, hm, false_and, false_or, or_false]
  case pos =>
    by_cases hb : results.bound = true ∧ s.Bindable p
    case neg =>
      rw [unbindable_eq hlock hm hlive hb]
      exact iff_of_true honest_rejected (.inl ⟨hm, hb⟩)
    case pos =>
      by_cases pos : 0 < s.bufferSize
      case pos =>
        obtain ⟨r, hr, hiff⟩ := bindable_spec results hv hf hlock hm hb.right hb.left pos hd
        rw [hr]
        simp only [hiff, Posts, hm, hb, not_true_eq_false, and_false, false_or, true_and, and_self]
      case neg =>
        rw [bindable_exit hlock hm hb.right hb.left pos]
        exact ⟨rfl, Int.not_lt.mp pos⟩

-- A call in a reachable state does what its result says just in case it posts what it should.
theorem sendData_honest_iff (pSC : Option Nat) (data : Option Bytes) (length : Int) (results : Results)
    (h : Runs.run step (start bufferSize maxThreadNum threads standby) actions = .ok s)
    (hlock : s.lock = .free) (hlive : ∀ p ∈ pSC, s.socketContexts.block p ≠ none)
    (hd : ∀ d ∈ data, length ≤ d.length) :
    match s.toModule.sendData pSC data length results with
    | .ok r    => Honest s pSC r ↔
      ∀ p ∈ pSC, data ≠ none → 0 < length → length ≤ 0x800100 → Posts s results p
    | .error e => e = .exit ∧ s.bufferSize ≤ 0 := by
  obtain ⟨hv, hf⟩ := filed_reached h
  cases pSC
  case none   => exact iff_of_true honest_rejected nofun
  case some p =>
    cases data
    case none   => exact iff_of_true honest_rejected fun _ _ hn => absurd rfl hn
    case some d =>
      have hl := hd d rfl
      by_cases hlen : length ≤ 0 ∨ length > 0x800100
      case pos =>
        simp only [Module.sendData, hlen, if_true]
        refine iff_of_true honest_rejected fun _ _ _ hpos hle => ?_
        omega
      case neg =>
        have hpos : 0 < (d.take length.toNat).length := by
          rw [List.length_take]
          omega
        have hs := call_spec results hv hf hlock (hlive p rfl) hpos
        simp only [Module.sendData, hlen, if_false]
        split
        case h_1 r hr =>
          rw [hr] at hs
          refine hs.trans ⟨fun hp q hq _ _ _ => ?_, fun hp => hp p rfl nofun (by omega) (by omega)⟩
          cases hq
          exact hp
        case h_2 e he =>
          rw [he] at hs
          exact hs

-- A connection that `createConnectContext` made, before anything is sent on it.
def connected : List Action :=
  [.initIOCP true true, .initIOCP true true, .createConnectContext true]

theorem run_connected :
    ∃ s, Runs.run step (start 8192 1 1 1) connected = .ok s ∧ s.lock = .free ∧ s.bufferSize = 8192 ∧
      s.socketContextMap[2]? = none ∧ s.socketContexts.block 2 ≠ none ∧ s.Bindable 2 := by
  obtain ⟨s, h, hlock, hsize, hm, sc, hsc, hb⟩ : ∃ s, Runs.run step (start 8192 1 1 1) connected = .ok s ∧
      s.lock = .free ∧ s.bufferSize = 8192 ∧ s.socketContextMap[2]? = none ∧
      ∃ sc ∈ s.socketContexts.block 2, (s.bind sc.socket 2).isSome = true := exists_ok (by decide +kernel)
  obtain ⟨keys, hkeys⟩ := Option.isSome_iff_exists.mp hb
  exact ⟨s, h, hlock, hsize, hm, by simp [Option.mem_def.mp hsc], sc, keys, hsc, hkeys⟩

-- The first call with everything going well.
theorem sendData_honest_connected :
    ∃ s, Runs.run step (start 8192 1 1 1) connected = .ok s ∧
      ∃ r, s.toModule.sendData (some 2) (some [1]) 1 ⟨true, true, true⟩ = .ok r ∧ Honest s (some 2) r := by
  obtain ⟨s, h, hlock, hsize, hm, hlive, hb⟩ := run_connected
  have hs := sendData_honest_iff (some 2) (some [1]) 1 ⟨true, true, true⟩ h hlock
    (fun p hp => Option.some.inj hp ▸ hlive) (fun d hd => Option.some.inj hd ▸ by decide)
  refine ⟨s, h, ?_⟩
  cases hr : s.toModule.sendData (some 2) (some [1]) 1 ⟨true, true, true⟩
  case error e =>
    rw [hr] at hs
    simp [hsize] at hs
  case ok r =>
    rw [hr] at hs
    exact ⟨r, rfl, hs.mpr fun p hp _ _ _ => .inr ⟨rfl, .inr ⟨Option.some.inj hp ▸ hm, rfl⟩⟩⟩

-- The send of the first call fails.
theorem sendData_not_honest : ¬∀ actions s pSC data length results r,
    Runs.run step (start 8192 1 1 1) actions = .ok s → s.lock = .free →
      (∀ p ∈ pSC, s.socketContexts.block p ≠ none) → (∀ d ∈ data, length ≤ (List.length d : Int)) →
      s.toModule.sendData pSC data length results = .ok r → Honest s pSC r := by
  intro hall
  obtain ⟨s, h, hlock, hsize, hm, hlive, hb⟩ := run_connected
  obtain ⟨hv, hf⟩ := filed_reached h
  have hd : 0 < ([1] : Bytes).length := by decide
  have hsize : 0 < s.bufferSize := by rw [hsize]; decide
  obtain ⟨r, hr, hiff⟩ := bindable_spec ⟨true, true, false⟩ hv hf hlock hm hb rfl hsize hd
  have := hall connected s (some 2) (some [1]) 1 ⟨true, true, false⟩ r h hlock
    (fun p hp => Option.some.inj hp ▸ hlive) (fun d hd => Option.some.inj hd ▸ by decide) hr
  exact absurd (hiff.mp this).left (by decide)

end State

end Server8
