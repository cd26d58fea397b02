import Server8.IOCP.Frame

-- What the steps come to when they succeed.

namespace Server8

open Runs

section Contexts

variable {c : IOCPContext}

-- The functions for data leave alone what a context is for.
theorem IOCPContext.doAccept_frame (buf : Bytes) (n : Int) :
    let c' := (c.doAccept buf n).context
    c'.operation = c.operation ∧ c'.socket = c.socket ∧ c'.contextIndex = c.contextIndex := by
  unfold IOCPContext.doAccept
  split
  case h_1 => exact ⟨rfl, rfl, rfl⟩
  case h_2 =>
    split
    case isTrue  => exact ⟨rfl, rfl, rfl⟩
    case isFalse => exact ⟨rfl, rfl, rfl⟩

theorem IOCPContext.carry_frame (pack : Packet) (count n : Int) :
    let c' := (c.carry pack count n).1
    c'.operation = c.operation ∧ c'.socket = c.socket ∧ c'.contextIndex = c.contextIndex := by
  unfold IOCPContext.carry
  split
  case isTrue  => exact ⟨rfl, rfl, rfl⟩
  case isFalse => exact ⟨rfl, rfl, rfl⟩

theorem IOCPContext.doRecv_frame (bufferSize : Int) (buf : Bytes) (n : Int) :
    let c' := (c.doRecv bufferSize buf n).context
    c'.operation = c.operation ∧ c'.socket = c.socket ∧ c'.contextIndex = c.contextIndex := by
  unfold IOCPContext.doRecv
  dsimp only
  split
  case isFalse => exact carry_frame ..
  case isTrue =>
    split
    case isTrue => exact ⟨rfl, rfl, rfl⟩
    case isFalse =>
      split
      case isTrue => exact ⟨rfl, rfl, rfl⟩
      case isFalse =>
        split
        case isTrue  => exact carry_frame ..
        case isFalse => exact ⟨rfl, rfl, rfl⟩

theorem IOCPContext.doSend_frame (posted : Bool) (n : Int) :
    let c' := (c.doSend posted n).1
    c'.socket = c.socket ∧ c'.contextIndex = c.contextIndex := by
  unfold IOCPContext.doSend
  dsimp only
  split
  case isTrue => exact ⟨rfl, rfl⟩
  case isFalse =>
    split
    case isTrue =>
      cases posted
      case true  => exact ⟨rfl, rfl⟩
      case false => exact ⟨rfl, rfl⟩
    case isFalse => exact ⟨rfl, rfl⟩

end Contexts

namespace Module

variable {m m' : Module} {new : List Item} {kind : Kind} {pSC pIC : Nat} {p : Completion}
  {c : IOCPContext}

theorem posted_of_key {keys : Socket → Option Nat} {socket : Option Socket}
    (h : socket.bind keys = some pSC) : posted keys socket kind pIC = [.operation kind pSC pIC] := by
  unfold posted
  rw [h]

theorem complete_ok {result : Completed} (h : m.complete kind pSC pIC result = .ok (m', new)) :
    (m = m' ∧ new = [.packet ⟨false, 0, pSC, pIC, kind, 0⟩]) ∨
    (∃ data c heap, m.contexts.block pIC = some c ∧ (kind = .accept ∨ kind = .recv) ∧
      m.setContext pIC (c.receive data) = .ok heap ∧
      { m with
        toContextHeap := heap
        read          := Function.update m.read (c.socket.getD 0)
          (m.read (c.socket.getD 0) + data.length) } = m' ∧
      new = [.packet ⟨true, data.length, pSC, pIC, kind, m.read (c.socket.getD 0)⟩]) ∨
    (∃ n, kind = .send ∧ m = m' ∧ new = [.packet ⟨true, n, pSC, pIC, kind, 0⟩]) := by
  cases result
  case failed =>
    simp only [complete, pure_ok, Prod.mk.injEq] at h
    exact .inl ⟨h.left, h.right.symm⟩
  case received data =>
    simp only [complete, bind_ok, ContextHeap.context_ok] at h
    obtain ⟨c, hc, h⟩ := h
    split at h
    case isFalse   => cases h
    case isTrue hk =>
      obtain ⟨heap, hh, h⟩ := bind_ok.mp h
      rw [pure_ok, Prod.mk.injEq] at h
      exact .inr (.inl ⟨data, c, heap, hc, hk.imp And.left And.left, hh, h.left, h.right.symm⟩)
  case sent n =>
    simp only [complete, bind_ok, ContextHeap.context_ok] at h
    obtain ⟨c, hc, h⟩ := h
    split at h
    case isFalse   => cases h
    case isTrue hk =>
      rw [pure_ok, Prod.mk.injEq] at h
      exact .inr (.inr ⟨n, hk.left, h.left, h.right.symm⟩)

-- The socket `k` that `doAccept` binds, and what it makes in `pContext` of the first bytes.
structure Accepts (m : Module) (p : Completion) (c : IOCPContext) (bound posted : Bool) (k : Socket)
    (c₀ pContext : IOCPContext) : Prop where
  socket  : c.socket = some k
  key     : m.keys k = none
  unused  : k ∉ m.closed
  port    : m.portOpen = true
  results : bound = true ∧ posted = true
  blank   : pContext.prevFlag = false
  context : c₀ = (pContext.doAccept c.wsabuf.buf p.dwBytesTransfered).context.resetBuffer
  copies  : ∀ copy ∈ (pContext.doAccept c.wsabuf.buf p.dwBytesTransfered).copies,
    copy.InBounds c.wsabuf.buf.length

-- The new connection is bound to its context, and its receive reports to it.
theorem doAccept_ok {bound posted : Bool} (h : m.doAccept p c bound posted = .ok (m', new)) :
    (m.closesocket c.socket = m' ∧ new = [.thread true (.postAccept p.pIC false true)]) ∨
    ∃ (k : Socket) (heap : ContextHeap) (c₀ pContext : IOCPContext),
      m.Accepts p c bound posted k c₀ pContext ∧
      (heap.contexts.block = Function.update m.contexts.block m.contexts.newAddress (some c₀) ∧
        heap.contexts.newAddress = m.contexts.newAddress + 1 ∧
        c₀.operation = .recv ∧ c₀.socket = some k ∧ c₀.contextIndex = 0 ∧
        ∃ heap₀, (m.newSocketContext c.socket).1.createIOCPContext m.socketContexts.newAddress
            defaultBufSize (fun c' => { c' with socket := c.socket, operation := .recv }) =
              .ok (heap₀, m.contexts.newAddress) ∧
          heap₀.setContext m.contexts.newAddress c₀ = .ok heap) ∧
      (heap.socketContexts.block = Function.update m.socketContexts.block
          m.socketContexts.newAddress (some (ContextHeap.filed { socket := some k } m.contexts.newAddress)) ∧
        heap.socketContexts.newAddress = m.socketContexts.newAddress + 1) ∧
      { m with
        toContextHeap := heap
        keys          := Function.update m.keys k (some m.socketContexts.newAddress) } = m' ∧
      new = [
        .thread true (.insert p.pSC p.pIC m.socketContexts.newAddress p.dwBytesTransfered
          ((pContext.doAccept c.wsabuf.buf p.dwBytesTransfered).calls ≠ [])),
        .operation .recv m.socketContexts.newAddress m.contexts.newAddress] := by
  simp only [doAccept, bind_ok] at h
  obtain ⟨⟨heap, a⟩, hcreate, h⟩ := h
  split at h
  case h_1 =>
    rw [pure_ok, Prod.mk.injEq] at h
    exact .inl ⟨h.left, h.right.symm⟩
  case h_2 keys hbind =>
    obtain ⟨c₁, hc₁, h⟩ := bind_ok.mp h
    split at h
    case isFalse => cases h
    case isTrue hcopies =>
      split at h
      case isFalse =>
        rw [pure_ok, Prod.mk.injEq] at h
        exact .inl ⟨h.left, h.right.symm⟩
      case isTrue hposted =>
        obtain ⟨heap', hh, h⟩ := bind_ok.mp h
        rw [pure_ok, Prod.mk.injEq] at h
        obtain ⟨hm, hnew⟩ := h
        split at hbind
        case isFalse => cases hbind
        case isTrue hbound =>
          obtain ⟨k, hk, hport, hkeys, hclosed, hupdate⟩ := bind_eq_some hbind
          obtain ⟨sc, c₀, hsc, hi, ha, hb, hn, hb', hn'⟩ := ContextHeap.createIOCPContext_ok hcreate
          obtain ⟨contexts, hw, hheap⟩ := ContextHeap.setContext_ok.mp hh
          obtain ⟨hbw, hnw, _⟩ := Memory.write_eq_some hw
          have hsc₀ : sc = { socket := some k } := by
            have := (Memory.alloc_self m.socketContexts { socket := c.socket }).symm.trans hsc
            rw [← Option.some.inj this, hk]
          have ha : a = m.contexts.newAddress := ha
          subst ha
          rw [ContextHeap.context_ok, hb, Function.update_self, Option.some.injEq] at hc₁
          obtain ⟨ho, hs, hx⟩ := c₁.doAccept_frame c.wsabuf.buf p.dwBytesTransfered
          refine .inr ⟨k, heap', (c₁.doAccept c.wsabuf.buf p.dwBytesTransfered).context.resetBuffer, c₁,
            ⟨hk, hkeys, hclosed, hport, ⟨hbound, hposted⟩, ?_, rfl, hcopies⟩,
            ⟨?_, ?_, ?_, ?_, ?_, heap, hcreate, hh⟩, ⟨?_, ?_⟩, ?_, ?_⟩
          · exact (by rw [← hc₁] : c₁.prevFlag = c₀.prevFlag).trans hi.prevFlag
          · rw [← hheap]
            exact hbw.trans (by rw [hb, Function.update_idem]; rfl)
          · rw [← hheap]
            exact hnw.trans hn
          · exact ho.trans (by rw [← hc₁])
          · exact hs.trans (by rw [← hc₁, hk])
          · exact hx.trans (by rw [← hc₁, hi.contextIndex, hsc₀])
          · rw [← hheap]
            exact hb'.trans (by rw [hsc₀]; exact Function.update_idem ..)
          · rw [← hheap]
            exact hn'.trans (Memory.newAddress_alloc ..)
          · rw [← hm, ← hupdate]
            rfl
          · have hkey : c.socket.bind keys = some m.socketContexts.newAddress := by
              rw [hk, Option.bind_some, ← hupdate, Function.update_self]
              rfl
            rw [← hnew, posted_of_key hkey]
            rfl

theorem doRecv_ok (h : m.doRecv p c = .ok (m', new)) :
    ∃ heap, m.setContext p.pIC
        (c.doRecv m.bufferSize c.wsabuf.buf p.dwBytesTransfered).context = .ok heap ∧
      { m with toContextHeap := heap } = m' ∧
      new = [.thread true (.doRecv p.pSC p.pIC p.base c.prevFlag
        ((c.doRecv m.bufferSize c.wsabuf.buf p.dwBytesTransfered).calls.map Prod.fst))] := by
  unfold doRecv at h
  dsimp only at h
  split at h
  case isFalse => cases h
  case isTrue =>
    obtain ⟨heap, hh, h⟩ := bind_ok.mp h
    rw [pure_ok, Prod.mk.injEq] at h
    exact ⟨heap, hh, h.left, h.right.symm⟩

theorem doSend_ok {posted : Bool} (h : m.doSend p c posted = .ok (m', new)) :
    ∃ heap c', (c'.operation = c.operation ∧ c'.socket = c.socket) ∧ m.setContext p.pIC c' = .ok heap ∧
      { m with toContextHeap := heap } = m' ∧
      new = [.thread true (.doSend p.pSC p.pIC posted (c.doSend posted p.dwBytesTransfered).2.2
        (c.doSend posted p.dwBytesTransfered).2.1)] := by
  obtain ⟨heap, hh, h⟩ := bind_ok.mp h
  rw [pure_ok, Prod.mk.injEq] at h
  have hf := c.doSend_frame posted p.dwBytesTransfered
  exact ⟨heap, { (c.doSend posted p.dwBytesTransfered).1 with operation := c.operation }, ⟨rfl, hf.left⟩, hh,
    h.left, h.right.symm⟩

theorem exitThread_ok (h : m.exitThread p = .ok (m', new)) :
    ∃ heap socket, m.deleteSocketContext p.pSC = .ok (heap, socket) ∧
      { m with toContextHeap := heap, closed := socket.toList ++ m.closed } = m' ∧ new = [] := by
  obtain ⟨⟨heap, socket⟩, hd, h⟩ := bind_ok.mp h
  rw [pure_ok, Prod.mk.injEq] at h
  exact ⟨heap, socket, hd, h.left, h.right.symm⟩

-- What the worker loop makes of a packet, and of the context `c` in it.
inductive Dispatched (m : Module) (p : Completion) (c : IOCPContext) (first second : Bool) :
    Module → List Item → Prop
  | empty (errorNum : Int) (le : m.errorNum ≤ errorNum) (operation : c.operation = .accept)
    (why : p.flag = false ∨ p.dwBytesTransfered = 0) : Dispatched m p c first second
      { m with
        errorNum
        closed            := c.socket.toList ++ m.closed
        connectNum        := m.connectNum + 1
        normallyClosedNum := m.normallyClosedNum + 1 }
      [.thread true (.postAccept p.pIC false false)]
  | sendError (errorNum : Int) (le : m.errorNum ≤ errorNum) (operation : c.operation = .send)
    (why : p.flag = false) :
    Dispatched m p c first second { m with errorNum } [.thread true (.sendError p.pSC)]
  | close (errorNum : Int) (le : m.errorNum ≤ errorNum) (operation : c.operation ≠ .accept)
    (why : p.flag = false ∧ c.operation ≠ .send ∨ p.dwBytesTransfered = 0) :
    Dispatched m p c first second { m with errorNum }
      [.thread true (.postCloseConnection p.pSC (p.kind = .recv))]
  | closed (operation : c.operation ≠ .accept) (why : p.dwBytesTransfered = 0) (sc : SocketContext)
    (block : m.socketContexts.block p.pSC = some sc) (closeFlag : sc.closeFlag = true) :
    Dispatched m p c first second (m.done true) []
  | null (operation : c.operation = .null) : Dispatched m p c first second (m.done true) []
  | doAccept {m' : Module} {new : List Item} (operation : c.operation = .accept)
    (why : p.flag = true ∧ 0 < p.dwBytesTransfered)
    (h : m.doAccept p c first second = .ok (m', new)) : Dispatched m p c first second m' new
  | doRecv {m' : Module} {new : List Item} (operation : c.operation = .recv)
    (why : p.flag = true ∧ 0 < p.dwBytesTransfered) (h : m.doRecv p c = .ok (m', new)) :
    Dispatched m p c first second m' new
  | doSend {m' : Module} {new : List Item} (operation : c.operation = .send)
    (why : p.flag = true ∧ 0 < p.dwBytesTransfered) (h : m.doSend p c first = .ok (m', new)) :
    Dispatched m p c first second m' new
  | doCloseConnection (operation : c.operation = .closeConnection) : Dispatched m p c first second m
      [.thread true (.doCloseConnection p.pSC (p.kind = .close true))]
  | exit {m' : Module} {new : List Item} (operation : c.operation = .exit)
    (h : m.exitThread p = .ok (m', new)) : Dispatched m p c first second m' new

theorem dispatch_ok {first second : Bool} (h : m.dispatch p first second = .ok (m', new)) :
    ∃ c, m.contexts.block p.pIC = some c ∧ Dispatched m p c first second m' new := by
  unfold dispatch at h
  split at h
  case isTrue hf =>
    rw [Bool.not_eq_true'] at hf
    simp only [dispatchError, bind_ok, ContextHeap.context_ok] at h
    obtain ⟨c, hc, h⟩ := h
    refine ⟨c, hc, ?_⟩
    split at h
    case h_1 ho =>
      cases h
      exact .empty _ (Int.le.intro 1 rfl) ho (.inl hf)
    case h_2 ho =>
      cases h
      exact .sendError _ (Int.le.intro 1 rfl) ho hf
    case h_3 ha hs =>
      cases h
      exact .close _ (Int.le.intro 1 rfl) ha (.inl ⟨hf, hs⟩)
  case isFalse hf =>
    rw [Bool.not_eq_true', Bool.not_eq_false] at hf
    simp only [bind_ok, ContextHeap.context_ok, ContextHeap.socketContext_ok] at h
    obtain ⟨sc, hsc, c, hc, h⟩ := h
    refine ⟨c, hc, ?_⟩
    split at h
    case isTrue hn =>
      unfold dispatchData at h
      split at h
      case h_1 ho => exact .doAccept ho ⟨hf, hn⟩ h
      case h_2 ho => exact .doRecv ho ⟨hf, hn⟩ h
      case h_3 ho => exact .doSend ho ⟨hf, hn⟩ h
      case h_4 ho =>
        cases h
        exact .doCloseConnection ho
      case h_5 ho =>
        cases h
        exact .null ho
      case h_6 ho => exact .exit ho h
    case isFalse hn =>
      have hn := Nat.eq_zero_of_not_pos hn
      unfold dispatchEmpty at h
      split at h
      case h_1 ho =>
        cases h
        exact .empty _ (Int.le_refl _) ho (.inr hn)
      case h_2 ho =>
        split at h
        case isTrue =>
          cases h
          exact .close _ (Int.le_refl _) ho (.inr hn)
        case isFalse hc =>
          cases h
          exact .closed ho hn sc hsc (by simpa using hc)

theorem insert_ok {pSocketContext n : Nat} {flag : Bool}
    (h : m.insert pSC pIC pSocketContext n flag = .ok (m', new)) :
    ∃ sc, m.socketContexts.block pSocketContext = some sc ∧
      { m with socketContextMap := m.socketContextMap.insertIfNew pSocketContext sc.socket } = m' ∧
      new = [.thread true (if flag then .process pSC pIC n else .postAccept pIC true true)] := by
  simp only [insert, bind_ok, ContextHeap.socketContext_ok, pure_ok, Prod.mk.injEq] at h
  obtain ⟨_, _, sc, hsc, hm, hnew⟩ := h
  exact ⟨sc, hsc, hm, hnew.symm⟩

theorem process_ok {n : Nat} (h : m.process pSC pIC n = .ok (m', new)) :
    ∃ c, m.contexts.block pIC = some c ∧
      { m with
        callbackInvokedNum := m.callbackInvokedNum + 1
        calls              := .recv pSC c.socket n :: m.calls } = m' ∧
      new = [.thread true (.postAccept pIC true true)] := by
  simp only [process, bind_ok, ContextHeap.context_ok, pure_ok, Prod.mk.injEq] at h
  obtain ⟨c, hc, hm, hnew⟩ := h
  exact ⟨c, hc, hm, hnew.symm⟩

theorem postAccept_ok {created posted : Bool} (h : m.postAccept pIC created posted = .ok (m', new)) :
    ∃ c heap, m.contexts.block pIC = some c ∧
      m.setContext pIC { c with
        operation := .accept
        socket    := if created then some m.nextSocket else none } = .ok heap ∧
      { m with toContextHeap := heap, nextSocket := m.nextSocket + created.toNat } = m' ∧
      new = if created && posted then [.operation .accept listening pIC] else [] := by
  simp only [postAccept, bind_ok, ContextHeap.context_ok, pure_ok, Prod.mk.injEq] at h
  obtain ⟨c, hc, heap, hh, hm, hnew⟩ := h
  exact ⟨c, heap, hc, hh, hm, hnew.symm⟩

-- The context of an accept is posted again or on its way out.
theorem repost_ok {reset count created posted : Bool}
    (h : m.repost pIC reset count created posted = .ok (m', new)) :
    ∃ c c' heap, m.contexts.block pIC = some c ∧ m.setContext pIC c' = .ok heap ∧
      (c'.operation = .accept ∧ c'.contextIndex = c.contextIndex ∧
        c'.socket = if created then some m.nextSocket else none) ∧
      { m with
        toContextHeap := heap
        nextSocket    := m.nextSocket + created.toNat
        connectNum    := m.connectNum + if created && posted && count then 1 else 0
        idle          := m.idle + (created && posted).toNat } = m' ∧
      new = if created && posted then [.operation .accept listening pIC]
        else [.thread true (.removeIOCPContext listening pIC)] := by
  simp only [repost, bind_ok, ContextHeap.context_ok] at h
  obtain ⟨c, hc, heap, hh, ⟨m₁, items⟩, hp, h⟩ := h
  obtain ⟨c', heap', hc', hh', rfl, rfl⟩ := postAccept_ok hp
  have hi : c'.contextIndex = c.contextIndex := by
    obtain ⟨contexts, hw, rfl⟩ := ContextHeap.setContext_ok.mp hh
    have := Option.some.inj ((Memory.write_self hw).symm.trans hc')
    rw [← this]
    split
    case isTrue  => rfl
    case isFalse => rfl
  rw [ContextHeap.setContext_setContext hh] at hh'
  refine ⟨c, _, heap', hc, hh', ⟨rfl, hi, rfl⟩, ?_⟩
  cases hb : created && posted
  case true =>
    simp only [hb, if_true, pure_ok, Prod.mk.injEq] at h
    exact ⟨by rw [← h.left, Bool.true_and]; rfl, by rw [← h.right, if_pos rfl]⟩
  case false =>
    simp only [hb, Bool.false_eq_true, if_false, pure_ok, Prod.mk.injEq] at h
    exact ⟨by rw [← h.left, Bool.false_and, if_neg Bool.false_ne_true, Int.add_zero]; rfl,
      by rw [← h.right, if_neg Bool.false_ne_true]⟩

theorem remove_ok {worker : Bool} (h : m.remove worker pSC pIC = .ok (m', new)) :
    ∃ c heap, m.contexts.block pIC = some c ∧ m.removeIOCPContext pSC c.contextIndex = .ok heap ∧
      { m with toContextHeap := heap }.done worker = m' ∧ new = [] := by
  simp only [remove, bind_ok, ContextHeap.context_ok, pure_ok, Prod.mk.injEq] at h
  obtain ⟨c, hc, heap, hh, hm, hnew⟩ := h
  exact ⟨c, heap, hc, hh, hm, hnew.symm⟩

theorem callback_ok {base : Nat} {count posted : Bool} {stops : List Int}
    (h : m.callback pSC pIC base count stops posted = .ok (m', new)) :
    ∃ c, m.contexts.block pIC = some c ∧
      ((∃ stop stops', stops = stop :: stops' ∧
        { m with
          callbackInvokedNum := m.callbackInvokedNum + if count then 1 else 0
          calls              := .recv pSC c.socket (base + stop) :: m.calls } = m' ∧
        new = [.thread true (.doRecv pSC pIC base count stops')]) ∨
      (stops = [] ∧ ∃ heap,
        m.setContext pIC { c.resetBuffer with operation := .recv } = .ok heap ∧
        { m with toContextHeap := heap, idle := m.idle + posted.toNat } = m' ∧
        new = if posted then Module.posted m.keys c.socket .recv pIC
          else [.thread true (.postCloseConnection pSC true)])) := by
  simp only [callback, bind_ok, ContextHeap.context_ok] at h
  obtain ⟨c, hc, h⟩ := h
  refine ⟨c, hc, ?_⟩
  cases stops
  case cons stop stops =>
    simp only [pure_ok, Prod.mk.injEq] at h
    exact .inl ⟨stop, stops, rfl, h.left, h.right.symm⟩
  case nil =>
    obtain ⟨heap, hh, h⟩ := bind_ok.mp h
    refine .inr ⟨rfl, heap, hh, ?_⟩
    cases posted
    case true =>
      rw [if_pos rfl, pure_ok, Prod.mk.injEq] at h
      exact ⟨h.left, h.right.symm⟩
    case false =>
      rw [if_neg Bool.false_ne_true, pure_ok, Prod.mk.injEq] at h
      exact ⟨h.left, h.right.symm⟩

theorem perform_ok {posted ret : Bool} {effects : List SendEffect}
    (h : m.perform pSC pIC posted ret effects = .ok (m', new)) :
    (effects = [] ∧ { m with idle := m.idle + ret.toNat } = m' ∧
      new = if ret then [] else [.thread true (.postCloseConnection pSC false)]) ∨
    ∃ effect effects' c, effects = effect :: effects' ∧ m.contexts.block pIC = some c ∧
      ((∃ call, effect = .callback call ∧
        { m with
          callbackInvokedNum := m.callbackInvokedNum + 1
          calls              := .send pSC :: m.calls } = m' ∧
        new = [.thread true (.doSend pSC pIC posted ret effects')]) ∨
      (∃ descriptor, effect = .post descriptor ∧ m = m' ∧
        new = .thread true (.resent pSC pIC posted ret effects') ::
          if posted then Module.posted m.keys c.socket .send pIC else []) ∨
      ∃ k heap, effect = .remove k ∧ m.removeIOCPContext pSC k = .ok heap ∧
        { m with toContextHeap := heap } = m' ∧
        new = [.thread true (.doSend pSC pIC posted ret effects')]) := by
  cases effects
  case nil =>
    refine .inl ⟨rfl, ?_⟩
    cases ret
    case true =>
      rw [perform, if_pos rfl, pure_ok, Prod.mk.injEq] at h
      exact ⟨h.left, h.right.symm⟩
    case false =>
      rw [perform, if_neg Bool.false_ne_true, pure_ok, Prod.mk.injEq] at h
      exact ⟨h.left, h.right.symm⟩
  case cons effect effects =>
    simp only [perform, bind_ok, ContextHeap.context_ok] at h
    obtain ⟨c, hc, h⟩ := h
    refine .inr ⟨effect, effects, c, rfl, hc, ?_⟩
    cases effect
    case callback call =>
      rw [pure_ok, Prod.mk.injEq] at h
      exact .inl ⟨call, rfl, h.left, h.right.symm⟩
    case post descriptor =>
      rw [pure_ok, Prod.mk.injEq] at h
      exact .inr (.inl ⟨descriptor, rfl, h.left, h.right.symm⟩)
    case remove k =>
      obtain ⟨heap, hh, h⟩ := bind_ok.mp h
      rw [pure_ok, Prod.mk.injEq] at h
      exact .inr (.inr ⟨k, heap, rfl, hh, h.left, h.right.symm⟩)

theorem setOperation_ok : m.setOperation pIC = .ok m' ↔
    ∃ c heap, m.contexts.block pIC = some c ∧ m.setContext pIC { c with operation := .send } = .ok heap ∧
      { m with toContextHeap := heap } = m' := by
  simp only [setOperation, bind_ok, ContextHeap.context_ok, pure_ok, exists_and_left]

theorem resent_ok {posted ret : Bool} {effects : List SendEffect}
    (h : m.resent pSC pIC posted ret effects = .ok (m', new)) :
    m.setOperation pIC = .ok m' ∧ new = [.thread true (.doSend pSC pIC posted ret effects)] := by
  obtain ⟨m₁, hm, h⟩ := bind_ok.mp h
  rw [pure_ok, Prod.mk.injEq] at h
  exact ⟨h.left ▸ hm, h.right.symm⟩

-- A close is posted once for a connection, and only for one in the map.
theorem postCloseConnection_ok {worker receive : Bool}
    (h : m.postCloseConnection worker pSC receive = .ok (m', new)) :
    (m.done worker = m' ∧ new = [] ∧ (m.socketContextMap[pSC]? = none ∨
      ∃ sc, m.socketContexts.block pSC = some sc ∧ sc.closeFlag = true)) ∨
    ∃ sc heap heap' pCloseContext, m.socketContextMap[pSC]? ≠ none ∧
      m.socketContexts.block pSC = some sc ∧ sc.closeFlag = false ∧
      m.setSocketContext pSC { sc with closeFlag := true } = .ok heap ∧
      heap.createIOCPContext pSC 4096 (fun c => { c with operation := .closeConnection }) =
        .ok (heap', pCloseContext) ∧
      { m with toContextHeap := heap' }.done worker = m' ∧
      new = m.PostQueuedCompletionStatus (.close receive) pSC pCloseContext := by
  obtain ⟨_, _, h⟩ := bind_ok.mp h
  split at h
  case h_1 hmap =>
    rw [pure_ok, Prod.mk.injEq] at h
    exact .inl ⟨h.left, h.right.symm, .inl hmap⟩
  case h_2 socket hmap =>
    simp only [bind_ok, ContextHeap.socketContext_ok] at h
    obtain ⟨sc, hsc, h⟩ := h
    cases hf : sc.closeFlag
    case true =>
      simp only [hf, Bool.not_true, Bool.false_eq_true, if_false, pure_ok, Prod.mk.injEq] at h
      exact .inl ⟨h.left, h.right.symm, .inr ⟨sc, hsc, hf⟩⟩
    case false =>
      simp only [hf, Bool.not_false, if_true, bind_ok, pure_ok, Prod.mk.injEq] at h
      obtain ⟨heap, hset, ⟨heap', pCloseContext⟩, hcreate, hm, hnew⟩ := h
      exact .inr ⟨sc, heap, heap', pCloseContext, by simp [hmap], hsc, hf, hset, hcreate, hm, hnew.symm⟩

theorem doCloseConnection_ok (h : m.doCloseConnection pSC = .ok (m', new)) :
    new = [] ∧
      ((m.socketContextMap[pSC]? = none ∧
        { m with normallyClosedNum := m.normallyClosedNum + 1 }.done true = m') ∨
      ∃ heap socket, m.socketContextMap[pSC]? ≠ none ∧
        m.deleteSocketContext pSC = .ok (heap, socket) ∧
        { m with
          normallyClosedNum := m.normallyClosedNum + 1
          toContextHeap     := heap
          closed            := socket.toList ++ m.closed
          socketContextMap  := m.socketContextMap.erase pSC }.done true = m') := by
  obtain ⟨_, _, h⟩ := bind_ok.mp h
  dsimp only at h
  split at h
  case h_1 hmap =>
    rw [pure_ok, Prod.mk.injEq] at h
    exact ⟨h.right.symm, .inl ⟨hmap, h.left⟩⟩
  case h_2 hmap =>
    obtain ⟨⟨heap, socket⟩, hd, h⟩ := bind_ok.mp h
    rw [pure_ok, Prod.mk.injEq] at h
    exact ⟨h.right.symm, .inr ⟨heap, socket, by simp [hmap], hd, h.left⟩⟩

section SendData

variable {data : Bytes} {posted : Bool}

theorem find_ok (h : m.find pSC data = .ok (m', new)) :
    m = m' ∧ ((m.socketContextMap[pSC]? = none ∧ new = [.thread false (.bind pSC data)]) ∨
      (m.socketContextMap[pSC]? ≠ none ∧ new = [.thread false (.create pSC data)])) := by
  obtain ⟨_, _, h⟩ := bind_ok.mp h
  split at h
  case h_1 hmap =>
    rw [pure_ok, Prod.mk.injEq] at h
    exact ⟨h.left, .inl ⟨hmap, h.right.symm⟩⟩
  case h_2 hmap =>
    rw [pure_ok, Prod.mk.injEq] at h
    exact ⟨h.left, .inr ⟨by simp [hmap], h.right.symm⟩⟩

theorem bindSocket_ok {bound : Bool} (h : m.bindSocket pSC data bound = .ok (m', new)) :
    (m = m' ∧ new = []) ∨
    ∃ k sc heap pContext, m.socketContexts.block pSC = some sc ∧ sc.socket = some k ∧
      m.keys k = none ∧
      m.createIOCPContext pSC m.bufferSize
        (fun c => { c with socket := sc.socket, operation := .recv }) = .ok (heap, pContext) ∧
      { m with toContextHeap := heap, keys := Function.update m.keys k (some pSC) } = m' ∧
      new = [.thread false (.publish pSC pContext data)] := by
  simp only [bindSocket, bind_ok, ContextHeap.socketContext_ok] at h
  obtain ⟨sc, hsc, h⟩ := h
  split at h
  case h_1 =>
    rw [pure_ok, Prod.mk.injEq] at h
    exact .inl ⟨h.left, h.right.symm⟩
  case h_2 keys hbind =>
    simp only [bind_ok, pure_ok, Prod.mk.injEq] at h
    obtain ⟨⟨heap, pContext⟩, hcreate, hm, hnew⟩ := h
    split at hbind
    case isFalse => cases hbind
    case isTrue =>
      obtain ⟨k, hk, _, hkeys, _, rfl⟩ := bind_eq_some hbind
      exact .inr ⟨k, sc, heap, pContext, hsc, hk, hkeys, hcreate, hm, hnew.symm⟩

theorem publish_ok (h : m.publish pSC pIC data posted = .ok (m', new)) :
    ∃ c sc heap heap', m.contexts.block pIC = some c ∧
      m.setContext pIC { c.resetBuffer with operation := .recv } = .ok heap ∧
      ((posted = true ∧ heap = heap') ∨
        (posted = false ∧ heap.removeIOCPContext pSC c.contextIndex = .ok heap')) ∧
      heap'.socketContexts.block pSC = some sc ∧
      { m with
        toContextHeap    := heap'
        socketContextMap := m.socketContextMap.insertIfNew pSC sc.socket } = m' ∧
      new = .thread false (.create pSC data) ::
        if posted then Module.posted m.keys c.socket .recv pIC else [] := by
  simp only [publish, bind_ok, ContextHeap.context_ok] at h
  obtain ⟨_, _, c, hc, heap, hset, h⟩ := h
  cases posted
  case true =>
    simp only [if_true, bind_ok, pure_ok, ContextHeap.socketContext_ok, Prod.mk.injEq] at h
    obtain ⟨heap', hheap, sc, hsc, hm, hnew⟩ := h
    exact ⟨c, sc, heap, heap', hc, hset, .inl ⟨rfl, hheap⟩, hsc, hm, hnew.symm⟩
  case false =>
    simp only [Bool.false_eq_true, if_false, bind_ok, pure_ok, ContextHeap.socketContext_ok,
      Prod.mk.injEq] at h
    obtain ⟨heap', hremove, sc, hsc, hm, hnew⟩ := h
    exact ⟨c, sc, heap, heap', hc, hset, .inr ⟨rfl, hremove⟩, hsc, hm, hnew.symm⟩

theorem create_ok (h : m.create pSC data = .ok (m', new)) :
    ∃ sc heap pContext, m.socketContexts.block pSC = some sc ∧
      m.createIOCPContext pSC data.length (fun c => c.setSend sc.socket data) =
        .ok (heap, pContext) ∧
      { m with toContextHeap := heap } = m' ∧ new = [.thread false (.postSend pSC pContext)] := by
  simp only [create, bind_ok, ContextHeap.socketContext_ok, pure_ok, Prod.mk.injEq] at h
  obtain ⟨sc, hsc, ⟨heap, pContext⟩, hcreate, hm, hnew⟩ := h
  exact ⟨sc, heap, pContext, hsc, hcreate, hm, hnew.symm⟩

theorem postSend_ok (h : m.postSend pSC pIC posted = .ok (m', new)) :
    ∃ c, m.contexts.block pIC = some c ∧ m = m' ∧
      new = .thread false (.sent pSC pIC posted) ::
        if posted then Module.posted m.keys c.socket .send pIC else [] := by
  simp only [postSend, bind_ok, ContextHeap.context_ok, pure_ok, Prod.mk.injEq] at h
  obtain ⟨c, hc, hm, hnew⟩ := h
  exact ⟨c, hc, hm, hnew.symm⟩

theorem sent_ok (h : m.sent pSC pIC posted = .ok (m', new)) :
    m.setOperation pIC = .ok m' ∧
      new = if posted then [] else [.thread false (.removeIOCPContext pSC pIC)] := by
  obtain ⟨m₁, hm, h⟩ := bind_ok.mp h
  rw [pure_ok, Prod.mk.injEq] at h
  exact ⟨h.left ▸ hm, h.right.symm⟩

end SendData

section Control

-- A standby context is posted or removed again.
theorem initIOCP_ok {standby : Nat} {created posted : Bool}
    (h : m.initIOCP standby created posted = .ok (m', new)) :
    ∃ heap heap' heap'' pContext c c', m.createIOCPContext listening defaultBufSize
        (fun c => { c with operation := .accept }) = .ok (heap, pContext) ∧
      heap.contexts.block pContext = some c ∧ (c'.operation = .accept ∧
        c'.contextIndex = c.contextIndex ∧ c'.socket = if created then some m.nextSocket else none) ∧
      heap.setContext pContext c' = .ok heap' ∧
      { m with
        toContextHeap := heap''
        lock          := .init standby
        nextSocket    := m.nextSocket + created.toNat } = m' ∧
      (((created && posted) = true ∧ heap' = heap'' ∧ new = [.operation .accept listening pContext]) ∨
        ((created && posted) = false ∧ heap'.removeIOCPContext listening c.contextIndex = .ok heap'' ∧
          new = [])) := by
  simp only [initIOCP, bind_ok] at h
  obtain ⟨⟨heap, pContext⟩, hcreate, ⟨m₁, items⟩, hp, h⟩ := h
  obtain ⟨c, heap', hc, hset, rfl, rfl⟩ := postAccept_ok hp
  cases hb : created && posted
  case true =>
    simp only [hb, if_true, pure_ok, Prod.mk.injEq] at h
    exact ⟨heap, heap', heap', pContext, c, { c with
        operation := .accept
        socket    := if created then some m.nextSocket else none },
      hcreate, hc, ⟨rfl, rfl, rfl⟩, hset, h.left, .inl ⟨rfl, rfl, h.right.symm⟩⟩
  case false =>
    simp only [hb, Bool.false_eq_true, if_false, bind_ok, ContextHeap.context_ok, pure_ok,
      Prod.mk.injEq] at h
    obtain ⟨c₁, hc₁, heap₁, hremove, hm, hnew⟩ := h
    obtain ⟨contexts, hw, rfl⟩ := ContextHeap.setContext_ok.mp hset
    have := Option.some.inj ((Memory.write_self hw).symm.trans hc₁)
    rw [← this] at hremove
    exact ⟨heap, _, heap₁, pContext, c, { c with
        operation := .accept
        socket    := if created then some m.nextSocket else none },
      hcreate, hc, ⟨rfl, rfl, rfl⟩, hset, hm, .inr ⟨rfl, hremove, hnew.symm⟩⟩

theorem postExit_ok {left : Nat} (h : m.postExit left = .ok (m', new)) :
    ∃ heap pIC, (m.newSocketContext none).1.createIOCPContext m.socketContexts.newAddress
        defaultBufSize (fun c => { c with operation := .exit }) = .ok (heap, pIC) ∧
      { m with toContextHeap := heap, lock := .exits left } = m' ∧
      new = m.PostQueuedCompletionStatus .exit m.socketContexts.newAddress pIC := by
  simp only [postExit, bind_ok, pure_ok, Prod.mk.injEq] at h
  obtain ⟨⟨heap, pIC⟩, hcreate, hm, hnew⟩ := h
  exact ⟨heap, pIC, hcreate, hm, hnew.symm⟩

theorem destroy_ok (h : m.destroy = .ok (m', new)) :
    ∃ heap socket, m.deleteSocketContext listening = .ok (heap, socket) ∧
      { m with toContextHeap := heap, closed := socket.toList ++ m.closed } = m' ∧ new = [] := by
  obtain ⟨⟨heap, socket⟩, hd, h⟩ := bind_ok.mp h
  rw [pure_ok, Prod.mk.injEq] at h
  exact ⟨heap, socket, hd, h.left, h.right.symm⟩

theorem deleteStandby_ok (h : m.deleteStandby = .ok (m', new)) :
    ∃ sc contexts heap, m.socketContexts.block listening = some sc ∧
      sc.deleteContexts m.contexts = some contexts ∧
      { m.toContextHeap with contexts }.setSocketContext listening { sc with iocpContextMap := ∅ } =
        .ok heap ∧
      { m with
        toContextHeap := heap
        closed        := sc.iocpContextMap.values.filterMap
          (fun pIC => (m.contexts.block pIC).bind IOCPContext.socket) ++ m.closed
        lock          := .free } = m' ∧ new = [] := by
  simp only [deleteStandby, bind_ok, ContextHeap.socketContext_ok, need_ok, pure_ok, Prod.mk.injEq] at h
  obtain ⟨sc, hsc, contexts, hd, heap, hset, hm, hnew⟩ := h
  exact ⟨sc, contexts, heap, hsc, hd, hset, hm, hnew.symm⟩

end Control

end Module

namespace State

variable {s s' : State} {a : Action} {used new rest : List Item} {m' : Module}

-- What a step does: it takes `used` from the items, leaves `rest`, and puts `new` in front.
inductive Stepped (s : State) : Action → List Item → Module → List Item → List Item → Prop
  | initIOCP {standby : Nat} {created posted : Bool} {m' : Module} {new : List Item}
    (lock : s.lock = .init (standby + 1))
    (h : s.initIOCP standby created posted = .ok (m', new)) :
    Stepped s (.initIOCP created posted) [] m' new s.items
  | initialised {created posted : Bool} (lock : s.lock = .init 0) :
    Stepped s (.initIOCP created posted) [] { s.toModule with lock := .free } [] s.items
  | stopIOCP {m' : Module} {new : List Item} (h : s.stopIOCP = .ok (m', new)) :
    Stepped s .stopIOCP [] m' new s.items
  | destroy {m' : Module} {new : List Item} (h : s.toModule.destroy = .ok (m', new)) :
    Stepped s .destroy [] m' new s.items
  | connected : Stepped s (.createConnectContext true) [] (s.createConnectContext true) [] s.items
  | unconnected : Stepped s (.createConnectContext false) [] (s.createConnectContext false) [] s.items
  | sendData {pSC : Nat} {data : Bytes} {sc : SocketContext}
    (block : s.socketContexts.block pSC = some sc) (socket : sc.socket.isSome)
    (length : 0 < data.length ∧ data.length ≤ 0x800100) :
    Stepped s (.sendData pSC data) [] s.toModule [.thread false (.find pSC data)] s.items
  | ignored {pSC : Nat} {data : Bytes} : Stepped s (.sendData pSC data) [] s.toModule [] s.items
  | postCloseConnection {pSC : Nat} : Stepped s (.postCloseConnection pSC) [] s.toModule
    [.thread false (.postCloseConnection pSC false)] s.items
  | complete {i : Nat} {result : Module.Completed} {kind : Kind} {pSC pIC : Nat} {m' : Module}
    {new : List Item} (hi : s.items[i]? = some (.operation kind pSC pIC))
    (h : s.complete kind pSC pIC result = .ok (m', new)) :
    Stepped s (.complete i result) [.operation kind pSC pIC] m' new (s.items.eraseIdx i)
  | dequeue {i : Nat} {p : Completion} (hi : s.items[i]? = some (.packet p))
    (portOpen : s.portOpen = true) (idle : 0 < s.idle) :
    Stepped s (.getQueuedCompletionStatus (some i)) [.packet p]
      { s.toModule with idle := s.idle - 1 } [.thread true (.dispatch p)] (s.items.eraseIdx i)
  | spin (portOpen : s.portOpen = false) (idle : 0 < s.idle) :
    Stepped s (.getQueuedCompletionStatus none) []
      { s.toModule with errorNum := s.errorNum + 1 } [] s.items
  | run {i : Nat} {first second worker : Bool} {task : Task} {m' : Module} {new : List Item}
    (hi : s.items[i]? = some (.thread worker task))
    (h : s.toModule.run worker first second task = .ok (m', new)) :
    Stepped s (.run i first second) [.thread worker task] m' new (s.items.eraseIdx i)

theorem consume_ok {i : Nat} {f : Item → Module.Result} (h : s.consume i f = .ok s') :
    ∃ item m items, s.items[i]? = some item ∧ f item = .ok (m, items) ∧
      { m with items := items ++ s.items.eraseIdx i } = s' := by
  unfold consume at h
  split at h
  case h_1 => cases h
  case h_2 item hi =>
    simp only [bind_ok, pure_ok] at h
    obtain ⟨⟨m, items⟩, hf, h⟩ := h
    exact ⟨item, m, items, hi, hf, h⟩

theorem produce_ok {result : Module.Result} (h : s.produce result = .ok s') :
    ∃ m items, result = .ok (m, items) ∧ { m with items := items ++ s.items } = s' := by
  simp only [produce, bind_ok, pure_ok] at h
  obtain ⟨⟨m, items⟩, hf, h⟩ := h
  exact ⟨m, items, hf, h⟩

theorem sendData_ok {pSC : Nat} {data : Bytes} (h : s.sendData pSC data = .ok (m', new)) :
    Stepped s (.sendData pSC data) [] m' new s.items := by
  unfold sendData at h
  split at h
  case h_1 => cases h
  case h_2 sc hsc =>
    split at h
    case isFalse => cases h
    case isTrue hs =>
      split at h
      case isTrue hl =>
        cases h
        exact .sendData hsc hs hl
      case isFalse =>
        cases h
        exact .ignored

theorem step_ok (h : s.step a = .ok s') :
    ∃ used m' new rest, s.Stepped a used m' new rest ∧ { m' with items := new ++ rest } = s' := by
  cases a
  case initIOCP created posted =>
    dsimp only [step] at h
    split at h
    case h_1 hl =>
      obtain ⟨m, new, hr, hs⟩ := produce_ok h
      exact ⟨_, _, _, _, .initIOCP hl hr, hs⟩
    case h_2 hl => exact ⟨_, _, _, _, .initialised hl, Except.ok.inj h⟩
    case h_3    => cases h
  case stopIOCP =>
    obtain ⟨m, new, hr, hs⟩ := produce_ok h
    exact ⟨_, _, _, _, .stopIOCP hr, hs⟩
  case destroy =>
    obtain ⟨m, new, hr, hs⟩ := produce_ok h
    exact ⟨_, _, _, _, .destroy hr, hs⟩
  case createConnectContext connected =>
    cases connected
    case true  => exact ⟨_, _, _, _, .connected, Except.ok.inj h⟩
    case false => exact ⟨_, _, _, _, .unconnected, Except.ok.inj h⟩
  case sendData pSC data =>
    obtain ⟨m, new, hr, hs⟩ := produce_ok h
    exact ⟨_, _, _, _, sendData_ok hr, hs⟩
  case postCloseConnection pSC => exact ⟨_, _, _, _, .postCloseConnection, Except.ok.inj h⟩
  case complete i result =>
    obtain ⟨item, m, new, hi, hr, hs⟩ := consume_ok h
    cases item
    case operation => exact ⟨_, _, _, _, .complete hi hr, hs⟩
    case packet    => cases hr
    case thread    => cases hr
  case getQueuedCompletionStatus i =>
    cases i
    case none =>
      dsimp only [step] at h
      split at h
      case isFalse   => cases h
      case isTrue hc => exact ⟨_, _, _, _, .spin (by simpa using hc.left) hc.right, Except.ok.inj h⟩
    case some i =>
      obtain ⟨item, m, new, hi, hr, hs⟩ := consume_ok h
      cases item
      case operation => cases hr
      case thread    => cases hr
      case packet p  =>
        dsimp only at hr
        split at hr
        case isFalse   => cases hr
        case isTrue hc =>
          obtain ⟨rfl, rfl⟩ := Prod.mk.inj (Except.ok.inj hr)
          exact ⟨_, _, _, _, .dequeue hi hc.left hc.right, hs⟩
  case run i first second =>
    obtain ⟨item, m, new, hi, hr, hs⟩ := consume_ok h
    cases item
    case operation => cases hr
    case packet    => cases hr
    case thread    => exact ⟨_, _, _, _, .run hi hr, hs⟩

theorem perm_eraseIdx {α : Type} {l : List α} {i : Nat} {a : α} (h : l[i]? = some a) :
    l.Perm ([a] ++ l.eraseIdx i) := by
  obtain ⟨hi, rfl⟩ := List.getElem?_eq_some_iff.mp h
  exact (List.getElem_cons_eraseIdx_perm hi).symm

theorem Stepped.perm (h : s.Stepped a used m' new rest) : s.items.Perm (used ++ rest) := by
  cases h
  case complete hi _  => exact perm_eraseIdx hi
  case dequeue hi _ _ => exact perm_eraseIdx hi
  case run hi _       => exact perm_eraseIdx hi
  all_goals exact .refl _

end State
end Server8
