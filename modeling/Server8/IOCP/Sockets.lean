import Server8.IOCP.Users

-- Which contexts have a socket: those that wait for a connection, and the socket contexts.

namespace Server8

open Runs

namespace ContextHeap

variable {h h₁ h' : ContextHeap} {pSC pIC : Nat} {c : IOCPContext} {sc : SocketContext} {k : Socket}

-- The context waits for a connection on `k`.
def Waits (h : ContextHeap) (pIC : Nat) (k : Socket) : Prop :=
  ∃ c, h.contexts.block pIC = some c ∧ c.operation = .accept ∧ c.socket = some k

def Has (h : ContextHeap) (pSC : Nat) (k : Socket) : Prop :=
  ∃ sc, h.socketContexts.block pSC = some sc ∧ sc.socket = some k

-- No context gets a socket.
structure Leaves (h h' : ContextHeap) : Prop where
  waits : ∀ {a k}, h'.Waits a k → h.Waits a k
  has   : ∀ {p k}, h'.Has p k → h.Has p k

namespace Leaves

theorem refl (h : ContextHeap) : Leaves h h :=
  ⟨id, id⟩

theorem trans (l₁ : Leaves h h₁) (l₂ : Leaves h₁ h') : Leaves h h' :=
  ⟨l₁.waits ∘ l₂.waits, l₁.has ∘ l₂.has⟩

theorem setContext (hs : h.setContext pIC c = .ok h')
    (hc : ∀ c', h.contexts.block pIC = some c' → c.operation = .accept →
      c'.operation = .accept ∧ ∀ k, c.socket = some k → c'.socket = some k) : Leaves h h' := by
  obtain ⟨contexts, hw, rfl⟩ := setContext_ok.mp hs
  obtain ⟨hb, _, c', hc'⟩ := Memory.write_eq_some hw
  refine ⟨fun {a k} ⟨c₁, hc₁, ho, hk⟩ => ?_, id⟩
  rw [hb, Function.update_apply] at hc₁
  split at hc₁
  case isTrue ha =>
    cases hc₁
    obtain ⟨ho', hs'⟩ := hc c' hc' ho
    exact ⟨c', ha ▸ hc', ho', hs' k hk⟩
  case isFalse => exact ⟨c₁, hc₁, ho, hk⟩

theorem setSocketContext (hs : h.setSocketContext pSC sc = .ok h')
    (hc : ∀ sc', h.socketContexts.block pSC = some sc' → sc.socket = sc'.socket) : Leaves h h' := by
  obtain ⟨socketContexts, hw, rfl⟩ := setSocketContext_ok.mp hs
  obtain ⟨hb, _, sc', hsc'⟩ := Memory.write_eq_some hw
  refine ⟨id, fun {p k} ⟨sc₁, hsc₁, hk⟩ => ?_⟩
  rw [hb, Function.update_apply] at hsc₁
  split at hsc₁
  case isTrue hp =>
    cases hsc₁
    exact ⟨sc', hp ▸ hsc', (hc sc' hsc').symm.trans hk⟩
  case isFalse => exact ⟨sc₁, hsc₁, hk⟩

theorem createIOCPContext {bufSize : Int} {set : IOCPContext → IOCPContext}
    (hc : h.createIOCPContext pSC bufSize set = .ok (h', pIC)) (ho : ∀ c, (set c).operation ≠ .accept) :
    Leaves h h' := by
  obtain ⟨sc, c, hsc, _, rfl, hb, _, hb', _⟩ := createIOCPContext_ok hc
  refine ⟨fun {a k} ⟨c₁, hc₁, ho₁, hk⟩ => ?_, fun {p k} ⟨sc₁, hsc₁, hk⟩ => ?_⟩
  · rw [hb, Function.update_apply] at hc₁
    split at hc₁
    case isTrue =>
      cases hc₁
      exact absurd ho₁ (ho c)
    case isFalse => exact ⟨c₁, hc₁, ho₁, hk⟩
  · rw [hb', Function.update_apply] at hsc₁
    split at hsc₁
    case isTrue hp =>
      cases hsc₁
      exact ⟨sc, hp ▸ hsc, hk⟩
    case isFalse => exact ⟨sc₁, hsc₁, hk⟩

theorem of_deleted {deleted : Nat → Prop} [DecidablePred deleted]
    (hb : ∀ a, h'.contexts.block a = if deleted a then none else h.contexts.block a)
    (hb' : ∀ {p k}, h'.Has p k → h.Has p k) : Leaves h h' := by
  refine ⟨fun {a k} ⟨c₁, hc₁, ho, hk⟩ => ?_, hb'⟩
  rw [hb] at hc₁
  split at hc₁
  case isTrue  => cases hc₁
  case isFalse => exact ⟨c₁, hc₁, ho, hk⟩

theorem removeIOCPContext {k : Int} (hr : h.removeIOCPContext pSC k = .ok h') : Leaves h h' := by
  obtain ⟨sc, sc', hsc, hb, _, hb', _, hs, _⟩ := removeIOCPContext_ok hr
  refine of_deleted hb fun {p k} ⟨sc₁, hsc₁, hk⟩ => ?_
  rw [hb', Function.update_apply] at hsc₁
  split at hsc₁
  case isTrue hp =>
    cases hsc₁
    exact ⟨sc, hp ▸ hsc, hs ▸ hk⟩
  case isFalse => exact ⟨sc₁, hsc₁, hk⟩

theorem deleteSocketContext {socket : Option Socket} (hd : h.deleteSocketContext pSC = .ok (h', socket)) :
    Leaves h h' := by
  obtain ⟨sc, hsc, _, hb, _, hb', _⟩ := deleteSocketContext_ok hd
  refine of_deleted hb fun {p k} ⟨sc₁, hsc₁, hk⟩ => ?_
  rw [hb', Function.update_apply] at hsc₁
  split at hsc₁
  case isTrue  => cases hsc₁
  case isFalse => exact ⟨sc₁, hsc₁, hk⟩

end Leaves

theorem has_newSocketContext {socket : Option Socket} {p : Nat}
    (hp : (h.newSocketContext socket).1.Has p k) :
    h.Has p k ∨ p = h.socketContexts.newAddress ∧ socket = some k := by
  obtain ⟨sc, hsc, hk⟩ := hp
  by_cases he : p = h.socketContexts.newAddress
  case pos =>
    subst he
    cases (Memory.alloc_self ..).symm.trans hsc
    exact .inr ⟨rfl, hk⟩
  case neg => exact .inl ⟨sc, (Memory.alloc_ne _ _ he).symm.trans hsc, hk⟩

end ContextHeap

namespace Module

variable {m m' : Module} {new : List Item} {task : Task} {p : Completion} {c : IOCPContext} {kind : Kind}
  {pSC pIC : Nat} {worker first second : Bool}

-- A socket that is new or waited for belongs to one context, and nothing is bound to it.
structure Sockets (m : Module) : Prop where
  waits : ∀ {a k}, m.Waits a k → k < m.nextSocket
  has   : ∀ {p k}, m.Has p k → k < m.nextSocket
  key   : ∀ {k p}, m.keys k = some p → k < m.nextSocket
  one   : ∀ {a b k}, m.Waits a k → m.Waits b k → a = b
  apart : ∀ {a p k}, m.Waits a k → m.Has p k → m.keys k ≠ none
  inj   : ∀ {j k p}, m.keys j = some p → m.keys k = some p → j = k

-- What a step does with sockets: nothing, or it has a new one, for a context that waits or for a socket
-- context, or it binds one.
inductive Hands (m m' : Module) : Prop
  | keep (heap : m.Leaves m'.toContextHeap) (keys : m'.keys = m.keys) (next : m.nextSocket ≤ m'.nextSocket)
  | wait (a : Nat) (waits : ∀ {b k}, m'.Waits b k → m.Waits b k ∨ b = a ∧ k = m.nextSocket)
    (has : ∀ {p k}, m'.Has p k → m.Has p k) (keys : m'.keys = m.keys)
    (next : m'.nextSocket = m.nextSocket + 1)
  | connect (waits : ∀ {a k}, m'.Waits a k → m.Waits a k)
    (has : ∀ {p k}, m'.Has p k → m.Has p k ∨ k = m.nextSocket) (keys : m'.keys = m.keys)
    (next : m'.nextSocket = m.nextSocket + 1)
  | bind (k : Socket) (p : Nat) (waits : ∀ {a k}, m'.Waits a k → m.Waits a k)
    (has : ∀ {q j}, m'.Has q j → m.Has q j ∨ j = k) (keys : m'.keys = Function.update m.keys k (some p))
    (unbound : m.keys k = none) (fresh : ∀ j, m.keys j ≠ some p) (lt : k < m.nextSocket)
    (next : m'.nextSocket = m.nextSocket)

theorem Sockets.step (hs : m.Sockets) (h : m.Hands m') : m'.Sockets := by
  cases h
  case keep heap keys next =>
    exact {
      waits h      := Nat.lt_of_lt_of_le (hs.waits (heap.waits h)) next
      has h        := Nat.lt_of_lt_of_le (hs.has (heap.has h)) next
      key h        := Nat.lt_of_lt_of_le (hs.key (keys ▸ h)) next
      one h h'     := hs.one (heap.waits h) (heap.waits h')
      apart h h'   := keys ▸ hs.apart (heap.waits h) (heap.has h')
      inj h h'     := hs.inj (keys ▸ h) (keys ▸ h') }
  case wait a waits has keys next =>
    have new {b : Nat} (h : m.Waits b m.nextSocket) : False := Nat.lt_irrefl _ (hs.waits h)
    refine ⟨fun h => ?_, fun h => ?_, fun h => ?_, fun h h' => ?_, fun h h' => ?_,
      fun h h' => hs.inj (keys ▸ h) (keys ▸ h')⟩
    · rw [next]
      rcases waits h with h | ⟨_, rfl⟩
      · exact Nat.lt_succ_of_lt (hs.waits h)
      · exact Nat.lt_succ_self _
    · exact next ▸ Nat.lt_succ_of_lt (hs.has (has h))
    · exact next ▸ Nat.lt_succ_of_lt (hs.key (keys ▸ h))
    · rcases waits h with h | ⟨rfl, rfl⟩
      · rcases waits h' with h' | ⟨_, rfl⟩
        · exact hs.one h h'
        · exact (new h).elim
      · rcases waits h' with h' | ⟨rfl, _⟩
        · exact (new h').elim
        · rfl
    · rcases waits h with h | ⟨_, rfl⟩
      · exact keys ▸ hs.apart h (has h')
      · exact absurd (hs.has (has h')) (Nat.lt_irrefl _)
  case connect waits has keys next =>
    refine ⟨fun h => ?_, fun h => ?_, fun h => ?_, fun h h' => hs.one (waits h) (waits h'), fun h h' => ?_,
      fun h h' => hs.inj (keys ▸ h) (keys ▸ h')⟩
    · exact next ▸ Nat.lt_succ_of_lt (hs.waits (waits h))
    · rw [next]
      rcases has h with h | rfl
      · exact Nat.lt_succ_of_lt (hs.has h)
      · exact Nat.lt_succ_self _
    · exact next ▸ Nat.lt_succ_of_lt (hs.key (keys ▸ h))
    · rcases has h' with h' | rfl
      · exact keys ▸ hs.apart (waits h) h'
      · exact absurd (hs.waits (waits h)) (Nat.lt_irrefl _)
  case bind k p waits has keys unbound fresh lt next =>
    have split {j : Socket} {q : Nat} (h : m'.keys j = some q) : m.keys j = some q ∨ j = k ∧ q = p := by
      rw [keys, Function.update_apply] at h
      split at h
      case isTrue hj => exact .inr ⟨hj, (Option.some.inj h).symm⟩
      case isFalse   => exact .inl h
    refine ⟨fun h => next ▸ hs.waits (waits h), fun h => ?_, fun h => ?_, fun h h' => hs.one (waits h) (waits h'),
      fun {a q j} h h' => ?_, fun h h' => ?_⟩
    · rw [next]
      rcases has h with h | rfl
      · exact hs.has h
      · exact lt
    · rw [next]
      rcases split h with h | ⟨rfl, _⟩
      · exact hs.key h
      · exact lt
    · rw [keys, Function.update_apply]
      split
      case isTrue       => exact Option.some_ne_none _
      case isFalse hj   => exact hs.apart (waits h) ((has h').resolve_right hj)
    · rcases split h with h | ⟨rfl, rfl⟩
      · rcases split h' with h' | ⟨_, rfl⟩
        · exact hs.inj h h'
        · exact absurd h (fresh _)
      · rcases split h' with h' | ⟨rfl, _⟩
        · exact absurd h' (fresh _)
        · rfl

theorem Hands.heap (heap : m.Leaves m'.toContextHeap) (keys : m'.keys = m.keys)
    (next : m'.nextSocket = m.nextSocket) : m.Hands m' :=
  .keep heap keys (Nat.le_of_eq next.symm)

theorem Hands.same (heap : m'.toContextHeap = m.toContextHeap) (keys : m'.keys = m.keys)
    (next : m'.nextSocket = m.nextSocket) : m.Hands m' :=
  .heap (heap ▸ .refl _) keys next

-- The context `pIC` waits on the new socket, if `WSASocket` made one.
theorem Hands.created (pIC : Nat) {created : Bool} (waits : ∀ {b k}, m'.Waits b k → m.Waits b k ∨
      b = pIC ∧ (if created then some m.nextSocket else none) = some k)
    (has : ∀ {p k}, m'.Has p k → m.Has p k) (keys : m'.keys = m.keys)
    (next : m'.nextSocket = m.nextSocket + created.toNat) : m.Hands m' := by
  cases created
  case true =>
    refine .wait pIC (fun h => ?_) has keys next
    exact (waits h).imp id (And.imp id fun h => (Option.some.inj h).symm)
  case false =>
    refine .heap ⟨fun h => (waits h).resolve_right ?_, has⟩ keys next
    exact fun h => nomatch h.right

theorem complete_hands {result : Completed} (h : m.complete kind pSC pIC result = .ok (m', new)) :
    m.Hands m' := by
  rcases complete_ok h with ⟨rfl, _⟩ | ⟨_, c, _, hc, _, hset, rfl, _⟩ | ⟨_, _, rfl, _⟩
  · exact .same rfl rfl rfl
  · refine .heap (.setContext hset fun c' hc' ho => ?_) rfl rfl
    cases hc.symm.trans hc'
    exact ⟨ho, fun _ => id⟩
  · exact .same rfl rfl rfl

theorem doAccept_hands (hw : m.Wired) (hs : m.Sockets) (hc : m.contexts.block p.pIC = some c)
    (ho : c.operation = .accept) (h : m.doAccept p c first second = .ok (m', new)) : m.Hands m' := by
  rcases doAccept_ok h with ⟨rfl, _⟩ | ⟨k, heap, c₀, _, accepts, ⟨hb, _, ho₀, _⟩, ⟨hb', _⟩, rfl, _⟩
  · exact .same rfl rfl rfl
  · refine .bind k m.socketContexts.newAddress (fun {a j} ⟨c₁, hc₁, ho₁, hj⟩ => ?_)
      (fun {q j} ⟨sc₁, hsc₁, hj⟩ => ?_) rfl accepts.key (fun j hj => Nat.lt_irrefl _ (hw.lt hj))
      (hs.waits ⟨c, hc, ho, accepts.socket⟩) rfl
    · rw [hb, Function.update_apply] at hc₁
      split at hc₁
      case isTrue =>
        cases hc₁
        simp [ho₀] at ho₁
      case isFalse => exact ⟨c₁, hc₁, ho₁, hj⟩
    · rw [hb', Function.update_apply] at hsc₁
      split at hsc₁
      case isTrue =>
        cases hsc₁
        exact .inr (Option.some.inj hj).symm
      case isFalse => exact .inl ⟨sc₁, hsc₁, hj⟩

-- A context that does not wait for a connection is written to.
theorem setContext_hands {heap : ContextHeap} {c' : IOCPContext} (hset : m.setContext pIC c' = .ok heap)
    (ho : c'.operation ≠ .accept) : m.Leaves heap :=
  .setContext hset fun _ _ h => absurd h ho

theorem dispatched_hands (hw : m.Wired) (hs : m.Sockets) (hc : m.contexts.block p.pIC = some c)
    (h : Dispatched m p c first second m' new) : m.Hands m' := by
  cases h
  case doAccept operation _ h => exact doAccept_hands hw hs hc operation h
  case doRecv operation _ h   =>
    obtain ⟨_, hset, rfl, _⟩ := doRecv_ok h
    refine .heap (setContext_hands hset ?_) rfl rfl
    simp [(c.doRecv_frame m.bufferSize c.wsabuf.buf p.dwBytesTransfered).left, operation]
  case doSend operation _ h   =>
    obtain ⟨_, _, hs, hset, rfl, _⟩ := doSend_ok h
    refine .heap (setContext_hands hset ?_) rfl rfl
    simp [hs.left, operation]
  case exit h                 =>
    obtain ⟨_, _, hd, rfl, _⟩ := exitThread_ok h
    exact .heap (.deleteSocketContext hd) rfl rfl
  all_goals exact .same rfl rfl rfl

theorem run_hands (hw : m.Wired) (hs : m.Sockets) (ht : task.Typed m)
    (h : m.run worker first second task = .ok (m', new)) : m.Hands m' := by
  cases task
  case dispatch p =>
    obtain ⟨c, hc, hd⟩ := dispatch_ok h
    exact dispatched_hands hw hs hc hd
  case insert =>
    obtain ⟨_, _, rfl, _⟩ := insert_ok h
    exact .same rfl rfl rfl
  case process =>
    obtain ⟨_, _, rfl, _⟩ := process_ok h
    exact .same rfl rfl rfl
  case postAccept pIC _ _ =>
    obtain ⟨_, c', heap, _, hset, ⟨_, _, hsocket⟩, hm, _⟩ := repost_ok h
    have hheap : heap = m'.toContextHeap := congrArg Module.toContextHeap hm
    obtain ⟨contexts, hw', he⟩ := ContextHeap.setContext_ok.mp hset
    obtain ⟨hb, _⟩ := Memory.write_eq_some hw'
    refine .created pIC (fun {b k} ⟨c₁, hc₁, ho₁, hk⟩ => ?_) (fun h => ?_) (congrArg Module.keys hm).symm
      (congrArg Module.nextSocket hm).symm
    · rw [← hheap, ← he, hb, Function.update_apply] at hc₁
      split at hc₁
      case isTrue hb =>
        cases hc₁
        exact .inr ⟨hb, hsocket.symm.trans hk⟩
      case isFalse => exact .inl ⟨c₁, hc₁, ho₁, hk⟩
    · rw [← hheap, ← he] at h
      exact h
  case removeIOCPContext =>
    obtain ⟨_, _, _, hr, rfl, _⟩ := remove_ok h
    exact .heap (.removeIOCPContext hr) rfl rfl
  case doRecv =>
    obtain ⟨_, _, ⟨_, _, _, rfl, _⟩ | ⟨_, _, hset, rfl, _⟩⟩ := callback_ok h
    · exact .same rfl rfl rfl
    · exact .heap (setContext_hands hset nofun) rfl rfl
  case doSend =>
    rcases perform_ok h with ⟨_, rfl, _⟩ | ⟨_, _, _, _, _, h⟩
    · exact .same rfl rfl rfl
    · rcases h with ⟨_, _, rfl, _⟩ | ⟨_, _, rfl, _⟩ | ⟨_, _, _, hr, rfl, _⟩
      · exact .same rfl rfl rfl
      · exact .same rfl rfl rfl
      · exact .heap (.removeIOCPContext hr) rfl rfl
  case resent =>
    obtain ⟨hm, _⟩ := resent_ok h
    obtain ⟨_, _, _, hset, rfl⟩ := setOperation_ok.mp hm
    exact .heap (setContext_hands hset nofun) rfl rfl
  case sendError =>
    cases h
    exact .same rfl rfl rfl
  case postCloseConnection =>
    rcases postCloseConnection_ok h with ⟨rfl, _⟩ | ⟨sc, _, _, _, _, hsc, _, hset, hcreate, rfl, _⟩
    · exact .same rfl rfl rfl
    · refine .heap (.trans (.setSocketContext hset fun sc' hsc' => ?_) (.createIOCPContext hcreate nofun)) rfl rfl
      cases hsc.symm.trans hsc'
      rfl
  case doCloseConnection =>
    have hd := doCloseConnection_ok h
    clear h
    obtain ⟨_, ⟨_, rfl⟩ | ⟨_, _, _, hd, rfl⟩⟩ := hd
    · exact .same rfl rfl rfl
    · exact .heap (.deleteSocketContext hd) rfl rfl
  case find =>
    obtain ⟨rfl, _⟩ := find_ok h
    exact .same rfl rfl rfl
  case bind pSC _ =>
    rcases bindSocket_ok h with ⟨rfl, _⟩ | ⟨k, sc, _, _, hsc, hk, hn, hcreate, rfl, _⟩
    · exact .same rfl rfl rfl
    · have leaves := ContextHeap.Leaves.createIOCPContext hcreate nofun
      refine .bind k pSC leaves.waits (.inl ∘ leaves.has) rfl hn (fun j hj => ?_) (hs.has ⟨sc, hsc, hk⟩) rfl
      cases (hw.socket hj hsc).symm.trans hk
      exact absurd hn (hj ▸ Option.some_ne_none _)
  case publish =>
    obtain ⟨_, _, _, _, _, hset, hr, _, rfl, _⟩ := publish_ok h
    rcases hr with ⟨_, rfl⟩ | ⟨_, hr⟩
    · exact .heap (setContext_hands hset nofun) rfl rfl
    · exact .heap (.trans (setContext_hands hset nofun) (.removeIOCPContext hr)) rfl rfl
  case create =>
    obtain ⟨_, _, _, _, hcreate, rfl, _⟩ := create_ok h
    exact .heap (.createIOCPContext hcreate nofun) rfl rfl
  case postSend =>
    obtain ⟨_, _, rfl, _⟩ := postSend_ok h
    exact .same rfl rfl rfl
  case sent =>
    obtain ⟨hm, _⟩ := sent_ok h
    obtain ⟨_, _, _, hset, rfl⟩ := setOperation_ok.mp hm
    exact .heap (setContext_hands hset nofun) rfl rfl

theorem initIOCP_hands {standby : Nat} (h : m.initIOCP standby first second = .ok (m', new)) : m.Hands m' := by
  obtain ⟨heap, heap', heap'', pContext, c, c', hcreate, hc, ⟨_, _, hsocket⟩, hset, rfl, h⟩ := initIOCP_ok h
  obtain ⟨sc, c₀, hsc, _, rfl, hb, _, hb', _⟩ := ContextHeap.createIOCPContext_ok hcreate
  obtain ⟨contexts, hw, rfl⟩ := ContextHeap.setContext_ok.mp hset
  obtain ⟨hbw, _⟩ := Memory.write_eq_some hw
  have leaves : ContextHeap.Leaves { heap with contexts } heap'' := by
    rcases h with ⟨_, rfl, _⟩ | ⟨_, hr, _⟩
    · exact .refl _
    · exact .removeIOCPContext hr
  refine .created m.contexts.newAddress (fun {b k} hwaits => ?_) (fun {p k} hhas => ?_) rfl rfl
  · obtain ⟨c₁, hc₁, ho₁, hk⟩ := leaves.waits hwaits
    rw [hbw, hb, Function.update_idem, Function.update_apply] at hc₁
    split at hc₁
    case isTrue he =>
      cases hc₁
      exact .inr ⟨he, hsocket.symm.trans hk⟩
    case isFalse => exact .inl ⟨c₁, hc₁, ho₁, hk⟩
  · obtain ⟨sc₁, hsc₁, hk⟩ := leaves.has hhas
    rw [hb', Function.update_apply] at hsc₁
    split at hsc₁
    case isTrue hp =>
      cases hsc₁
      exact ⟨sc, hp ▸ hsc, hk⟩
    case isFalse => exact ⟨sc₁, hsc₁, hk⟩

theorem stopIOCP_hands (h : m.stopIOCP = .ok (m', new)) : m.Hands m' := by
  unfold stopIOCP at h
  split at h
  case h_1 =>
    cases h
    exact .same rfl rfl rfl
  case h_2 =>
    obtain ⟨_, _, hcreate, rfl, _⟩ := postExit_ok h
    have leaves : m.Leaves (m.newSocketContext none).1 :=
      ⟨id, fun h => (ContextHeap.has_newSocketContext h).resolve_right fun h => nomatch h.right⟩
    exact .heap (leaves.trans (.createIOCPContext hcreate nofun)) rfl rfl
  case h_3 =>
    cases h
    exact .same rfl rfl rfl
  case h_4 =>
    obtain ⟨sc, contexts, _, hsc, hd, hset, rfl, _⟩ := deleteStandby_ok h
    obtain ⟨_, hb⟩ := ContextHeap.deleteContexts_eq_some _ hd
    have leaves : m.Leaves { m.toContextHeap with contexts } := .of_deleted hb id
    refine .heap (leaves.trans (.setSocketContext hset fun sc' hsc' => ?_)) rfl rfl
    cases hsc.symm.trans hsc'
    rfl
  case h_5 => cases h

end Module

namespace State

variable {s s' : State} {a : Action} {used new rest : List Item} {m' : Module} {bufferSize : Int}
  {maxThreadNum threads standby : Nat} {actions : List Action}

theorem Stepped.hands (hv : s.Valid) (hs : s.Sockets) (h : s.Stepped a used m' new rest) :
    s.toModule.Hands m' := by
  cases h
  case initIOCP h  => exact Module.initIOCP_hands h
  case stopIOCP h  => exact Module.stopIOCP_hands h
  case destroy h   =>
    obtain ⟨_, _, hd, rfl, _⟩ := Module.destroy_ok h
    exact .heap (.deleteSocketContext hd) rfl rfl
  case connected   =>
    refine .connect id (fun h => ?_) rfl rfl
    exact (ContextHeap.has_newSocketContext h).imp id fun h => (Option.some.inj h.right).symm
  case unconnected => exact .keep (.refl _) rfl (Nat.le_succ _)
  case complete h  => exact Module.complete_hands h
  case run hi h    => exact Module.run_hands hv.wired hs (hv.typed _ (List.mem_of_getElem? hi)) h
  all_goals exact .same rfl rfl rfl

theorem start_sockets : (start bufferSize maxThreadNum threads standby).Sockets where
  waits := fun ⟨_, h, _⟩ => nomatch h
  has {p k} h := by
    let h₀ : ContextHeap := { contexts := .empty, socketContexts := .empty }
    rcases ContextHeap.has_newSocketContext (h := h₀) h with ⟨_, h, _⟩ | ⟨_, h⟩
    · exact nomatch h
    · cases h
      exact Nat.lt_succ_self _
  key h := by
    obtain ⟨rfl, _⟩ := start_key h
    exact Nat.lt_succ_self _
  one   := fun ⟨_, h, _⟩ => nomatch h
  apart := fun ⟨_, h, _⟩ => nomatch h
  inj h h' := by
    obtain ⟨rfl, _⟩ := start_key h
    obtain ⟨rfl, _⟩ := start_key h'
    rfl

end State
end Server8
