import Server8.IOCP.Simulation

-- The close of a connection: it is posted once and carried out once.

namespace Server8

open Runs

namespace Module

variable {m m' : Module} {new : List Item} {task : Task} {p : Completion} {c : IOCPContext}
  {worker first second : Bool}

section Packets

theorem packet_not_mem_posted {keys : Socket → Option Nat} {socket : Option Socket} {kind : Kind}
    {pIC : Nat} : .packet p ∉ posted keys socket kind pIC := by
  unfold posted
  split <;> simp

theorem dispatched_packet {m' : Module} {new : List Item} {q : Completion}
    (h : Dispatched m q c first second m' new) : .packet p ∉ new := by
  cases h
  case doAccept h =>
    rcases doAccept_ok h with ⟨_, rfl⟩ | ⟨_, _, _, _, _, _, _, _, rfl⟩ <;> simp
  case doRecv h =>
    obtain ⟨_, _, _, rfl⟩ := doRecv_ok h
    simp
  case doSend h =>
    obtain ⟨_, _, _, _, _, rfl⟩ := doSend_ok h
    simp
  case exit h =>
    obtain ⟨_, _, _, _, rfl⟩ := exitThread_ok h
    simp
  all_goals simp

-- The only packets that threads queue are the close requests.
theorem run_packet (h : m.run worker first second task = .ok (m', new)) (hp : .packet p ∈ new) :
    ∃ pSC receive, task = .postCloseConnection pSC receive := by
  cases task
  case dispatch =>
    obtain ⟨c, _, hd⟩ := dispatch_ok h
    exact absurd hp (dispatched_packet hd)
  case insert =>
    obtain ⟨_, _, _, rfl⟩ := insert_ok h
    simp at hp
  case process =>
    obtain ⟨_, _, _, rfl⟩ := process_ok h
    simp at hp
  case postAccept =>
    obtain ⟨_, _, _, _, _, _, _, rfl⟩ := repost_ok h
    split at hp <;> simp at hp
  case removeIOCPContext =>
    obtain ⟨_, _, _, _, _, rfl⟩ := remove_ok h
    simp at hp
  case doRecv =>
    obtain ⟨_, _, ⟨_, _, _, _, rfl⟩ | ⟨_, _, _, _, rfl⟩⟩ := callback_ok h
    · simp at hp
    · split at hp <;> simp [packet_not_mem_posted] at hp
  case doSend =>
    rcases perform_ok h with ⟨_, _, rfl⟩ | ⟨_, _, _, _, _, h⟩
    · split at hp <;> simp at hp
    · rcases h with ⟨_, _, _, rfl⟩ | ⟨_, _, _, rfl⟩ | ⟨_, _, _, _, _, rfl⟩
      · simp at hp
      · split at hp <;> simp [packet_not_mem_posted] at hp
      · simp at hp
  case resent =>
    obtain ⟨_, rfl⟩ := resent_ok h
    simp at hp
  case sendError =>
    cases h
    simp at hp
  case postCloseConnection pSC receive => exact ⟨pSC, receive, rfl⟩
  case doCloseConnection =>
    obtain ⟨rfl, _⟩ := doCloseConnection_ok h
    simp at hp
  case find =>
    rcases find_ok h with ⟨_, ⟨_, rfl⟩ | ⟨_, rfl⟩⟩ <;> simp at hp
  case bind =>
    rcases bindSocket_ok h with ⟨_, rfl⟩ | ⟨_, _, _, _, _, _, _, _, _, rfl⟩ <;> simp at hp
  case publish =>
    obtain ⟨_, _, _, _, _, _, _, _, _, rfl⟩ := publish_ok h
    split at hp <;> simp [packet_not_mem_posted] at hp
  case create =>
    obtain ⟨_, _, _, _, _, _, rfl⟩ := create_ok h
    simp at hp
  case postSend =>
    obtain ⟨_, _, _, rfl⟩ := postSend_ok h
    split at hp <;> simp [packet_not_mem_posted] at hp
  case sent =>
    obtain ⟨_, rfl⟩ := sent_ok h
    split at hp <;> simp at hp

end Packets

section Live

-- The connections in the map are not deleted.
def Live (m : Module) : Prop :=
  ∀ p, m.socketContextMap[p]? ≠ none → m.socketContexts.block p ≠ none

theorem Live.keep (hl : m.Live) (ha : m.Alive m'.toContextHeap)
    (map : m'.socketContextMap = m.socketContextMap) : m'.Live :=
  fun p hp => ha p (hl p (map ▸ hp))

theorem Live.insert {q : Nat} {socket : Option Socket} (hl : m.Live) (ha : m.Alive m'.toContextHeap)
    (map : m'.socketContextMap = m.socketContextMap.insertIfNew q socket)
    (hq : m'.socketContexts.block q ≠ none) : m'.Live := by
  intro p hp
  rw [map, member_iff, Std.TreeMap.mem_insertIfNew, Std.compare_eq_iff_eq, ← member_iff] at hp
  cases hp
  case inl hp => exact hp ▸ hq
  case inr hp => exact ha p (hl p hp)

theorem deleteSocketContext_alive {pSC : Nat} {heap : ContextHeap} {socket : Option Socket} {p : Nat}
    (hd : m.deleteSocketContext pSC = .ok (heap, socket)) (hne : p ≠ pSC)
    (hp : m.socketContexts.block p ≠ none) : heap.socketContexts.block p ≠ none := by
  obtain ⟨_, _, _, _, _, hb, _⟩ := ContextHeap.deleteSocketContext_ok hd
  rwa [hb, Function.update_of_ne hne]

theorem dispatched_alive (h : Dispatched m p c first second m' new) :
    (m.Alive m'.toContextHeap ∧ m'.socketContextMap = m.socketContextMap) ∨ c.operation = .exit ∧
      ∃ heap socket, m.deleteSocketContext p.pSC = .ok (heap, socket) ∧ m'.toContextHeap = heap ∧
        m'.socketContextMap = m.socketContextMap := by
  cases h
  case doAccept h =>
    rcases doAccept_ok h with ⟨rfl, _⟩ | ⟨_, heap, _, _, _, _, ⟨hb, _⟩, rfl, _⟩
    · exact .inl ⟨.refl _, rfl⟩
    · exact .inl ⟨.of_update hb, rfl⟩
  case doRecv h =>
    obtain ⟨_, hset, rfl, _⟩ := doRecv_ok h
    exact .inl ⟨.setContext hset, rfl⟩
  case doSend h =>
    obtain ⟨_, _, _, hset, rfl, _⟩ := doSend_ok h
    exact .inl ⟨.setContext hset, rfl⟩
  case exit ho h =>
    obtain ⟨heap, socket, hd, rfl, _⟩ := exitThread_ok h
    exact .inr ⟨ho, heap, socket, hd, rfl, rfl⟩
  all_goals exact .inl ⟨.refl _, rfl⟩

-- Only a context without a socket is deleted while it is in the map's reach.
theorem run_live (hw : m.Wired) (ht : task.Typed m)
    (bound : ∀ p, m.socketContextMap[p]? ≠ none → (∃ k, m.keys k = some p) ∧ p ≠ listening)
    (hl : m.Live)
    (h : m.run worker first second task = .ok (m', new)) : m'.Live := by
  cases task
  case dispatch q =>
    obtain ⟨c, hc, hd⟩ := dispatch_ok h
    rcases dispatched_alive hd with ⟨ha, map⟩ | ⟨ho, heap, socket, hdel, rfl, map⟩
    · exact hl.keep ha map
    · intro p hp
      rw [map] at hp
      refine deleteSocketContext_alive hdel (fun he => ?_) (hl p hp)
      obtain ⟨⟨k, hk⟩, _⟩ := bound p hp
      obtain ⟨sc, hsc, _⟩ := ContextHeap.deleteSocketContext_ok hdel
      have hkind : q.kind = .exit := by
        have := (ht.holds.operation c hc).symm.trans ho
        cases hq : q.kind <;> simp [hq, Kind.operation] at this ⊢
      have := hw.socket (he ▸ hk) hsc
      simp [(ht.holds.exit hkind).right sc hsc] at this
  case insert =>
    obtain ⟨sc, hsc, rfl, _⟩ := insert_ok h
    exact hl.insert (.refl _) rfl (by simp [hsc])
  case process =>
    obtain ⟨_, _, rfl, _⟩ := process_ok h
    exact hl
  case postAccept =>
    obtain ⟨_, _, heap, _, hset, _, rfl, _⟩ := repost_ok h
    exact hl.keep (.setContext hset) rfl
  case removeIOCPContext =>
    obtain ⟨_, heap, _, hr, rfl, _⟩ := remove_ok h
    exact hl.keep (.removeIOCPContext hr) rfl
  case doRecv =>
    obtain ⟨_, _, ⟨_, _, _, rfl, _⟩ | ⟨_, heap, hset, rfl, _⟩⟩ := callback_ok h
    · exact hl
    · exact hl.keep (.setContext hset) rfl
  case doSend =>
    rcases perform_ok h with ⟨_, rfl, _⟩ | ⟨_, _, _, _, _, h⟩
    · exact hl
    · rcases h with ⟨_, _, rfl, _⟩ | ⟨_, _, rfl, _⟩ | ⟨_, heap, _, hr, rfl, _⟩
      · exact hl
      · exact hl
      · exact hl.keep (.removeIOCPContext hr) rfl
  case resent =>
    obtain ⟨hm, _⟩ := resent_ok h
    obtain ⟨_, _, _, hset, rfl⟩ := setOperation_ok.mp hm
    exact hl.keep (.setContext hset) rfl
  case sendError =>
    cases h
    exact hl
  case postCloseConnection =>
    rcases postCloseConnection_ok h with ⟨rfl, _⟩ | ⟨_, _, heap, _, _, _, _, hset, hcreate, rfl, _⟩
    · exact hl
    · exact hl.keep (.trans (.setSocketContext hset) (.createIOCPContext hcreate)) rfl
  case doCloseConnection pSC own =>
    obtain ⟨_, ⟨_, rfl⟩ | ⟨heap, socket, _, hdel, rfl⟩⟩ := doCloseConnection_ok h
    · exact hl
    · intro p hp
      rw [member_iff, done, Std.TreeMap.mem_erase, ne_eq, Std.compare_eq_iff_eq, ← member_iff] at hp
      exact deleteSocketContext_alive hdel (Ne.symm hp.left) (hl p hp.right)
  case find =>
    obtain ⟨rfl, _⟩ := find_ok h
    exact hl
  case bind =>
    rcases bindSocket_ok h with ⟨rfl, _⟩ | ⟨_, _, heap, _, _, _, _, hcreate, rfl, _⟩
    · exact hl
    · exact hl.keep (.createIOCPContext hcreate) rfl
  case publish =>
    obtain ⟨_, sc, heap, heap', _, hset, hheap, hsc, rfl, _⟩ := publish_ok h
    refine hl.insert ?_ rfl (by simp [hsc])
    rcases hheap with ⟨_, rfl⟩ | ⟨_, hr⟩
    · exact .setContext hset
    · exact .trans (.setContext hset) (.removeIOCPContext hr)
  case create =>
    obtain ⟨_, heap, _, _, hcreate, rfl, _⟩ := create_ok h
    exact hl.keep (.createIOCPContext hcreate) rfl
  case postSend =>
    obtain ⟨_, _, rfl, _⟩ := postSend_ok h
    exact hl
  case sent =>
    obtain ⟨hm, _⟩ := sent_ok h
    obtain ⟨_, _, _, hset, rfl⟩ := setOperation_ok.mp hm
    exact hl.keep (.setContext hset) rfl

theorem stopIOCP_live (hl : m.Live) (h : m.stopIOCP = .ok (m', new)) : m'.Live := by
  unfold stopIOCP at h
  split at h
  case h_1 =>
    cases h
    exact hl
  case h_2 =>
    obtain ⟨heap, pIC, hcreate, rfl, _⟩ := postExit_ok h
    exact hl.keep (.trans (.newSocketContext m.toContextHeap none) (.createIOCPContext hcreate)) rfl
  case h_3 =>
    cases h
    exact hl
  case h_4 =>
    obtain ⟨sc, contexts, heap, hsc, hd, hset, rfl, _⟩ := deleteStandby_ok h
    exact hl.keep (.setSocketContext (h := { m.toContextHeap with contexts }) hset) rfl
  case h_5 => cases h

end Live

end Module

def Kind.isClose : Kind → Bool
  | .close _ => true
  | _        => false

-- A close packet of a context in the queue.
def Item.closes (pSC : Nat) : Item → Bool
  | .packet p => p.kind.isClose && p.pSC == pSC
  | _         => false

namespace State

variable {s s' : State} {a : Action} {used new rest : List Item} {m' : Module}

section Live

theorem live_step (hv : s.Valid) (hl : s.Live) (h : s.step a = .ok s') : s'.Live := by
  obtain ⟨used, m', new, rest, hs, rfl⟩ := step_ok h
  clear h
  cases hs
  case initIOCP h =>
    obtain ⟨_, _, heap, _, _, _, hcreate, _, _, hset, rfl, ⟨_, rfl, _⟩ | ⟨_, hr, _⟩⟩ :=
      Module.initIOCP_ok h
    · exact hl.keep (.trans (.createIOCPContext hcreate) (.setContext hset)) rfl
    · exact hl.keep (.trans (.createIOCPContext hcreate)
        (.trans (.setContext hset) (.removeIOCPContext hr))) rfl
  case stopIOCP h => exact Module.stopIOCP_live hl h
  case destroy h  =>
    obtain ⟨heap, socket, hd, rfl, _⟩ := Module.destroy_ok h
    refine fun p hp => Module.deleteSocketContext_alive hd (fun he => ?_) (hl p hp)
    exact hv.apart.member (he ▸ hp)
  case connected  => exact hl.keep (.newSocketContext s.toContextHeap _) rfl
  case complete h =>
    rcases Module.complete_ok h with ⟨rfl, _⟩ | ⟨_, _, _, _, _, hset, rfl, _⟩ | ⟨_, _, rfl, _⟩
    · exact hl
    · exact hl.keep (.setContext hset) rfl
    · exact hl
  case run hi h => exact Module.run_live hv.wired (hv.typed _ (List.mem_of_getElem? hi)) hv.bound hl h
  all_goals exact hl

end Live

section Close

variable {bufferSize : Int} {maxThreadNum threads standby : Nat} {actions : List Action}

-- How many close packets of the context the step puts into the queue.
def queuesClose (pSC : Nat) (s : State) (_ : Action) (s' : State) : Nat :=
  s'.items.countP (Item.closes pSC) - s.items.countP (Item.closes pSC)

-- Whether `doCloseConnection` finds the context in the map in the step, and deletes it.
def deletes (pSC : Nat) (s : State) (a : Action) (_ : State) : Nat :=
  match a with
  | .run i _ _ =>
    match s.items[i]? with
    | some (.thread _ (.doCloseConnection q _)) =>
      if q = pSC ∧ s.socketContextMap[pSC]? ≠ none then 1 else 0
    | _ => 0
  | _          => 0

-- A step that queues a close packet is one of `postCloseConnection`.
theorem close_of_mem {p : Completion} (hv : s.Valid) (hs : s.Stepped a used m' new rest)
    (hp : .packet p ∈ new) (hk : p.kind.isClose = true) :
    new = [.packet p] ∧ ∃ worker pSC receive, used = [.thread worker (.postCloseConnection pSC receive)] := by
  cases hs
  case initIOCP h =>
    obtain ⟨_, _, _, _, _, _, _, _, _, _, _, ⟨_, _, rfl⟩ | ⟨_, _, rfl⟩⟩ := Module.initIOCP_ok h
    · simp at hp
    · simp at hp
  case stopIOCP h =>
    unfold Module.stopIOCP at h
    split at h
    case h_2 =>
      obtain ⟨_, _, _, _, rfl⟩ := Module.postExit_ok h
      unfold Module.PostQueuedCompletionStatus at hp
      split at hp
      case isFalse => simp at hp
      case isTrue  =>
        rw [List.mem_singleton, Item.packet.injEq] at hp
        simp [hp, Kind.isClose] at hk
    case h_4 =>
      obtain ⟨_, _, _, _, _, _, _, rfl⟩ := Module.deleteStandby_ok h
      simp at hp
    all_goals
      cases h
      try simp at hp
  case destroy h =>
    obtain ⟨_, _, _, _, rfl⟩ := Module.destroy_ok h
    simp at hp
  case complete kind pSC pIC hi h =>
    have hkind := (hv.typed _ (List.mem_of_getElem? hi)).left
    have : p.kind = kind := by
      rcases Module.complete_ok h with ⟨_, rfl⟩ | ⟨_, _, _, _, _, _, _, rfl⟩ | ⟨_, _, _, rfl⟩ <;>
        simp at hp <;> simp [hp]
    rcases hkind with rfl | rfl | rfl <;> simp [this, Kind.isClose] at hk
  case run worker task hi h =>
    obtain ⟨pSC, receive, rfl⟩ := Module.run_packet h hp
    refine ⟨?_, worker, pSC, receive, rfl⟩
    rcases Module.postCloseConnection_ok h with ⟨_, rfl, _⟩ | ⟨_, _, _, _, _, _, _, _, _, _, rfl⟩
    · simp at hp
    · unfold Module.PostQueuedCompletionStatus at hp ⊢
      split at hp
      case isFalse => simp at hp
      case isTrue hc =>
        rw [if_pos hc]
        rw [List.mem_singleton] at hp
        rw [hp]
  all_goals simp at hp

theorem queuesClose_eq_zero {pSC : Nat} (hp : s.items.Perm (used ++ rest))
    (hn : ∀ item ∈ new, item.closes pSC = false) :
    queuesClose pSC s a { m' with items := new ++ rest } = 0 := by
  have hn : new.countP (Item.closes pSC) = 0 := List.countP_eq_zero.mpr fun item hm => by simp [hn item hm]
  simp only [queuesClose, hp.countP_eq, List.countP_append, hn]
  omega

-- A close packet is queued only for a connection that is open, which is closed then.
theorem queuesClose_step {pSC : Nat} (hv : s.Valid) (h : s.step a = .ok s')
    (hq : queuesClose pSC s a s' ≠ 0) :
    queuesClose pSC s a s' ≤ 1 ∧ s.ledger.member pSC ∧ ¬s.ledger.closed pSC ∧ s'.ledger.closed pSC := by
  have ⟨_, hl⟩ := hv.step_ledger False False.elim h
  obtain ⟨used, m', new, rest, hs, rfl⟩ := step_ok h
  clear h
  have hp := hs.perm
  by_cases hn : ∀ item ∈ new, item.closes pSC = false
  case pos => exact absurd (queuesClose_eq_zero hp hn) hq
  case neg =>
    simp only [not_forall, Bool.not_eq_false] at hn
    obtain ⟨item, hmem, hc⟩ := hn
    cases item
    case operation => simp [Item.closes] at hc
    case thread    => simp [Item.closes] at hc
    case packet p  =>
      simp only [Item.closes, Bool.and_eq_true, beq_iff_eq] at hc
      obtain ⟨rfl, worker, q, receive, rfl⟩ := close_of_mem hv hs hmem hc.left
      refine ⟨?_, ?_⟩
      · simp only [queuesClose, hp.countP_eq, List.countP_append, List.countP_singleton]
        split <;> omega
      · cases hk : p.kind
        case close own =>
          apply hl.closes own
          rw [ledger, ledger_congr _ hp]
          cases receive <;>
            simp [Module.ledger, Item.tokens, Task.tokens, hk, Kind.tokens, hc.right]
        all_goals simp [hk, Kind.isClose] at hc

theorem queuesClose_total (pSC : Nat) (hv : s.Valid) :
    Runs.total step (queuesClose pSC) s actions ≤ 1 := by
  classical
  let stock (s : State) : Nat := if s.ledger.bound pSC ∧ s.ledger.closed pSC then 0 else 1
  have hle : stock s ≤ 1 := by
    simp only [stock]
    split <;> omega
  refine Nat.le_trans (total_le (I := Valid) (φ := stock) hv fun s a s' hv h => ⟨hv.step h, ?_⟩) hle
  have ⟨lasts, _⟩ := hv.step_ledger False False.elim h
  by_cases hq : queuesClose pSC s a s' = 0
  case pos =>
    rw [hq, Nat.zero_add]
    simp only [stock]
    split
    case isTrue => exact Nat.zero_le _
    case isFalse hn =>
      rw [if_neg fun ⟨hb, hc⟩ => hn ⟨lasts.bound hb, lasts.closed hb hc⟩]
  case neg =>
    obtain ⟨hle, hm, hn, hc⟩ := queuesClose_step hv h hq
    have hb := lasts.bound ((hv.ok pSC).bound (.inr hm))
    simp only [stock]
    rw [if_pos ⟨hb, hc⟩, if_neg fun h => hn h.right]
    exact hle

theorem deletes_step (pSC : Nat) (hl : s.Live) (h : s.step a = .ok s') :
    deletes pSC s a s' = 0 ∨ deletes pSC s a s' = 1 ∧
      s.socketContexts.block pSC ≠ none ∧ s'.socketContexts.block pSC = none := by
  obtain ⟨used, m', new, rest, hs, rfl⟩ := step_ok h
  cases hs
  case run i first second worker task hi h =>
    cases task
    case doCloseConnection q own =>
      have hd : ∀ s', deletes pSC s (.run i first second) s' =
          if q = pSC ∧ s.socketContextMap[pSC]? ≠ none then 1 else 0 := fun _ => by simp only [deletes, hi]
      rw [hd]
      split
      case isFalse   => exact .inl rfl
      case isTrue hq =>
        obtain ⟨rfl, hm⟩ := hq
        refine .inr ⟨rfl, hl q hm, ?_⟩
        obtain ⟨_, ⟨hn, _⟩ | ⟨_, _, _, hdel, rfl⟩⟩ := Module.doCloseConnection_ok h
        · exact absurd hn hm
        · obtain ⟨_, _, _, _, _, hb, _⟩ := ContextHeap.deleteSocketContext_ok hdel
          simp [Module.done, hb]
    all_goals exact .inl (by simp only [deletes, hi])
  all_goals exact .inl rfl

-- A context that was deleted is in the map no more.
theorem deletes_total (pSC : Nat) (hv : s.Valid) (hl : s.Live) :
    Runs.total step (deletes pSC) s actions ≤ 1 := by
  let stock (s : State) : Nat :=
    if s.socketContexts.block pSC = none ∧ pSC < s.socketContexts.newAddress then 0 else 1
  have hle : stock s ≤ 1 := by
    simp only [stock]
    split <;> omega
  refine Nat.le_trans (total_le (I := fun s => s.Valid ∧ s.Live) (φ := stock) ⟨hv, hl⟩
    fun s a s' ⟨hv, hl⟩ h => ⟨⟨hv.step h, live_step hv hl h⟩, ?_⟩) hle
  obtain ⟨used, new, rest, hp, hi, hs⟩ := step_sim False hv False.elim h
  have hk := hs.keeps.heap.socketContexts
  cases deletes_step pSC hl h
  case inl hd =>
    rw [hd, Nat.zero_add]
    simp only [stock]
    split
    case isTrue => exact Nat.zero_le _
    case isFalse hn =>
      rw [if_neg]
      intro ⟨hb, hlt⟩
      refine hn ⟨?_, Nat.lt_of_lt_of_le hlt hk.le⟩
      cases hb' : s'.socketContexts.block pSC
      case none    => rfl
      case some sc =>
        obtain ⟨_, hb', _⟩ := hk.kept hlt hb'
        simp [hb'] at hb
  case inr hd =>
    obtain ⟨hd, hb, hb'⟩ := hd
    obtain ⟨sc, hsc⟩ := Option.ne_none_iff_exists'.mp hb
    have hlt := Nat.lt_of_lt_of_le (Memory.lt_newAddress hsc) hk.le
    simp only [stock]
    rw [if_pos ⟨hb', hlt⟩, if_neg (by simp [hsc]), hd]

theorem live_start : (start bufferSize maxThreadNum threads standby).Live := by
  intro p hp
  simp [start] at hp

-- Over a whole run one close packet is queued for a connection at most, `doCloseConnection` finds it in the
-- map and deletes it at most once, and while the packet is in the queue the connection is in the map and closing.
theorem close_once
    (h : Runs.run step (start bufferSize maxThreadNum threads standby) actions = .ok s') :
    (∀ pSC, Runs.total step (queuesClose pSC) (start bufferSize maxThreadNum threads standby)
        actions ≤ 1 ∧
      Runs.total step (deletes pSC) (start bufferSize maxThreadNum threads standby) actions ≤ 1) ∧
    ∀ p, .packet p ∈ s'.items → p.kind.isClose = true →
      s'.socketContextMap[p.pSC]? ≠ none ∧
        ∃ sc, s'.socketContexts.block p.pSC = some sc ∧ sc.closeFlag = true := by
  refine ⟨fun pSC => ⟨queuesClose_total pSC .start, deletes_total pSC .start live_start⟩, fun p hp hk => ?_⟩
  obtain ⟨hv, hl⟩ : s'.Valid ∧ s'.Live := by
    exact invariant (I := fun s => s.Valid ∧ s.Live) ⟨.start, live_start⟩ along_true
      (fun _ _ _ hi _ h => ⟨hi.left.step h, live_step hi.left hi.right h⟩) h
  cases hkind : p.kind
  case close own =>
    have hpos : 0 < s'.ledger.tokens (.close p.pSC own) := by
      refine List.count_pos_iff.mpr (List.mem_flatMap.mpr ⟨_, hp, ?_⟩)
      simp [Item.tokens, hkind, Kind.tokens]
    obtain ⟨hm, hc⟩ := (hv.ok p.pSC).leaves (by cases own <;> omega)
    obtain ⟨sc, hsc⟩ := Option.ne_none_iff_exists'.mp (hl p.pSC hm)
    exact ⟨hm, sc, hsc, hc sc hsc⟩
  all_goals simp [hkind, Kind.isClose] at hk

-- A connection whose first receive fails.
def failed : List Action := [
  .initIOCP true true, .initIOCP true true, .complete 0 (.received [1]),
  .getQueuedCompletionStatus (some 0), .run 0 true true, .run 0 true true, .run 0 true true,
  .complete 1 .failed, .getQueuedCompletionStatus (some 0), .run 0 true true, .run 0 true true]

theorem close_once_failed :
    ∃ s', Runs.run step (start 8192 1 1 1) failed = .ok s' ∧ s'.items.any (Item.closes 2) = true ∧
      Runs.total step (queuesClose 2) (start 8192 1 1 1) failed ≤ 1 := by
  obtain ⟨s', h, hc⟩ : ∃ s', Runs.run step (start 8192 1 1 1) failed = .ok s' ∧
      s'.items.any (Item.closes 2) = true := exists_ok (by decide +kernel)
  exact ⟨s', h, hc, ((close_once h).left 2).left⟩

end Close

end State
end Server8
