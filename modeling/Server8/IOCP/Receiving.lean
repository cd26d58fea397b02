import Server8.IOCP.Simulation

-- The receive of a connection: who has it while the connection is open.

namespace Server8

open Runs

-- A receive of the context that is outstanding, completed, or in the hands of a worker that will post
-- it again or ask for the close.
def Item.receives (pSC : Nat) : Item → Bool
  | .operation .recv q _                    => q == pSC
  | .packet p                               => p.kind == .recv && p.pSC == pSC
  | .thread _ (.dispatch p)                 => p.kind == .recv && p.pSC == pSC
  | .thread _ (.doRecv q _ _ _ _)           => q == pSC
  | .thread _ (.postCloseConnection q true) => q == pSC
  | _                                       => false

namespace State

variable {s s' : State} {a : Action} {bufferSize : Int} {maxThreadNum threads standby : Nat}
  {actions : List Action} {pSC : Nat}

-- Every connection that is in the map and not closing has one receive.
def Received (s : State) : Prop :=
  ∀ pSC sc, s.socketContextMap[pSC]? ≠ none → s.socketContexts.block pSC = some sc →
    sc.closeFlag = false → s.items.countP (Item.receives pSC) = 1

-- Only `sendData` has a receive before it is posted.
theorem count_receives (item : Item) (h : Token.insert pSC ∉ item.tokens) :
    item.tokens.count (.receive pSC) = if item.receives pSC then 1 else 0 := by
  cases item
  case operation kind q pIC =>
    cases kind <;> simp [Item.tokens, Kind.tokens, Item.receives, List.count_singleton]
  case packet p             =>
    cases hk : p.kind <;> simp [Item.tokens, Kind.tokens, Item.receives, hk, List.count_singleton]
  case thread worker task   =>
    cases task
    case dispatch p =>
      cases hk : p.kind <;>
        simp [Item.tokens, Task.tokens, Kind.tokens, Item.receives, hk, List.count_singleton]
    case postCloseConnection q receive =>
      cases receive <;> simp [Item.tokens, Task.tokens, Item.receives, List.count_singleton]
    case publish q pIC data =>
      have hne : q ≠ pSC := fun he => h (by simp [Item.tokens, Task.tokens, he])
      simp [Item.tokens, Task.tokens, Item.receives, hne]
    all_goals simp [Item.tokens, Task.tokens, Item.receives, List.count_singleton]

theorem countP_receives {items : List Item} (h : Token.insert pSC ∉ items.flatMap Item.tokens) :
    items.countP (Item.receives pSC) = (items.flatMap Item.tokens).count (.receive pSC) := by
  induction items
  case nil => rfl
  case cons item items ih =>
    rw [List.flatMap_cons, List.mem_append, not_or] at h
    rw [List.countP_cons, List.flatMap_cons, List.count_append, count_receives item h.left, ih h.right,
      Nat.add_comm]

theorem Valid.received (hv : s.Valid) (ho : ∀ p, s.ledger.Open p) : s.Received := by
  intro p sc hm hsc hf
  have hopen := ho p (.inr hm) fun hc => by simp [hc sc hsc] at hf
  have hok := hv.ok p
  have hi : s.ledger.tokens (.insert p) = 0 :=
    Nat.eq_zero_of_not_pos fun hi => hok.enters hi hm
  rw [countP_receives (List.count_eq_zero.mp hi)]
  exact Nat.le_antisymm hok.receive hopen

theorem received_along
    (hg : Along step (keepsReceives · ·) (start bufferSize maxThreadNum threads standby) actions)
    (h : Runs.run step (start bufferSize maxThreadNum threads standby) actions = .ok s') :
    s'.Received := by
  obtain ⟨hv, ho⟩ : s'.Valid ∧ ∀ p, s'.ledger.Open p := by
    refine invariant (I := fun s => s.Valid ∧ ∀ p, s.ledger.Open p) ⟨.start, fun p h => ?_⟩ hg
      (fun s a s' hi hc hs => ⟨hi.left.step hs, fun p => ?_⟩) h
    · simp [start, ledger, Module.ledger] at h
    · obtain ⟨lasts, hl⟩ := hi.left.step_ledger True (fun _ => hc) hs
      exact (hi.right p).step (hi.left.ok p) lasts hl
  exact hv.received ho

-- A connection that is accepted.
def accepted : List Action := [
  .initIOCP true true, .initIOCP true true, .complete 0 (.received [1]),
  .getQueuedCompletionStatus (some 0), .run 0 true true, .run 0 true true, .run 0 true true]

theorem received_accepted :
    ∃ s', Runs.run step (start 8192 1 1 1) accepted = .ok s' ∧ s'.socketContextMap[2]? ≠ none ∧
      s'.Received := by
  have hg : Along step (keepsReceives · ·) (start 8192 1 1 1) accepted := by decide +kernel
  obtain ⟨s', h, hm⟩ : ∃ s', Runs.run step (start 8192 1 1 1) accepted = .ok s' ∧
      s'.socketContextMap[2]? ≠ none := exists_ok (by decide +kernel)
  exact ⟨s', h, hm, received_along hg h⟩

-- The first receive of a connection from `createConnectContext` fails.
def unreceived : List Action := [
  .initIOCP true true, .initIOCP true true, .createConnectContext true, .sendData 2 [1],
  .run 0 true true, .run 0 true true, .run 0 false true]

theorem unreceived_not_received : ¬∀ actions s',
    Runs.run step (start 8192 1 1 1) actions = .ok s' → s'.Received := by
  intro hr
  obtain ⟨s', h, hm, ⟨sc, hsc, hf⟩, hn⟩ : ∃ s', Runs.run step (start 8192 1 1 1) unreceived = .ok s' ∧
      s'.socketContextMap[2]? ≠ none ∧ (∃ sc ∈ s'.socketContexts.block 2, sc.closeFlag = false) ∧
      s'.items.countP (Item.receives 2) = 0 := exists_ok (by decide +kernel)
  have := hr _ s' h 2 sc hm hsc hf
  exact absurd (hn.symm.trans this) (by decide)

end State
end Server8
