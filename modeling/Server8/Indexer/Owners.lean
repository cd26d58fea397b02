import Server8.Indexer.Coverage

-- Who has the items of Indexer3.cpp, and who has the lock of the indexer.

namespace Server8

namespace Indexer3

variable {s s' : State} {i j : Nat} {f f' : Frame} {count : Int} {p : Nat} {item : ArgItem}

-- A run has its item, and the next one until it is submitted. Nobody has an item that is not needed for
-- another identifier.
def Frame.own (f : Frame) : List Nat :=
  match f.pc with
  | .acquire   => [f.parg, f.pItem]
  | .test      => [f.parg, f.pItem]
  | .increment => [f.parg, f.pItem]
  | .submit    => [f.parg, f.pItem]
  | _          => [f.parg]

def State.owners (s : State) : Multiset Nat :=
  s.dispatcher.custody (fun p => [p]) Frame.own

-- A fetch does not fail.
def Connects (s : State) : Action → Prop
  | .run i count => ∀ f ∈ s.dispatcher.frame i, f.pc = .getData → count ≠ -1
  | _            => True

instance (s : State) : (a : Action) → Decidable (Connects s a)
  | .run _ _       => inferInstanceAs (Decidable (∀ _ ∈ _, _))
  | .deployIndexer => inferInstanceAs (Decidable True)
  | .workThread _  => inferInstanceAs (Decidable True)

section Owners

theorem mem_own (f : Frame) : f.parg ∈ f.own := by
  unfold Frame.own
  split <;> simp

theorem owners_goto (hf : s.frame i = some f) (f' : Frame) :
    (s.goto i f').owners + f.own = s.owners + f'.own :=
  s.dispatcher.custody_setFrame (fun p => [p]) Frame.own hf f'

theorem owners_goto_eq (hf : s.frame i = some f) (ho : f'.own = f.own) : (s.goto i f').owners = s.owners := by
  have := owners_goto hf f'
  rwa [ho, add_left_inj] at this

theorem owners_submitEvent (h : s.dispatcher.Serves "func" ⟨⟩) (p : Nat) :
    (s.submitEvent p).owners = s.owners + {p} :=
  h.custody_submitEvent (fun p => [p]) Frame.own p

theorem owners_returned (hf : s.frame i = some f) (hs : s.returned i = .ok s') : s'.owners + f.own = s.owners := by
  obtain ⟨d, hd, rfl⟩ := State.returned_ok hs
  exact s.dispatcher.custody_returned (fun p => [p]) Frame.own hf hd

end Owners

section Lock

-- The lock is with the worker that is in the section that it guards.
structure Guarded (s : State) : Prop where
  locked : ∀ j f, s.frame j = some f → (f.pc.Locked ↔ s.indexer.lock = some j)
  held   : s.Held

theorem Guarded.mono (h : Guarded s) (hframe : ∀ j, s'.frame j = s.frame j)
    (hl : s'.indexer.lock = s.indexer.lock) : Guarded s' where
  locked j f hf := hl ▸ h.locked j f ((hframe j).symm.trans hf)
  held j hj     := (congrArg Option.isSome (hframe j)).trans (h.held j (hl ▸ hj))

theorem Guarded.goto (h : Guarded s) (hf : s.frame i = some f) (hpc : f'.pc.Locked ↔ f.pc.Locked) :
    Guarded (s.goto i f') where
  locked    := forall_goto hf (hpc.trans (h.locked i f hf)) fun j g hg _ => h.locked j g hg
  held j hj := by
    rw [frame_goto hf]
    split
    case isTrue  => rfl
    case isFalse => exact h.held j hj

-- A run gets the lock or gives it back.
theorem Guarded.setLock {lock : Option Nat} (h : Guarded s) (hf : s.frame i = some f)
    (hl : s.indexer.lock = none ∨ s.indexer.lock = some i) (hl' : lock = none ∨ lock = some i)
    (hpc : f'.pc.Locked ↔ lock = some i) :
    Guarded ({ s with indexer := { s.indexer with lock } }.goto i f') where
  locked := by
    refine forall_goto (s := { s with indexer := { s.indexer with lock } }) hf hpc fun j g hg hij => ?_
    exact iff_of_false (mt (h.locked j g hg).mp (unlocked_of hl hij))
      (unlocked_of (s := { s with indexer := { s.indexer with lock } }) hl' hij)
  held j hj := by
    have hij : i = j := by
      by_contra hij
      exact unlocked_of (s := { s with indexer := { s.indexer with lock } }) hl' hij hj
    exact Option.isSome_iff_exists.mpr ⟨f', (frame_goto hf f' j).trans (if_pos hij)⟩

theorem Guarded.returned (h : Guarded s) (hf : s.frame i = some f) (hpc : ¬f.pc.Locked)
    (hs : s.returned i = .ok s') : Guarded s' := by
  have hl : s.indexer.lock ≠ some i := mt (h.locked i f hf).mpr hpc
  obtain ⟨d, hd, rfl⟩ := State.returned_ok hs
  constructor
  case locked => exact forall_returned hs fun j g hg _ => h.locked j g hg
  case held   =>
    intro j hj
    have hij : i ≠ j := fun hij => hl (hij ▸ hj)
    exact (congrArg Option.isSome ((EventDispatcher.frame_returned hd j).trans (if_neg hij))).trans (h.held j hj)

theorem Guarded.run (h : Guarded s) (hf : s.frame i = some f) (hr : s.Ran i f count s') : Guarded s' := by
  have hi := h.locked i f hf
  cases hr
  case getData hpc           => exact h.goto hf (by simp [hpc, Pc.Locked])
  case retry hpc _           =>
    exact (h.mono (frame_submitEvent s f.parg) rfl).goto ((frame_submitEvent ..).trans hf) (by simp [hpc, Pc.Locked])
  case empty hpc _ hs        =>
    exact (h.mono (frame_submitEvent s f.parg) rfl).returned ((frame_submitEvent ..).trans hf)
      (by simp [hpc, Pc.Locked]) hs
  case branch hpc _ _        => exact h.goto hf (by simp [hpc, Pc.Locked])
  case parse hpc             =>
    have hmono : Guarded { s with heap := (s.heap.alloc {}).2 } := h.mono (fun _ => rfl) rfl
    exact hmono.goto hf (by simp [hpc, Pc.Locked])
  case acquire hpc hl        => exact h.setLock hf (.inl hl) (.inr rfl) (iff_of_true trivial rfl)
  case next hpc _            => exact h.goto hf (by simp [hpc, Pc.Locked])
  case last hpc _            => exact h.goto hf (by simp [hpc, Pc.Locked])
  case increment hpc         =>
    have hmono : Guarded { s with indexer := { s.indexer with currentID := s.indexer.currentID + 1 } } :=
      h.mono (fun _ => rfl) rfl
    exact hmono.goto hf (by simp [hpc, Pc.Locked])
  case submit heap hpc _     =>
    have hmono : Guarded ({ s with heap }.submitEvent f.pItem) :=
      h.mono (frame_submitEvent { s with heap } f.pItem) rfl
    exact hmono.goto ((frame_submitEvent ..).trans hf) (by simp [hpc, Pc.Locked])
  case release hpc           =>
    have hl : s.indexer.lock = some i := hi.mp (by simp [hpc, Pc.Locked])
    exact h.setLock hf (.inr hl) (.inl rfl) (iff_of_false id (by simp))
  case delete heap hpc _ hs  =>
    have hmono : Guarded { s with heap } := h.mono (fun _ => rfl) rfl
    exact hmono.returned hf (by simp [hpc, Pc.Locked]) hs

end Lock

section Safe

-- The items that someone has are there and have one owner, and an item is not in the queue again after a
-- fetch.
structure Owned (s : State) : Prop extends Guarded s where
  serves : s.dispatcher.Serves "func" ⟨⟩
  holds  : s.heap.Holds s.owners
  count  : ∀ j f, s.frame j = some f → f.pc ≠ .getData → f.count ≠ -1

theorem Owned.live (h : Owned s) (hf : s.frame i = some f) (hp : p ∈ f.own) :
    ∃ item, s.heap.block p = some item :=
  h.holds.live p (EventDispatcher.mem_custody (fun p => [p]) hf hp)

theorem Owned.block (h : Owned s) (hf : s.frame i = some f) : ∃ item, s.heap.block f.parg = some item :=
  h.live hf (mem_own f)

theorem count_run (h : Owned s) (hf : s.frame i = some f) (hr : s.Ran i f count s')
    (hc : f.pc = .getData → count ≠ -1) :
    ∀ j f, s'.frame j = some f → f.pc ≠ .getData → f.count ≠ -1 := by
  have hi := h.count i f hf
  have hrest : ∀ j g, s.frame j = some g → i ≠ j → g.pc ≠ .getData → g.count ≠ -1 := fun j g hg _ => h.count j g hg
  cases hr
  case getData hpc       => exact forall_goto hf (fun _ => hc hpc) hrest
  case retry hpc _       =>
    exact forall_goto ((frame_submitEvent ..).trans hf) (fun _ => hi (by simp [hpc]))
      fun j g hg => hrest j g ((frame_submitEvent ..).symm.trans hg)
  case submit hpc _      =>
    exact forall_goto ((frame_submitEvent ..).trans hf) (fun _ => hi (by simp [hpc]))
      fun j g hg => hrest j g ((frame_submitEvent ..).symm.trans hg)
  case empty hs          => exact forall_returned hs fun j g hg => hrest j g ((frame_submitEvent ..).symm.trans hg)
  case delete hs         => exact forall_returned hs hrest
  case branch hpc _ _    => exact forall_goto hf (fun _ => hi (by simp [hpc])) hrest
  case parse hpc         => exact forall_goto hf (fun _ => hi (by simp [hpc])) hrest
  case acquire hpc _     => exact forall_goto hf (fun _ => hi (by simp [hpc])) hrest
  case next hpc _        => exact forall_goto hf (fun _ => hi (by simp [hpc])) hrest
  case last hpc _        => exact forall_goto hf (fun _ => hi (by simp [hpc])) hrest
  case increment hpc     => exact forall_goto hf (fun _ => hi (by simp [hpc])) hrest
  case release hpc       => exact forall_goto hf (fun _ => hi (by simp [hpc])) hrest

-- A run gets an item in addition to its own.
theorem eq_cons_of_add {T T' : Multiset Nat} {a b : Nat} (h : T' + ([a] : List Nat) = T + ([a, b] : List Nat)) :
    T' = b ::ₘ T := by
  have hswap : (([a, b] : List Nat) : Multiset Nat) = b ::ₘ ([a] : List Nat) :=
    Multiset.coe_eq_coe.mpr (.swap b a [])
  rwa [hswap, Multiset.add_cons, ← Multiset.cons_add, add_left_inj] at h

theorem holds_run (h : Owned s) (hf : s.frame i = some f) (hr : s.Ran i f count s') :
    s'.dispatcher.Serves "func" ⟨⟩ ∧ s'.heap.Holds s'.owners := by
  have hi := h.count i f hf
  have hgoto : ∀ f' : Frame, f'.own = f.own →
      (s.goto i f').dispatcher.Serves "func" Callback.mk ∧ s.heap.Holds (s.goto i f').owners :=
    fun f' ho => ⟨h.serves.setFrame i f', owners_goto_eq hf ho ▸ h.holds⟩
  cases hr
  case retry hpc hc      => exact absurd hc (hi (by simp [hpc]))
  case empty hpc _ hs      =>
    have ho := owners_returned ((frame_submitEvent ..).trans hf) hs
    have hown : f.own = [f.parg] := by simp [Frame.own, hpc]
    rw [hown, owners_submitEvent h.serves, Multiset.coe_singleton, add_left_inj] at ho
    obtain ⟨d, hd, rfl⟩ := State.returned_ok hs
    exact ⟨(h.serves.submitEvent f.parg).returned hd, ho ▸ h.holds⟩
  case parse hpc           =>
    have ho := owners_goto (s := { s with heap := (s.heap.alloc {}).2 }) hf
      { f with pc := .acquire, pItem := s.heap.newAddress }
    have hown : f.own = [f.parg] := by simp [Frame.own, hpc]
    rw [hown] at ho
    exact ⟨h.serves.setFrame i _, eq_cons_of_add ho ▸ h.holds.alloc {}⟩
  case last hpc _          =>
    have ho := owners_goto hf { f with pc := .release }
    have hown : f.own = [f.parg, f.pItem] := by simp [Frame.own, hpc]
    rw [hown] at ho
    refine ⟨h.serves.setFrame i _, h.holds.mono ?_⟩
    exact eq_cons_of_add ho.symm ▸ Multiset.le_cons_self ..
  case submit heap hpc hw  =>
    have hs₁ : ({ s with heap }.submitEvent f.pItem).owners = s.owners + {f.pItem} :=
      owners_submitEvent (s := { s with heap }) h.serves f.pItem
    have ho := owners_goto ((frame_submitEvent { s with heap } f.pItem i).trans hf) { f with pc := .release }
    have hown : f.own = [f.parg, f.pItem] := by simp [Frame.own, hpc]
    rw [hown, hs₁] at ho
    have he := eq_cons_of_add ho.symm
    rw [add_comm, Multiset.singleton_add, Multiset.cons_inj_right] at he
    exact ⟨(h.serves.submitEvent f.pItem).setFrame i _, he ▸ h.holds.write hw⟩
  case delete heap hpc hfree hs =>
    have ho := owners_returned (s := { s with heap }) hf hs
    have hown : f.own = [f.parg] := by simp [Frame.own, hpc]
    rw [hown] at ho
    obtain ⟨d, hd, rfl⟩ := State.returned_ok hs
    refine ⟨h.serves.returned hd, Memory.Holds.free ?_ hfree⟩
    rw [← Multiset.singleton_add, add_comm]
    exact ho ▸ h.holds
  case getData hpc       => exact hgoto _ (by simp [Frame.own, hpc])
  case branch hpc _ _    => exact hgoto _ (by simp [Frame.own, hpc])
  case acquire hpc _     => exact hgoto _ (by simp [Frame.own, hpc])
  case next hpc _        => exact hgoto _ (by simp [Frame.own, hpc])
  case increment hpc     => exact hgoto _ (by simp [Frame.own, hpc])
  case release hpc       => exact hgoto _ (by simp [Frame.own, hpc])

theorem Owned.run (h : Owned s) (hf : s.frame i = some f) (hr : s.Ran i f count s')
    (hc : f.pc = .getData → count ≠ -1) : Owned s' where
  toGuarded := h.toGuarded.run hf hr
  serves    := (holds_run h hf hr).left
  holds     := (holds_run h hf hr).right
  count     := count_run h hf hr hc

theorem returned_of_frame (hf : s.frame i = some f) : ∃ s', s.returned i = .ok s' := by
  obtain ⟨d, hd⟩ := EventDispatcher.returned_of_frame hf
  exact ⟨{ s with dispatcher := d }, by rw [State.returned, hd]⟩

theorem read_bind {g : ArgItem → Except Stop State} (hi : s.heap.block p = some item)
    (hg : ∃ s', g item = .ok s') : ∃ s', s.read p >>= g = .ok s' := by
  obtain ⟨s', hs⟩ := hg
  exact ⟨s', Runs.bind_ok.mpr ⟨item, by rw [State.read, hi], hs⟩⟩

-- A run waits for the lock only.
theorem Owned.run_ok (h : Owned s) (hf : s.frame i = some f) (count : Int) :
    (∃ s', s.run i count = .ok s') ∨ f.pc = .acquire ∧ s.indexer.lock ≠ none ∧ s.run i count = .error .disabled := by
  obtain ⟨item, hi⟩ := h.block hf
  unfold State.run
  rw [show s.dispatcher.frame i = some f from hf]
  dsimp only
  split
  case h_1       => exact .inl (read_bind hi ⟨_, rfl⟩)
  case h_2       =>
    left
    split
    case isTrue  => exact ⟨_, rfl⟩
    case isFalse =>
      split
      case isTrue  => exact read_bind hi (returned_of_frame ((frame_submitEvent ..).trans hf))
      case isFalse => exact ⟨_, rfl⟩
  case h_3       => exact .inl (read_bind hi ⟨_, rfl⟩)
  case h_4 hpc   =>
    split
    case isTrue     => exact .inl ⟨_, rfl⟩
    case isFalse hl => exact .inr ⟨hpc, hl, rfl⟩
  case h_5       => exact .inl ⟨_, rfl⟩
  case h_6       => exact .inl ⟨_, rfl⟩
  case h_7 hpc   =>
    obtain ⟨item', hi'⟩ := h.live (p := f.pItem) hf (by simp [Frame.own, hpc])
    obtain ⟨heap, hw⟩ := Memory.write_of_block hi' (x := { currentURL := videoURL s.indexer.currentID })
    rw [hw]
    exact .inl ⟨_, rfl⟩
  case h_8       => exact .inl (read_bind hi ⟨_, rfl⟩)
  case h_9       =>
    obtain ⟨heap, hw⟩ := Memory.free_of_block hi
    rw [hw]
    exact .inl (returned_of_frame (s := { s with heap }) hf)

theorem main_run (hr : s.Ran i f count s') : s'.main = s.main := by
  cases hr
  case empty hs  =>
    obtain ⟨d, hd, rfl⟩ := State.returned_ok hs
    rfl
  case delete hs =>
    obtain ⟨d, hd, rfl⟩ := State.returned_ok hs
    rfl
  all_goals rfl

theorem Owned.submitNew (h : Owned s) (item : ArgItem) :
    Owned ({ s with heap := (s.heap.alloc item).2 }.submitEvent s.heap.newAddress) where
  toGuarded := h.toGuarded.mono (frame_submitEvent { s with heap := (s.heap.alloc item).2 } s.heap.newAddress) rfl
  serves    := h.serves.submitEvent _
  holds     := by
    have ho : ({ s with heap := (s.heap.alloc item).2 }.submitEvent s.heap.newAddress).owners =
        s.owners + {s.heap.newAddress} :=
      owners_submitEvent (s := { s with heap := (s.heap.alloc item).2 }) h.serves _
    rw [ho, add_comm, Multiset.singleton_add]
    exact h.holds.alloc item
  count j f hf := h.count j f ((frame_submitEvent { s with heap := (s.heap.alloc item).2 } _ j).symm.trans hf)

theorem Owned.workThread (h : Owned s) (hs : s.workThread i = .ok s') : Owned s' := by
  have hcount := forall_workThread h.serves hs h.count fun _ _ _ hn => absurd rfl hn
  have hlocked := forall_workThread h.serves hs h.locked fun j _ hnone =>
    iff_of_false id fun hj => by simpa [State.frame, hnone] using h.held j hj
  have hheld := held_workThread h.serves hs h.held
  obtain ⟨d, hd, rfl⟩ := State.workThread_ok hs
  obtain ⟨hserves, ho⟩ := h.serves.workThread (fun p => [p]) Frame.own (fun _ => rfl) hd
  have ho : State.owners { s with dispatcher := d } = s.owners := ho
  exact ⟨⟨hlocked, hheld⟩, hserves, ho ▸ h.holds, hcount⟩

-- Before and after `addCallback`.
inductive Safe (s : State) : Prop
  | quiet : s.dispatcher.Quiet → s.main = .setStatus ∨ s.main = .addCallback → s.indexer.lock = none → Safe s
  | owned : s.main ≠ .setStatus → s.main ≠ .addCallback → Owned s → Safe s

theorem Safe.new (threadNum endID : Int) : Safe (.new threadNum endID) :=
  .quiet (.new threadNum) (.inl rfl) rfl

theorem owned_addCallback (hq : s.dispatcher.Quiet) (hl : s.indexer.lock = none) :
    Owned { s with dispatcher := (s.dispatcher.addCallback "func" (some ⟨⟩)).2, main := .seed 1 } := by
  have hframe : ∀ j, (s.dispatcher.addCallback "func" (some ⟨⟩)).2.frame j = none :=
    hq.frame_addCallback (by decide) _
  have howners : (s.dispatcher.addCallback "func" (some ⟨⟩)).2.custody (fun p => [p]) Frame.own = 0 :=
    hq.custody_addCallback (by decide) _
  refine ⟨⟨fun j f hf => ?_, fun j hj => ?_⟩, hq.addCallback (by decide) _, ?_, fun j f hf => ?_⟩
  case refine_1 => cases (hframe j).symm.trans hf
  case refine_2 => cases hl.symm.trans hj
  case refine_3 =>
    rw [State.owners, howners]
    exact .zero s.heap
  case refine_4 => cases (hframe j).symm.trans hf

theorem Safe.deployIndexer (h : Safe s) (hs : s.deployIndexer = .ok s') : Safe s' := by
  unfold State.deployIndexer at hs
  split at hs
  case h_1 hm   =>
    cases hs
    cases h
    case quiet hq _ hl  => exact .quiet (hq.setStatus .halt) (.inr rfl) hl
    case owned hm' _ _  => exact absurd hm hm'
  case h_2 hm   =>
    cases hs
    cases h
    case quiet hq _ hl  => exact .owned nofun nofun (owned_addCallback hq hl)
    case owned _ hm' _  => exact absurd hm hm'
  case h_3 k hm =>
    cases h
    case quiet hm' _    => simp [hm] at hm'
    case owned ho       =>
      split_ifs at hs
      case pos =>
        cases hs
        have ho := ho.submitNew { currentURL := videoURL k }
        exact .owned nofun nofun ⟨⟨ho.locked, ho.held⟩, ho.serves, ho.holds, ho.count⟩
      case neg =>
        cases hs
        exact .owned nofun nofun ⟨⟨ho.locked, ho.held⟩, ho.serves, ho.holds, ho.count⟩
  case h_4 hm   =>
    cases hs
    cases h
    case quiet hm' _    => simp [hm] at hm'
    case owned ho       => exact .owned nofun nofun ⟨⟨ho.locked, ho.held⟩, ho.serves, ho.holds, ho.count⟩
  case h_5 hm   =>
    cases hs
    cases h
    case quiet hm' _    => simp [hm] at hm'
    case owned ho       =>
      refine .owned nofun nofun ⟨⟨fun j f hf => ?_, fun j hj => ?_⟩,
        ho.serves.setStatus .running, ?_, fun j f hf => ?_⟩
      case refine_1 => exact ho.locked j f ((s.dispatcher.frame_setStatus .running j).symm.trans hf)
      case refine_2 => exact (congrArg Option.isSome (s.dispatcher.frame_setStatus .running j)).trans (ho.held j hj)
      case refine_3 =>
        rw [State.owners, EventDispatcher.custody_setStatus]
        exact ho.holds
      case refine_4 => exact ho.count j f ((s.dispatcher.frame_setStatus .running j).symm.trans hf)
  case h_6      => cases hs

theorem Safe.step {a : Action} (h : Safe s) (hc : Connects s a) (hs : step s a = .ok s') : Safe s' := by
  cases a
  case deployIndexer => exact h.deployIndexer hs
  case workThread i  =>
    cases h
    case quiet hq hm hl     =>
      obtain ⟨d, hd, rfl⟩ := State.workThread_ok hs
      exact .quiet (hq.workThread hd) hm hl
    case owned hm hm' ho    =>
      have ho' := ho.workThread hs
      obtain ⟨d, hd, rfl⟩ := State.workThread_ok hs
      exact .owned hm hm' ho'
  case run i count   =>
    obtain ⟨f, hf, hr⟩ := State.run_ok hs
    cases h
    case quiet hq _ _       => cases (hq.frame i).symm.trans hf
    case owned hm hm' ho    =>
      have hkept := main_run hr
      exact .owned (hkept ▸ hm) (hkept ▸ hm') (ho.run hf hr (hc f hf))

-- A step that cannot happen is one whose turn has not come.
theorem step_error {a : Action} {stop : Stop} (h : Safe s) (hs : step s a = .error stop) :
    stop = .disabled ∨ stop = .dispatcher .disabled := by
  cases a
  case deployIndexer  =>
    have hs : s.deployIndexer = .error stop := hs
    unfold State.deployIndexer at hs
    split at hs
    case h_3 => split at hs <;> cases hs
    case h_6 =>
      cases hs
      exact .inl rfl
    all_goals cases hs
  case workThread i   =>
    have hs : s.workThread i = .error stop := hs
    unfold State.workThread at hs
    split at hs
    case h_1          => cases hs
    case h_2 stop' he =>
      cases hs
      cases stop'
      case disabled => exact .inr rfl
      case erased   =>
        cases h
        case quiet hq _ _    => exact absurd he hq.workThread_ne_erased
        case owned _ _ ho    => exact absurd he ho.serves.workThread_ne_erased
  case run i count    =>
    have hs : s.run i count = .error stop := hs
    cases hf : s.frame i
    case none   =>
      rw [State.run, show s.dispatcher.frame i = none from hf] at hs
      cases hs
      exact .inl rfl
    case some f =>
      cases h
      case quiet hq _ _ => cases (hq.frame i).symm.trans hf
      case owned ho     =>
        cases ho.run_ok hf count
        case inl hok   =>
          obtain ⟨s', hok⟩ := hok
          cases hs.symm.trans hok
        case inr hwait =>
          cases hs.symm.trans hwait.right.right
          exact .inl rfl

-- Who has the items and the lock. The worker that has the lock can always go on.
structure Sound (s : State) : Prop where
  holds  : s.heap.Holds s.owners
  locked : ∀ j f, s.frame j = some f → (f.pc.Locked ↔ s.indexer.lock = some j)
  goes   : ∀ j, s.indexer.lock = some j → ∀ count, ∃ s', s.run j count = .ok s'

theorem Safe.sound (h : Safe s) : Sound s := by
  cases h
  case quiet hq _ hl =>
    have howners : s.owners = 0 := hq.custody
    exact ⟨howners ▸ .zero s.heap, fun j f hf => (nomatch (hq.frame j).symm.trans hf),
      fun j hj => (nomatch hl.symm.trans hj)⟩
  case owned ho      =>
    refine ⟨ho.holds, ho.locked, fun j hj count => ?_⟩
    obtain ⟨f, hf⟩ := Option.isSome_iff_exists.mp (ho.held j hj)
    cases ho.run_ok hf count
    case inl hok   => exact hok
    case inr hwait =>
      have hlocked := (ho.locked j f hf).mpr hj
      simp [hwait.left, Pc.Locked] at hlocked

-- While no fetch fails, no run uses an item that is deleted, nobody has an item that somebody else has, and
-- the lock does what it is for.
theorem sound_along {threadNum endID : Int} {actions : List Action}
    (hconnects : Runs.Along step Connects (.new threadNum endID) actions) :
    (∀ s, Runs.run step (.new threadNum endID) actions = .ok s → Sound s) ∧
      ∀ stop, Runs.run step (.new threadNum endID) actions = .error stop →
        stop = .disabled ∨ stop = .dispatcher .disabled := by
  have hkeep : ∀ s a s', Safe s → Connects s a → step s a = .ok s' → Safe s' := fun _ _ _ h hc hs => h.step hc hs
  constructor
  case left  => exact fun s hr => (Runs.invariant (.new threadNum endID) hconnects hkeep hr).sound
  case right =>
    intro stop hr
    by_contra hn
    exact Runs.ne_error (.new threadNum endID) hconnects hkeep (fun s a h _ hs => hn (step_error h hs)) hr

-- One of the two workers gets a response without data, and has the item again later.
def emptied : List Action :=
  List.flatten [
    List.replicate 7 .deployIndexer,
    List.replicate 5 (.workThread 0),
    List.replicate 5 (.workThread 1),
    List.replicate 2 (.run 0 0),
    List.replicate 6 (.run 1 1),
    List.replicate 5 (.workThread 0),
    List.replicate 3 (.run 0 1)]

theorem sound_along_emptied :
    ∃ s, Runs.run step (.new 2 4) emptied = .ok s ∧ s.indexer.lock = some 1 ∧ Sound s := by
  have hconnects : Runs.Along step Connects (.new 2 4) emptied := by decide +kernel
  obtain ⟨s, hr, hl⟩ : ∃ s, Runs.run step (.new 2 4) emptied = .ok s ∧ s.indexer.lock = some 1 :=
    Runs.exists_ok (by decide +kernel)
  exact ⟨s, hr, hl, (sound_along hconnects).left s hr⟩

-- One fetch fails: the item is in the queue again, and the run deletes it all the same.
def failing : List Action :=
  List.flatten [
    List.replicate 6 .deployIndexer,
    List.replicate 5 (.workThread 0),
    .run 0 (-1) :: List.replicate 6 (.run 0 0),
    List.replicate 5 (.workThread 0),
    [.run 0 1]]

example : (match Runs.run step (.new 1 1) failing with
    | .error stop => decide (stop = .deleted)
    | .ok _       => false) = true := by
  decide +kernel

end Safe

end Indexer3

end Server8
