import Server8.Indexer.Indexer2

-- Who has the items of Indexer2.cpp: `eventList`, a worker that has not called the callback yet, or a run.

namespace Server8

namespace Indexer2

open IndexerCallback Regex

variable {s s' : State} {i j : Nat} {f f' : Frame} {fetched : Fetched} {p : Nat} {item : ArgItem}

-- After `submitEvent` the item is not the run's any more.
def Frame.own (f : Frame) : List Nat :=
  match f.pc with
  | .log => []
  | _    => [f.pArg]

def State.owners (s : State) : Multiset Nat :=
  s.dispatcher.custody (fun p => [p]) Frame.own

abbrev State.frame (s : State) (i : Nat) : Option Frame :=
  s.dispatcher.frame i

section Frames

theorem frame_goto (h : s.frame i = some f) (f' : Frame) (j : Nat) :
    (s.goto i f').frame j = if i = j then some f' else s.frame j :=
  EventDispatcher.frame_setFrame h f' j

theorem frame_goto_self (h : s.frame i = some f) (f' : Frame) : (s.goto i f').frame i = some f' :=
  (frame_goto h f' i).trans (if_pos rfl)

theorem frame_submitEvent (s : State) (p j : Nat) : (s.submitEvent p).frame j = s.frame j := by
  simp only [State.frame, State.submitEvent, EventDispatcher.submitEvent]
  split <;> rfl

theorem frame_submitNew (s : State) (arg : ArgItem) (j : Nat) : (s.submitNew arg).frame j = s.frame j :=
  frame_submitEvent ..

theorem forall_goto {P : Nat → Frame → Prop} (h : s.frame i = some f) (hf : P i f')
    (hP : ∀ j g, s.frame j = some g → i ≠ j → P j g) : ∀ j g, (s.goto i f').frame j = some g → P j g := by
  intro j g hg
  rw [frame_goto h] at hg
  split at hg
  case isTrue hij  =>
    cases hg
    exact hij ▸ hf
  case isFalse hij => exact hP j g hg hij

theorem forall_returned {P : Nat → Frame → Prop} (hs : s.returned i = .ok s')
    (hP : ∀ j g, s.frame j = some g → i ≠ j → P j g) : ∀ j g, s'.frame j = some g → P j g := by
  obtain ⟨d, hd, rfl⟩ := State.returned_ok hs
  intro j g hg
  rw [State.frame, EventDispatcher.frame_returned hd] at hg
  split at hg
  case isTrue      => cases hg
  case isFalse hij => exact hP j g hg hij

end Frames

section Owners

theorem owners_goto (hf : s.frame i = some f) (f' : Frame) :
    (s.goto i f').owners + f.own = s.owners + f'.own :=
  s.dispatcher.custody_setFrame (fun p => [p]) Frame.own hf f'

-- A run that goes on keeps what it has.
theorem owners_goto_eq (hf : s.frame i = some f) (ho : f'.own = f.own) : (s.goto i f').owners = s.owners := by
  have := owners_goto hf f'
  rwa [ho, add_left_inj] at this

theorem owners_submitEvent (h : s.dispatcher.Serves "callback" ⟨⟩) (p : Nat) :
    (s.submitEvent p).owners = p ::ₘ s.owners := by
  rw [← Multiset.singleton_add, add_comm]
  exact h.custody_submitEvent (fun p => [p]) Frame.own p

theorem owners_returned (hf : s.frame i = some f) (hs : s.returned i = .ok s') : s'.owners + f.own = s.owners := by
  obtain ⟨d, hd, rfl⟩ := State.returned_ok hs
  exact s.dispatcher.custody_returned (fun p => [p]) Frame.own hf hd

theorem owners_workThread (h : s.dispatcher.Serves "callback" ⟨⟩) (hs : s.workThread i = .ok s') :
    s'.dispatcher.Serves "callback" ⟨⟩ ∧ s'.owners = s.owners := by
  obtain ⟨d, hd, rfl⟩ := State.workThread_ok hs
  exact h.workThread (fun p => [p]) Frame.own (fun _ => rfl) hd

-- An item that someone has is there, and nobody else has it.
structure Owned (s : State) : Prop where
  serves : s.dispatcher.Serves "callback" ⟨⟩
  holds  : s.heap.Holds s.owners

theorem Owned.live (h : Owned s) (hf : s.frame i = some f) (hp : p ∈ f.own) :
    ∃ item, s.heap.block p = some item :=
  h.holds.live p (EventDispatcher.mem_custody (fun p => [p]) hf hp)

theorem Owned.goto (h : Owned s) (hf : s.frame i = some f) (ho : f'.own = f.own) : Owned (s.goto i f') where
  serves := h.serves.setFrame i f'
  holds  := owners_goto_eq hf ho ▸ h.holds

theorem Owned.submitNew (h : Owned s) (arg : ArgItem) : Owned (s.submitNew arg) where
  serves := h.serves.submitEvent _
  holds  := by
    have ho : (s.submitNew arg).owners = s.heap.newAddress ::ₘ s.owners :=
      owners_submitEvent (s := { s with heap := (s.heap.alloc arg).2 }) h.serves _
    rw [ho]
    exact h.holds.alloc arg

-- A run that returns takes nothing away from the others.
theorem Owned.returned (h : Owned s) (hf : s.frame i = some f) (hs : s.returned i = .ok s') : Owned s' := by
  have ho := owners_returned hf hs
  obtain ⟨d, hd, rfl⟩ := State.returned_ok hs
  exact ⟨h.serves.returned hd, h.holds.mono (ho ▸ Multiset.le_add_right ..)⟩

theorem Owned.resubmit (h : Owned s) (hf : s.frame i = some f) (hpc : f.pc = .resubmit) :
    Owned ((s.submitEvent f.pArg).goto i { f with pc := .log }) where
  serves := (h.serves.submitEvent f.pArg).setFrame i _
  holds  := by
    have ho := owners_goto ((frame_submitEvent ..).trans hf) { f with pc := .log } (s := s.submitEvent f.pArg)
    simp only [Frame.own, hpc, owners_submitEvent h.serves, Multiset.coe_singleton, Multiset.coe_nil, add_zero] at ho
    rw [← Multiset.singleton_add, add_comm, add_right_inj] at ho
    exact ho ▸ h.holds

theorem Owned.exit {heap : Memory ArgItem} (h : Owned s) (hf : s.frame i = some f) (hpc : f.pc = .exit)
    (hfree : s.heap.free f.pArg = some heap) (hs : { s with heap }.returned i = .ok s') : Owned s' := by
  have ho := owners_returned (s := { s with heap }) hf hs
  simp only [Frame.own, hpc, Multiset.coe_singleton] at ho
  obtain ⟨d, hd, rfl⟩ := State.returned_ok hs
  refine ⟨h.serves.returned hd, Memory.Holds.free ?_ hfree⟩
  rw [← Multiset.singleton_add, add_comm]
  exact ho ▸ h.holds

theorem Owned.run (h : Owned s) (hf : s.frame i = some f) (hr : s.Ran i f fetched s') : Owned s' := by
  cases hr
  case visited hs        => exact h.returned hf hs
  case mark hpc _ _      =>
    exact Owned.goto (s := { s with visitedURL := _, visits := _ }) ⟨h.serves, h.holds⟩ hf
      (by simp only [Frame.own, hpc])
  case empty hpc _ _     =>
    exact Owned.goto (s := { s with processed := _ }) ⟨h.serves, h.holds⟩ hf
      (by simp only [Frame.own, hpc])
  case failed hpc _ _ _  =>
    exact Owned.goto (s := { s with fetches := _ }) ⟨h.serves, h.holds⟩ hf
      (by simp only [Frame.own, hpc])
  case fetched hpc _ _ _ =>
    exact Owned.goto (s := { s with fetches := _ }) ⟨h.serves, h.holds⟩ hf
      (by simp only [Frame.own, hpc])
  case unmark hpc _      =>
    exact Owned.goto (s := { s with visitedURL := _ }) ⟨h.serves, h.holds⟩ hf
      (by simp only [Frame.own, hpc])
  case resubmit hpc      => exact h.resubmit hf hpc
  case log hpc _ hs        => exact h.returned hf hs
  case switch hpc _ _ hw =>
    exact Owned.goto (s := { s with heap := _, processed := _, records := _ }) ⟨h.serves, h.holds.write hw⟩ hf
      (by simp only [Frame.own, hpc])
  case submitted hpc _   => exact h.goto hf (by simp only [Frame.own, hpc])
  case submit hpc _      =>
    exact (h.submitNew _).goto ((frame_submitNew ..).trans hf) (by simp only [Frame.own, hpc])
  case exit hpc hfree hs => exact h.exit hf hpc hfree hs

theorem Owned.workThread (h : Owned s) (hs : s.workThread i = .ok s') : Owned s' := by
  have ho := owners_workThread h.serves hs
  obtain ⟨d, hd, rfl⟩ := State.workThread_ok hs
  exact ⟨ho.left, ho.right ▸ h.holds⟩

theorem owners_setStatus (s : State) (st : EventDispatcher.Status) :
    { s with dispatcher := (s.dispatcher.setStatus st).2 : State }.owners = s.owners :=
  s.dispatcher.custody_setStatus (fun p => [p]) Frame.own st

theorem Owned.step {a : Action} (h : Owned s) (hs : step s a = .ok s') : Owned s' := by
  cases a
  case submitNew arg =>
    cases hs
    exact h.submitNew arg
  case setStatus st  =>
    cases hs
    exact ⟨h.serves.setStatus st, owners_setStatus s st ▸ h.holds⟩
  case workThread i  => exact h.workThread hs
  case run i fetched =>
    obtain ⟨f, hf, hr⟩ := State.run_ok hs
    exact h.run hf hr

theorem Owned.new (max : Int) : Owned (.new max) where
  serves := EventDispatcher.Quiet.addCallback (.new max) (by decide) _
  holds  := by
    have ho : (State.new max).owners = 0 := EventDispatcher.Quiet.custody_addCallback (.new max) (by decide) _
    exact ho ▸ .zero _

end Owners

section Safe

-- The text for the switch has its terminator.
def Terminated (s : State) : Prop :=
  ∀ i f, s.frame i = some f → f.pc = .switch → 0 ∈ f.output

theorem process_isSome (arg : ArgItem) {data : Bytes} (h : 0 ∈ data) : ∃ calls, process arg data = some calls := by
  have hs : GetData.cString data = some (data.takeWhile (· ≠ 0)) := if_pos h
  have hdetail : ∀ arg, ∃ o, getSeasonDetail arg data = some o := by
    intro arg
    unfold getSeasonDetail
    split
    case isTrue  => exact ⟨_, rfl⟩
    case isFalse => exact ⟨_, by rw [hs]; rfl⟩
  unfold process
  split
  case h_1 => exact ⟨_, by rw [getBangumiList, hs]; rfl⟩
  case h_2 =>
    have hlist : ∃ w, getSeasonList arg data = some w := by
      rw [getSeasonList, hs]
      simp only [Option.bind_eq_bind, Option.bind_some]
      split <;> exact ⟨_, rfl⟩
    obtain ⟨w, hw⟩ := hlist
    obtain ⟨o, ho⟩ := hdetail w.1
    exact ⟨[(arg, w.2), (w.1, o)], by rw [hw]; simp [ho]⟩
  case h_3 =>
    obtain ⟨o, ho⟩ := hdetail arg
    exact ⟨_, by rw [ho]; rfl⟩
  case h_4 =>
    have hid : ∃ o, getVideoID arg data = some o := by
      rw [getVideoID, hs]
      simp only [Option.bind_eq_bind, Option.bind_some]
      split <;> exact ⟨_, rfl⟩
    obtain ⟨o, ho⟩ := hid
    exact ⟨_, by rw [ho]; rfl⟩
  case h_5 => exact ⟨_, by rw [getVideoDetail, hs]; rfl⟩

theorem Terminated.run (h : Terminated s) (hf : s.frame i = some f) (hr : s.Ran i f fetched s') : Terminated s' := by
  have hrest : ∀ j g, s.frame j = some g → i ≠ j → g.pc = .switch → 0 ∈ g.output := fun j g hg _ => h j g hg
  cases hr
  case visited hs    => exact forall_returned hs hrest
  case log hs        => exact forall_returned hs hrest
  case exit hs       => exact forall_returned hs hrest
  case fetched       => exact forall_goto hf (fun _ => List.mem_append_right _ (List.mem_singleton_self _)) hrest
  case resubmit      =>
    exact forall_goto ((frame_submitEvent ..).trans hf) nofun fun j g hg =>
      hrest j g ((frame_submitEvent ..).symm.trans hg)
  case submit hpc _  =>
    exact forall_goto ((frame_submitNew ..).trans hf) (by simp [hpc])
      fun j g hg => hrest j g ((frame_submitNew ..).symm.trans hg)
  all_goals exact forall_goto hf nofun hrest

theorem Terminated.workThread (h : Terminated s) (hserves : s.dispatcher.Serves "callback" ⟨⟩)
    (hs : s.workThread i = .ok s') : Terminated s' := by
  obtain ⟨d, hd, rfl⟩ := State.workThread_ok hs
  intro j g hg
  cases hserves.frame_workThread hd j
  case inl he => exact h j g (he.symm.trans hg)
  case inr he =>
    obtain ⟨_, _, pArg, hp⟩ := he
    cases hp.symm.trans hg
    nofun

structure Safe (s : State) : Prop extends Owned s where
  terminated : Terminated s

theorem Safe.step {a : Action} (h : Safe s) (hs : step s a = .ok s') : Safe s' := by
  refine ⟨h.toOwned.step hs, ?_⟩
  cases a
  case submitNew arg =>
    cases hs
    exact fun j g hg => h.terminated j g ((frame_submitNew ..).symm.trans hg)
  case setStatus st  =>
    cases hs
    exact fun j g hg => h.terminated j g ((s.dispatcher.frame_setStatus st j).symm.trans hg)
  case workThread i  => exact h.terminated.workThread h.serves hs
  case run i fetched =>
    obtain ⟨f, hf, hr⟩ := State.run_ok hs
    exact h.terminated.run hf hr

theorem returned_of_frame (hf : s.frame i = some f) : ∃ s', s.returned i = .ok s' := by
  obtain ⟨d, hd⟩ := EventDispatcher.returned_of_frame hf
  exact ⟨{ s with dispatcher := d }, by rw [State.returned, hd]⟩

theorem Owned.block (h : Owned s) (hf : s.frame i = some f) (hpc : f.pc ≠ .log) :
    ∃ item, s.heap.block f.pArg = some item := by
  refine h.live hf ?_
  unfold Frame.own
  split
  case h_1 hlog => exact absurd hlog hpc
  case h_2      => exact List.mem_singleton_self _

theorem read_bind {g : ArgItem → Except Stop State} (hi : s.heap.block p = some item)
    (hg : ∃ s', g item = .ok s') : ∃ s', s.read p >>= g = .ok s' := by
  obtain ⟨s', hs⟩ := hg
  exact ⟨s', Runs.bind_ok.mpr ⟨item, State.read_ok.mpr hi, hs⟩⟩

-- A run is never stuck, unless it logs an item that is gone.
theorem Safe.run_ok (h : Safe s) (hf : s.frame i = some f)
    (hlog : f.pc = .log → ∃ item, s.heap.block f.pArg = some item) (fetched : Fetched) :
    ∃ s', s.run i fetched = .ok s' := by
  have hblock := fun hpc => h.block hf (f := f) hpc
  unfold State.run
  rw [show s.dispatcher.frame i = some f from hf]
  dsimp only
  split
  case h_1 hpc =>
    obtain ⟨item, hi⟩ := hblock (by simp [hpc])
    refine read_bind hi ?_
    split
    case isTrue  => exact returned_of_frame hf
    case isFalse => exact ⟨_, rfl⟩
  case h_2 hpc =>
    obtain ⟨item, hi⟩ := hblock (by simp [hpc])
    refine read_bind hi ?_
    split
    case isTrue  => exact ⟨_, rfl⟩
    case isFalse => split <;> exact ⟨_, rfl⟩
  case h_3 hpc =>
    obtain ⟨item, hi⟩ := hblock (by simp [hpc])
    exact read_bind hi ⟨_, rfl⟩
  case h_4     => exact ⟨_, rfl⟩
  case h_5 hpc =>
    obtain ⟨item, hi⟩ := hlog hpc
    exact read_bind (g := fun _ => s.returned i) hi (returned_of_frame hf)
  case h_6 hpc =>
    obtain ⟨item, hi⟩ := hblock (by simp [hpc])
    refine read_bind hi ?_
    obtain ⟨calls, hc⟩ := process_isSome item (h.terminated i f hf hpc)
    obtain ⟨heap, hw⟩ := Memory.write_of_block hi (x := (calls.getLast?.map Prod.fst).getD item)
    exact ⟨_, by rw [State.switch, hc]; dsimp only; rw [hw]; rfl⟩
  case h_7     => split <;> exact ⟨_, rfl⟩
  case h_8 hpc =>
    obtain ⟨item, hi⟩ := hblock (by simp [hpc])
    obtain ⟨heap, hw⟩ := Memory.free_of_block hi
    rw [hw]
    exact returned_of_frame (s := { s with heap }) hf

-- The run of worker `i` has submitted its item again, and is to log it when it is deleted.
def LogsDeleted (s : State) (i : Nat) : Prop :=
  ∃ f, s.frame i = some f ∧ f.pc = .log ∧ s.heap.block f.pArg = none

theorem LogsDeleted.run_eq (h : LogsDeleted s i) (fetched : Fetched) : s.run i fetched = .error .deleted := by
  obtain ⟨f, hf, hpc, hb⟩ := h
  have hread : s.read f.pArg = .error .deleted := by
    unfold State.read
    rw [hb]
  rw [State.run, show s.dispatcher.frame i = some f from hf]
  dsimp only
  rw [hpc]
  exact congrArg (· >>= fun _ => s.returned i) hread

-- Why a step does not happen: it is not the worker's turn, or a run is to log a deleted item.
theorem step_error {a : Action} {stop : Stop} (h : Safe s) (hs : step s a = .error stop) :
    (stop = .disabled ∨ stop = .dispatcher .disabled) ∨
      stop = .deleted ∧ ∃ i fetched, a = .run i fetched ∧ LogsDeleted s i := by
  cases a
  case submitNew     => cases hs
  case setStatus     => cases hs
  case workThread i  =>
    have hs : s.workThread i = .error stop := hs
    unfold State.workThread at hs
    split at hs
    case h_1         => cases hs
    case h_2 stop' he =>
      cases hs
      cases stop'
      case disabled => exact .inl (.inr rfl)
      case erased   => exact absurd he h.serves.workThread_ne_erased
  case run i fetched =>
    have hs : s.run i fetched = .error stop := hs
    cases hf : s.frame i
    case none   =>
      rw [State.run, show s.dispatcher.frame i = none from hf] at hs
      cases hs
      exact .inl (.inl rfl)
    case some f =>
      by_cases hlog : f.pc = .log ∧ s.heap.block f.pArg = none
      case pos =>
        have hl : LogsDeleted s i := ⟨f, hf, hlog⟩
        cases hs.symm.trans (hl.run_eq fetched)
        exact .inr ⟨rfl, i, fetched, rfl, hl⟩
      case neg =>
        obtain ⟨s', hok⟩ := h.run_ok hf (fun hpc => Option.ne_none_iff_exists'.mp fun hb => hlog ⟨hpc, hb⟩) fetched
        cases hs.symm.trans hok

theorem Safe.new (max : Int) : Safe (.new max) where
  toOwned    := .new max
  terminated := by
    intro i f hf
    cases (EventDispatcher.Quiet.frame_addCallback (.new max) (by decide) _ i).symm.trans hf

-- Nobody has an item that somebody else has, and nobody who has an item finds it deleted. No run reads past a
-- response, and no iterator is used that is not valid. The one use of an item without having it is the log
-- behind `submitEvent`, and it is the only one that can find its item deleted.
theorem items_kept (max : Int) (actions : List Action) (s : State)
    (hr : Runs.run step (.new max) actions = .ok s) :
    s.heap.Holds s.owners ∧ ∀ a,
      (∀ stop, step s a = .error stop → stop = .disabled ∨ stop = .dispatcher .disabled ∨ stop = .deleted) ∧
      (step s a = .error .deleted ↔ ∃ i fetched, a = .run i fetched ∧ LogsDeleted s i) := by
  have h : Safe s := Runs.invariant (.new max) Runs.along_true (fun _ _ _ h _ hs => h.step hs) hr
  refine ⟨h.holds, fun a => ⟨fun stop hs => ?_, ?_⟩⟩
  · cases step_error h hs
    case inl hstop => exact hstop.imp_right .inl
    case inr hstop => exact .inr (.inr hstop.left)
  · constructor
    case mp  =>
      intro hs
      cases step_error h hs
      case inl hstop => simp at hstop
      case inr hstop => exact hstop.right
    case mpr =>
      rintro ⟨i, fetched, rfl, hl⟩
      exact hl.run_eq fetched

-- One worker of two gets an item that cannot be fetched and submits it again. The other one fetches it, and
-- deletes it before the first one logs it.
def retried : List Action :=
  List.flatten [
    [.submitNew { currentURL := [104], operation := .getVideoID }],
    List.replicate 5 (.workThread 0),
    [.run 0 ⟨0, []⟩, .run 0 ⟨-1, []⟩, .run 0 ⟨0, []⟩, .run 0 ⟨0, []⟩],
    List.replicate 5 (.workThread 1),
    List.flatten [[.run 1 ⟨0, []⟩, .run 1 ⟨1, [120]⟩], List.replicate 3 (.run 1 ⟨0, []⟩)]]

theorem items_kept_retried :
    ∃ s, Runs.run step (.new 2) retried = .ok s ∧ s.heap.Holds s.owners ∧
      step s (.run 0 ⟨0, []⟩) = .error .deleted := by
  obtain ⟨s, hr, hs⟩ : ∃ s, Runs.run step (.new 2) retried = .ok s ∧
      ∃ f ∈ s.frame 0, f.pc = .log ∧ s.heap.block f.pArg = none :=
    Runs.exists_ok (by decide +kernel)
  have h := items_kept 2 retried s hr
  exact ⟨s, hr, h.left, (h.right _).right.mpr ⟨0, ⟨0, []⟩, rfl, hs⟩⟩

end Safe

end Indexer2

end Server8
