import Mathlib.Data.List.Range
import Server8.Indexer.Indexer3
import Server8.Protocol.RoundTrip

-- Which identifiers the workers of Indexer3.cpp get. The number of items that still stand for one tells
-- when the last identifier has been submitted.

namespace Server8

namespace Indexer3

variable {s s' : State} {i j : Nat} {f f' : Frame} {count endID : Int}

-- The URLs of the first identifiers.
def ids (k : Nat) : List Bytes :=
  (List.range k).map fun n => videoURL ((n + 1 : Nat) : Int)

theorem videoURL_inj {m n : Nat} (h : videoURL m = videoURL n) : m = n := by
  have hd : decimal m = decimal n := List.append_cancel_left (List.append_cancel_right h)
  have hm := Packet.digitsValue_decimal (Int.natCast_nonneg m)
  rw [hd, Packet.digitsValue_decimal (Int.natCast_nonneg n)] at hm
  exact (Int.natCast_inj.mp hm).symm

theorem ids_succ (k : Nat) : ids (k + 1) = ids k ++ [videoURL ((k + 1 : Nat) : Int)] := by
  simp [ids, List.range_succ]

theorem nodup_ids (k : Nat) : (ids k).Nodup :=
  List.nodup_range.map fun _ _ h => Nat.succ_injective (videoURL_inj h)

theorem mem_ids {k : Nat} {url : Bytes} : url ∈ ids k ↔ ∃ id : Int, 1 ≤ id ∧ id ≤ k ∧ url = videoURL id := by
  simp only [ids, List.mem_map, List.mem_range]
  constructor
  case mp  =>
    rintro ⟨n, hn, rfl⟩
    exact ⟨_, by omega, by omega, rfl⟩
  case mpr =>
    rintro ⟨id, h₁, h₂, rfl⟩
    exact ⟨id.toNat - 1, by omega, congrArg videoURL (by omega)⟩

section Frames

-- `run` has the lock of the indexer.
def Pc.Locked : Pc → Prop
  | .test | .increment | .submit | .release => True
  | _                                       => False

-- An item stands for an identifier until a run has submitted the next one in its place.
def Frame.active (f : Frame) : List Unit :=
  match f.pc with
  | .release => []
  | .delete  => []
  | _        => [()]

def State.active (s : State) : Nat :=
  (s.dispatcher.custody (fun _ => [()]) Frame.active).card

abbrev State.frame (s : State) (i : Nat) : Option Frame :=
  s.dispatcher.frame i

theorem frame_goto (h : s.frame i = some f) (f' : Frame) (j : Nat) :
    (s.goto i f').frame j = if i = j then some f' else s.frame j :=
  EventDispatcher.frame_setFrame h f' j

theorem frame_goto_self (h : s.frame i = some f) (f' : Frame) : (s.goto i f').frame i = some f' :=
  (frame_goto h f' i).trans (if_pos rfl)

theorem frame_submitEvent (s : State) (p j : Nat) : (s.submitEvent p).frame j = s.frame j := by
  simp only [State.frame, State.submitEvent, EventDispatcher.submitEvent]
  split <;> rfl

theorem forall_goto {P : Nat → Frame → Prop} (h : s.frame i = some f) (hf : P i f')
    (hP : ∀ j g, s.frame j = some g → i ≠ j → P j g) : ∀ j g, (s.goto i f').frame j = some g → P j g := by
  intro j g hg
  rw [frame_goto h] at hg
  split at hg
  case isTrue hij  =>
    cases hg
    exact hij ▸ hf
  case isFalse hij => exact hP j g hg hij

theorem forall_returned {P : Nat → Frame → Prop} (hs : s.returned i = .ok s')
    (hP : ∀ j g, s.frame j = some g → i ≠ j → P j g) : ∀ j g, s'.frame j = some g → P j g := by
  obtain ⟨d, hd, rfl⟩ := State.returned_ok hs
  intro j g hg
  rw [State.frame, EventDispatcher.frame_returned hd] at hg
  split at hg
  case isTrue      => cases hg
  case isFalse hij => exact hP j g hg hij

theorem forall_workThread {P : Nat → Frame → Prop} (h : s.dispatcher.Serves "func" ⟨⟩)
    (hs : s.workThread i = .ok s') (hP : ∀ j g, s.frame j = some g → P j g)
    (hnew : ∀ j parg, s.frame j = none → P j { pc := .getData, parg, count := 0, pItem := 0 }) :
    ∀ j g, s'.frame j = some g → P j g := by
  obtain ⟨d, hd, rfl⟩ := State.workThread_ok hs
  intro j g hg
  cases h.frame_workThread hd j
  case inl he => exact hP j g (he.symm.trans hg)
  case inr he =>
    obtain ⟨_, hnone, parg, hparg⟩ := he
    cases hparg.symm.trans hg
    exact hnew j parg hnone

-- What holds of a run in worker `j`.
structure Placed (s : State) (j : Nat) (f : Frame) : Prop where
  count     : f.pc ≠ .getData → 0 < f.count
  lock      : f.pc.Locked ↔ s.indexer.lock = some j
  increment : f.pc = .increment → s.indexer.currentID < s.indexer.endID
  submit    : f.pc = .submit → s.submitted = ids (s.indexer.currentID - 1).toNat

theorem Placed.mono (h : Placed s j f) (hi : s'.indexer = s.indexer) (hs : s'.submitted = s.submitted) :
    Placed s' j f where
  count       := h.count
  lock        := hi ▸ h.lock
  increment   := hi ▸ h.increment
  submit hpc  := by rw [hs, hi, h.submit hpc]

-- What a run without the lock needs is only that it does not get it.
theorem Placed.unlocked (h : Placed s j f) (hl : s.indexer.lock ≠ some j) (hl' : s'.indexer.lock ≠ some j) :
    Placed s' j f where
  count         := h.count
  lock          := iff_of_false (mt h.lock.mp hl) hl'
  increment hpc := absurd (h.lock.mp (hpc ▸ trivial)) hl
  submit hpc    := absurd (h.lock.mp (hpc ▸ trivial)) hl

-- Where the lock is free or with worker `i`, the others do not have it.
theorem unlocked_of (hl : s.indexer.lock = none ∨ s.indexer.lock = some i) (hij : i ≠ j) :
    s.indexer.lock ≠ some j := by
  cases hl
  case inl hl => simp [hl]
  case inr hl => simp [hl, hij]

theorem placed_run (hr : s.Ran i f count s') (hf : s.frame i = some f)
    (h : ∀ j f, s.frame j = some f → Placed s j f) (hcount : f.pc = .getData → 0 < count)
    (hsubmitted : f.pc = .increment → s.submitted = ids s.indexer.currentID.toNat) :
    ∀ j g, s'.frame j = some g → Placed s' j g := by
  have hi := h i f hf
  cases hr
  case getData hpc =>
    have hl : s.indexer.lock ≠ some i := mt hi.lock.mpr (hpc ▸ id)
    exact forall_goto hf ⟨fun _ => hcount hpc, iff_of_false id hl, nofun, nofun⟩
      fun j g hg _ => (h j g hg).mono rfl rfl
  case retry hpc hc  => exact absurd (hi.count (by simp [hpc])) (by simp [hc])
  case empty hpc hc _ => exact absurd (hi.count (by simp [hpc])) (by simp [hc])
  case branch hpc hn hz =>
    have hl : s.indexer.lock ≠ some i := mt hi.lock.mpr (hpc ▸ id)
    exact forall_goto hf ⟨fun _ => hi.count (by simp [hpc]), iff_of_false id hl, nofun, nofun⟩
      fun j g hg _ => (h j g hg).mono rfl rfl
  case parse hpc =>
    have hl : s.indexer.lock ≠ some i := mt hi.lock.mpr (hpc ▸ id)
    exact forall_goto hf ⟨fun _ => hi.count (by simp [hpc]), iff_of_false id hl, nofun, nofun⟩
      fun j g hg _ => (h j g hg).mono rfl rfl
  case acquire hpc hl =>
    exact forall_goto hf ⟨fun _ => hi.count (by simp [hpc]), iff_of_true trivial rfl, nofun, nofun⟩
      fun j g hg hij => (h j g hg).unlocked (unlocked_of (.inl hl) hij) (unlocked_of (.inr rfl) hij)
  case next hpc hlt =>
    have hl : s.indexer.lock = some i := hi.lock.mp (hpc ▸ trivial)
    exact forall_goto hf ⟨fun _ => hi.count (by simp [hpc]), iff_of_true trivial hl, fun _ => hlt, nofun⟩
      fun j g hg _ => (h j g hg).mono rfl rfl
  case last hpc hge =>
    have hl : s.indexer.lock = some i := hi.lock.mp (hpc ▸ trivial)
    exact forall_goto hf ⟨fun _ => hi.count (by simp [hpc]), iff_of_true trivial hl, nofun, nofun⟩
      fun j g hg _ => (h j g hg).mono rfl rfl
  case increment hpc =>
    have hl : s.indexer.lock = some i := hi.lock.mp (hpc ▸ trivial)
    refine forall_goto hf ⟨fun _ => hi.count (by simp [hpc]), iff_of_true trivial hl, nofun, fun _ => ?_⟩
      fun j g hg hij => (h j g hg).unlocked (unlocked_of (.inr hl) hij) (unlocked_of (.inr hl) hij)
    simpa only [State.goto, Int.add_sub_cancel] using hsubmitted hpc
  case submit heap hpc hw =>
    have hl : s.indexer.lock = some i := hi.lock.mp (hpc ▸ trivial)
    have hf' : ({ s with heap }.submitEvent f.pItem).frame i = some f := (frame_submitEvent ..).trans hf
    refine forall_goto hf' ⟨fun _ => hi.count (by simp [hpc]), iff_of_true trivial hl, nofun, nofun⟩ ?_
    intro j g hg hij
    rw [frame_submitEvent] at hg
    exact (h j g hg).unlocked (unlocked_of (.inr hl) hij) (unlocked_of (.inr hl) hij)
  case release hpc =>
    have hl : s.indexer.lock = some i := hi.lock.mp (hpc ▸ trivial)
    exact forall_goto hf ⟨fun _ => hi.count (by simp [hpc]), iff_of_false id nofun, nofun, nofun⟩
      fun j g hg hij => (h j g hg).unlocked (unlocked_of (.inr hl) hij) nofun
  case delete heap hpc hfree hs =>
    obtain ⟨d, _, he⟩ := State.returned_ok hs
    exact forall_returned hs fun j g hg _ => (h j g hg).mono (he ▸ rfl) (he ▸ rfl)

-- Only its own worker is somewhere else after a step of a run.
theorem frame_run_ne (hr : s.Ran i f count s') (hf : s.frame i = some f) (hij : i ≠ j) : s'.frame j = s.frame j := by
  cases hr
  case retry  =>
    exact (frame_goto ((frame_submitEvent ..).trans hf) _ j).trans ((if_neg hij).trans (frame_submitEvent ..))
  case submit =>
    exact (frame_goto ((frame_submitEvent ..).trans hf) _ j).trans ((if_neg hij).trans (frame_submitEvent ..))
  case empty hs =>
    obtain ⟨d, hd, rfl⟩ := State.returned_ok hs
    exact (EventDispatcher.frame_returned hd j).trans ((if_neg hij).trans (frame_submitEvent ..))
  case delete hs =>
    obtain ⟨d, hd, rfl⟩ := State.returned_ok hs
    exact (EventDispatcher.frame_returned hd j).trans (if_neg hij)
  all_goals exact (frame_goto hf _ j).trans (if_neg hij)

-- A run gets to `currentID++` by the test, and to `submitEvent` by `currentID++`.
theorem pc_run (hr : s.Ran i f count s') (hf : s.frame i = some f) (hf' : s'.frame i = some f') :
    (f'.pc = .increment → f.pc = .test ∧ s.indexer.currentID < s.indexer.endID) ∧
      (f'.pc = .submit → f.pc = .increment) := by
  cases hr
  case next hpc hlt  =>
    cases (frame_goto_self hf _).symm.trans hf'
    exact ⟨fun _ => ⟨hpc, hlt⟩, nofun⟩
  case increment hpc =>
    cases (frame_goto_self hf _).symm.trans hf'
    exact ⟨nofun, fun _ => hpc⟩
  case empty hs      =>
    obtain ⟨d, hd, rfl⟩ := State.returned_ok hs
    cases ((EventDispatcher.frame_returned hd i).trans (if_pos rfl)).symm.trans hf'
  case delete hs     =>
    obtain ⟨d, hd, rfl⟩ := State.returned_ok hs
    cases ((EventDispatcher.frame_returned hd i).trans (if_pos rfl)).symm.trans hf'
  case retry         =>
    cases (frame_goto_self ((frame_submitEvent ..).trans hf) _).symm.trans hf'
    exact ⟨nofun, nofun⟩
  case submit        =>
    cases (frame_goto_self ((frame_submitEvent ..).trans hf) _).symm.trans hf'
    exact ⟨nofun, nofun⟩
  all_goals
    cases (frame_goto_self hf _).symm.trans hf'
    exact ⟨nofun, nofun⟩

theorem currentID_increment (hr : s.Ran i f count s') (hpc : f.pc = .increment) :
    s'.indexer.currentID = s.indexer.currentID + 1 := by
  cases hr
  case increment => rfl
  all_goals simp_all

theorem submitted_submit (hr : s.Ran i f count s') (hpc : f.pc = .submit) :
    s'.submitted = s.submitted ++ [videoURL s.indexer.currentID] := by
  cases hr
  case submit hw =>
    simp [State.goto, State.submitEvent, Memory.write_self hw]
  all_goals simp_all

-- The worker that has the lock is in the callback.
def State.Held (s : State) : Prop :=
  ∀ j, s.indexer.lock = some j → (s.frame j).isSome

theorem held_run (hr : s.Ran i f count s') (hf : s.frame i = some f) (hi : Placed s i f) (h : s.Held) : s'.Held := by
  intro j hj
  by_cases hij : i = j
  case neg =>
    rw [frame_run_ne hr hf hij]
    cases hr
    case acquire => exact absurd (Option.some_inj.mp hj) hij
    case release => cases hj
    case empty hs =>
      obtain ⟨d, hd, rfl⟩ := State.returned_ok hs
      exact h j hj
    case delete hs =>
      obtain ⟨d, hd, rfl⟩ := State.returned_ok hs
      exact h j hj
    all_goals exact h j hj
  case pos =>
    cases hij
    cases hr
    case empty hpc hc _    => exact absurd (hi.count (by simp [hpc])) (by simp [hc])
    case delete hpc _ hs   =>
      obtain ⟨d, hd, rfl⟩ := State.returned_ok hs
      have := hi.lock.mpr hj
      simp [hpc, Pc.Locked] at this
    case retry             =>
      exact Option.isSome_iff_exists.mpr ⟨_, frame_goto_self ((frame_submitEvent ..).trans hf) _⟩
    case submit            =>
      exact Option.isSome_iff_exists.mpr ⟨_, frame_goto_self ((frame_submitEvent ..).trans hf) _⟩
    all_goals exact Option.isSome_iff_exists.mpr ⟨_, frame_goto_self hf _⟩

theorem held_workThread (h : s.dispatcher.Serves "func" ⟨⟩) (hs : s.workThread i = .ok s') (hheld : s.Held) :
    s'.Held := by
  obtain ⟨d, hd, rfl⟩ := State.workThread_ok hs
  intro j hj
  cases h.frame_workThread hd j
  case inl he => exact (congrArg Option.isSome he).trans (hheld j hj)
  case inr he =>
    obtain ⟨_, _, parg, hparg⟩ := he
    exact Option.isSome_iff_exists.mpr ⟨_, hparg⟩

end Frames

section Active

theorem active_goto (hf : s.frame i = some f) (f' : Frame) :
    (s.goto i f').active + f.active.length = s.active + f'.active.length := by
  have := congrArg Multiset.card (s.dispatcher.custody_setFrame (fun _ => [()]) Frame.active hf f')
  rwa [Multiset.card_add, Multiset.card_add] at this

theorem active_submitEvent (h : s.dispatcher.Serves "func" ⟨⟩) (p : Nat) :
    (s.submitEvent p).active = s.active + 1 := by
  have := congrArg Multiset.card (h.custody_submitEvent (fun _ => [()]) Frame.active p)
  rwa [Multiset.card_add] at this

theorem active_returned (hf : s.frame i = some f) (hs : s.returned i = .ok s') :
    s'.active + f.active.length = s.active := by
  obtain ⟨d, hd, rfl⟩ := State.returned_ok hs
  have := congrArg Multiset.card (s.dispatcher.custody_returned (fun _ => [()]) Frame.active hf hd)
  rwa [Multiset.card_add] at this

theorem active_workThread (h : s.dispatcher.Serves "func" ⟨⟩) (hs : s.workThread i = .ok s') :
    s'.dispatcher.Serves "func" ⟨⟩ ∧ s'.active = s.active := by
  obtain ⟨d, hd, rfl⟩ := State.workThread_ok hs
  have := h.workThread (fun _ => [()]) Frame.active (fun _ => rfl) hd
  exact ⟨this.left, congrArg Multiset.card this.right⟩

-- What a step of a run leaves as it is.
structure Kept (s s' : State) : Prop where
  serves    : s'.dispatcher.Serves "func" ⟨⟩
  main      : s'.main = s.main
  threadNum : s'.threadNum = s.threadNum
  endID     : s'.indexer.endID = s.indexer.endID

-- What it changes, and where.
structure Changed (s : State) (f : Frame) (s' : State) : Prop extends Kept s s' where
  currentID : f.pc ≠ .increment → s'.indexer.currentID = s.indexer.currentID
  submitted : f.pc ≠ .submit → s'.submitted = s.submitted
  active    : (f.pc = .test → s.indexer.currentID < s.indexer.endID) → s'.active = s.active

theorem changed_goto (h : s.dispatcher.Serves "func" ⟨⟩) (hf : s.frame i = some f) (f' : Frame)
    (ha : f'.active = f.active) : Changed s f (s.goto i f') where
  serves      := h.setFrame i f'
  main        := rfl
  threadNum   := rfl
  endID       := rfl
  currentID _ := rfl
  submitted _ := rfl
  active _    := by
    have := active_goto hf f'
    rwa [ha, Nat.add_right_cancel_iff] at this

theorem changed_run (hr : s.Ran i f count s') (h : s.dispatcher.Serves "func" ⟨⟩) (hf : s.frame i = some f)
    (hcount : f.pc ≠ .getData → 0 < f.count) : Changed s f s' := by
  cases hr
  case getData hpc    => exact changed_goto h hf _ (by simp only [Frame.active, hpc])
  case retry hpc hc   => exact absurd (hcount (by simp [hpc])) (by simp [hc])
  case empty hpc hc _ => exact absurd (hcount (by simp [hpc])) (by simp [hc])
  case branch hpc _ _ => exact changed_goto h hf _ (by simp only [Frame.active, hpc])
  case parse hpc      =>
    have := changed_goto h hf { f with pc := .acquire, pItem := s.heap.newAddress }
      (by simp only [Frame.active, hpc])
    exact ⟨⟨this.serves, rfl, rfl, rfl⟩, fun _ => rfl, fun _ => rfl, this.active⟩
  case acquire hpc _  =>
    have := changed_goto h hf { f with pc := .test } (by simp only [Frame.active, hpc])
    exact ⟨⟨this.serves, rfl, rfl, rfl⟩, fun _ => rfl, fun _ => rfl, this.active⟩
  case next hpc _     => exact changed_goto h hf _ (by simp only [Frame.active, hpc])
  case last hpc hge   =>
    have := h.setFrame i { f with pc := .release }
    exact ⟨⟨this, rfl, rfl, rfl⟩, fun _ => rfl, fun _ => rfl, fun hlt => absurd (hlt hpc) hge⟩
  case increment hpc  =>
    have := changed_goto h hf { f with pc := .submit } (by simp only [Frame.active, hpc])
    exact ⟨⟨this.serves, rfl, rfl, rfl⟩, fun hn => absurd hpc hn, fun _ => rfl, this.active⟩
  case submit heap hpc hw =>
    have hs : ({ s with heap }.submitEvent f.pItem).dispatcher.Serves "func" Callback.mk :=
      h.submitEvent f.pItem
    have hf' : ({ s with heap }.submitEvent f.pItem).frame i = some f := (frame_submitEvent ..).trans hf
    have hg := active_goto hf' { f with pc := .release }
    have ha : ({ s with heap }.submitEvent f.pItem).active = s.active + 1 := active_submitEvent h _
    simp only [Frame.active, hpc, List.length_singleton, List.length_nil, ha] at hg
    refine ⟨⟨hs.setFrame i _, rfl, rfl, rfl⟩,
      fun _ => rfl, fun hn => absurd hpc hn, fun _ => ?_⟩
    exact Nat.succ.inj hg
  case release hpc    =>
    have := changed_goto h hf { f with pc := .delete } (by simp only [Frame.active, hpc])
    exact ⟨⟨this.serves, rfl, rfl, rfl⟩, fun _ => rfl, fun _ => rfl, this.active⟩
  case delete heap hpc hfree hs =>
    have ha := active_returned (s := { s with heap }) hf hs
    simp only [Frame.active, hpc, List.length_nil] at ha
    obtain ⟨d, hd, rfl⟩ := State.returned_ok hs
    exact ⟨⟨h.returned hd, rfl, rfl, rfl⟩,
      fun _ => rfl, fun _ => rfl, fun _ => ha⟩

end Active

-- Before `currentID` is assigned: `i` is the next identifier of `deployIndexer`.
structure Seeding (s : State) (i : Int) : Prop where
  serves    : s.dispatcher.Serves "func" ⟨⟩
  held      : s.Held
  frames    : ∀ j f, s.frame j = some f → Placed s j f
  early     : ∀ j f, s.frame j = some f → f.pc ≠ .increment ∧ f.pc ≠ .submit
  range     : 1 ≤ i ∧ i ≤ s.threadNum + 1
  currentID : s.indexer.currentID = 1
  submitted : s.submitted = ids (i - 1).toNat
  active    : 1 < s.indexer.endID → s.active = (i - 1).toNat

-- After that the identifiers up to `currentID` have been submitted, but for the one that a worker is about
-- to submit.
structure Running (s : State) : Prop where
  serves    : s.dispatcher.Serves "func" ⟨⟩
  held      : s.Held
  frames    : ∀ j f, s.frame j = some f → Placed s j f
  range     : 1 ≤ s.indexer.currentID ∧ s.indexer.currentID ≤ s.indexer.endID
  submitted : (∀ j f, s.frame j = some f → f.pc ≠ .submit) → s.submitted = ids s.indexer.currentID.toNat
  active    : s.indexer.currentID < s.indexer.endID → s.active = s.threadNum.toNat

inductive Numbered (s : State) : Prop
  | quiet : s.dispatcher.Quiet → s.main = .setStatus ∨ s.main = .addCallback → s.submitted = [] →
      s.indexer.lock = none → s.indexer.currentID = 1 → Numbered s
  | seeding {i : Int} : s.main = .seed i ∨ s.main = .assign ∧ i = s.threadNum + 1 → Seeding s i → Numbered s
  | running : s.main = .start ∨ s.main = .done → Running s → Numbered s

section Phases

theorem Seeding.run {k : Int} (h : Seeding s k) (hr : s.Ran i f count s') (hf : s.frame i = some f)
    (hcount : f.pc = .getData → 0 < count) (hlast : f.pc = .test → ¬s.indexer.currentID < s.indexer.endID) :
    Seeding s' k := by
  have hearly := h.early i f hf
  have hc := changed_run hr h.serves hf (h.frames i f hf).count
  refine ⟨hc.serves, held_run hr hf (h.frames i f hf) h.held,
    placed_run hr hf h.frames hcount fun hpc => absurd hpc hearly.left, ?_, hc.threadNum ▸ h.range,
    (hc.currentID hearly.left).trans h.currentID, (hc.submitted hearly.right).trans h.submitted, ?_⟩
  case refine_1 =>
    intro j g hg
    by_cases hij : i = j
    case neg => exact h.early j g (frame_run_ne hr hf hij ▸ hg)
    case pos =>
      have hpc := pc_run hr hf (hij ▸ hg)
      exact ⟨fun he => hlast (hpc.left he).left (hpc.left he).right, fun he => hearly.left (hpc.right he)⟩
  case refine_2 =>
    rw [hc.endID]
    intro hlt
    rw [hc.active fun hpc => absurd (h.currentID ▸ hlt) (hlast hpc)]
    exact h.active hlt

theorem Running.run (h : Running s) (hr : s.Ran i f count s') (hf : s.frame i = some f)
    (hcount : f.pc = .getData → 0 < count) : Running s' := by
  have hi := h.frames i f hf
  have hc := changed_run hr h.serves hf hi.count
  -- Nobody is about to submit while another worker has the lock.
  have hsubmitted : f.pc = .increment → s.submitted = ids s.indexer.currentID.toNat := by
    intro hpc
    have hl := hi.lock.mp (hpc ▸ trivial)
    refine h.submitted fun j g hg hsub => ?_
    cases hl.symm.trans ((h.frames j g hg).lock.mp (hsub ▸ trivial))
    cases hf.symm.trans hg
    simp [hpc] at hsub
  refine ⟨hc.serves, held_run hr hf hi h.held, placed_run hr hf h.frames hcount hsubmitted, ?_, ?_, ?_⟩
  case refine_1 =>
    have hrange := h.range
    by_cases hpc : f.pc = .increment
    case pos =>
      have hlt := hi.increment hpc
      rw [currentID_increment hr hpc, hc.endID]
      omega
    case neg => rwa [hc.currentID hpc, hc.endID]
  case refine_2 =>
    intro hn
    have hrange := h.range
    by_cases hpc : f.pc = .submit
    case pos =>
      have hne : f.pc ≠ .increment := by simp [hpc]
      have hid : s.indexer.currentID = (((s.indexer.currentID - 1).toNat + 1 : Nat) : Int) := by omega
      have hsucc : s.indexer.currentID.toNat = (s.indexer.currentID - 1).toNat + 1 := by omega
      rw [submitted_submit hr hpc, hc.currentID hne, hi.submit hpc, hsucc, ids_succ, ← hid]
    case neg =>
      have hne : f.pc ≠ .increment := by
        intro he
        cases hr
        case increment => exact hn i _ (frame_goto_self hf _) rfl
        all_goals simp_all
      rw [hc.submitted hpc, hc.currentID hne]
      refine h.submitted fun j g hg => ?_
      by_cases hij : i = j
      case pos =>
        cases hf.symm.trans (hij ▸ hg)
        exact hpc
      case neg => exact hn j g (frame_run_ne hr hf hij ▸ hg)
  case refine_3 =>
    have hle : s.indexer.currentID ≤ s'.indexer.currentID := by
      by_cases hpc : f.pc = .increment
      case pos => exact currentID_increment hr hpc ▸ Int.le_add_one (Int.le_refl _)
      case neg => exact Int.le_of_eq (hc.currentID hpc).symm
    intro hlt
    have hlt' : s.indexer.currentID < s.indexer.endID := hc.endID ▸ Int.lt_of_le_of_lt hle hlt
    rw [hc.active fun _ => hlt', hc.threadNum]
    exact h.active hlt'

-- A worker that calls the callback does not have the lock.
theorem placed_workThread (h : s.dispatcher.Serves "func" ⟨⟩) (hheld : s.Held) (hs : s.workThread i = .ok s')
    (hframes : ∀ j f, s.frame j = some f → Placed s j f) : ∀ j f, s'.frame j = some f → Placed s' j f := by
  have hsame : s'.indexer = s.indexer ∧ s'.submitted = s.submitted := by
    obtain ⟨d, _, rfl⟩ := State.workThread_ok hs
    exact ⟨rfl, rfl⟩
  refine forall_workThread h hs (fun j f hf => (hframes j f hf).mono hsame.left hsame.right) fun j parg hj => ?_
  refine ⟨fun hn => absurd rfl hn, iff_of_false id fun hl => ?_, nofun, nofun⟩
  have := hheld j (hsame.left ▸ hl)
  simp [hj] at this

theorem Seeding.workThread {k : Int} (h : Seeding s k) (hs : s.workThread i = .ok s') : Seeding s' k := by
  have ha := active_workThread h.serves hs
  have hframes := placed_workThread h.serves h.held hs h.frames
  have hearly := forall_workThread h.serves hs h.early fun _ _ _ => ⟨nofun, nofun⟩
  have hheld := held_workThread h.serves hs h.held
  obtain ⟨d, hd, rfl⟩ := State.workThread_ok hs
  exact ⟨ha.left, hheld, hframes, hearly, h.range, h.currentID, h.submitted,
    fun hlt => ha.right.trans (h.active hlt)⟩

theorem Running.workThread (h : Running s) (hs : s.workThread i = .ok s') : Running s' := by
  have ha := active_workThread h.serves hs
  have hframes := placed_workThread h.serves h.held hs h.frames
  have hheld := held_workThread h.serves hs h.held
  obtain ⟨d, hd, rfl⟩ := State.workThread_ok hs
  have hkept : ∀ j f, s.frame j = some f → d.frame j = some f := by
    intro j f hf
    cases h.serves.frame_workThread hd j
    case inl he => exact he.trans hf
    case inr he => cases he.right.left.symm.trans hf
  exact ⟨ha.left, hheld, hframes, h.range, fun hn => h.submitted fun j f hf => hn j f (hkept j f hf),
    fun hlt => ha.right.trans (h.active hlt)⟩

-- The next identifier of `deployIndexer`.
theorem Seeding.seed {k : Int} (h : Seeding s k) (hk : k ≤ s.threadNum) :
    Seeding { { s with heap := (s.heap.alloc { currentURL := videoURL k }).2 }.submitEvent s.heap.newAddress with
      main := .seed (k + 1) } (k + 1) := by
  have hrange := h.range
  have ha := active_submitEvent (s := { s with heap := (s.heap.alloc { currentURL := videoURL k }).2 }) h.serves
    s.heap.newAddress
  have hid : k = (((k - 1).toNat + 1 : Nat) : Int) := by omega
  have hsucc : (k + 1 - 1).toNat = (k - 1).toNat + 1 := by omega
  have hframe := fun j => frame_submitEvent { s with heap := (s.heap.alloc { currentURL := videoURL k }).2 }
    s.heap.newAddress j
  refine ⟨h.serves.submitEvent _, ?_, ?_, ?_, ⟨by omega, Int.add_le_add_right hk 1⟩, h.currentID, ?_, ?_⟩
  case refine_1 => exact fun j hj => (congrArg Option.isSome (hframe j)).trans (h.held j hj)
  case refine_2 =>
    intro j f hf
    have hp := h.frames j f ((hframe j).symm.trans hf)
    exact ⟨hp.count, hp.lock, hp.increment, fun hpc => absurd hpc (h.early j f ((hframe j).symm.trans hf)).right⟩
  case refine_3 => exact fun j f hf => h.early j f ((hframe j).symm.trans hf)
  case refine_4 =>
    rw [hsucc, ids_succ, ← hid, ← h.submitted]
    simp [State.submitEvent]
  case refine_5 =>
    intro hlt
    rw [hsucc, ← h.active hlt]
    exact ha

theorem Seeding.assign (h : Seeding s (s.threadNum + 1)) (hsizes : 1 ≤ s.threadNum ∧ s.threadNum ≤ s.indexer.endID) :
    Running { s with indexer := { s.indexer with currentID := s.threadNum }, main := .start } := by
  have hsub : (s.threadNum + 1 - 1) = s.threadNum := Int.add_sub_cancel ..
  refine ⟨h.serves, h.held, ?_, hsizes, fun _ => hsub ▸ h.submitted, fun hlt => hsub ▸ h.active ?_⟩
  case refine_1 =>
    intro j f hf
    have hp := h.frames j f hf
    exact ⟨hp.count, hp.lock, fun hpc => absurd hpc (h.early j f hf).left,
      fun hpc => absurd hpc (h.early j f hf).right⟩
  case refine_2 => exact Int.lt_of_le_of_lt hsizes.left hlt

end Phases

section Along

-- A fetch returns a positive count.
def Fetches (s : State) : Action → Prop
  | .run i count => ∀ f ∈ s.dispatcher.frame i, f.pc = .getData → 0 < count
  | _            => True

-- A run finds another identifier only after `deployIndexer` has assigned `currentID`.
def Assigned (s : State) : Action → Prop
  | .run i _ => ∀ f ∈ s.dispatcher.frame i, f.pc = .test → s.indexer.currentID < s.indexer.endID →
      s.main = .start ∨ s.main = .done
  | _        => True

instance (s : State) : (a : Action) → Decidable (Fetches s a)
  | .run _ _       => inferInstanceAs (Decidable (∀ _ ∈ _, _))
  | .deployIndexer => inferInstanceAs (Decidable True)
  | .workThread _  => inferInstanceAs (Decidable True)

instance (s : State) : (a : Action) → Decidable (Assigned s a)
  | .run _ _       => inferInstanceAs (Decidable (∀ _ ∈ _, _))
  | .deployIndexer => inferInstanceAs (Decidable True)
  | .workThread _  => inferInstanceAs (Decidable True)

-- Nothing is in `eventList`, no worker has an item, and the set-up is done.
structure Settled (s : State) : Prop where
  main    : s.main = .done
  events  : s.dispatcher.eventList = []
  workers : ∀ w ∈ s.dispatcher.threadList, w.pc.Idle

-- No identifier is submitted twice, each one is in the range, and in the end all of them are submitted.
structure Covers (endID : Int) (s : State) : Prop where
  once     : s.submitted.Nodup
  range    : ∀ url ∈ s.submitted, ∃ id, 1 ≤ id ∧ id ≤ endID ∧ url = videoURL id
  complete : Settled s → ∀ id, 1 ≤ id → id ≤ endID → videoURL id ∈ s.submitted

structure Sized (endID : Int) (s : State) : Prop where
  threadNum : 1 ≤ s.threadNum
  le        : s.threadNum ≤ s.indexer.endID
  endID     : s.indexer.endID = endID

theorem Numbered.run (h : Numbered s) (hs : s.run i count = .ok s') (hg : Fetches s (.run i count))
    (ha : Assigned s (.run i count)) : Numbered s' ∧ Kept s s' := by
  obtain ⟨f, hf, hr⟩ := State.run_ok hs
  have hcount := hg f hf
  have hlast := ha f hf
  cases h
  case quiet hq _ _ _ _ => cases (hq.frame i).symm.trans hf
  case seeding k hm hk  =>
    have hkept := changed_run hr hk.serves hf (hk.frames i f hf).count
    refine ⟨.seeding (by rw [hkept.main, hkept.threadNum]; exact hm)
      (hk.run hr hf hcount fun hpc hlt => ?_), hkept.toKept⟩
    have := hlast hpc hlt
    cases hm <;> simp_all
  case running hm hrun  =>
    have hkept := changed_run hr hrun.serves hf (hrun.frames i f hf).count
    exact ⟨.running (hkept.main ▸ hm) (hrun.run hr hf hcount), hkept.toKept⟩

theorem Numbered.workThread (h : Numbered s) (hs : s.workThread i = .ok s') : Numbered s' := by
  cases h
  case quiet hq hm hsub hl hid =>
    obtain ⟨d, hd, rfl⟩ := State.workThread_ok hs
    exact .quiet (hq.workThread hd) hm hsub hl hid
  case seeding k hm hk  =>
    have hk' := hk.workThread hs
    obtain ⟨d, hd, rfl⟩ := State.workThread_ok hs
    exact .seeding hm hk'
  case running hm hrun  =>
    have hrun' := hrun.workThread hs
    obtain ⟨d, hd, rfl⟩ := State.workThread_ok hs
    exact .running hm hrun'

theorem seeding_addCallback (hq : s.dispatcher.Quiet) (hz : Sized endID s) (hsub : s.submitted = [])
    (hl : s.indexer.lock = none) (hid : s.indexer.currentID = 1) :
    Seeding { s with dispatcher := (s.dispatcher.addCallback "func" (some ⟨⟩)).2, main := .seed 1 } 1 := by
  have hframe : ∀ j, (s.dispatcher.addCallback "func" (some ⟨⟩)).2.frame j = none := by
    intro j
    rw [hq.addCallback_eq (by decide)]
    exact hq.frame j
  have hthreads := hz.threadNum
  refine ⟨hq.addCallback (by decide) ⟨⟩, fun j hj => ?_, fun j f hf => ?_, fun j f hf => ?_,
    ⟨Int.le_refl 1, Int.le_add_of_nonneg_left (Int.le_trans Int.one_nonneg hthreads)⟩, hid, hsub, fun _ => ?_⟩
  case refine_1 => cases hl.symm.trans hj
  case refine_2 => cases (hframe j).symm.trans hf
  case refine_3 => cases (hframe j).symm.trans hf
  case refine_4 =>
    rw [State.active, hq.addCallback_eq (by decide)]
    exact congrArg Multiset.card hq.custody

theorem Numbered.deployIndexer (h : Numbered s) (hz : Sized endID s) (hs : s.deployIndexer = .ok s') :
    Numbered s' ∧ Sized endID s' := by
  unfold State.deployIndexer at hs
  split at hs
  case h_1 hm   =>
    cases hs
    cases h
    case quiet hq _ hsub hl hid =>
      exact ⟨.quiet (hq.setStatus .halt) (.inr rfl) hsub hl hid, hz.threadNum, hz.le, hz.endID⟩
    case seeding hm' _          => simp [hm] at hm'
    case running hm' _          => simp [hm] at hm'
  case h_2 hm   =>
    cases hs
    cases h
    case quiet hq _ hsub hl hid =>
      exact ⟨.seeding (.inl rfl) (seeding_addCallback hq hz hsub hl hid), hz.threadNum, hz.le, hz.endID⟩
    case seeding hm' _          => simp [hm] at hm'
    case running hm' _          => simp [hm] at hm'
  case h_3 k hm =>
    cases h
    case quiet hm' _ _ _     => simp [hm] at hm'
    case running hm' _       => simp [hm] at hm'
    case seeding k' hm' hk =>
      have hkk : k = k' := by simpa [hm] using hm'
      cases hkk
      split_ifs at hs
      case pos hle =>
        cases hs
        exact ⟨.seeding (.inl rfl) (hk.seed hle), hz.threadNum, hz.le, hz.endID⟩
      case neg hgt =>
        cases hs
        have hrange := hk.range
        refine ⟨.seeding (.inr ⟨rfl, ?_⟩) ⟨hk.serves, hk.held, ?_, hk.early, hk.range, hk.currentID,
          hk.submitted, hk.active⟩,
          hz.threadNum, hz.le, hz.endID⟩
        · exact Int.le_antisymm hrange.right (Int.not_le.mp hgt)
        · exact fun j f hf => (hk.frames j f hf).mono rfl rfl
  case h_4 hm   =>
    cases hs
    cases h
    case quiet hm' _ _ _    => simp [hm] at hm'
    case running hm' _      => simp [hm] at hm'
    case seeding k hm' hk =>
      have hkk : k = s.threadNum + 1 := by simpa [hm] using hm'
      cases hkk
      exact ⟨.running (.inl rfl) (hk.assign ⟨hz.threadNum, hz.le⟩), hz.threadNum, hz.le, hz.endID⟩
  case h_5 hm   =>
    cases hs
    cases h
    case quiet hm' _ _ _     => simp [hm] at hm'
    case seeding hm' _       => simp [hm] at hm'
    case running hm' hrun =>
      refine ⟨.running (.inr rfl) ⟨hrun.serves.setStatus .running, hrun.held, ?_, hrun.range,
        hrun.submitted, hrun.active⟩,
        hz.threadNum, hz.le, hz.endID⟩
      exact fun j f hf => (hrun.frames j f hf).mono rfl rfl
  case h_6      => cases hs

theorem Numbered.new (threadNum endID : Int) : Numbered (.new threadNum endID) :=
  .quiet (.new threadNum) (.inl rfl) rfl rfl rfl

-- The URLs that were submitted are always those of the first identifiers.
theorem Numbered.exists_ids (h : Numbered s) (hz : Sized endID s) : ∃ k : Nat, k ≤ endID ∧ s.submitted = ids k := by
  have h₁ := hz.threadNum
  have h₂ := hz.le
  have h₃ := hz.endID
  cases h
  case quiet hsub _ _   => exact ⟨0, by omega, hsub⟩
  case seeding k _ hk   =>
    have hrange := hk.range
    exact ⟨(k - 1).toNat, by omega, hk.submitted⟩
  case running hrun =>
    have hrange := hrun.range
    by_cases hsub : ∃ j f, s.frame j = some f ∧ f.pc = .submit
    case pos =>
      obtain ⟨j, f, hf, hpc⟩ := hsub
      exact ⟨(s.indexer.currentID - 1).toNat, by omega, (hrun.frames j f hf).submit hpc⟩
    case neg =>
      exact ⟨s.indexer.currentID.toNat, by omega, hrun.submitted fun j f hf hpc => hsub ⟨j, f, hf, hpc⟩⟩

theorem Settled.frame (h : Settled s) (j : Nat) : s.frame j = none := by
  cases hf : s.frame j
  case none   => rfl
  case some f =>
    obtain ⟨w, hw, hpc⟩ := EventDispatcher.frame_eq_some hf
    have := h.workers w (List.mem_of_getElem? hw)
    simp [hpc, EventDispatcher.Pc.Idle] at this

theorem Settled.active (h : Settled s) : s.active = 0 := by
  have hw : s.dispatcher.threadList.flatMap (EventDispatcher.Worker.hands (fun _ => [()]) Frame.active) = [] :=
    List.flatMap_eq_nil_iff.mpr fun w hw => EventDispatcher.Worker.hands_idle (h.workers w hw)
  rw [State.active, EventDispatcher.custody, h.events, hw]
  rfl

-- When nothing is left to do, `currentID` has come to the end.
theorem Numbered.submitted_of_settled (h : Numbered s) (hz : Sized endID s) (hs : Settled s) :
    s.submitted = ids endID.toNat := by
  have hm := hs.main
  cases h
  case quiet hm' _ _ _   => simp [hm] at hm'
  case seeding hm' _     => simp [hm] at hm'
  case running hrun =>
    have hend : s.indexer.currentID = s.indexer.endID := by
      refine Int.le_antisymm hrun.range.right (Int.not_lt.mp fun hlt => ?_)
      have hactive := hrun.active hlt
      have hthreads := hz.threadNum
      rw [hs.active] at hactive
      omega
    have hsub : ∀ j f, s.frame j = some f → f.pc ≠ .submit := fun j f hf => nomatch (hs.frame j).symm.trans hf
    rw [hrun.submitted hsub, hend, hz.endID]

theorem Numbered.covers (h : Numbered s) (hz : Sized endID s) : Covers endID s := by
  obtain ⟨k, hk, hsub⟩ := h.exists_ids hz
  constructor
  case once     => exact hsub ▸ nodup_ids k
  case range    =>
    intro url hurl
    obtain ⟨id, h₁, h₂, he⟩ := mem_ids.mp (hsub ▸ hurl)
    exact ⟨id, h₁, Int.le_trans h₂ hk, he⟩
  case complete =>
    intro hs id h₁ h₂
    rw [h.submitted_of_settled hz hs]
    exact mem_ids.mpr ⟨id, h₁, by omega, rfl⟩

theorem numbered_step {a : Action} (h : Numbered s ∧ Sized endID s) (hg : Fetches s a ∧ Assigned s a)
    (hs : step s a = .ok s') : Numbered s' ∧ Sized endID s' := by
  cases a
  case deployIndexer => exact h.left.deployIndexer h.right hs
  case workThread i  =>
    refine ⟨h.left.workThread hs, ?_⟩
    obtain ⟨d, _, rfl⟩ := State.workThread_ok hs
    exact ⟨h.right.threadNum, h.right.le, h.right.endID⟩
  case run i count   =>
    obtain ⟨hn, hk⟩ := h.left.run hs hg.left hg.right
    refine ⟨hn, ?_, ?_, ?_⟩
    · exact hk.threadNum ▸ h.right.threadNum
    · exact hk.threadNum ▸ hk.endID ▸ h.right.le
    · exact hk.endID.trans h.right.endID

-- When no run finds an identifier before `currentID` is assigned, each identifier is submitted once.
theorem covers_along {threadNum : Int} {actions : List Action} (h₁ : 1 ≤ threadNum) (h₂ : threadNum ≤ endID)
    (hfetches : Runs.Along step Fetches (.new threadNum endID) actions)
    (hassigned : Runs.Along step Assigned (.new threadNum endID) actions)
    (hr : Runs.run step (.new threadNum endID) actions = .ok s) : Covers endID s := by
  have hi : Numbered s ∧ Sized endID s :=
    Runs.invariant (I := fun s => Numbered s ∧ Sized endID s) ⟨.new threadNum endID, h₁, h₂, rfl⟩
      (hfetches.and hassigned) (fun _ _ _ h hg hs => numbered_step h hg hs) hr
  exact hi.left.covers hi.right

-- The steps of `deployIndexer` come first. The two workers then take the items that are there, and one of
-- them waits for the lock while the other one submits the next item.
def inTurn : List Action :=
  List.flatten [
    List.replicate 7 .deployIndexer,
    List.replicate 5 (.workThread 0),
    List.replicate 5 (.workThread 1),
    List.replicate 4 (.run 0 1),
    List.replicate 3 (.run 1 1),
    List.replicate 4 (.run 0 1),
    List.replicate 6 (.run 1 1),
    [.run 0 1],
    List.replicate 5 (.workThread 0),
    List.replicate 5 (.workThread 1),
    List.replicate 7 (.run 1 1),
    List.replicate 7 (.run 0 1)]

theorem settled_iff : Settled s ↔
    s.main = .done ∧ s.dispatcher.eventList = [] ∧ ∀ w ∈ s.dispatcher.threadList, w.pc.Idle :=
  ⟨fun h => ⟨h.main, h.events, h.workers⟩, fun h => ⟨h.left, h.right.left, h.right.right⟩⟩

instance (s : State) : Decidable (Settled s) :=
  decidable_of_iff' _ settled_iff

theorem covers_along_inTurn :
    ∃ s, Runs.run step (.new 2 4) inTurn = .ok s ∧ Settled s ∧
      s.submitted = [videoURL 1, videoURL 2, videoURL 3, videoURL 4] ∧ Covers 4 s := by
  obtain ⟨s, hr, hs, hurls⟩ : ∃ s, Runs.run step (.new 2 4) inTurn = .ok s ∧ Settled s ∧
      s.submitted = [videoURL 1, videoURL 2, videoURL 3, videoURL 4] :=
    Runs.exists_ok (by decide +kernel)
  exact ⟨s, hr, hs, hurls, covers_along (by decide) (by decide) (by decide +kernel) (by decide +kernel) hr⟩

-- The worker is already running: it gets the identifier 2 before the assignment, and once more after it.
def early : List Action :=
  List.replicate 3 .deployIndexer ++ List.replicate 5 (.workThread 0) ++ List.replicate 9 (.run 0 1) ++
    List.replicate 2 .deployIndexer ++ List.replicate 5 (.workThread 0) ++ List.replicate 7 (.run 0 1)

theorem not_covers :
    ¬∀ threadNum endID actions s, 1 ≤ threadNum → threadNum ≤ endID →
      Runs.Along step Fetches (.new threadNum endID) actions →
      Runs.run step (.new threadNum endID) actions = .ok s → Covers endID s := by
  intro h
  obtain ⟨s, hr, he⟩ : ∃ s, Runs.run step (.new 1 2) early = .ok s ∧
      s.submitted = [videoURL 1, videoURL 2, videoURL 2] := Runs.exists_ok (by decide +kernel)
  have honce := (h 1 2 early s (by decide) (by decide) (by decide +kernel) hr).once
  rw [he] at honce
  simp at honce

end Along

end Indexer3

end Server8
