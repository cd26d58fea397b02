import Mathlib.Algebra.Order.BigOperators.Group.List
import Mathlib.Algebra.Order.Sub.Basic
import Mathlib.Data.Multiset.OrderedMonoid
import Server8.Lib.Ownership
import Server8.Session.Refinement

-- What the slots of a session own, over its whole life.

namespace Server8

namespace Event

variable {m₀ m m' : Heap} {e e' event : Event} {owners : Multiset Nat} {src a : Nat} {length : Int}
  {v : Value}

-- The array that the event deletes in the end.
def array (e : Event) : Multiset Nat :=
  if e.length > 0 then {e.pData} else 0

theorem Empty.array_eq (h : e.Empty) : e.array = 0 := by
  simp [array, h.right]

theorem delete_beyond (h : m₀.Beyond m (e.array + owners)) (hd : e.delete m = some m') :
    m₀.Beyond m' owners := by
  unfold delete at hd
  unfold array at h
  by_cases hl : e.length > 0
  case pos =>
    rw [if_pos hl, Multiset.singleton_add] at h
    rw [if_pos ⟨h.ne_zero (Multiset.mem_cons_self ..), hl⟩] at hd
    exact h.free hd
  case neg =>
    rw [if_neg hl, Multiset.zero_add] at h
    rw [if_neg fun hn => hl hn.right] at hd
    cases hd
    exact h

theorem newAddress_delete (h : e.delete m = some m') : m'.newAddress = m.newAddress := by
  unfold delete at h
  split at h
  case isTrue  => exact Memory.newAddress_free h
  case isFalse => cases h; rfl

theorem copyData_beyond (h : copyData m src length = some (a, m')) : m.Beyond m' {a} := by
  obtain ⟨w, _, h⟩ := Option.bind_eq_some_iff.mp h
  split at h
  case isTrue  => cases h; exact .alloc ..
  case isFalse => cases h

-- The array of a new event, and of an event that was empty, is all that an event allocates.
theorem new_beyond {status : Status} {level : Level} {pri : Priority}
    (h : new m src length status level pri = some (m', e)) : m.Beyond m' e.array := by
  unfold new at h
  split at h
  case isTrue hl =>
    obtain ⟨⟨a, m₁⟩, hc, hm⟩ := Option.map_eq_some_iff.mp h
    cases hm
    simp only [array, hl.right, if_true]
    exact copyData_beyond hc
  case isFalse =>
    split at h
    case isTrue  => cases h; exact .refl m
    case isFalse => cases h; exact .refl m

theorem assign_beyond (he : e.Empty) (h : e.assign m event = some (m', e')) : m.Beyond m' e'.array := by
  rw [assign, he.delete_eq, Option.bind_some] at h
  split at h
  case isTrue hl =>
    obtain ⟨⟨a, m₁⟩, hc, hm⟩ := Option.map_eq_some_iff.mp h
    cases hm
    simp only [array, hl, if_true]
    exact copyData_beyond hc
  case isFalse hl =>
    cases h
    simp only [array, hl, if_false]
    exact .refl m

theorem ofValue_beyond (h : ofValue m v = some (m', e)) : m.Beyond m' e.array := by
  unfold ofValue at h
  split at h
  case h_1 => exact new_beyond h
  case h_2 w _ =>
    obtain ⟨⟨m₁, e₁⟩, hn, h⟩ := Option.bind_eq_some_iff.mp h
    obtain ⟨m₂, hf, hm⟩ := Option.bind_eq_some_iff.mp h
    cases hm
    have hb := (Memory.Beyond.alloc m w).trans (new_beyond hn)
    rw [Multiset.singleton_add] at hb
    exact hb.free hf

end Event

namespace EventQueue

variable {m₀ m m' : Heap} {q q' : EventQueue} {event e : Event} {i : Nat}

def arrays (q : EventQueue) : Multiset Nat :=
  (q.eventArr.map Event.array).sum

theorem arrays_of_empty (h : ∀ e ∈ q.eventArr, e.Empty) : q.arrays = 0 := by
  apply List.sum_eq_zero
  intro x hx
  obtain ⟨e, he, rfl⟩ := List.mem_map.mp hx
  exact (h e he).array_eq

-- The arrays of all slots but one.
def arraysBut (q : EventQueue) (i : Nat) : Multiset Nat :=
  ((q.eventArr.eraseIdx i).map Event.array).sum

theorem arrays_eq (hi : q.eventArr[i]? = some e) : q.arrays = e.array + q.arraysBut i := by
  obtain ⟨hlt, rfl⟩ := List.getElem?_eq_some_iff.mp hi
  have hp := (List.getElem_cons_eraseIdx_perm hlt).map Event.array
  rw [arrays, ← hp.sum_eq, List.map_cons, List.sum_cons, arraysBut]

theorem arrays_set (hi : q.eventArr[i]? = some e) (x : Event) :
    ({ q with eventArr := q.eventArr.set i x } : EventQueue).arrays = x.array + q.arraysBut i := by
  obtain ⟨hlt, _⟩ := List.getElem?_eq_some_iff.mp hi
  have hp := (List.set_perm_cons_eraseIdx hlt x).map Event.array
  rw [arrays, hp.sum_eq, List.map_cons, List.sum_cons, arraysBut]

-- A change that only allocates, and what it adds to the arrays.
def Adds (m m' : Heap) (q q' : EventQueue) : Prop :=
  ∃ new, q'.arrays = q.arrays + new ∧ m.Beyond m' new

theorem Adds.refl (m : Heap) (q : EventQueue) : Adds m m q q :=
  ⟨0, (add_zero _).symm, .refl m⟩

theorem Adds.of_eventArr {q₀ q₁ : EventQueue} (h : Adds m m' q₀ q₁) (hq : q.eventArr = q₀.eventArr)
    (hq' : q'.eventArr = q₁.eventArr) : Adds m m' q q' := by
  obtain ⟨new, hnew, hb⟩ := h
  refine ⟨new, ?_, hb⟩
  rw [arrays, arrays, hq, hq']
  exact hnew

theorem assign_adds (hi : q.eventArr[i]? = some e) (he : e.Empty)
    (h : q.assign m i event = some (m', q')) : Adds m m' q q' := by
  obtain ⟨e, hi', h⟩ := Option.bind_eq_some_iff.mp h
  cases hi.symm.trans hi'
  obtain ⟨⟨m₁, e'⟩, ha, hq⟩ := Option.bind_eq_some_iff.mp h
  cases hq
  refine ⟨e'.array, ?_, Event.assign_beyond he ha⟩
  rw [arrays_set hi, arrays_eq hi, he.array_eq, Multiset.zero_add, Multiset.add_comm]

-- A change that only deletes, and what it leaves of the arrays.
structure Deletes (m m' : Heap) (q q' : EventQueue) : Prop where
  newAddress : m'.newAddress = m.newAddress
  le         : q'.arrays ≤ q.arrays
  beyond     : ∀ {m₀ : Heap}, m₀.Beyond m q.arrays → m₀.Beyond m' q'.arrays

theorem Deletes.refl (m : Heap) (q : EventQueue) : Deletes m m q q :=
  ⟨rfl, le_refl _, id⟩

theorem Deletes.of_eventArr {q₁ : EventQueue} (h : Deletes m m' q q₁) (hq : q'.eventArr = q₁.eventArr) :
    Deletes m m' q q' := by
  have ha : q'.arrays = q₁.arrays := by rw [arrays, hq, arrays]
  exact ⟨h.newAddress, ha ▸ h.le, ha ▸ h.beyond⟩

theorem Deletes.trans {m₁ : Heap} {q₁ : EventQueue} (h : Deletes m m₁ q q₁)
    (h' : Deletes m₁ m' q₁ q') : Deletes m m' q q' where
  newAddress := h'.newAddress.trans h.newAddress
  le         := h'.le.trans h.le
  beyond hb  := h'.beyond (h.beyond hb)

theorem release_deletes (h : q.release m i = some (m', q')) : Deletes m m' q q' := by
  obtain ⟨e, hi, h⟩ := Option.bind_eq_some_iff.mp h
  obtain ⟨⟨m₁, e'⟩, hr, hq⟩ := Option.bind_eq_some_iff.mp h
  obtain ⟨m₂, hd, he⟩ := Option.map_eq_some_iff.mp hr
  cases he
  cases hq
  have hempty : Event.Empty { e with pData := 0, length := 0 } := ⟨rfl, rfl⟩
  constructor
  case newAddress => exact Event.newAddress_delete hd
  case le =>
    rw [arrays_set hi, hempty.array_eq, Multiset.zero_add, arrays_eq hi]
    exact Multiset.le_add_left ..
  case beyond =>
    intro m₀ hb
    rw [arrays_eq hi] at hb
    rw [arrays_set hi, hempty.array_eq, Multiset.zero_add]
    exact Event.delete_beyond hb hd

theorem clearLoop_deletes (n : Nat) {index : Nat}
    (h : Session.clearLoop n index m q = some (m', q')) : Deletes m m' q q' := by
  induction n generalizing m q index
  case zero =>
    cases h
    exact .refl ..
  case succ n ih =>
    obtain ⟨⟨m₁, q₁⟩, hr, h⟩ := Option.bind_eq_some_iff.mp h
    exact (release_deletes hr).trans (ih h)

variable {items : List Event.Value}

namespace Represents

-- The slots that a push assigns to.

theorem slot_behind (h : q.Represents m items) (hf : q.isFull = false) :
    ∃ e, q.eventArr[Ring.succ q.maxSize q.tail]? = some e ∧ e.Empty := by
  have hs : q.size < q.maxSize := Nat.lt_of_le_of_ne h.bound (of_decide_eq_false hf)
  obtain ⟨e, he⟩ := h.slot (Ring.succ_lt h.tail_lt)
  exact ⟨e, he, h.dead he (h.succ_tail_not_mem hs)⟩

theorem slot_before (h : q.Represents m items) (hf : q.isFull = false) :
    ∃ e, q.eventArr[Ring.pred q.maxSize q.head]? = some e ∧ e.Empty := by
  have hs : q.size < q.maxSize := Nat.lt_of_le_of_ne h.bound (of_decide_eq_false hf)
  obtain ⟨e, he⟩ := h.slot (Ring.pred_lt h.head_lt)
  exact ⟨e, he, h.dead he (h.pred_head_not_mem hs)⟩

-- Without live slots all are empty.
theorem empty_of_size (h : q.Represents m items) (hs : q.size = 0) {e : Event} (he : e ∈ q.eventArr) :
    e.Empty := by
  obtain ⟨i, hi⟩ := List.mem_iff_getElem?.mp he
  exact h.dead hi (by simp [window, hs, Ring.window])

end Represents
end EventQueue

namespace Session

variable {m m₁ m' : Heap} {s s' : Session} {event : Event} {items : List Event.Value} {b : Bool}

theorem pushBack_adds (hr : s.eventQueue.Represents m₁ items) (h : s.pushBack m event = some (m', s', b)) :
    EventQueue.Adds m m' s.eventQueue s'.eventQueue := by
  unfold pushBack at h
  split at h
  case isTrue hg =>
    obtain ⟨e, hi, he⟩ := hr.slot_behind (Bool.not_eq_true _ ▸ hg.right)
    obtain ⟨⟨m₂, q⟩, ha, hq⟩ := Option.bind_eq_some_iff.mp h
    let i := Ring.succ s.eventQueue.maxSize s.eventQueue.tail
    have hadd := EventQueue.assign_adds (q := { s.eventQueue with tail := i }) hi he ha
    cases hq
    exact hadd.of_eventArr rfl (by dsimp only; split <;> rfl)
  case isFalse =>
    cases h
    exact .refl ..

theorem pushFront_adds (hr : s.eventQueue.Represents m₁ items)
    (h : s.pushFront m event = some (m', s', b)) :
    EventQueue.Adds m m' s.eventQueue s'.eventQueue := by
  unfold pushFront at h
  split at h
  case isTrue hg =>
    obtain ⟨e, hi, he⟩ := hr.slot_before (Bool.not_eq_true _ ▸ hg.right)
    obtain ⟨⟨m₂, q⟩, ha, hq⟩ := Option.bind_eq_some_iff.mp h
    let i := Ring.pred s.eventQueue.maxSize s.eventQueue.head
    have hadd := EventQueue.assign_adds (q := { s.eventQueue with head := i }) hi he ha
    cases hq
    exact hadd.of_eventArr rfl (by dsimp only; split <;> rfl)
  case isFalse =>
    cases h
    exact .refl ..

theorem popFront_deletes (h : s.popFront m = some (m', s', b)) :
    EventQueue.Deletes m m' s.eventQueue s'.eventQueue := by
  unfold popFront at h
  split at h
  case isTrue =>
    obtain ⟨⟨m₂, q⟩, hr, hq⟩ := Option.bind_eq_some_iff.mp h
    have hd := EventQueue.release_deletes hr
    cases hq
    exact hd.of_eventArr (by dsimp only; split <;> rfl)
  case isFalse =>
    cases h
    exact .refl ..

theorem popBack_deletes (h : s.popBack m = some (m', s', b)) :
    EventQueue.Deletes m m' s.eventQueue s'.eventQueue := by
  unfold popBack at h
  split at h
  case isTrue =>
    obtain ⟨⟨m₂, q⟩, hr, hq⟩ := Option.bind_eq_some_iff.mp h
    have hd := EventQueue.release_deletes hr
    cases hq
    exact hd.of_eventArr (by dsimp only; split <;> rfl)
  case isFalse =>
    cases h
    exact .refl ..

theorem clearEventQueue_deletes (h : s.clearEventQueue m = some (m', s')) :
    EventQueue.Deletes m m' s.eventQueue s'.eventQueue := by
  obtain ⟨⟨m₂, q⟩, hc, hq⟩ := Option.bind_eq_some_iff.mp h
  have hd := EventQueue.clearLoop_deletes _ hc
  cases hq
  exact hd.of_eventArr rfl

section Calls

variable {capacity : Nat}

-- What a caller passes to a push: an event of its own, or a slot that it has a pointer to.
inductive Source (capacity : Nat)
  | value (v : Content)
  | slot (i : Fin capacity)

inductive Call (capacity : Nat)
  | pushBack (source : Source capacity)
  | pushFront (source : Source capacity)
  | popFront
  | popBack
  | clearEventQueue
  | setStatus (status : Status)

def pushSource (push : Heap → Session → Event → Option (Heap × Session × Bool)) (m : Heap)
    (s : Session) : Source capacity → Option (Heap × Session × Bool)
  | .value v => withEvent push m s v
  | .slot i  => s.eventQueue.eventArr[i.val]?.bind (push m s)

def call (m : Heap) (s : Session) : Call capacity → Option (Heap × Session)
  | .pushBack source  => (pushSource pushBack m s source).map fun (m, s, _) => (m, s)
  | .pushFront source => (pushSource pushFront m s source).map fun (m, s, _) => (m, s)
  | .popFront         => (s.popFront m).map fun (m, s, _) => (m, s)
  | .popBack          => (s.popBack m).map fun (m, s, _) => (m, s)
  | .clearEventQueue  => s.clearEventQueue m
  | .setStatus status => some (m, s.setStatus status)

def Call.IsPush (c : Call capacity) : Prop :=
  (∃ source, c = .pushBack source) ∨ ∃ source, c = .pushFront source

theorem pushSource_adds {push : Heap → Session → Event → Option (Heap × Session × Bool)}
    {source : Source capacity}
    (hp : ∀ {m m' : Heap} {event : Event}, push m s event = some (m', s', b) →
      EventQueue.Adds m m' s.eventQueue s'.eventQueue)
    (h : pushSource push m s source = some (m', s', b)) :
    EventQueue.Adds m m' s.eventQueue s'.eventQueue := by
  cases source
  case slot i =>
    obtain ⟨e, _, h⟩ := Option.bind_eq_some_iff.mp h
    exact hp h
  case value v =>
    obtain ⟨⟨m₁, event⟩, ho, h⟩ := Option.bind_eq_some_iff.mp h
    obtain ⟨⟨m₂, s₂, b₂⟩, hm, h⟩ := Option.bind_eq_some_iff.mp h
    obtain ⟨m₃, hd, h⟩ := Option.bind_eq_some_iff.mp h
    cases h
    obtain ⟨new, hnew, hb⟩ := hp hm
    exact ⟨new, hnew, Event.delete_beyond ((Event.ofValue_beyond ho).trans hb) hd⟩

theorem call_adds {c : Call capacity} (hr : s.eventQueue.Represents m₁ items) (hc : c.IsPush)
    (h : s.call m c = some (m', s')) : EventQueue.Adds m m' s.eventQueue s'.eventQueue := by
  obtain ⟨source, rfl⟩ | ⟨source, rfl⟩ := hc
  case inl =>
    obtain ⟨⟨m₂, s₂, b⟩, hp, h⟩ := Option.map_eq_some_iff.mp h
    cases h
    exact pushSource_adds (fun hp => pushBack_adds hr hp) hp
  case inr =>
    obtain ⟨⟨m₂, s₂, b⟩, hp, h⟩ := Option.map_eq_some_iff.mp h
    cases h
    exact pushSource_adds (fun hp => pushFront_adds hr hp) hp

theorem call_deletes {c : Call capacity} (hc : ¬c.IsPush) (h : s.call m c = some (m', s')) :
    EventQueue.Deletes m m' s.eventQueue s'.eventQueue := by
  cases c
  case pushBack source  => exact absurd (.inl ⟨source, rfl⟩) hc
  case pushFront source => exact absurd (.inr ⟨source, rfl⟩) hc
  case popFront =>
    obtain ⟨⟨m₂, s₂, b⟩, hp, h⟩ := Option.map_eq_some_iff.mp h
    cases h
    exact popFront_deletes hp
  case popBack =>
    obtain ⟨⟨m₂, s₂, b⟩, hp, h⟩ := Option.map_eq_some_iff.mp h
    cases h
    exact popBack_deletes hp
  case clearEventQueue => exact clearEventQueue_deletes h
  case setStatus =>
    cases h
    exact .refl ..

variable {a : Spec capacity}

namespace Refines

theorem pushBack_valid (h : Refines m s a) (hv : event.Valid m) :
    ∃ m' s' b a', s.pushBack m event = some (m', s', b) ∧ Refines m' s' (a' : Spec capacity) := by
  by_cases hh : a.status = .halt ∨ a.queue.pushBack (event.value m) = none
  case pos => exact ⟨m, s, false, a, h.pushBack_refused hh m event, h⟩
  case neg =>
    obtain ⟨hs, hq⟩ := not_or.mp hh
    obtain ⟨d, hd⟩ := Option.ne_none_iff_exists'.mp hq
    obtain ⟨m', s', hm, h', _⟩ := h.pushBack_event hs hd hv
    exact ⟨m', s', true, _, hm, h'⟩

theorem pushFront_valid (h : Refines m s a) (hv : event.Valid m) :
    ∃ m' s' b a', s.pushFront m event = some (m', s', b) ∧ Refines m' s' (a' : Spec capacity) := by
  by_cases hh : a.status = .halt ∨ a.queue.pushFront (event.value m) = none
  case pos => exact ⟨m, s, false, a, h.pushFront_refused hh m event, h⟩
  case neg =>
    obtain ⟨hs, hq⟩ := not_or.mp hh
    obtain ⟨d, hd⟩ := Option.ne_none_iff_exists'.mp hq
    obtain ⟨m', s', hm, h', _⟩ := h.pushFront_event hs hd hv
    exact ⟨m', s', true, _, hm, h'⟩

-- A slot of the queue is as good as an event of the caller.
theorem pushSource {push : Heap → Session → Event → Option (Heap × Session × Bool)}
    (h : Refines m s a) (source : Source capacity)
    (hp : ∀ v : Content, ∃ m' s' b a', withEvent push m s v = some (m', s', b) ∧
      Refines m' s' (a' : Spec capacity))
    (hq : ∀ {event : Event}, event.Valid m → ∃ m' s' b a', push m s event = some (m', s', b) ∧
      Refines m' s' (a' : Spec capacity)) :
    ∃ m' s' b a', Session.pushSource push m s source = some (m', s', b) ∧
      Refines m' s' (a' : Spec capacity) := by
  cases source
  case value v => exact hp v
  case slot i =>
    obtain ⟨e, he⟩ := h.queue.slot (Nat.lt_of_lt_of_eq i.isLt h.maxSize.symm)
    obtain ⟨m', s', b, a', hm, h'⟩ := hq (h.queue.owned.valid he)
    exact ⟨m', s', b, a', by rw [Session.pushSource, he, Option.bind_some, hm], h'⟩

theorem pushBackSource (h : Refines m s a) (source : Source capacity) :
    ∃ m' s' b a', Session.pushSource Session.pushBack m s source = some (m', s', b) ∧
      Refines m' s' (a' : Spec capacity) := by
  apply h.pushSource source
  case hp =>
    intro v
    obtain ⟨m', s', b, hm, _, h'⟩ := h.pushBack v
    exact ⟨m', s', b, _, hm, h'⟩
  case hq => exact h.pushBack_valid

theorem pushFrontSource (h : Refines m s a) (source : Source capacity) :
    ∃ m' s' b a', Session.pushSource Session.pushFront m s source = some (m', s', b) ∧
      Refines m' s' (a' : Spec capacity) := by
  apply h.pushSource source
  case hp =>
    intro v
    obtain ⟨m', s', b, hm, _, h'⟩ := h.pushFront v
    exact ⟨m', s', b, _, hm, h'⟩
  case hq => exact h.pushFront_valid

theorem call (h : Refines m s a) (c : Call capacity) :
    ∃ m' s' a', s.call m c = some (m', s') ∧ Refines m' s' (a' : Spec capacity) := by
  cases c
  case pushBack source =>
    obtain ⟨m', s', b, a', hm, h'⟩ := h.pushBackSource source
    exact ⟨m', s', a', by simp only [Session.call, hm, Option.map_some], h'⟩
  case pushFront source =>
    obtain ⟨m', s', b, a', hm, h'⟩ := h.pushFrontSource source
    exact ⟨m', s', a', by simp only [Session.call, hm, Option.map_some], h'⟩
  case popFront =>
    obtain ⟨m', s', b, hm, _, h'⟩ := h.popFront
    exact ⟨m', s', _, by simp only [Session.call, hm, Option.map_some], h'⟩
  case popBack =>
    obtain ⟨m', s', b, hm, _, h'⟩ := h.popBack
    exact ⟨m', s', _, by simp only [Session.call, hm, Option.map_some], h'⟩
  case clearEventQueue =>
    obtain ⟨m', s', hm, h'⟩ := h.clearEventQueue
    exact ⟨m', s', _, hm, h'⟩
  case setStatus status => exact ⟨m, s.setStatus status, ⟨status, a.queue⟩, rfl, rfl, h.maxSize, h.queue⟩

end Refines
theorem Refines.destroy (h : Refines m s a) :
    ∃ m' s', s.clearEventQueue m = some (m', s') ∧ s'.eventQueue.maxSize = capacity ∧
      s'.eventQueue.eventArr.length = capacity ∧ (∀ e ∈ s'.eventQueue.eventArr, e.Empty) ∧
      s.destroy m = some m' := by
  obtain ⟨m', s', hc, h'⟩ := h.clearEventQueue
  have hs : s'.eventQueue.size = 0 := h'.queue.size_eq
  have he : ∀ e ∈ s'.eventQueue.eventArr, e.Empty := fun e he => h'.queue.empty_of_size hs he
  refine ⟨m', s', hc, h'.maxSize, h'.queue.length.trans h'.maxSize, he, ?_⟩
  rw [Session.destroy, hc]
  change s'.eventQueue.eventArr.reverse.foldlM Event.delete m' = some m'
  have he : ∀ e ∈ s'.eventQueue.eventArr.reverse, e.Empty := fun e hr => he e (List.mem_reverse.mp hr)
  generalize s'.eventQueue.eventArr.reverse = events at he
  induction events
  case nil => rfl
  case cons e events ih =>
    rw [List.foldlM_cons, (he e List.mem_cons_self).delete_eq]
    exact ih fun e h => he e (List.mem_cons_of_mem _ h)

-- A session with its heap, and the arrays that came into its slots and left them so far.
structure Account where
  heap     : Heap
  session  : Session
  copied   : Multiset Nat
  released : Multiset Nat

namespace Account

def start (m : Heap) (s : Session) : Account :=
  ⟨m, s, 0, 0⟩

def arrays (t : Account) : Multiset Nat :=
  t.session.eventQueue.arrays

def call (t : Account) (c : Call capacity) : Option Account :=
  (t.session.call t.heap c).map fun (heap, session) => {
    heap, session
    copied   := t.copied + (session.eventQueue.arrays - t.arrays)
    released := t.released + (t.arrays - session.eventQueue.arrays) }

def run (t : Account) (calls : List (Call capacity)) : Option Account :=
  calls.foldlM call t

-- Every array that came into a slot is a new one, and is in a slot or has left it.
structure Balanced (m₀ : Heap) (t : Account) : Prop where
  beyond : m₀.Beyond t.heap t.arrays
  nodup  : t.copied.Nodup
  new    : ∀ x ∈ t.copied, m₀.newAddress ≤ x
  old    : ∀ x ∈ t.copied, x < t.heap.newAddress
  sum    : t.copied = t.released + t.arrays

variable {m₀ : Heap} {t t' : Account} {c : Call capacity}

theorem call_of_adds (h : t.session.call t.heap c = some (m', s'))
    (ha : EventQueue.Adds t.heap m' t.session.eventQueue s'.eventQueue) :
    ∃ new, t.heap.Beyond m' new ∧ s'.eventQueue.arrays = t.arrays + new ∧
      t.call c = some ⟨m', s', t.copied + new, t.released⟩ := by
  obtain ⟨new, hnew, hb⟩ := ha
  have hcopied : s'.eventQueue.arrays - t.arrays = new := by rw [hnew]; exact add_tsub_cancel_left ..
  have hreleased : t.arrays - s'.eventQueue.arrays = 0 := by
    rw [hnew]
    exact tsub_eq_zero_of_le (Multiset.le_add_right ..)
  refine ⟨new, hb, hnew, ?_⟩
  simp only [call, h, Option.map_some, hcopied, hreleased, add_zero]

theorem call_of_deletes (h : t.session.call t.heap c = some (m', s'))
    (hd : EventQueue.Deletes t.heap m' t.session.eventQueue s'.eventQueue) :
    t.call c = some ⟨m', s', t.copied, t.released + (t.arrays - s'.eventQueue.arrays)⟩ := by
  have hcopied : s'.eventQueue.arrays - t.arrays = 0 := tsub_eq_zero_of_le hd.le
  simp only [call, h, Option.map_some, hcopied, add_zero]

theorem Balanced.call_push (hb : t.Balanced m₀) (h : t.session.call t.heap c = some (m', s'))
    (ha : EventQueue.Adds t.heap m' t.session.eventQueue s'.eventQueue) (ht : t.call c = some t') :
    t'.Balanced m₀ := by
  obtain ⟨new, hbeyond, hnew, hcall⟩ := call_of_adds h ha
  cases hcall.symm.trans ht
  constructor
  case beyond =>
    rw [arrays, hnew]
    exact hb.beyond.trans hbeyond
  case nodup =>
    rw [Multiset.nodup_add]
    refine ⟨hb.nodup, hbeyond.nodup, Multiset.disjoint_left.mpr fun hx hx' => ?_⟩
    exact Nat.not_lt.mpr (hbeyond.new _ hx') (hb.old _ hx)
  case new =>
    intro x hx
    cases Multiset.mem_add.mp hx
    case inl hx => exact hb.new x hx
    case inr hx => exact Nat.le_trans hb.beyond.later (hbeyond.new x hx)
  case old =>
    intro x hx
    cases Multiset.mem_add.mp hx
    case inl hx => exact Nat.lt_of_lt_of_le (hb.old x hx) hbeyond.later
    case inr hx => exact hbeyond.lt_newAddress hx
  case sum =>
    rw [arrays, hnew, hb.sum, add_assoc]

theorem Balanced.call_other (hb : t.Balanced m₀) (h : t.session.call t.heap c = some (m', s'))
    (hd : EventQueue.Deletes t.heap m' t.session.eventQueue s'.eventQueue) (ht : t.call c = some t') :
    t'.Balanced m₀ := by
  cases (call_of_deletes h hd).symm.trans ht
  exact {
    beyond := hd.beyond hb.beyond
    nodup  := hb.nodup
    new    := hb.new
    old    := fun x hx => hd.newAddress ▸ hb.old x hx
    sum    := by
      have hle : s'.eventQueue.arrays ≤ t.arrays := hd.le
      calc t.copied
        _ = t.released + t.arrays := hb.sum
        _ = t.released + (t.arrays - s'.eventQueue.arrays + s'.eventQueue.arrays) := by
          rw [tsub_add_cancel_of_le hle]
        _ = t.released + (t.arrays - s'.eventQueue.arrays) + s'.eventQueue.arrays := by
          rw [add_assoc] }

-- What is said of a session with `capacity` slots that began on the heap `m₀`.
structure Settled (capacity : Nat) (m₀ : Heap) (t : Account) : Prop where
  dead     : ∀ {i : Nat} {e : Event}, t.session.eventQueue.eventArr[i]? = some e →
    i ∉ t.session.eventQueue.window → e.pData = 0 ∧ e.length = 0
  copied   : t.copied.Nodup
  sum      : t.copied = t.released + t.arrays
  live     : ∀ x ∈ t.arrays, ∃ w, t.heap.block x = some w
  gone     : ∀ x ∈ t.released, t.heap.block x = none
  push     : ∀ {c : Call capacity} {t' : Account}, c.IsPush → t.call c = some t' →
    t'.released = t.released
  clear    : ∃ m s, t.session.clearEventQueue t.heap = some (m, s) ∧
    s.eventQueue.maxSize = capacity ∧ s.eventQueue.eventArr.length = capacity ∧
    (∀ e ∈ s.eventQueue.eventArr, e.pData = 0 ∧ e.length = 0) ∧ ∀ x ∈ t.copied, m.block x = none
  destroy  : ∃ m, t.session.destroy t.heap = some m ∧ m.block = m₀.block ∧
    ∀ x ∈ t.copied, m.block x = none

theorem Balanced.settled (hb : t.Balanced m₀) (hr : Refines t.heap t.session a) :
    t.Settled capacity m₀ := by
  obtain ⟨m, s, hc, hmax, hlen, he, hd⟩ := hr.destroy
  have hnone : s.eventQueue.arrays = 0 := EventQueue.arrays_of_empty he
  have hbeyond : m₀.Beyond m 0 := hnone ▸ (clearEventQueue_deletes hc).beyond hb.beyond
  have hcopied : ∀ x ∈ t.copied, m.block x = none := fun x hx =>
    hbeyond.block_eq_none (hb.new x hx) (Multiset.notMem_zero x)
  constructor
  case dead    => exact hr.queue.dead
  case copied  => exact hb.nodup
  case sum     => exact hb.sum
  case live    => exact hb.beyond.live
  case gone =>
    intro x hx
    have hsum := hb.nodup
    rw [hb.sum, Multiset.nodup_add] at hsum
    have hx' : x ∈ t.copied := hb.sum ▸ Multiset.mem_add.mpr (.inl hx)
    exact hb.beyond.block_eq_none (hb.new x hx') (Multiset.disjoint_left.mp hsum.right.right hx)
  case push =>
    intro c t' hp ht
    obtain ⟨m', s', _, hcall, _⟩ := hr.call c
    obtain ⟨_, _, _, ht'⟩ := call_of_adds hcall (call_adds hr.queue hp hcall)
    cases ht'.symm.trans ht
    rfl
  case clear   => exact ⟨m, s, hc, hmax, hlen, he, hcopied⟩
  case destroy => exact ⟨m, hd, hbeyond.block_eq, hcopied⟩

theorem Balanced.run (hb : t.Balanced m₀) (hr : Refines t.heap t.session a) (calls : List (Call capacity)) :
    ∃ t' a', t.run calls = some t' ∧ t'.Balanced m₀ ∧
      Refines t'.heap t'.session (a' : Spec capacity) := by
  induction calls generalizing t a
  case nil => exact ⟨t, a, rfl, hb, hr⟩
  case cons c calls ih =>
    obtain ⟨m', s', a', hcall, hr'⟩ := hr.call c
    obtain ⟨t', ht, hb', hh, hs⟩ :
        ∃ t', t.call c = some t' ∧ t'.Balanced m₀ ∧ t'.heap = m' ∧ t'.session = s' := by
      by_cases hp : c.IsPush
      case pos =>
        have hadd := call_adds hr.queue hp hcall
        obtain ⟨_, _, _, ht⟩ := call_of_adds hcall hadd
        exact ⟨_, ht, hb.call_push hcall hadd ht, rfl, rfl⟩
      case neg =>
        have hd := call_deletes hp hcall
        have ht := call_of_deletes hcall hd
        exact ⟨_, ht, hb.call_other hcall hd ht, rfl, rfl⟩
    obtain ⟨t'', a'', hrun, h''⟩ := ih hb' (hh ▸ hs ▸ hr')
    refine ⟨t'', a'', ?_, h''⟩
    rw [Account.run, List.foldlM_cons, ht]
    exact hrun

theorem Balanced.start (m : Heap) {s : Session} (hs : s.eventQueue.arrays = 0) :
    (start m s).Balanced m where
  beyond := by
    rw [arrays, Account.start, hs]
    exact .refl m
  nodup  := Multiset.nodup_zero
  new _ h := absurd h (Multiset.notMem_zero _)
  old _ h := absurd h (Multiset.notMem_zero _)
  sum    := by rw [arrays, Account.start, hs, add_zero]

end Account

-- Whatever is called on a new session: dead slots hold nothing, a push deletes nothing, what was
-- copied in is deleted once, and `clearEventQueue` and the destructor leave nothing behind.
theorem slots_settled (m : Heap) (key : String) (maxSize : Int) (status : Status) (level : Level)
    (pri : Priority) (calls : List (Call (Spec.capacityOf maxSize))) :
    ∃ t, (Account.start m (new key maxSize status level pri)).run calls = some t ∧
      t.Settled (Spec.capacityOf maxSize) m := by
  have hr := Refines.new m key maxSize status level pri
  have hs := EventQueue.arrays_of_empty fun e he => hr.queue.empty_of_size rfl he
  obtain ⟨t, a, hrun, hb, hr'⟩ := (Account.Balanced.start m hs).run hr calls
  exact ⟨t, hrun, hb.settled hr'⟩

end Calls
end Session
end Server8
