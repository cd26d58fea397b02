import Server8.Lib.Deque
import Server8.Session.Queue

namespace Server8.Session

-- What a caller can put in an event: an array of its own has at least one byte.
abbrev Content :=
  { v : Event.Value // v.payload ≠ .bytes [] }

inductive Op
  | pushBack (v : Content)
  | pushFront (v : Content)
  | popFront
  | popBack
  | getFirst
  | getLast
  | getEventCount
  | clearEventQueue
  | setStatus (status : Status)

-- A getter returns true if it exposes an event, with this length and this value.
inductive Result
  | done
  | bool (b : Bool)
  | count (n : Nat)
  | event (e : Option (Int × Event.Value))
  deriving DecidableEq, Repr

section Concrete

-- The caller builds an event, pushes it and destroys it.
def withEvent (push : Heap → Session → Event → Option (Heap × Session × Bool)) (m : Heap)
    (s : Session) (v : Event.Value) : Option (Heap × Session × Bool) := do
  let (m, event) ← Event.ofValue m v
  let (m, s, b) ← push m s event
  let m ← event.delete m
  some (m, s, b)

def exposed (m : Heap) (e : Event) : Int × Event.Value :=
  (e.length, e.value m)

def apply (m : Heap) (s : Session) : Op → Option (Heap × Session × Result)
  | .pushBack v       => (withEvent pushBack m s v).map fun (m, s, b) => (m, s, .bool b)
  | .pushFront v      => (withEvent pushFront m s v).map fun (m, s, b) => (m, s, .bool b)
  | .popFront         => (s.popFront m).map fun (m, s, b) => (m, s, .bool b)
  | .popBack          => (s.popBack m).map fun (m, s, b) => (m, s, .bool b)
  | .getFirst         => s.getFirst.map fun e => (m, s, .event (e.map (exposed m)))
  | .getLast          => s.getLast.map fun e => (m, s, .event (e.map (exposed m)))
  | .getEventCount    => some (m, s, .count s.getEventCount)
  | .clearEventQueue  => (s.clearEventQueue m).map fun (m, s) => (m, s, .done)
  | .setStatus status => some (m, s.setStatus status, .done)

def run (m : Heap) (s : Session) : List Op → Option (List Result)
  | []        => some []
  | op :: ops => do
    let (m, s, r) ← s.apply m op
    let rs ← run m s ops
    some (r :: rs)

variable {m m' : Heap} {s : Session} {q : EventQueue} {event : Event}

theorem pushBack_eq (hs : s.status ≠ .halt ∧ ¬s.eventQueue.isFull = true)
    (hm : let i := Ring.succ s.eventQueue.maxSize s.eventQueue.tail
      { s.eventQueue with tail := i }.assign m i event = some (m', q)) :
    let head := if q.size ≠ 0 then q.head else q.tail
    s.pushBack m event =
      some (m', { s with eventQueue := { q with size := q.size + 1, head } }, true) := by
  rw [pushBack, if_pos hs]
  change (EventQueue.assign ..).bind _ = _
  refine (congrArg (Option.bind · _) hm).trans ?_
  dsimp only [Option.bind_some]
  split <;> rfl

theorem pushFront_eq (hs : s.status ≠ .halt ∧ ¬s.eventQueue.isFull = true)
    (hm : let i := Ring.pred s.eventQueue.maxSize s.eventQueue.head
      { s.eventQueue with head := i }.assign m i event = some (m', q)) :
    let tail := if q.size ≠ 0 then q.tail else q.head
    s.pushFront m event =
      some (m', { s with eventQueue := { q with size := q.size + 1, tail } }, true) := by
  rw [pushFront, if_pos hs]
  change (EventQueue.assign ..).bind _ = _
  refine (congrArg (Option.bind · _) hm).trans ?_
  dsimp only [Option.bind_some]
  split <;> rfl

theorem popFront_eq (hs : s.status ≠ .halt ∧ ¬s.eventQueue.isEmpty = true)
    (hm : s.eventQueue.release m s.eventQueue.head = some (m', q)) :
    let head := Ring.succ q.maxSize q.head
    let tail := if q.size > 1 then q.tail else head
    s.popFront m =
      some (m', { s with eventQueue := { q with head, size := q.size - 1, tail } }, true) := by
  rw [popFront, if_pos hs]
  change (EventQueue.release ..).bind _ = _
  refine (congrArg (Option.bind · _) hm).trans ?_
  dsimp only [Option.bind_some]
  split <;> rfl

theorem popBack_eq (hs : s.status ≠ .halt ∧ ¬s.eventQueue.isEmpty = true)
    (hm : s.eventQueue.release m s.eventQueue.tail = some (m', q)) :
    let tail := Ring.pred q.maxSize q.tail
    let head := if q.size > 1 then q.head else tail
    s.popBack m =
      some (m', { s with eventQueue := { q with tail, size := q.size - 1, head } }, true) := by
  have hp : Ring.pred q.maxSize q.tail = if q.tail = 0 then q.maxSize - 1 else q.tail - 1 := by
    simp only [Ring.pred, ne_eq, ite_not]
  rw [popBack, if_pos hs, hp]
  change (EventQueue.release ..).bind _ = _
  refine (congrArg (Option.bind · _) hm).trans ?_
  dsimp only [Option.bind_some]
  split <;> rfl

end Concrete

-- A session as its callers see it: a status and a bounded queue of values.
structure Spec (capacity : Nat) where
  status : Status
  queue  : Deque Event.Value capacity

namespace Spec

def capacityOf (maxSize : Int) : Nat :=
  if maxSize ≤ 0 then defaultQueueSize else maxSize.toNat

def new (maxSize : Int) (status : Status) : Spec (capacityOf maxSize) where
  status := status
  queue  := .empty

variable {capacity : Nat}

-- A mutation takes place if the session is not halted and the queue allows it.
def update (a : Spec capacity) (queue : Option (Deque Event.Value capacity)) :
    Spec capacity × Result :=
  if a.status = .halt then (a, .bool false) else
    match queue with
    | some queue => ({ a with queue }, .bool true)
    | none       => (a, .bool false)

theorem update_of_none {a : Spec capacity} {queue : Option (Deque Event.Value capacity)}
    (h : a.status = .halt ∨ queue = none) : a.update queue = (a, .bool false) := by
  cases h
  case inl h => simp only [update, h, if_true]
  case inr h => simp only [update, h, ite_self]

theorem update_of_some {a : Spec capacity} {d : Deque Event.Value capacity}
    (h : a.status ≠ .halt) : a.update (some d) = ({ a with queue := d }, .bool true) := by
  simp only [update, h, if_false]

def expose (a : Spec capacity) (v : Option Event.Value) : Result :=
  .event (if a.status = .halt then none else v.map fun v => (v.length, v))

def apply (a : Spec capacity) : Op → Spec capacity × Result
  | .pushBack v       => a.update (a.queue.pushBack v)
  | .pushFront v      => a.update (a.queue.pushFront v)
  | .popFront         => a.update a.queue.popFront
  | .popBack          => a.update a.queue.popBack
  | .getFirst         => (a, a.expose a.queue.first)
  | .getLast          => (a, a.expose a.queue.last)
  | .getEventCount    => (a, .count a.queue.items.length)
  | .clearEventQueue  => ({ a with queue := .empty }, .done)
  | .setStatus status => ({ a with status }, .done)

def run (a : Spec capacity) : List Op → List Result
  | []        => []
  | op :: ops => (a.apply op).2 :: (a.apply op).1.run ops

end Spec

variable {capacity : Nat} {m : Heap} {s : Session} {a : Spec capacity}

structure Refines (m : Heap) (s : Session) (a : Spec capacity) : Prop where
  status  : s.status = a.status
  maxSize : s.eventQueue.maxSize = capacity
  queue   : s.eventQueue.Represents m a.queue.items

namespace Refines

theorem keep {m' : Heap} (h : Refines m s a)
    (hk : ∀ {i : Nat} {e : Event}, s.eventQueue.eventArr[i]? = some e → e.Keeps m m') :
    Refines m' s a where
  status  := h.status
  maxSize := h.maxSize
  queue   := h.queue.keep hk

theorem isFull_eq (h : Refines m s a) :
    s.eventQueue.isFull = decide (a.queue.items.length = capacity) := by
  simp only [EventQueue.isFull, h.maxSize, h.queue.size_eq]

theorem isEmpty_eq (h : Refines m s a) : s.eventQueue.isEmpty = decide (a.queue.items = []) := by
  rw [Bool.eq_iff_iff, h.queue.isEmpty_iff, decide_eq_true_iff]

theorem size_lt (h : Refines m s a) (hf : a.queue.items.length ≠ capacity) :
    s.eventQueue.size < s.eventQueue.maxSize := by
  have := a.queue.bound
  have := h.queue.size_eq
  have := h.maxSize
  omega

-- A push into a queue that is full, or of a halted session, is no push.
theorem push_spec {push : Heap → Session → Event → Option (Heap × Session × Bool)}
    {queue : Option (Deque Event.Value capacity)} {v : Content} (h : Refines m s a)
    (hf : a.status = .halt ∨ queue = none → ∀ m event, push m s event = some (m, s, false))
    (hp : a.status ≠ .halt → ∀ d, queue = some d → ∀ m event, Refines m s a → event.Valid m →
      s.eventQueue.Apart event → event.value m = v → ∃ m' s', push m s event = some (m', s', true) ∧
        Refines m' s' { a with queue := d } ∧ s'.eventQueue.Apart event ∧ event.Keeps m m') :
    ∃ m' s' b, withEvent push m s v = some (m', s', b) ∧ (a.update queue).2 = .bool b ∧
      Refines m' s' (a.update queue).1 := by
  have ⟨m₁, event, hm₁, hv, he, hk⟩ := Event.ofValue_spec m v.property
  have h₁ : Refines m₁ s a := h.keep fun hx => (hk _ (h.queue.owned.valid hx)).left
  have ha : s.eventQueue.Apart event := fun hx => (hk _ (h.queue.owned.valid hx)).right
  by_cases hh : a.status = .halt ∨ queue = none
  case pos =>
    have ⟨m₂, hm₂, hk₂⟩ := hv.delete_spec
    refine ⟨m₂, s, false, by simp [withEvent, hm₁, hf hh, hm₂], ?_⟩
    rw [Spec.update_of_none hh]
    exact ⟨rfl, h₁.keep fun hx => hk₂ _ (ha hx)⟩
  case neg =>
    have ⟨hs, hq⟩ := not_or.mp hh
    have ⟨d, hd⟩ := Option.ne_none_iff_exists'.mp hq
    have ⟨m₂, s', hm₂, h₂, ha', hk'⟩ := hp hs d hd m₁ event h₁ hv ha he
    have ⟨m₃, hm₃, hk₃⟩ := (hv.keep hk').delete_spec
    refine ⟨m₃, s', true, by simp [withEvent, hm₁, hm₂, hm₃], ?_⟩
    rw [hd, Spec.update_of_some hs]
    exact ⟨rfl, h₂.keep fun hx => hk₃ _ (ha' hx)⟩

-- A push that takes place.
theorem pushBack_event (h : Refines m s a) {event : Event} {d : Deque Event.Value capacity}
    (hs : a.status ≠ .halt) (hd : a.queue.pushBack (event.value m) = some d) (hv : event.Valid m) :
    ∃ m' s', s.pushBack m event = some (m', s', true) ∧ Refines m' s' { a with queue := d } ∧
      (s.eventQueue.Apart event → s'.eventQueue.Apart event) ∧ event.Keeps m m' := by
  have hf : a.queue.items.length ≠ capacity := fun hn => by
    simp [Deque.pushBack_eq_none.mpr hn] at hd
  have hg : s.status ≠ .halt ∧ ¬s.eventQueue.isFull = true := by
    rw [h.status, h.isFull_eq, decide_eq_true_iff]
    exact ⟨hs, hf⟩
  have ⟨m', q, hm, hap, hk, hmax, hq⟩ := h.queue.insertBack (h.size_lt hf) hv
  refine ⟨m', _, pushBack_eq hg hm, ⟨h.status, hmax.trans h.maxSize, ?_⟩, hap, hk⟩
  rw [Deque.pushBack_items hd]
  exact hq

theorem pushBack_refused (h : Refines m s a) {v : Event.Value}
    (hh : a.status = .halt ∨ a.queue.pushBack v = none) (m : Heap) (event : Event) :
    s.pushBack m event = some (m, s, false) := by
  have : ¬(s.status ≠ .halt ∧ ¬s.eventQueue.isFull = true) := by
    rw [h.status, h.isFull_eq, decide_eq_true_iff]
    exact fun hn => hh.elim hn.left fun hq => hn.right (Deque.pushBack_eq_none.mp hq)
  rw [Session.pushBack, if_neg this]

theorem pushBack (h : Refines m s a) (v : Content) :
    ∃ m' s' b, withEvent Session.pushBack m s v = some (m', s', b) ∧
      (a.update (a.queue.pushBack v)).2 = .bool b ∧
      Refines m' s' (a.update (a.queue.pushBack v)).1 := by
  apply h.push_spec h.pushBack_refused
  intro hs d hd m event h hv ha he
  have ⟨m', s', hm, h', hap, hk⟩ := h.pushBack_event hs (he ▸ hd) hv
  exact ⟨m', s', hm, h', hap ha, hk⟩

-- A push that takes place.
theorem pushFront_event (h : Refines m s a) {event : Event} {d : Deque Event.Value capacity}
    (hs : a.status ≠ .halt) (hd : a.queue.pushFront (event.value m) = some d) (hv : event.Valid m) :
    ∃ m' s', s.pushFront m event = some (m', s', true) ∧ Refines m' s' { a with queue := d } ∧
      (s.eventQueue.Apart event → s'.eventQueue.Apart event) ∧ event.Keeps m m' := by
  have hf : a.queue.items.length ≠ capacity := fun hn => by
    simp [Deque.pushFront_eq_none.mpr hn] at hd
  have hg : s.status ≠ .halt ∧ ¬s.eventQueue.isFull = true := by
    rw [h.status, h.isFull_eq, decide_eq_true_iff]
    exact ⟨hs, hf⟩
  have ⟨m', q, hm, hap, hk, hmax, hq⟩ := h.queue.insertFront (h.size_lt hf) hv
  refine ⟨m', _, pushFront_eq hg hm, ⟨h.status, hmax.trans h.maxSize, ?_⟩, hap, hk⟩
  rw [Deque.pushFront_items hd]
  exact hq

theorem pushFront_refused (h : Refines m s a) {v : Event.Value}
    (hh : a.status = .halt ∨ a.queue.pushFront v = none) (m : Heap) (event : Event) :
    s.pushFront m event = some (m, s, false) := by
  have : ¬(s.status ≠ .halt ∧ ¬s.eventQueue.isFull = true) := by
    rw [h.status, h.isFull_eq, decide_eq_true_iff]
    exact fun hn => hh.elim hn.left fun hq => hn.right (Deque.pushFront_eq_none.mp hq)
  rw [Session.pushFront, if_neg this]

theorem pushFront (h : Refines m s a) (v : Content) :
    ∃ m' s' b, withEvent Session.pushFront m s v = some (m', s', b) ∧
      (a.update (a.queue.pushFront v)).2 = .bool b ∧
      Refines m' s' (a.update (a.queue.pushFront v)).1 := by
  apply h.push_spec h.pushFront_refused
  intro hs d hd m event h hv ha he
  have ⟨m', s', hm, h', hap, hk⟩ := h.pushFront_event hs (he ▸ hd) hv
  exact ⟨m', s', hm, h', hap ha, hk⟩

-- The pops and the getters share their guard.
theorem guard_iff (h : Refines m s a) :
    (s.status ≠ .halt ∧ ¬s.eventQueue.isEmpty = true) ↔ a.status ≠ .halt ∧ a.queue.items ≠ [] := by
  rw [h.status, h.isEmpty_eq, decide_eq_true_iff]

theorem not_guard {a : Spec capacity} (h : ¬(a.status ≠ .halt ∧ a.queue.items ≠ [])) :
    a.status = .halt ∨ a.queue.items = [] :=
  (not_and_or.mp h).imp not_not.mp not_not.mp

theorem popFront (h : Refines m s a) :
    ∃ m' s' b, s.popFront m = some (m', s', b) ∧ (a.update a.queue.popFront).2 = .bool b ∧
      Refines m' s' (a.update a.queue.popFront).1 := by
  by_cases hg : a.status ≠ .halt ∧ a.queue.items ≠ []
  case pos =>
    have ⟨m', q, hm, hmax, hq⟩ := h.queue.removeFront hg.right
    refine ⟨m', _, true, popFront_eq (h.guard_iff.mpr hg) hm, ?_⟩
    rw [Deque.popFront, if_neg hg.right, Spec.update_of_some hg.left]
    exact ⟨rfl, h.status, hmax.trans h.maxSize, hq⟩
  case neg =>
    refine ⟨m, s, false, by rw [Session.popFront, if_neg (mt h.guard_iff.mp hg)], ?_⟩
    rw [Spec.update_of_none ((not_guard hg).imp id Deque.popFront_eq_none.mpr)]
    exact ⟨rfl, h⟩

theorem popBack (h : Refines m s a) :
    ∃ m' s' b, s.popBack m = some (m', s', b) ∧ (a.update a.queue.popBack).2 = .bool b ∧
      Refines m' s' (a.update a.queue.popBack).1 := by
  by_cases hg : a.status ≠ .halt ∧ a.queue.items ≠ []
  case pos =>
    have ⟨m', q, hm, hmax, hq⟩ := h.queue.removeBack hg.right
    refine ⟨m', _, true, popBack_eq (h.guard_iff.mpr hg) hm, ?_⟩
    rw [Deque.popBack, if_neg hg.right, Spec.update_of_some hg.left]
    exact ⟨rfl, h.status, hmax.trans h.maxSize, hq⟩
  case neg =>
    refine ⟨m, s, false, by rw [Session.popBack, if_neg (mt h.guard_iff.mp hg)], ?_⟩
    rw [Spec.update_of_none ((not_guard hg).imp id Deque.popBack_eq_none.mpr)]
    exact ⟨rfl, h⟩

-- The event in a slot of the window is exposed with the value that the abstract queue holds.
theorem exposed_eq (h : Refines m s a) {i : Nat} {e : Event} {v : Event.Value}
    (he : s.eventQueue.eventArr[i]? = some e) (hv : s.eventQueue.valueAt m i = v) :
    exposed m e = (v.length, v) := by
  rw [EventQueue.valueAt_eq he] at hv
  rw [exposed, ← hv, (h.queue.owned.valid he).length_value]

theorem getFirst (h : Refines m s a) :
    ∃ e, s.getFirst = some e ∧ a.expose a.queue.first = .event (e.map (exposed m)) := by
  by_cases hg : a.status ≠ .halt ∧ a.queue.items ≠ []
  case pos =>
    have ⟨e, he⟩ := h.queue.slot h.queue.head_lt
    have hf : a.queue.first = some (s.eventQueue.valueAt m s.eventQueue.head) := h.queue.first_eq hg.right
    refine ⟨some e, by rw [Session.getFirst, if_pos (h.guard_iff.mpr hg), he, Option.map_some], ?_⟩
    simp only [Spec.expose, hg.left, if_false, hf, Option.map_some, h.exposed_eq he rfl]
  case neg =>
    refine ⟨none, by rw [Session.getFirst, if_neg (mt h.guard_iff.mp hg)], ?_⟩
    cases not_guard hg
    case inl hs => simp only [Spec.expose, hs, if_true, Option.map_none]
    case inr hi => simp only [Spec.expose, Deque.first, hi, List.head?_nil, Option.map_none, ite_self]

theorem getLast (h : Refines m s a) :
    ∃ e, s.getLast = some e ∧ a.expose a.queue.last = .event (e.map (exposed m)) := by
  by_cases hg : a.status ≠ .halt ∧ a.queue.items ≠ []
  case pos =>
    have ⟨e, he⟩ := h.queue.slot h.queue.tail_lt
    have hf : a.queue.last = some (s.eventQueue.valueAt m s.eventQueue.tail) := h.queue.last_eq hg.right
    refine ⟨some e, by rw [Session.getLast, if_pos (h.guard_iff.mpr hg), he, Option.map_some], ?_⟩
    simp only [Spec.expose, hg.left, if_false, hf, Option.map_some, h.exposed_eq he rfl]
  case neg =>
    refine ⟨none, by rw [Session.getLast, if_neg (mt h.guard_iff.mp hg)], ?_⟩
    cases not_guard hg
    case inl hs => simp only [Spec.expose, hs, if_true, Option.map_none]
    case inr hi => simp only [Spec.expose, Deque.last, hi, List.getLast?_nil, Option.map_none, ite_self]

theorem clearEventQueue (h : Refines m s a) :
    ∃ m' s', s.clearEventQueue m = some (m', s') ∧
      Refines m' s' (⟨a.status, .empty⟩ : Spec capacity) := by
  have ⟨m', q, hc, hmax, hq⟩ := h.queue.clear
  let q' := { q with size := 0, head := q.maxSize / 2, tail := q.maxSize / 2 }
  refine ⟨m', { s with eventQueue := q' }, ?_, h.status, hmax.trans h.maxSize, hq⟩
  simp only [Session.clearEventQueue, hc, Option.bind_eq_bind, Option.bind_some, q']

theorem new (m : Heap) (key : String) (maxSize : Int) (status : Status) (level : Level)
    (pri : Priority) :
    Refines m (Session.new key maxSize status level pri) (Spec.new maxSize status) where
  status  := rfl
  maxSize := rfl
  queue   := .new m (by
    split
    case isTrue  => decide
    case isFalse => omega)

theorem apply (h : Refines m s a) (op : Op) :
    ∃ m' s', s.apply m op = some (m', s', (a.apply op).2) ∧ Refines m' s' (a.apply op).1 := by
  cases op
  case pushBack v =>
    have ⟨m', s', b, hm, hb, h'⟩ := h.pushBack v
    exact ⟨m', s', by rw [Session.apply, hm, Spec.apply, hb]; rfl, h'⟩
  case pushFront v =>
    have ⟨m', s', b, hm, hb, h'⟩ := h.pushFront v
    exact ⟨m', s', by rw [Session.apply, hm, Spec.apply, hb]; rfl, h'⟩
  case popFront =>
    have ⟨m', s', b, hm, hb, h'⟩ := h.popFront
    exact ⟨m', s', by rw [Session.apply, hm, Spec.apply, hb]; rfl, h'⟩
  case popBack =>
    have ⟨m', s', b, hm, hb, h'⟩ := h.popBack
    exact ⟨m', s', by rw [Session.apply, hm, Spec.apply, hb]; rfl, h'⟩
  case getFirst =>
    have ⟨e, he, hx⟩ := h.getFirst
    exact ⟨m, s, by rw [Session.apply, he, Spec.apply, hx]; rfl, h⟩
  case getLast =>
    have ⟨e, he, hx⟩ := h.getLast
    exact ⟨m, s, by rw [Session.apply, he, Spec.apply, hx]; rfl, h⟩
  case getEventCount =>
    exact ⟨m, s, by rw [Session.apply, Spec.apply, getEventCount, h.queue.size_eq], h⟩
  case clearEventQueue =>
    have ⟨m', s', hm, h'⟩ := h.clearEventQueue
    exact ⟨m', s', by rw [Session.apply, hm]; rfl, h'⟩
  case setStatus status =>
    exact ⟨m, s.setStatus status, rfl, rfl, h.maxSize, h.queue⟩

theorem run (h : Refines m s a) (ops : List Op) : Session.run m s ops = some (a.run ops) := by
  induction ops generalizing m s a
  case nil => rfl
  case cons op ops ih =>
    have ⟨m', s', hm, h'⟩ := h.apply op
    simp only [Session.run, hm, ih h', Spec.run, Option.bind_eq_bind, Option.bind_some]

end Refines

-- Every run of operations on a new session returns what the bounded queue returns, whatever the
-- heap is, and never reaches undefined behaviour.
theorem run_refines_deque (m : Heap) (key : String) (maxSize : Int) (status : Status) (level : Level)
    (pri : Priority) (ops : List Op) :
    run m (new key maxSize status level pri) ops = some ((Spec.new maxSize status).run ops) :=
  (Refines.new m key maxSize status level pri).run ops

end Server8.Session
