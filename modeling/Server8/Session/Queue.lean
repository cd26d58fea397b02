import Server8.Session.Session

namespace Server8.EventQueue

-- No two slots share an array, and every array that a slot names is allocated.
structure Owned (m : Heap) (q : EventQueue) : Prop where
  valid    : ∀ {i : Nat} {e : Event}, q.eventArr[i]? = some e → e.Valid m
  separate : ∀ {i j : Nat} {e e' : Event}, i ≠ j → q.eventArr[i]? = some e → q.eventArr[j]? = some e' →
    e.Separate e'

-- No slot shares an array with the event `x`.
def Apart (q : EventQueue) (x : Event) : Prop :=
  ∀ {i : Nat} {e : Event}, q.eventArr[i]? = some e → e.Separate x

def valueAt (m : Heap) (q : EventQueue) (i : Nat) : Event.Value :=
  (q.eventArr[i]?.getD {}).value m

-- The slots that hold the events of the queue, first to last.
def window (q : EventQueue) : List Nat :=
  Ring.window q.maxSize q.head q.size

variable {m m' : Heap} {q q' : EventQueue} {event e : Event} {i : Nat}

section Slots

theorem valueAt_eq (h : q.eventArr[i]? = some e) : q.valueAt m i = e.value m := by
  simp [valueAt, h]

-- The slots other than `i` are as they were, and so are their arrays.
structure Frame (m m' : Heap) (q q' : EventQueue) (i : Nat) : Prop where
  slot  : ∀ {j : Nat}, j ≠ i → q'.eventArr[j]? = q.eventArr[j]?
  keeps : ∀ {j : Nat} {e : Event}, j ≠ i → q.eventArr[j]? = some e → e.Keeps m m'

theorem Frame.valueAt_eq (h : Frame m m' q q' i) {j : Nat} (hj : j ≠ i) :
    q'.valueAt m' j = q.valueAt m j := by
  unfold valueAt
  rw [h.slot hj]
  cases hs : q.eventArr[j]?
  case none   => rfl
  case some e => exact (h.keeps hj hs).value_eq

-- A changed slot whose event is valid and shares no array keeps the ownership.
theorem Owned.set (h : q.Owned m) (hf : Frame m m' q q' i) (hi : q'.eventArr[i]? = some e)
    (hv : e.Valid m') (hs : ∀ {j : Nat} {x : Event}, j ≠ i → q.eventArr[j]? = some x → x.Separate e) :
    q'.Owned m' where
  valid := by
    intro j x hx
    by_cases hj : j = i
    case pos =>
      rw [hj, hi, Option.some.injEq] at hx
      exact hx ▸ hv
    case neg =>
      rw [hf.slot hj] at hx
      exact (h.valid hx).keep (hf.keeps hj hx)
  separate := by
    intro j k x y hjk hx hy
    by_cases hj : j = i
    case pos =>
      have hk : k ≠ i := fun hk => hjk (hj.trans hk.symm)
      rw [hj, hi, Option.some.injEq] at hx
      rw [hf.slot hk] at hy
      exact hx ▸ (hs hk hy).symm
    case neg =>
      rw [hf.slot hj] at hx
      by_cases hk : k = i
      case pos =>
        rw [hk, hi, Option.some.injEq] at hy
        exact hy ▸ hs hj hx
      case neg =>
        rw [hf.slot hk] at hy
        exact h.separate hjk hx hy

-- A change of the heap that leaves the arrays of all slots alone.
theorem Owned.keep (h : q.Owned m) (hk : ∀ {i : Nat} {e : Event}, q.eventArr[i]? = some e → e.Keeps m m') :
    q.Owned m' ∧ ∀ i, q.valueAt m' i = q.valueAt m i := by
  refine ⟨⟨fun hi => (h.valid hi).keep (hk hi), h.separate⟩, fun i => ?_⟩
  cases hi : q.eventArr[i]?
  case none   => simp [valueAt, hi, Event.value, Event.payload]
  case some e => rw [valueAt_eq hi, valueAt_eq hi, (hk hi).value_eq]

theorem assign_spec (h : q.Owned m) (hi : q.eventArr[i]? = some e) (he : e.Empty)
    (hv : event.Valid m) :
    ∃ m' q' e', q.assign m i event = some (m', q') ∧
      q' = { q with eventArr := q.eventArr.set i e' } ∧ Frame m m' q q' i ∧ q'.Owned m' ∧
      (q.Apart event → q'.Apart event) ∧ q'.valueAt m' i = event.value m ∧ event.Keeps m m' := by
  have ⟨m', e', hm', hv', he', hk⟩ := he.assign_spec hv
  have hlt := (List.getElem?_eq_some_iff.mp hi).choose
  let q' := { q with eventArr := q.eventArr.set i e' }
  have hs : q'.eventArr[i]? = some e' := by simp [q', hlt]
  have hf : Frame m m' q q' i := {
    slot  := fun hj => List.getElem?_set_ne (Ne.symm hj)
    keeps := fun _ hx => (hk _ (h.valid hx)).left }
  refine ⟨m', q', e', by simp [assign, hi, hm', q'], rfl, hf, ?_, ?_, ?_, (hk _ hv).left⟩
  · exact h.set hf hs hv' fun _ hx => (hk _ (h.valid hx)).right
  · intro ha j x hx
    by_cases hj : j = i
    case pos =>
      rw [hj, hs, Option.some.injEq] at hx
      exact hx ▸ (hk _ hv).right.symm
    case neg =>
      rw [hf.slot hj] at hx
      exact ha hx
  · rw [valueAt_eq hs, he']

theorem release_spec (h : q.Owned m) (hi : q.eventArr[i]? = some e) :
    ∃ m' q', q.release m i = some (m', q') ∧
      q' = { q with eventArr := q.eventArr.set i { e with pData := 0, length := 0 } } ∧
      Frame m m' q q' i ∧ q'.Owned m' := by
  have ⟨m', hm', hk⟩ := (h.valid hi).release_spec
  have hlt := (List.getElem?_eq_some_iff.mp hi).choose
  let q' := { q with eventArr := q.eventArr.set i { e with pData := 0, length := 0 } }
  have hs : q'.eventArr[i]? = some { e with pData := 0, length := 0 } := by simp [q', hlt]
  have hf : Frame m m' q q' i := {
    slot  := fun hj => List.getElem?_set_ne (Ne.symm hj)
    keeps := fun hj hx => hk _ (h.separate hj hx hi) }
  have he : Event.Empty { e with pData := 0, length := 0 } := ⟨rfl, rfl⟩
  refine ⟨m', q', by simp [release, hi, hm', q'], rfl, hf, ?_⟩
  exact h.set hf hs he.valid fun _ _ => he.separate.symm

end Slots

-- The queue holds the values `items` in its window, and nothing outside of it.
structure Represents (m : Heap) (q : EventQueue) (items : List Event.Value) : Prop where
  owned   : q.Owned m
  length  : q.eventArr.length = q.maxSize
  head_lt : q.head < q.maxSize
  bound   : q.size ≤ q.maxSize
  empty   : q.size = 0 → q.tail = q.head
  tail    : ∀ size, q.size = size + 1 → q.tail = Ring.last q.maxSize q.head size
  dead    : ∀ {i : Nat} {e : Event}, q.eventArr[i]? = some e → i ∉ q.window → e.Empty
  items   : q.window.map (q.valueAt m) = items

namespace Represents

variable {items : List Event.Value}

theorem size_eq (h : q.Represents m items) : q.size = items.length := by
  simp [← h.items, window]

theorem tail_lt (h : q.Represents m items) : q.tail < q.maxSize := by
  cases hs : q.size
  case zero => rw [h.empty hs]; exact h.head_lt
  case succ => rw [h.tail _ hs]; exact Ring.last_lt h.head_lt

theorem slot (h : q.Represents m items) (hi : i < q.maxSize) : ∃ e, q.eventArr[i]? = some e := by
  have hi : i < q.eventArr.length := h.length ▸ hi
  exact ⟨_, List.getElem?_eq_getElem hi⟩

theorem isEmpty_iff (h : q.Represents m items) : q.isEmpty = true ↔ items = [] := by
  simp [isEmpty, h.size_eq, List.length_eq_zero_iff]

theorem isFull_iff (h : q.Represents m items) : q.isFull = true ↔ items.length = q.maxSize := by
  simp [isFull, h.size_eq]

theorem keep (h : q.Represents m items)
    (hk : ∀ {i : Nat} {e : Event}, q.eventArr[i]? = some e → e.Keeps m m') : q.Represents m' items := by
  have ⟨ho, hv⟩ := h.owned.keep hk
  exact { h with
    owned := ho
    items := by rw [← h.items]; exact List.map_congr_left fun i _ => hv i }

theorem exists_size (h : q.Represents m items) (hs : items ≠ []) : ∃ size, q.size = size + 1 := by
  have := List.length_pos_of_ne_nil hs
  exact ⟨q.size - 1, by rw [h.size_eq]; omega⟩

theorem window_head {size : Nat} (hz : q.size = size + 1) :
    q.window = q.head :: Ring.window q.maxSize (Ring.succ q.maxSize q.head) size := by
  rw [window, hz, Ring.window]

theorem window_tail (h : q.Represents m items) {size : Nat} (hz : q.size = size + 1) :
    q.window = Ring.window q.maxSize q.head size ++ [q.tail] := by
  rw [window, hz, Ring.window_append, h.tail size hz]

theorem first_eq (h : q.Represents m items) (hs : items ≠ []) :
    items.head? = some (q.valueAt m q.head) := by
  have ⟨_, hz⟩ := h.exists_size hs
  rw [← h.items, window_head hz, List.map_cons, List.head?_cons]

theorem last_eq (h : q.Represents m items) (hs : items ≠ []) :
    items.getLast? = some (q.valueAt m q.tail) := by
  have ⟨_, hz⟩ := h.exists_size hs
  rw [← h.items, h.window_tail hz, List.map_append, List.map_singleton, List.getLast?_concat]

-- The slot behind the last element is free, if the queue is not full.
theorem succ_tail_not_mem (h : q.Represents m items) (hs : q.size < q.maxSize) :
    Ring.succ q.maxSize q.tail ∉ q.window := by
  unfold window
  cases hz : q.size
  case zero => simp [Ring.window]
  case succ size =>
    rw [h.tail size hz, ← Ring.last_succ, ← hz]
    exact Ring.last_not_mem h.head_lt hs

theorem pred_head_not_mem (h : q.Represents m items) (hs : q.size < q.maxSize) :
    Ring.pred q.maxSize q.head ∉ q.window :=
  Ring.pred_not_mem h.head_lt hs

-- An insertion into the free slot `i` leaves the values in the window alone.
theorem map_frame (h : q.Represents m items) (hf : Frame m m' q q' i) (hi : i ∉ q.window) :
    q.window.map (q'.valueAt m') = items := by
  rw [← h.items]
  exact List.map_congr_left fun _ hj => hf.valueAt_eq (ne_of_mem_of_not_mem hj hi)

theorem dead_frame (h : q.Represents m items) (hf : Frame m m' q q' i) {j : Nat} (hj : j ≠ i)
    (he : q'.eventArr[j]? = some e) (hw : j ∉ q.window) : e.Empty :=
  h.dead (hf.slot hj ▸ he) hw

theorem window_insertBack (h : q.Represents m items) :
    let i := Ring.succ q.maxSize q.tail
    Ring.window q.maxSize (if q.size ≠ 0 then q.head else i) (q.size + 1) = q.window ++ [i] := by
  intro i
  unfold window
  cases hz : q.size
  case zero => rfl
  case succ size =>
    have hi : i = Ring.last q.maxSize q.head (size + 1) := by rw [Ring.last_succ, ← h.tail size hz]
    rw [if_pos (Nat.succ_ne_zero size), hi]
    exact Ring.window_append

theorem insertBack (h : q.Represents m items) (hs : q.size < q.maxSize) (hv : event.Valid m) :
    let i := Ring.succ q.maxSize q.tail
    ∃ m' q₁, { q with tail := i }.assign m i event = some (m', q₁) ∧ (q.Apart event → q₁.Apart event) ∧
      event.Keeps m m' ∧ q₁.maxSize = q.maxSize ∧
      { q₁ with size := q₁.size + 1, head := if q₁.size ≠ 0 then q₁.head else q₁.tail }.Represents
        m' (items ++ [event.value m]) := by
  intro i
  have hi : i ∉ q.window := h.succ_tail_not_mem hs
  have hlt : i < q.maxSize := Ring.succ_lt h.tail_lt
  have ⟨e, he⟩ := h.slot hlt
  have ⟨m', q₁, e', hm, hq, hf, ho, hap, hval, hk⟩ :=
    assign_spec (q := { q with tail := i }) ⟨h.owned.valid, h.owned.separate⟩ he (h.dead he hi) hv
  have hf : Frame m m' q q₁ i := ⟨hf.slot, hf.keeps⟩
  have hw : Ring.window q.maxSize (if q.size ≠ 0 then q.head else i) (q.size + 1) =
      q.window ++ [i] := h.window_insertBack
  refine ⟨m', q₁, hm, hap, hk, by rw [hq], ?_⟩
  subst hq
  exact {
    owned   := ⟨ho.valid, ho.separate⟩
    length  := by simpa using h.length
    head_lt := by
      dsimp only
      split
      case isTrue  => exact h.head_lt
      case isFalse => exact hlt
    bound   := hs
    empty   := fun hz => absurd hz (Nat.succ_ne_zero _)
    tail    := by
      intro size hz
      cases hz
      exact (Ring.last_of_window hw).symm
    dead    := by
      intro j x hx hj
      simp only [window, hw, List.mem_append, List.mem_singleton, not_or] at hj
      exact h.dead_frame hf hj.right hx hj.left
    items   := by
      simp only [window, hw, List.map_append, List.map_singleton]
      rw [← hval, ← h.map_frame hf hi]
      rfl }

theorem window_insertFront (h : q.Represents m items) :
    Ring.window q.maxSize (Ring.pred q.maxSize q.head) (q.size + 1) =
      Ring.pred q.maxSize q.head :: q.window := by
  simp only [Ring.window, Ring.succ_pred h.head_lt, window]

theorem insertFront (h : q.Represents m items) (hs : q.size < q.maxSize) (hv : event.Valid m) :
    let i := Ring.pred q.maxSize q.head
    ∃ m' q₁, { q with head := i }.assign m i event = some (m', q₁) ∧ (q.Apart event → q₁.Apart event) ∧
      event.Keeps m m' ∧ q₁.maxSize = q.maxSize ∧
      { q₁ with size := q₁.size + 1, tail := if q₁.size ≠ 0 then q₁.tail else q₁.head }.Represents
        m' (event.value m :: items) := by
  intro i
  have hi : i ∉ q.window := h.pred_head_not_mem hs
  have hlt : i < q.maxSize := Ring.pred_lt h.head_lt
  have ⟨e, he⟩ := h.slot hlt
  have ⟨m', q₁, e', hm, hq, hf, ho, hap, hval, hk⟩ :=
    assign_spec (q := { q with head := i }) ⟨h.owned.valid, h.owned.separate⟩ he (h.dead he hi) hv
  have hf : Frame m m' q q₁ i := ⟨hf.slot, hf.keeps⟩
  refine ⟨m', q₁, hm, hap, hk, by rw [hq], ?_⟩
  subst hq
  exact {
    owned   := ⟨ho.valid, ho.separate⟩
    length  := by simpa using h.length
    head_lt := hlt
    bound   := hs
    empty   := fun hz => absurd hz (Nat.succ_ne_zero _)
    tail    := by
      intro size hz
      cases hz
      cases hz : q.size
      case zero      => simp [Ring.last]
      case succ size => simp [Ring.last, i, Ring.succ_pred h.head_lt, h.tail size hz]
    dead    := by
      intro j x hx hj
      simp only [window, i, h.window_insertFront, List.mem_cons, not_or] at hj
      exact h.dead_frame hf hj.left hx hj.right
    items   := by
      simp only [window, i, h.window_insertFront, List.map_cons]
      rw [← hval, ← h.map_frame hf hi]
      rfl }

-- The slots that stay in the window are not the released one.
theorem window_nodup (h : q.Represents m items) : q.window.Nodup :=
  Ring.window_nodup h.head_lt h.bound

theorem removeFront (h : q.Represents m items) (hs : items ≠ []) :
    ∃ m' q₁, q.release m q.head = some (m', q₁) ∧ q₁.maxSize = q.maxSize ∧
      let head := Ring.succ q₁.maxSize q₁.head
      { q₁ with head, size := q₁.size - 1, tail := if q₁.size > 1 then q₁.tail else head }.Represents
        m' items.tail := by
  have ⟨size, hz⟩ := h.exists_size hs
  have hw := window_head hz
  have hd := h.window_nodup
  rw [hw, List.nodup_cons] at hd
  have ⟨e, he⟩ := h.slot h.head_lt
  have ⟨m', q₁, hm, hq, hf, ho⟩ := release_spec h.owned he
  refine ⟨m', q₁, hm, by rw [hq], ?_⟩
  subst hq
  intro head
  exact {
    owned   := ⟨ho.valid, ho.separate⟩
    length  := by simpa using h.length
    head_lt := Ring.succ_lt h.head_lt
    bound   := Nat.le_trans (Nat.sub_le ..) h.bound
    empty   := fun hs => if_neg (by simp [hz] at hs ⊢; omega)
    tail    := by
      intro k hk
      simp only [hz, Nat.add_sub_cancel] at hk
      simp [hz, hk, h.tail size hz, Ring.last, head]
    dead    := by
      intro j x hx hj
      simp only [window, hz, Nat.add_sub_cancel] at hj
      by_cases hj' : j = q.head
      case pos =>
        have hlt := (List.getElem?_eq_some_iff.mp he).choose
        simp only [hj', List.getElem?_set_self hlt, Option.some.injEq] at hx
        exact hx ▸ ⟨rfl, rfl⟩
      case neg =>
        exact h.dead_frame hf hj' hx (by simp [hw, hj', hj, head])
    items   := by
      simp only [window, hz, Nat.add_sub_cancel]
      rw [← h.items, hw, List.map_cons, List.tail_cons]
      exact List.map_congr_left fun j hj => hf.valueAt_eq (ne_of_mem_of_not_mem hj hd.left) }

theorem removeBack (h : q.Represents m items) (hs : items ≠ []) :
    ∃ m' q₁, q.release m q.tail = some (m', q₁) ∧ q₁.maxSize = q.maxSize ∧
      let tail := Ring.pred q₁.maxSize q₁.tail
      { q₁ with tail, size := q₁.size - 1, head := if q₁.size > 1 then q₁.head else tail }.Represents
        m' items.dropLast := by
  have ⟨size, hz⟩ := h.exists_size hs
  have hw := h.window_tail hz
  have hd := h.window_nodup
  rw [hw, List.nodup_append] at hd
  have ht : q.tail ∉ Ring.window q.maxSize q.head size :=
    fun hm => hd.right.right _ hm _ (List.mem_singleton_self _) rfl
  have ⟨e, he⟩ := h.slot h.tail_lt
  have ⟨m', q₁, hm, hq, hf, ho⟩ := release_spec h.owned he
  have hw' : Ring.window q.maxSize (if q.size > 1 then q.head else Ring.pred q.maxSize q.tail) size =
      Ring.window q.maxSize q.head size := by
    cases size
    case zero => rfl
    case succ => rw [if_pos (by omega)]
  refine ⟨m', q₁, hm, by rw [hq], ?_⟩
  subst hq
  intro tail
  exact {
    owned   := ⟨ho.valid, ho.separate⟩
    length  := by simpa using h.length
    head_lt := by
      dsimp only
      split
      case isTrue  => exact h.head_lt
      case isFalse => exact Ring.pred_lt h.tail_lt
    bound   := Nat.le_trans (Nat.sub_le ..) h.bound
    empty   := fun hs => (if_neg (by simp [hz] at hs ⊢; omega)).symm
    tail    := by
      intro k hk
      simp only [hz, Nat.add_sub_cancel] at hk
      have hl : q.tail = Ring.succ q.maxSize (Ring.last q.maxSize q.head k) := by
        rw [h.tail size hz, hk, Ring.last_succ]
      simp [hz, hk, tail, hl, Ring.pred_succ]
    dead    := by
      intro j x hx hj
      simp only [window, hz, Nat.add_sub_cancel] at hj
      by_cases hj' : j = q.tail
      case pos =>
        have hlt := (List.getElem?_eq_some_iff.mp he).choose
        simp only [hj', List.getElem?_set_self hlt, Option.some.injEq] at hx
        exact hx ▸ ⟨rfl, rfl⟩
      case neg =>
        rw [hz] at hw'
        simp only [tail, hw'] at hj
        exact h.dead_frame hf hj' hx (by simp [hw, hj', hj])
    items   := by
      simp only [window, hz, Nat.add_sub_cancel]
      rw [hz] at hw'
      rw [hw', ← h.items, hw, List.map_append, List.map_singleton, List.dropLast_concat]
      exact List.map_congr_left fun j hj => hf.valueAt_eq (ne_of_mem_of_not_mem hj ht) }

-- The loop of `clearEventQueue` empties the slots it passes.
theorem clearLoop_spec (n : Nat) {index : Nat} (h : q.Owned m) (hl : q.eventArr.length = q.maxSize)
    (hi : index < q.maxSize) :
    ∃ m' eventArr, Session.clearLoop n index m q = some (m', { q with eventArr }) ∧
      { q with eventArr }.Owned m' ∧ eventArr.length = q.maxSize ∧
      ∀ {j : Nat} {e : Event}, eventArr[j]? = some e →
        e.Empty ∨ j ∉ Ring.window q.maxSize index n ∧ q.eventArr[j]? = some e := by
  induction n generalizing m q index
  case zero =>
    exact ⟨m, q.eventArr, rfl, h, hl, fun he => .inr ⟨List.not_mem_nil, he⟩⟩
  case succ n ih =>
    have hi' : index < q.eventArr.length := hl ▸ hi
    have ⟨m₁, q₁, hm, hq, hf, ho⟩ := release_spec h (List.getElem?_eq_getElem hi')
    subst hq
    have ⟨m', eventArr, hc, ho', hl', hd⟩ := ih ho (by simpa using hl) (Ring.succ_lt hi)
    refine ⟨m', eventArr, ?_, ho', hl', fun {j x} hx => ?_⟩
    · have : (if index = q.maxSize - 1 then 0 else index + 1) = Ring.succ q.maxSize index := by
        simp only [Ring.succ, ne_eq, ite_not]
      simp only [Session.clearLoop, hm, Option.bind_eq_bind, Option.bind_some, this, hc]
    · cases hd hx
      case inl he => exact .inl he
      case inr he =>
        have ⟨hn, hx'⟩ := he
        by_cases hj : j = index
        case pos =>
          simp only [hj, List.getElem?_set_self hi', Option.some.injEq] at hx'
          exact .inl (hx' ▸ ⟨rfl, rfl⟩)
        case neg =>
          rw [List.getElem?_set_ne (Ne.symm hj)] at hx'
          exact .inr ⟨by simp [Ring.window, hj, hn], hx'⟩

theorem clear (h : q.Represents m items) :
    ∃ m' q₁, Session.clearLoop q.size q.head m q = some (m', q₁) ∧ q₁.maxSize = q.maxSize ∧
      { q₁ with size := 0, head := q₁.maxSize / 2, tail := q₁.maxSize / 2 }.Represents m' [] := by
  have ⟨m', eventArr, hc, ho, hl, hd⟩ := clearLoop_spec q.size h.owned h.length h.head_lt
  refine ⟨m', _, hc, rfl, ?_⟩
  exact {
    owned   := ⟨ho.valid, ho.separate⟩
    length  := hl
    head_lt := Nat.div_lt_self (Nat.zero_lt_of_lt h.head_lt) (by decide)
    bound   := Nat.zero_le _
    empty   := fun _ => rfl
    tail    := fun _ hs => absurd hs (Nat.succ_ne_zero _).symm
    dead    := fun he _ => (hd he).elim id fun he => h.dead he.right he.left
    items   := rfl }

theorem new (m : Heap) {maxSize : Nat} (h : 0 < maxSize) :
    Represents m ⟨0, maxSize, maxSize / 2, maxSize / 2, List.replicate maxSize {}⟩ [] := by
  have empty : ∀ {i : Nat} {e : Event}, (List.replicate maxSize {})[i]? = some e → e.Empty := by
    intro i e he
    have : e = {} := List.eq_of_mem_replicate (List.mem_of_getElem? he)
    exact this ▸ ⟨rfl, rfl⟩
  exact {
    owned   := ⟨fun he => (empty he).valid, fun _ he _ => (empty he).separate⟩
    length  := List.length_replicate
    head_lt := Nat.div_lt_self h (by decide)
    bound   := Nat.zero_le _
    empty   := fun _ => rfl
    tail    := fun _ hs => absurd hs (Nat.succ_ne_zero _).symm
    dead    := fun he _ => empty he
    items   := rfl }

end Represents
end Server8.EventQueue
