import Mathlib.Data.List.Basic

-- A double-ended queue with room for `capacity` elements.
@[ext]
structure Deque (α : Type) (capacity : Nat) where
  items : List α
  bound : items.length ≤ capacity

namespace Deque

variable {α : Type} {capacity : Nat}

def empty : Deque α capacity where
  items := []
  bound := Nat.zero_le capacity

-- The operations return `none` where they do not apply: a push on a full queue, a pop on an empty
-- one.

def pushBack (d : Deque α capacity) (a : α) : Option (Deque α capacity) :=
  if h : d.items.length < capacity then
    some { items := d.items ++ [a], bound := by simpa using Nat.succ_le_of_lt h }
  else none

def pushFront (d : Deque α capacity) (a : α) : Option (Deque α capacity) :=
  if h : d.items.length < capacity then
    some { items := a :: d.items, bound := h }
  else none

def popFront (d : Deque α capacity) : Option (Deque α capacity) :=
  if d.items = [] then none else
    some { items := d.items.tail, bound := Nat.le_trans (by simp) d.bound }

def popBack (d : Deque α capacity) : Option (Deque α capacity) :=
  if d.items = [] then none else
    some { items := d.items.dropLast, bound := Nat.le_trans (by simp) d.bound }

def first (d : Deque α capacity) : Option α :=
  d.items.head?

def last (d : Deque α capacity) : Option α :=
  d.items.getLast?

variable {d d' : Deque α capacity} {a : α}

theorem pushBack_items (h : d.pushBack a = some d') : d'.items = d.items ++ [a] := by
  unfold pushBack at h
  split at h <;> cases h
  rfl

theorem pushFront_items (h : d.pushFront a = some d') : d'.items = a :: d.items := by
  unfold pushFront at h
  split at h <;> cases h
  rfl

theorem popFront_items (h : d.popFront = some d') : d.items ≠ [] ∧ d'.items = d.items.tail := by
  unfold popFront at h
  split at h <;> cases h
  exact ⟨‹_›, rfl⟩

theorem popBack_items (h : d.popBack = some d') : d.items ≠ [] ∧ d'.items = d.items.dropLast := by
  unfold popBack at h
  split at h <;> cases h
  exact ⟨‹_›, rfl⟩

theorem pushBack_eq_none : d.pushBack a = none ↔ d.items.length = capacity := by
  have := d.bound
  simp only [pushBack, dite_eq_right_iff, reduceCtorEq, imp_false]
  omega

theorem pushFront_eq_none : d.pushFront a = none ↔ d.items.length = capacity := by
  have := d.bound
  simp only [pushFront, dite_eq_right_iff, reduceCtorEq, imp_false]
  omega

theorem popFront_eq_none : d.popFront = none ↔ d.items = [] := by
  simp [popFront]

theorem popBack_eq_none : d.popBack = none ↔ d.items = [] := by
  simp [popBack]

end Deque
