import Mathlib.Logic.Basic

-- A number in memory that threads increment without a lock: each increment is a load and a store, and
-- other threads may come between them.

-- `waiting` increments have not loaded the number, and the others hold what they loaded.
structure Counter where
  value   : Int32
  waiting : Nat
  loaded  : List Int32
  deriving DecidableEq, Repr

namespace Counter

def zero : Counter := ⟨0, 0, []⟩

-- Threads come to `n` further increments.
def begins (c : Counter) (n : Nat) : Counter :=
  { c with waiting := c.waiting + n }

def load (c : Counter) : Option Counter :=
  if 0 < c.waiting then
    some { c with
      waiting := c.waiting - 1
      loaded  := c.value :: c.loaded }
  else none

def store (c : Counter) (i : Nat) : Option Counter :=
  (c.loaded[i]?).map fun v => { c with
    value  := v + 1
    loaded := c.loaded.eraseIdx i }

-- No increment is between its load and its store.
def Alone (c : Counter) : Prop :=
  c.loaded = []

-- The increment `i` does not overflow.
def Fits (c : Counter) (i : Nat) : Prop :=
  ∀ v ∈ c.loaded[i]?, v.toInt < 2147483647

def Settled (c : Counter) : Prop :=
  c.waiting = 0 ∧ c.loaded = []

instance (c : Counter) : Decidable c.Alone :=
  inferInstanceAs (Decidable (_ = _))

instance (c : Counter) (i : Nat) : Decidable (c.Fits i) :=
  decidable_of_iff (c.loaded[i]?.all fun v => v.toInt < 2147483647) (by
    unfold Fits
    cases c.loaded[i]? <;> simp)

instance (c : Counter) : Decidable c.Settled :=
  inferInstanceAs (Decidable (_ ∧ _))

-- No increment was lost of those that threads came to: one at most has loaded the number, and the number
-- has not changed since.
structure Counts (c : Counter) (begun : Int) : Prop where
  total  : c.value.toInt + c.waiting + c.loaded.length = begun
  loaded : c.loaded = [] ∨ c.loaded = [c.value]

variable {c c' : Counter} {begun : Int} {n i : Nat}

theorem Counts.zero : zero.Counts 0 where
  total  := rfl
  loaded := .inl rfl

theorem Counts.begins (h : c.Counts begun) : (c.begins n).Counts (begun + n) where
  total  := by
    have := h.total
    simp only [Counter.begins]
    omega
  loaded := h.loaded

theorem Counts.load (h : c.Counts begun) (alone : c.Alone) (hl : c.load = some c') : c'.Counts begun := by
  have htotal := h.total
  unfold Counter.load at hl
  split at hl
  case isFalse => cases hl
  case isTrue hpos =>
    cases hl
    rw [Alone] at alone
    refine ⟨?_, .inr (by simp [alone])⟩
    simp only [alone, List.length_nil, List.length_singleton] at htotal ⊢
    omega

theorem toInt_succ {v : Int32} (h : v.toInt < 2147483647) : (v + 1).toInt = v.toInt + 1 := by
  have hle := v.le_toInt
  rw [Int32.toInt_add, Int32.toInt_one]
  exact Int.bmod_eq_of_le (by omega) (by omega)

theorem Counts.store (h : c.Counts begun) (fits : c.Fits i) (hs : c.store i = some c') : c'.Counts begun := by
  have htotal := h.total
  obtain ⟨v, hv, rfl⟩ := Option.map_eq_some_iff.mp hs
  have hsucc := toInt_succ (fits v hv)
  cases h.loaded
  case inl hn => simp [hn] at hv
  case inr hl =>
    rw [hl, List.getElem?_singleton] at hv
    split at hv
    case isFalse   => cases hv
    case isTrue hi =>
      cases hv
      refine ⟨?_, .inl (by simp [hl, hi])⟩
      simp only [hl, hi, List.length_singleton, List.eraseIdx_cons_zero, List.length_nil, hsucc] at htotal ⊢
      omega

-- When every increment is over, memory has their number.
theorem Counts.settled (h : c.Counts begun) (settled : c.Settled) : c.value.toInt = begun := by
  have htotal := h.total
  simp only [settled.left, settled.right, List.length_nil] at htotal
  omega

-- Of two increments that overlap one is lost.
example : ((zero.begins 2).load.bind fun c => c.load.bind fun c => (c.store 0).bind (·.store 0)) =
    some ⟨1, 0, []⟩ := by
  decide

end Counter
