import Mathlib.Data.Option.Basic

-- Loops: a turn gives the next state, or ends the loop.

namespace Loop

variable {σ : Type} {f : σ → Option σ} {x y z : σ} {n m : Nat}

-- The state after `n` turns, if there are so many.
def turns (f : σ → Option σ) : Nat → σ → Option σ
  | 0, x     => some x
  | n + 1, x => (f x).bind (turns f n)

-- The loop makes `n` turns and ends.
structure Ends (f : σ → Option σ) (x : σ) (n : Nat) (y : σ) : Prop where
  reached : turns f n x = some y
  last    : f y = none

theorem turns_succ : turns f (n + 1) x = some z ↔ ∃ y, f x = some y ∧ turns f n y = some z :=
  Option.bind_eq_some_iff

theorem turns_add (h : turns f n x = some y) : turns f (n + m) x = turns f m y := by
  induction n generalizing x
  case zero =>
    cases h
    rw [Nat.zero_add]
  case succ n ih =>
    obtain ⟨x', hx, h⟩ := turns_succ.mp h
    rw [Nat.add_right_comm, turns, hx]
    exact ih h

theorem turns_last (h : turns f n x = some y) (hy : f y = some z) : turns f (n + 1) x = some z := by
  rw [turns_add h, turns, hy]
  rfl

theorem Ends.done (h : f x = none) : Ends f x 0 x :=
  ⟨rfl, h⟩

theorem Ends.turn (h : Ends f y n z) (hx : f x = some y) : Ends f x (n + 1) z :=
  ⟨turns_succ.mpr ⟨y, hx, h.reached⟩, h.last⟩

-- There are no more turns than until the end, and no other end.
theorem Ends.le (h : Ends f x n z) (hm : turns f m x = some y) : m ≤ n := by
  by_contra hlt
  obtain ⟨k, rfl⟩ := Nat.exists_eq_add_of_lt (Nat.lt_of_not_le hlt)
  rw [Nat.add_assoc, turns_add h.reached, turns, h.last] at hm
  cases hm

-- What every turn keeps holds of every state that is reached.
theorem invariant {I : σ → Prop} (h : I x) (keep : ∀ x y, I x → f x = some y → I y)
    (hn : turns f n x = some y) : I y := by
  induction n generalizing x
  case zero =>
    cases hn
    exact h
  case succ n ih =>
    obtain ⟨x', hx, hn⟩ := turns_succ.mp hn
    exact ih (keep x x' h hx) hn

section Run

-- The state where the loop ends, if it makes at most so many turns.
def run (f : σ → Option σ) : Nat → σ → σ
  | 0, x     => x
  | n + 1, x =>
    match f x with
    | none   => x
    | some y => run f n y

theorem Ends.run_eq (h : Ends f x n y) (hm : n ≤ m) : run f m x = y := by
  induction n generalizing x m
  case zero =>
    obtain ⟨hx, hy⟩ := h
    cases hx
    cases m
    case zero   => rfl
    case succ m => rw [run, hy]
  case succ n ih =>
    obtain ⟨x', hx, hn⟩ := turns_succ.mp h.reached
    obtain ⟨m, rfl⟩ := Nat.exists_eq_add_of_le' (Nat.le_trans (Nat.le_add_left 1 n) hm)
    rw [run, hx]
    exact ih ⟨hn, h.last⟩ (Nat.le_of_succ_le_succ hm)

-- A loop whose turns make `μ` smaller comes to an end in time.
theorem ends_of_variant {μ : σ → Nat} (hμ : ∀ x y, f x = some y → μ y < μ x) (x : σ) :
    ∃ n ≤ μ x, ∃ y, Ends f x n y := by
  induction hn : μ x using Nat.strongRecOn generalizing x
  case ind k ih =>
    subst hn
    cases hx : f x
    case none   => exact ⟨0, Nat.zero_le _, x, Ends.done hx⟩
    case some y =>
      obtain ⟨n, hn, z, hz⟩ := ih (μ y) (hμ x y hx) y rfl
      exact ⟨n + 1, Nat.lt_of_le_of_lt hn (hμ x y hx), z, hz.turn hx⟩

theorem run_invariant {I : σ → Prop} (h : I x) (keep : ∀ x y, I x → f x = some y → I y) (n : Nat) :
    I (run f n x) := by
  induction n generalizing x
  case zero      => exact h
  case succ n ih =>
    cases hx : f x
    case none   => rwa [run, hx]
    case some y =>
      rw [run, hx]
      exact ih (keep x y h hx)

end Run

end Loop
