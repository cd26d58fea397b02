import Mathlib.Algebra.Order.Group.Multiset
import Mathlib.Data.List.Basic
import Mathlib.Tactic.Abel

-- Threads of a program, told apart by their places in a list, and what they hold between them.

namespace Threads

variable {τ β : Type} {l : List τ} {i : Nat} {a b : τ}

theorem split (h : l[i]? = some a) : ∃ u v, l = u ++ a :: v ∧ ∀ b, l.set i b = u ++ b :: v := by
  obtain ⟨hi, rfl⟩ := List.getElem?_eq_some_iff.mp h
  refine ⟨l.take i, l.drop (i + 1), ?_, fun b => ?_⟩
  · rw [← List.drop_eq_getElem_cons hi, List.take_append_drop]
  · rw [List.set_eq_take_append_cons_drop, if_pos hi]

-- What one thread gives away or gets is what all of them have less or more.
theorem flatMap_set (f : τ → List β) (h : l[i]? = some a) (b : τ) :
    (((l.set i b).flatMap f : List β) : Multiset β) + f a = (l.flatMap f : List β) + f b := by
  obtain ⟨u, v, rfl, hset⟩ := split h
  simp only [hset, List.flatMap_append, List.flatMap_cons, ← Multiset.coe_add]
  abel

theorem forall_set {P : τ → Prop} (h : ∀ x ∈ l, P x) (hb : P b) : ∀ x ∈ l.set i b, P x := by
  intro x hx
  cases List.mem_or_eq_of_mem_set hx
  case inl hx => exact h x hx
  case inr he => exact he ▸ hb

end Threads
