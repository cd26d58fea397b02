import Mathlib

-- Combinatorics of words: conjugates, words that hold the same letters in fewer pieces.

namespace Words

open List

variable {α : Type}

-- If `y ++ t = t ++ x`, then `x` is `y` with its two halves swapped.
theorem exists_conj {y t x : List α} (h : y ++ t = t ++ x) : ∃ u v, y = u ++ v ∧ x = v ++ u := by
  by_cases hy : y = []
  case pos =>
    have hx : x = [] := by
      have := congrArg List.length h
      simp only [List.length_append, hy, List.length_nil] at this
      exact List.eq_nil_of_length_eq_zero (by omega)
    exact ⟨[], [], hy, hx⟩
  case neg =>
    cases List.append_eq_append_iff.mp h
    case inl h' =>
      have ⟨w, ht, ht'⟩ := h'
      have hw : y ++ w = w ++ x := ht.symm.trans ht'
      exact exists_conj hw
    case inr h' =>
      have ⟨w, hy', hx⟩ := h'
      exact ⟨t, w, hy', hx⟩
termination_by t.length
decreasing_by
  have := List.length_pos_of_ne_nil hy
  rw [ht, List.length_append]
  omega

variable {R : α → α → Prop}

-- A word with related neighbours keeps them when its halves are swapped, if its first letter may
-- follow every letter.
theorem isChain_swap {u v : List α} (h : IsChain R (v ++ u))
    (hd : ∀ b ∈ (v ++ u).head?, ∀ a, R a b) : IsChain R (u ++ v) := by
  have ⟨hv, hu, _⟩ := List.isChain_append.mp h
  refine List.isChain_append.mpr ⟨hu, hv, fun a _ b hb => hd b ?_ a⟩
  cases v
  case nil  => cases hb
  case cons => exact hb

theorem isChain_of_append_comm {y t x : List α} (h : y ++ t = t ++ x) (hx : IsChain R x)
    (hd : ∀ b ∈ x.head?, ∀ a, R a b) : IsChain R y := by
  have ⟨u, v, hy, hx'⟩ := exists_conj h
  subst hy hx'
  exact isChain_swap hx hd

-- Of nonempty words, no proper part is as long as the whole.
theorem eq_of_sublist {ws vs : List (List α)} (h : ws <+ vs) (hne : ∀ v ∈ vs, v ≠ [])
    (hl : vs.flatten.length ≤ ws.flatten.length) : ws = vs := by
  induction h
  case slnil => rfl
  case cons ws vs v hs _ =>
    have hv := List.length_pos_of_ne_nil (hne v List.mem_cons_self)
    have := hs.flatten.length_le
    rw [List.flatten_cons, List.length_append] at hl
    omega
  case cons_cons ws vs v hs ih =>
    simp only [List.flatten_cons, List.length_append, Nat.add_le_add_iff_left] at hl
    rw [ih (fun v hv => hne v (List.mem_cons_of_mem _ hv)) hl]

end Words
