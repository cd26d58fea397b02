import Mathlib.Algebra.Order.Group.Multiset
import Server8.Lib.Memory

-- Who may use what a program got from `new`: what a memory has beyond an earlier one, with one owner
-- for each address.

namespace Memory

variable {α : Type} {m₀ m m' : Memory α} {owners owners' : Multiset Nat} {a : Nat} {x : α}

-- The addresses in `owners` are what came since `m₀` and is left. All others are as they were.
structure Beyond (m₀ m : Memory α) (owners : Multiset Nat) : Prop where
  later : m₀.newAddress ≤ m.newAddress
  nodup : owners.Nodup
  live  : ∀ a ∈ owners, ∃ x, m.block a = some x
  new   : ∀ a ∈ owners, m₀.newAddress ≤ a
  same  : ∀ a, a ∉ owners → m.block a = m₀.block a

namespace Beyond

theorem refl (m : Memory α) : m.Beyond m 0 where
  later     := Nat.le_refl _
  nodup     := Multiset.nodup_zero
  live _ h  := absurd h (Multiset.notMem_zero _)
  new _ h   := absurd h (Multiset.notMem_zero _)
  same _ _  := rfl

theorem lt_newAddress (h : m₀.Beyond m owners) (ha : a ∈ owners) : a < m.newAddress := by
  obtain ⟨x, hx⟩ := h.live a ha
  exact Memory.lt_newAddress hx

-- What is neither owned nor older is not there.
theorem block_eq_none (h : m₀.Beyond m owners) (hn : m₀.newAddress ≤ a) (ha : a ∉ owners) :
    m.block a = none := by
  rw [h.same a ha]
  exact m₀.fresh a (Nat.le_trans (Nat.le_max_left ..) hn)

theorem trans (h : m₀.Beyond m owners) (h' : m.Beyond m' owners') :
    m₀.Beyond m' (owners + owners') where
  later := Nat.le_trans h.later h'.later
  nodup := by
    rw [Multiset.nodup_add]
    refine ⟨h.nodup, h'.nodup, Multiset.disjoint_left.mpr fun ha ha' => ?_⟩
    exact Nat.not_lt.mpr (h'.new _ ha') (h.lt_newAddress ha)
  live a ha := by
    by_cases ha' : a ∈ owners'
    case pos => exact h'.live a ha'
    case neg =>
      rw [h'.same a ha']
      exact h.live a ((Multiset.mem_add.mp ha).resolve_right ha')
  new a ha := by
    cases Multiset.mem_add.mp ha
    case inl ha => exact h.new a ha
    case inr ha => exact Nat.le_trans h.later (h'.new a ha)
  same a ha := by
    rw [Multiset.mem_add, not_or] at ha
    rw [h'.same a ha.right, h.same a ha.left]

theorem alloc (m : Memory α) (x : α) : m.Beyond (m.alloc x).2 {m.newAddress} where
  later    := newAddress_alloc m x ▸ Nat.le_succ _
  nodup    := Multiset.nodup_singleton _
  live _ h := ⟨x, Multiset.mem_singleton.mp h ▸ alloc_self m x⟩
  new _ h  := Nat.le_of_eq (Multiset.mem_singleton.mp h).symm
  same _ h := alloc_ne m x fun ha => h (Multiset.mem_singleton.mpr ha)

theorem free (h : m₀.Beyond m (a ::ₘ owners)) (hf : m.free a = some m') : m₀.Beyond m' owners where
  later := newAddress_free hf ▸ h.later
  nodup := (Multiset.nodup_cons.mp h.nodup).right
  live b hb := by
    have hne : b ≠ a := fun he => (Multiset.nodup_cons.mp h.nodup).left (he ▸ hb)
    rw [free_eq_some hf, Function.update_of_ne hne]
    exact h.live b (Multiset.mem_cons_of_mem hb)
  new b hb := h.new b (Multiset.mem_cons_of_mem hb)
  same b hb := by
    rw [free_eq_some hf]
    by_cases he : b = a
    case pos =>
      rw [he, Function.update_self]
      exact (m₀.fresh a (Nat.le_trans (Nat.le_max_left ..) (h.new a (Multiset.mem_cons_self ..)))).symm
    case neg =>
      rw [Function.update_of_ne he]
      exact h.same b fun hm => (Multiset.mem_cons.mp hm).elim he hb

-- Without owners nothing is left.
theorem block_eq (h : m₀.Beyond m 0) : m.block = m₀.block :=
  funext fun a => h.same a (Multiset.notMem_zero a)

theorem ne_zero (h : m₀.Beyond m owners) (ha : a ∈ owners) : a ≠ 0 := by
  rintro rfl
  obtain ⟨x, hx⟩ := h.live 0 ha
  simp [m.null] at hx

theorem write (h : m₀.Beyond m owners) (ha : a ∈ owners) (hw : m.write a x = some m') : m₀.Beyond m' owners where
  later := (write_eq_some hw).right.left ▸ h.later
  nodup := h.nodup
  live b hb := by
    rw [(write_eq_some hw).left, Function.update_apply]
    split
    case isTrue  => exact ⟨x, rfl⟩
    case isFalse => exact h.live b hb
  new   := h.new
  same b hb := by
    have hne : b ≠ a := fun he => hb (he ▸ ha)
    rw [(write_eq_some hw).left, Function.update_of_ne hne]
    exact h.same b hb

end Beyond

-- The weaker fact where something may have been left behind: what is owned is there, and has one owner.
structure Holds (m : Memory α) (owners : Multiset Nat) : Prop where
  nodup : owners.Nodup
  live  : ∀ a ∈ owners, ∃ x, m.block a = some x

namespace Holds

theorem zero (m : Memory α) : m.Holds 0 where
  nodup    := Multiset.nodup_zero
  live _ h := absurd h (Multiset.notMem_zero _)

theorem mono (h : m.Holds owners) (hle : owners' ≤ owners) : m.Holds owners' where
  nodup := Multiset.nodup_of_le hle h.nodup
  live a ha := h.live a (Multiset.mem_of_le hle ha)

theorem ne_newAddress (h : m.Holds owners) (ha : a ∈ owners) : a ≠ m.newAddress := by
  obtain ⟨x, hx⟩ := h.live a ha
  exact newAddress_ne hx

theorem alloc (h : m.Holds owners) (x : α) : (m.alloc x).2.Holds (m.newAddress ::ₘ owners) where
  nodup := Multiset.nodup_cons.mpr ⟨fun ha => h.ne_newAddress ha rfl, h.nodup⟩
  live a ha := by
    cases Multiset.mem_cons.mp ha
    case inl he => exact ⟨x, he ▸ alloc_self m x⟩
    case inr ha =>
      rw [alloc_ne m x (h.ne_newAddress ha)]
      exact h.live a ha

theorem free (h : m.Holds (a ::ₘ owners)) (hf : m.free a = some m') : m'.Holds owners where
  nodup := (Multiset.nodup_cons.mp h.nodup).right
  live b hb := by
    have hne : b ≠ a := fun he => (Multiset.nodup_cons.mp h.nodup).left (he ▸ hb)
    rw [free_eq_some hf, Function.update_of_ne hne]
    exact h.live b (Multiset.mem_cons_of_mem hb)

theorem write (h : m.Holds owners) (hw : m.write a x = some m') : m'.Holds owners where
  nodup := h.nodup
  live b hb := by
    rw [(write_eq_some hw).left, Function.update_apply]
    split
    case isTrue  => exact ⟨x, rfl⟩
    case isFalse => exact h.live b hb

end Holds
end Memory
