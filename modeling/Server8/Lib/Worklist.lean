import Mathlib.Data.Set.Image

-- Work that leads to more work, and is done once for each key.

namespace Worklist

variable {α κ : Type} {key : α → κ} {next : α → Set α} {initial known known' done : Set α} {x y : α}

-- All work that there is in the end.
inductive Derived (next : α → Set α) (initial : Set α) : α → Prop
  | initial {x : α} : x ∈ initial → Derived next initial x
  | next {x y : α} : Derived next initial x → y ∈ next x → Derived next initial y

theorem Derived.mono {initial' : Set α} (hsub : initial ⊆ initial') (h : Derived next initial x) :
    Derived next initial' x := by
  induction h
  case initial hx   => exact .initial (hsub hx)
  case next hy ih   => exact .next ih hy

-- `known` is what is to be done and what is done. Work that leaves `known` leaves its key there.
structure Explores (key : α → κ) (next : α → Set α) (initial known done : Set α) : Prop where
  derived : ∀ x ∈ known, Derived next initial x
  started : done ⊆ known
  first   : ∀ x ∈ initial, key x ∈ key '' known
  further : ∀ x ∈ done, ∀ y ∈ next x, key y ∈ key '' known

namespace Explores

theorem empty : Explores key next ∅ ∅ ∅ where
  derived := nofun
  started := Set.Subset.rfl
  first   := nofun
  further := nofun

theorem submit (h : Explores key next initial known done) (x : α) :
    Explores key next (insert x initial) (insert x known) done where
  derived y hy := by
    cases hy
    case inl he => exact .initial (he ▸ Set.mem_insert y initial)
    case inr hy => exact (h.derived y hy).mono (Set.subset_insert x initial)
  started      := h.started.trans (Set.subset_insert x known)
  first y hy   := by
    cases hy
    case inl he => exact ⟨y, .inl he, rfl⟩
    case inr hy => exact Set.image_mono (Set.subset_insert x known) (h.first y hy)
  further y hy z hz := Set.image_mono (Set.subset_insert x known) (h.further y hy z hz)

-- Work may be dropped while other work with its key is known.
theorem drop (h : Explores key next initial known done) (hsub : known' ⊆ known) (hdone : done ⊆ known')
    (hkey : ∀ x ∈ known, key x ∈ key '' known') : Explores key next initial known' done := by
  have himage : key '' known ⊆ key '' known' := Set.image_subset_iff.mpr hkey
  constructor
  case derived => exact fun x hx => h.derived x (hsub hx)
  case started => exact hdone
  case first   => exact fun x hx => himage (h.first x hx)
  case further => exact fun x hx y hy => himage (h.further x hx y hy)

theorem finish (h : Explores key next initial known done) (hx : x ∈ known) :
    Explores key next initial (known ∪ next x) (insert x done) where
  derived y hy := by
    cases hy
    case inl hy => exact h.derived y hy
    case inr hy => exact .next (h.derived x hx) hy
  started           := Set.insert_subset (.inl hx) (h.started.trans Set.subset_union_left)
  first y hy        := Set.image_mono Set.subset_union_left (h.first y hy)
  further y hy z hz := by
    cases hy
    case inl he => exact ⟨z, .inr (he ▸ hz), rfl⟩
    case inr hy => exact Set.image_mono Set.subset_union_left (h.further y hy z hz)

-- When all that is known is done, there is something done for every key, if work with the same key leads to
-- the same work.
theorem closed (h : Explores key next initial done done)
    (hsame : ∀ x y, Derived next initial x → Derived next initial y → key x = key y → next x = next y)
    (hx : Derived next initial x) : key x ∈ key '' done := by
  induction hx
  case initial hx     => exact h.first _ hx
  case next x y hd hy ih =>
    obtain ⟨z, hz, he⟩ := ih
    exact h.further z hz y (hsame x z hd (h.derived z hz) he.symm ▸ hy)

end Explores

end Worklist
