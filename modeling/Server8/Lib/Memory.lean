import Mathlib.Logic.Function.Basic

-- What a program got from `new` and has not given back. Addresses are not reused, and 0 is the null
-- pointer.
structure Memory (α : Type) where
  block : Nat → Option α
  next  : Nat
  fresh : ∀ a, next ≤ a → block a = none
  null  : block 0 = none

namespace Memory

variable {α : Type}

def empty : Memory α where
  block := fun _ => none
  next  := 1
  fresh := fun _ _ => rfl
  null  := rfl

-- Address 0 is skipped even if `next` should be 0.
def newAddress (m : Memory α) : Nat :=
  max m.next 1

def alloc (m : Memory α) (x : α) : Nat × Memory α :=
  (m.newAddress, {
    block := Function.update m.block m.newAddress (some x)
    next  := m.newAddress + 1
    fresh := fun a ha => by
      have h : a ≠ m.newAddress := Nat.ne_of_gt ha
      simp only [Function.update_of_ne h]
      exact m.fresh a (by simp only [newAddress] at ha; omega)
    null  := by
      have h : 0 ≠ m.newAddress := by simp only [newAddress]; omega
      simp only [Function.update_of_ne h, m.null] })

-- `delete`, which is undefined on anything but an address that `new` gave out.
def free (m : Memory α) (a : Nat) : Option (Memory α) :=
  (m.block a).map fun _ => {
    block := Function.update m.block a none
    next  := m.next
    fresh := fun b hb => by
      by_cases h : b = a
      · simp [h]
      · simp [Function.update_of_ne h, m.fresh b hb]
    null  := by
      by_cases h : 0 = a
      · simp [← h]
      · simp [Function.update_of_ne h, m.null] }

-- A write to what is at `a`.
def write (m : Memory α) (a : Nat) (x : α) : Option (Memory α) :=
  if h : (m.block a).isSome then
    some {
      block := Function.update m.block a (some x)
      next  := m.next
      fresh := fun b hb => by
        have hn : b ≠ a := by
          rintro rfl
          simp [m.fresh b hb] at h
        simp [Function.update_of_ne hn, m.fresh b hb]
      null  := by
        have hn : 0 ≠ a := by
          rintro rfl
          simp [m.null] at h
        simp [Function.update_of_ne hn, m.null] }
  else none

theorem block_newAddress (m : Memory α) : m.block m.newAddress = none :=
  m.fresh _ (Nat.le_max_left ..)

theorem newAddress_ne {m : Memory α} {a : Nat} {x : α} (h : m.block a = some x) :
    a ≠ m.newAddress := by
  rintro rfl
  simp [block_newAddress] at h

@[simp]
theorem alloc_fst (m : Memory α) (x : α) : (m.alloc x).1 = m.newAddress :=
  rfl

@[simp]
theorem alloc_self (m : Memory α) (x : α) : (m.alloc x).2.block m.newAddress = some x := by
  simp [alloc]

theorem alloc_ne (m : Memory α) (x : α) {a : Nat} (h : a ≠ m.newAddress) :
    (m.alloc x).2.block a = m.block a := by
  simp [alloc, h]

theorem free_eq_some {m m' : Memory α} {a : Nat} (h : m.free a = some m') :
    m'.block = Function.update m.block a none := by
  obtain ⟨_, _, rfl⟩ := Option.map_eq_some_iff.mp h
  rfl

theorem free_of_block {m : Memory α} {a : Nat} {x : α} (h : m.block a = some x) :
    ∃ m', m.free a = some m' := by
  simp [free, h]

theorem write_eq_some {m m' : Memory α} {a : Nat} {x : α} (h : m.write a x = some m') :
    m'.block = Function.update m.block a (some x) ∧ m'.newAddress = m.newAddress ∧
      ∃ y, m.block a = some y := by
  unfold write at h
  split at h
  case isFalse   => cases h
  case isTrue hs =>
    cases h
    exact ⟨rfl, rfl, Option.isSome_iff_exists.mp hs⟩

theorem write_self {m m' : Memory α} {a : Nat} {x : α} (h : m.write a x = some m') :
    m'.block a = some x := by
  rw [(write_eq_some h).left, Function.update_self]

-- The last of two writes counts.
theorem write_write {m m' : Memory α} {a : Nat} {x : α} (h : m.write a x = some m') (y : α) :
    m'.write a y = m.write a y := by
  unfold write at h
  split at h
  case isFalse   => cases h
  case isTrue hs =>
    cases h
    simp only [write, Function.update_self, Option.isSome_some, hs, dif_pos, Function.update_idem]

-- A write of what is there already.
theorem write_block {m : Memory α} {a : Nat} {x : α} (h : m.block a = some x) : m.write a x = some m := by
  have hu : Function.update m.block a (some x) = m.block := by rw [← h, Function.update_eq_self]
  rw [write, dif_pos (by rw [h]; rfl)]
  simp only [hu]

theorem write_of_block {m : Memory α} {a : Nat} {x y : α} (h : m.block a = some y) :
    ∃ m', m.write a x = some m' := by
  simp [write, h]

theorem newAddress_alloc (m : Memory α) (x : α) : (m.alloc x).2.newAddress = m.newAddress + 1 :=
  Nat.max_eq_left (Nat.le_add_left 1 m.newAddress)

theorem newAddress_free {m m' : Memory α} {a : Nat} (h : m.free a = some m') :
    m'.newAddress = m.newAddress := by
  obtain ⟨_, _, rfl⟩ := Option.map_eq_some_iff.mp h
  rfl

theorem lt_newAddress {m : Memory α} {a : Nat} {x : α} (h : m.block a = some x) :
    a < m.newAddress := by
  apply Nat.lt_of_not_le
  intro hle
  rw [m.fresh a (Nat.le_trans (Nat.le_max_left ..) hle)] at h
  cases h

-- What became of the old blocks: what was deleted stays deleted, and what is left is related to what
-- it was.
structure Keeps (R : α → α → Prop) (m m' : Memory α) : Prop where
  le   : m.newAddress ≤ m'.newAddress
  kept : ∀ {a : Nat} {y : α}, a < m.newAddress → m'.block a = some y → ∃ x, m.block a = some x ∧ R x y

namespace Keeps

variable {R : α → α → Prop} {m m₁ m₂ : Memory α} {a : Nat} {x y : α}

theorem refl (hr : ∀ x, R x x) (m : Memory α) : Keeps R m m :=
  ⟨Nat.le_refl _, fun _ h => ⟨_, h, hr _⟩⟩

theorem trans (ht : ∀ {x y z}, R x y → R y z → R x z) (h₁ : Keeps R m m₁) (h₂ : Keeps R m₁ m₂) :
    Keeps R m m₂ where
  le := Nat.le_trans h₁.le h₂.le
  kept ha hb :=
    have ⟨_, hy, hr⟩ := h₂.kept (Nat.lt_of_lt_of_le ha h₁.le) hb
    have ⟨x, hx, hr'⟩ := h₁.kept ha hy
    ⟨x, hx, ht hr' hr⟩

theorem alloc (hr : ∀ x, R x x) (m : Memory α) (x : α) : Keeps R m (m.alloc x).2 where
  le := by
    rw [newAddress_alloc]
    exact Nat.le_succ _
  kept ha hb := by
    rw [alloc_ne _ _ (Nat.ne_of_lt ha)] at hb
    exact ⟨_, hb, hr _⟩

theorem free (hr : ∀ x, R x x) (h : m.free a = some m₁) : Keeps R m m₁ where
  le := Nat.le_of_eq (newAddress_free h).symm
  kept {b y} _ hb := by
    rw [free_eq_some h, Function.update_apply] at hb
    split at hb
    case isTrue  => cases hb
    case isFalse => exact ⟨y, hb, hr y⟩

theorem write (hr : ∀ x, R x x) (h : m.write a y = some m₁) (hxy : ∀ x, m.block a = some x → R x y) :
    Keeps R m m₁ := by
  obtain ⟨hb, hn, x, hx⟩ := write_eq_some h
  constructor
  case le => exact Nat.le_of_eq hn.symm
  case kept =>
    intro b z _ hz
    rw [hb, Function.update_apply] at hz
    split at hz
    case isTrue hba =>
      cases hz
      exact ⟨x, hba ▸ hx, hxy x hx⟩
    case isFalse => exact ⟨z, hz, hr z⟩

end Keeps
end Memory
