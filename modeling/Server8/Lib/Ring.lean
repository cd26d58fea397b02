import Mathlib.Data.List.Range
import Mathlib.Data.List.Nodup

-- Index arithmetic of a circular array with `n` slots: `size` slots from `head` on, in order.

namespace Ring

def succ (n i : Nat) : Nat :=
  if i ≠ n - 1 then i + 1 else 0

def pred (n i : Nat) : Nat :=
  if i ≠ 0 then i - 1 else n - 1

def window (n head : Nat) : Nat → List Nat
  | 0        => []
  | size + 1 => head :: window n (succ n head) size

-- The slot of the last element, for a nonempty window.
def last (n head : Nat) : Nat → Nat
  | 0        => head
  | size + 1 => last n (succ n head) size

variable {n i j head size : Nat}

theorem succ_lt (h : i < n) : succ n i < n := by
  unfold succ
  split <;> omega

theorem pred_lt (h : i < n) : pred n i < n := by
  unfold pred
  split <;> omega

theorem succ_pred (h : i < n) : succ n (pred n i) = i := by
  unfold succ pred
  split <;> split <;> omega

theorem pred_succ : pred n (succ n i) = i := by
  unfold succ pred
  split <;> split <;> omega

@[simp]
theorem window_length : (window n head size).length = size := by
  induction size generalizing head
  case zero      => rfl
  case succ _ ih => simp [window, ih]

theorem window_lt (h : head < n) (hi : i ∈ window n head size) : i < n := by
  induction size generalizing head
  case zero => simp [window] at hi
  case succ _ ih =>
    cases List.mem_cons.mp hi
    case inl h' => exact h' ▸ h
    case inr h' => exact ih (succ_lt h) h'

theorem last_lt (h : head < n) : last n head size < n := by
  induction size generalizing head
  case zero      => exact h
  case succ _ ih => exact ih (succ_lt h)

theorem window_append : window n head (size + 1) = window n head size ++ [last n head size] := by
  induction size generalizing head
  case zero => rfl
  case succ size ih =>
    calc window n head (size + 2)
      _ = head :: window n (succ n head) (size + 1) := rfl
      _ = head :: (window n (succ n head) size ++ [last n (succ n head) size]) := by rw [ih]
      _ = window n head (size + 1) ++ [last n head (size + 1)] := rfl

theorem last_succ : last n head (size + 1) = succ n (last n head size) := by
  induction size generalizing head
  case zero      => rfl
  case succ _ ih => exact ih

theorem last_of_window {w : List Nat} (h : window n head (size + 1) = w ++ [i]) :
    last n head size = i := by
  rw [window_append] at h
  have hl := (List.append_inj' h rfl).right
  exact List.head_eq_of_cons_eq hl

-- How far the slot `i` is behind `head`.
def distance (n head i : Nat) : Nat :=
  if head ≤ i then i - head else i + n - head

theorem mem_window (h : head < n) (hs : size ≤ n) :
    i ∈ window n head size ↔ i < n ∧ distance n head i < size := by
  induction size generalizing head
  case zero => simp [window]
  case succ size ih =>
    simp only [window, List.mem_cons, ih (succ_lt h) (Nat.le_of_succ_le hs)]
    unfold distance succ
    split <;> split <;> split <;> omega

theorem head_not_mem (h : head < n) (hs : size < n) : head ∉ window n (succ n head) size := by
  rw [mem_window (succ_lt h) (Nat.le_of_lt hs)]
  unfold distance succ
  split <;> split <;> omega

theorem window_nodup (h : head < n) (hs : size ≤ n) : (window n head size).Nodup := by
  induction size generalizing head
  case zero      => exact List.nodup_nil
  case succ _ ih =>
    exact List.nodup_cons.mpr ⟨head_not_mem h hs, ih (succ_lt h) (Nat.le_of_succ_le hs)⟩

theorem last_not_mem (h : head < n) (hs : size < n) : last n head size ∉ window n head size := by
  have hd := window_nodup h (Nat.succ_le_of_lt hs)
  rw [window_append, List.nodup_append] at hd
  exact fun hm => hd.right.right _ hm _ (List.mem_singleton_self _) rfl

theorem pred_not_mem (h : head < n) (hs : size < n) : pred n head ∉ window n head size := by
  have := head_not_mem (pred_lt h) hs
  rwa [succ_pred h] at this

end Ring
