import Mathlib.Algebra.BigOperators.Group.List.Basic
import Mathlib.Algebra.GroupWithZero.Nat

-- Texts of words, signs and quoted literals. In a literal a quote is written twice.

structure Lexis (σ : Type) where
  quote   : σ
  isWord  : σ → Bool
  isSpace : σ → Bool

namespace Lexis

variable {σ : Type}

inductive Token (σ : Type)
  | word (w : List σ)
  | literal (w : List σ)
  | sign (a : σ)
  deriving DecidableEq, Repr

-- What the characters so far have begun. `closed` is behind a quote that ends the literal, if it is not
-- the first one of two.
inductive State (σ : Type)
  | between
  | word (w : List σ)
  | literal (w : List σ)
  | closed (w : List σ)
  deriving DecidableEq, Repr

variable [DecidableEq σ] (l : Lexis σ)

def start (a : σ) : State σ × List (Token σ) :=
  if a = l.quote then (.literal [], [])
  else if l.isWord a then (.word [a], [])
  else if l.isSpace a then (.between, [])
  else (.between, [.sign a])

def step : State σ → σ → State σ × List (Token σ)
  | .between, a   => l.start a
  | .word w, a    => if l.isWord a then (.word (w ++ [a]), []) else ((l.start a).1, .word w :: (l.start a).2)
  | .literal w, a => if a = l.quote then (.closed w, []) else (.literal (w ++ [a]), [])
  | .closed w, a  =>
    if a = l.quote then (.literal (w ++ [a]), []) else ((l.start a).1, .literal w :: (l.start a).2)

def run : State σ → List σ → State σ × List (Token σ)
  | s, []     => (s, [])
  | s, a :: x => ((run (l.step s a).1 x).1, (l.step s a).2 ++ (run (l.step s a).1 x).2)

def finish : State σ → Option (List (Token σ))
  | .between   => some []
  | .word w    => some [.word w]
  | .literal _ => none
  | .closed w  => some [.literal w]

def tokens (x : List σ) : Option (List (Token σ)) :=
  (finish (l.run .between x).1).map ((l.run .between x).2 ++ ·)

theorem run_append (s : State σ) (x y : List σ) :
    l.run s (x ++ y) = ((l.run (l.run s x).1 y).1, (l.run s x).2 ++ (l.run (l.run s x).1 y).2) := by
  induction x generalizing s
  case nil         => rfl
  case cons a x ih => simp only [List.cons_append, run, ih, List.append_assoc]

-- What is behind a text that leaves nothing begun is split for itself.
theorem tokens_append {x : List σ} {ts : List (Token σ)} (h : l.run .between x = (.between, ts)) (y : List σ) :
    l.tokens (x ++ y) = (l.tokens y).map (ts ++ ·) := by
  rw [tokens, run_append, h, tokens, Option.map_map]
  congr 1
  funext us
  exact List.append_assoc ..

theorem run_literal {w : List σ} (hw : l.quote ∉ w) (u : List σ) :
    l.run (.literal u) w = (.literal (u ++ w), []) := by
  induction w generalizing u
  case nil         => rw [run, List.append_nil]
  case cons a w ih =>
    rw [List.mem_cons, not_or] at hw
    obtain ⟨ha, hw⟩ := hw
    have hstep : l.step (.literal u) a = (.literal (u ++ [a]), []) := if_neg (Ne.symm ha)
    rw [run, hstep, ih hw, List.append_assoc]
    rfl

section Length

-- How many characters a token takes at least.
def size : Token σ → Nat
  | .word w    => w.length
  | .literal w => w.length + w.count l.quote + 2
  | .sign _    => 1

def begun : State σ → Nat
  | .between   => 0
  | .word w    => w.length
  | .literal w => w.length + w.count l.quote + 1
  | .closed w  => w.length + w.count l.quote + 2

def total (ts : List (Token σ)) : Nat :=
  (ts.map l.size).sum

@[simp]
theorem begun_word (w : List σ) : l.begun (.word w) = w.length :=
  rfl

@[simp]
theorem begun_literal (w : List σ) : l.begun (.literal w) = w.length + w.count l.quote + 1 :=
  rfl

@[simp]
theorem begun_closed (w : List σ) : l.begun (.closed w) = w.length + w.count l.quote + 2 :=
  rfl

@[simp]
theorem size_word (w : List σ) : l.size (.word w) = w.length :=
  rfl

@[simp]
theorem size_literal (w : List σ) : l.size (.literal w) = w.length + w.count l.quote + 2 :=
  rfl

@[simp]
theorem total_nil : l.total [] = 0 :=
  rfl

@[simp]
theorem total_cons (t : Token σ) (ts : List (Token σ)) : l.total (t :: ts) = l.size t + l.total ts :=
  rfl

@[simp]
theorem total_append (ts us : List (Token σ)) : l.total (ts ++ us) = l.total ts + l.total us := by
  rw [total, List.map_append, List.sum_append, total, total]

theorem start_le (a : σ) : l.total (l.start a).2 + l.begun (l.start a).1 ≤ 1 := by
  unfold start
  split_ifs <;> simp [begun, size]

theorem step_le (s : State σ) (a : σ) : l.total (l.step s a).2 + l.begun (l.step s a).1 ≤ l.begun s + 1 := by
  have hstart := l.start_le a
  cases s
  case between   => exact Nat.le_trans hstart (Nat.le_add_left ..)
  case word w    =>
    simp only [step]
    split_ifs
    case pos => simp
    case neg =>
      simp only [total_cons, size_word, begun_word]
      omega
  case literal w =>
    simp only [step]
    split_ifs
    case pos   => simp
    case neg h =>
      simp only [begun_literal, total_nil, List.length_append, List.count_append, List.length_singleton,
        List.count_singleton, beq_iff_eq, if_neg h]
      omega
  case closed w  =>
    simp only [step]
    split_ifs
    case pos h =>
      simp only [begun_literal, begun_closed, total_nil, List.length_append, List.count_append,
        List.length_singleton, List.count_singleton, beq_iff_eq, if_pos h]
      omega
    case neg   =>
      simp only [total_cons, size_literal, begun_closed]
      omega

theorem run_le (s : State σ) (x : List σ) :
    l.total (l.run s x).2 + l.begun (l.run s x).1 ≤ l.begun s + x.length := by
  induction x generalizing s
  case nil         => simp [run]
  case cons a x ih =>
    have hstep := l.step_le s a
    have hrun := ih (l.step s a).1
    simp only [run, total_append, List.length_cons]
    omega

theorem total_finish {s : State σ} {ts : List (Token σ)} (h : finish s = some ts) : l.total ts = l.begun s := by
  cases s
  case literal w => cases h
  all_goals
    cases h
    rfl

theorem total_le {x : List σ} {ts : List (Token σ)} (h : l.tokens x = some ts) : l.total ts ≤ x.length := by
  obtain ⟨us, hus, rfl⟩ := Option.map_eq_some_iff.mp h
  have hrun := l.run_le .between x
  rw [total_append, l.total_finish hus]
  exact Nat.le_trans hrun (Nat.le_of_eq (Nat.zero_add _))

end Length

end Lexis
