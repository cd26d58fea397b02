import Server8.Lib.Search

-- The match that a search finds, and what it puts into the groups.

namespace Regex

variable {σ : Type}

-- The first match from the left.
def find (r : Nat → Regex σ) (x : List σ) : Option (Pos σ) :=
  x.tails.findSome? (matchAt r)

-- One match behind the other, for an expression that does not match the empty text.
def findAllLoop (r : Nat → Regex σ) : Nat → List σ → List (Pos σ)
  | 0, _     => []
  | n + 1, x =>
    match find r x with
    | none   => []
    | some y => y :: findAllLoop r n y.rest

def findAll (r : Nat → Regex σ) (x : List σ) : List (Pos σ) :=
  findAllLoop r x.length x

section Rounds

variable {p : σ → Bool}

-- The rounds of a quantifier over a class take characters of the class.
theorem run_rounds {n m : Nat} {x z : Pos σ} {c : Cont σ}
    (h : repeatMatcher (run (.cls p)) [] n m x c = some z) :
    ∃ u y, x.rest = u ++ y.rest ∧ y.caps = x.caps ∧ (∀ a ∈ u, p a = true) ∧ c y = some z := by
  induction n generalizing m x
  case zero      => exact ⟨[], x, rfl, rfl, List.forall_mem_nil _, h⟩
  case succ n ih =>
    have hround : ∀ d, (run (.cls p)) x d = some z →
        (∀ y, d y = some z → repeatMatcher (run (.cls p)) [] n (m - 1) y c = some z) →
        ∃ u y, x.rest = u ++ y.rest ∧ y.caps = x.caps ∧ (∀ a ∈ u, p a = true) ∧ c y = some z := by
      intro d hd hn
      obtain ⟨rest, caps⟩ := x
      cases rest
      case nil         => cases hd
      case cons a rest =>
        rw [run_cls_cons, Option.ite_none_right_eq_some] at hd
        obtain ⟨u, y, hu, hy, hall, hc⟩ := ih (hn _ hd.right)
        exact ⟨a :: u, y, congrArg (a :: ·) hu, hy, List.forall_mem_cons.mpr ⟨hd.left, hall⟩, hc⟩
    have hnext : ∀ y, (if m = 0 ∧ y.rest.length = x.rest.length then none
        else repeatMatcher (run (.cls p)) [] n (m - 1) y c) = some z →
        repeatMatcher (run (.cls p)) [] n (m - 1) y c = some z := by
      intro y hy
      exact (Option.ite_none_left_eq_some.mp hy).right
    simp only [repeatMatcher, Pos.clear_nil] at h
    split at h
    case isFalse => exact hround _ h hnext
    case isTrue  =>
      rw [Option.or_eq_some_iff] at h
      cases h
      case inl h => exact hround _ h hnext
      case inr h => exact ⟨[], x, rfl, rfl, List.forall_mem_nil _, h.right⟩

end Rounds

-- `I` is true of the groups after a match if it was true before.
def Keeps (I : (Nat → Option (List σ)) → Prop) (r : Regex σ) : Prop :=
  ∀ x c z, I x.caps → r.run x c = some z → ∃ y, I y.caps ∧ c y = some z

namespace Keeps

variable {I : (Nat → Option (List σ)) → Prop} {r s : Regex σ} {p : σ → Bool}

theorem empty : Keeps I .empty :=
  fun x _ _ hx h => ⟨x, hx, h⟩

theorem cls (p : σ → Bool) : Keeps I (.cls p) := by
  intro x c z hx h
  obtain ⟨rest, caps⟩ := x
  cases rest
  case nil         => cases h
  case cons a rest =>
    rw [run_cls_cons, Option.ite_none_right_eq_some] at h
    exact ⟨⟨rest, caps⟩, hx, h.right⟩

theorem seq (hr : Keeps I r) (hs : Keeps I s) : Keeps I (.seq r s) := by
  intro x c z hx h
  obtain ⟨y, hy, h⟩ := hr x _ z hx h
  exact hs y c z hy h

theorem alt (hr : Keeps I r) (hs : Keeps I s) : Keeps I (.alt r s) := by
  intro x c z hx h
  rw [run_alt, Option.or_eq_some_iff] at h
  cases h
  case inl h => exact hr x c z hx h
  case inr h => exact hs x c z hx h.right

-- A group over a class gets a text of the class.
theorem group {i : Nat} {min : Nat} {max : Option Nat}
    (hI : ∀ caps w, I caps → (∀ a ∈ w, p a = true) → I (Function.update caps i (some w))) :
    Keeps I (.group i (.rep (.cls p) min max)) := by
  intro x c z hx h
  rw [run_group, run_rep] at h
  obtain ⟨u, y, hu, hy, hall, hc⟩ := run_rounds h
  rw [Pos.capture_append u hu] at hc
  exact ⟨y.set i u, hI y.caps u (hy ▸ hx) hall, hc⟩

theorem capture {i : Nat} (hr : Keeps I r) (hI : ∀ caps w, I caps → I (Function.update caps i (some w))) :
    Keeps I (.group i r) := by
  intro x c z hx h
  rw [run_group] at h
  obtain ⟨y, hy, h⟩ := hr x _ z hx h
  exact ⟨y.capture x i, hI y.caps _ hy, h⟩

theorem rep (hr : Keeps I r) (hI : ∀ x : Pos σ, I x.caps → I (x.clear r.groups).caps) (min : Nat)
    (max : Option Nat) : Keeps I (.rep r min max) := by
  intro x c z hx h
  rw [run_rep] at h
  generalize max.getD (min + x.rest.length) = n at h
  induction n generalizing x min
  case zero      => exact ⟨x, hx, h⟩
  case succ n ih =>
    have hround : ∀ d, r.run (x.clear r.groups) d = some z →
        (∀ y, d y = some z → repeatMatcher r.run r.groups n (min - 1) y c = some z) →
        ∃ y, I y.caps ∧ c y = some z := by
      intro d hd hn
      obtain ⟨y, hy, h⟩ := hr _ d z (hI x hx) hd
      exact ih (min - 1) y hy (hn y h)
    have hnext : ∀ y, (if min = 0 ∧ y.rest.length = x.rest.length then none
        else repeatMatcher r.run r.groups n (min - 1) y c) = some z →
        repeatMatcher r.run r.groups n (min - 1) y c = some z :=
      fun y hy => (Option.ite_none_left_eq_some.mp hy).right
    simp only [repeatMatcher] at h
    split at h
    case isFalse => exact hround _ h hnext
    case isTrue  =>
      rw [Option.or_eq_some_iff] at h
      cases h
      case inl h => exact hround _ h hnext
      case inr h => exact ⟨x, hx, h.right⟩

theorem find {r : Nat → Regex σ} (hr : ∀ n, Keeps I (r n)) (h : I fun _ => none) {x : List σ} {z : Pos σ}
    (hz : find r x = some z) : I z.caps := by
  obtain ⟨y, _, hy⟩ := List.exists_of_findSome?_eq_some hz
  obtain ⟨z', hz', he⟩ := hr y.length (.start y) some z h hy
  cases he
  exact hz'

end Keeps

section Confines

variable {i : Nat} {p : σ → Bool} {r s : Regex σ}

-- What the group `i` has is of the class `p`.
def Within (i : Nat) (p : σ → Bool) (caps : Nat → Option (List σ)) : Prop :=
  ∀ w ∈ caps i, ∀ a ∈ w, p a = true

-- The group `i` is a quantifier over characters of `p`, wherever it is in the expression.
def Confines (i : Nat) (p : σ → Bool) : Regex σ → Prop
  | empty | cls _     => True
  | seq r s | alt r s => Confines i p r ∧ Confines i p s
  | rep r _ _         => Confines i p r
  | group j r         =>
    if j = i then ∃ q min max, r = rep (cls q) min max ∧ ∀ a, q a = true → p a = true
    else Confines i p r

@[simp]
theorem confines_seq : (seq r s).Confines i p ↔ r.Confines i p ∧ s.Confines i p :=
  Iff.rfl

@[simp]
theorem confines_alt : (alt r s).Confines i p ↔ r.Confines i p ∧ s.Confines i p :=
  Iff.rfl

@[simp]
theorem confines_rep {min : Nat} {max : Option Nat} : (rep r min max).Confines i p ↔ r.Confines i p :=
  Iff.rfl

@[simp]
theorem confines_cls (q : σ → Bool) : (cls q).Confines i p :=
  trivial

@[simp]
theorem confines_lit [BEq σ] (w : List σ) : (lit w).Confines i p := by
  induction w
  case nil         => exact trivial
  case cons a w ih => exact ⟨trivial, ih⟩

@[simp]
theorem confines_lazyStar (n : Nat) : (lazyStar r n).Confines i p ↔ n = 0 ∨ r.Confines i p := by
  induction n
  case zero      => exact iff_of_true trivial (.inl rfl)
  case succ n ih =>
    constructor
    case mp  => exact fun h => .inr h.right.left
    case mpr =>
      intro h
      have hr := h.resolve_left (Nat.succ_ne_zero n)
      exact ⟨trivial, hr, ih.mpr (.inr hr)⟩

@[simp]
theorem confines_group_self {q : σ → Bool} {min : Nat} {max : Option Nat} :
    (group i (rep (cls q) min max)).Confines i p ↔ ∀ a, q a = true → p a = true := by
  rw [Confines, if_pos rfl]
  constructor
  case mpr => exact fun h => ⟨q, min, max, rfl, h⟩
  case mp  =>
    rintro ⟨_, _, _, he, h⟩
    cases he
    exact h

@[simp]
theorem confines_group {j : Nat} (h : j ≠ i) : (group j r).Confines i p ↔ r.Confines i p := by
  rw [Confines, if_neg h]

theorem Confines.keeps (h : r.Confines i p) : Keeps (Within i p) r := by
  induction r
  case empty         => exact .empty
  case cls q         => exact .cls q
  case seq r s hr hs => exact (hr h.left).seq (hs h.right)
  case alt r s hr hs => exact (hr h.left).alt (hs h.right)
  case rep r min max hr =>
    refine (hr h).rep (fun x hx w hw => ?_) min max
    by_cases hi : i ∈ r.groups
    case pos => simp [Pos.clear, hi] at hw
    case neg => exact hx w (by simpa [Pos.clear, hi] using hw)
  case group j r hr  =>
    by_cases hj : j = i
    case pos =>
      rw [Confines, if_pos hj] at h
      obtain ⟨q, min, max, rfl, hq⟩ := h
      refine .group fun caps w _ hall v hv a ha => hq a (hall a ?_)
      rw [hj, Function.update_self] at hv
      cases hv
      exact ha
    case neg =>
      rw [confines_group hj] at h
      refine (hr h).capture fun caps w hc v hv => hc v ?_
      rwa [Function.update_of_ne (Ne.symm hj)] at hv

theorem Confines.find {r : Nat → Regex σ} (h : ∀ n, (r n).Confines i p) {x : List σ} {z : Pos σ}
    (hz : find r x = some z) : Within i p z.caps :=
  Keeps.find (fun n => (h n).keeps) (fun _ hw => by cases hw) hz

theorem Confines.findAllLoop {r : Nat → Regex σ} (h : ∀ n, (r n).Confines i p) {n : Nat} {x : List σ}
    {y : Pos σ} (hy : y ∈ findAllLoop r n x) : Within i p y.caps := by
  induction n generalizing x
  case zero      => cases hy
  case succ n ih =>
    rw [Regex.findAllLoop] at hy
    split at hy
    case h_1      => cases hy
    case h_2 z hz =>
      cases List.mem_cons.mp hy
      case inl he => exact he ▸ Confines.find h hz
      case inr hy => exact ih hy

theorem Confines.findAll {r : Nat → Regex σ} (h : ∀ n, (r n).Confines i p) {x : List σ} {y : Pos σ}
    (hy : y ∈ findAll r x) : Within i p y.caps :=
  Confines.findAllLoop h hy

end Confines

end Regex
