import Mathlib.Data.List.Infix
import Server8.Lib.Regex

-- Lazy quantifiers, the search for a match in a text, and the replacement of all matches.

section Cut

variable {σ : Type} [DecidableEq σ] {sep u v x : List σ} {a : σ}

-- What is before the first occurrence of `sep`, and what is after it.
def cut (sep : List σ) : List σ → Option (List σ × List σ)
  | []     => if sep = [] then some ([], []) else none
  | a :: x =>
    if sep <+: a :: x then some ([], (a :: x).drop sep.length)
    else (cut sep x).map fun (u, v) => (a :: u, v)

theorem cut_start (h : sep <+: x) : cut sep x = some ([], x.drop sep.length) := by
  cases x
  case nil      => simp [cut, List.prefix_nil.mp h]
  case cons a x => simp [cut, h]

theorem cut_cons (h : ¬sep <+: a :: x) : cut sep (a :: x) = (cut sep x).map fun (u, v) => (a :: u, v) := by
  simp [cut, h]

-- Nothing that begins in `w` is an occurrence.
theorem cut_skip {w y : List σ} (h : ∀ s t, w = s ++ t → t ≠ [] → ¬sep <+: t ++ y) :
    cut sep (w ++ y) = (cut sep y).map fun (u, v) => (w ++ u, v) := by
  induction w
  case nil         => simp
  case cons a w ih =>
    have ha : ¬sep <+: a :: (w ++ y) := h [] (a :: w) rfl (List.cons_ne_nil a w)
    have hw := ih fun s t hs => h (a :: s) t (congrArg (a :: ·) hs)
    rw [List.cons_append, cut_cons ha, hw, Option.map_map]
    rfl

theorem eq_of_cut (h : cut sep x = some (u, v)) : x = u ++ sep ++ v := by
  induction x generalizing u
  case nil =>
    unfold cut at h
    split at h
    case isTrue hs => cases h; simp [hs]
    case isFalse   => cases h
  case cons a x ih =>
    by_cases hp : sep <+: a :: x
    case pos =>
      rw [cut_start hp] at h
      cases h
      exact (List.prefix_iff_eq_append.mp hp).symm
    case neg =>
      rw [cut_cons hp, Option.map_eq_some_iff] at h
      obtain ⟨⟨u', v'⟩, hc, he⟩ := h
      cases he
      simp [ih hc]

-- `sep` does not occur in what is before its first occurrence.
theorem cut_first (hs : sep ≠ []) (h : cut sep x = some (u, v)) : ¬sep <:+: u := by
  induction x generalizing u
  case nil         =>
    rw [cut, if_neg hs] at h
    cases h
  case cons a x ih =>
    by_cases hp : sep <+: a :: x
    case pos =>
      rw [cut_start hp] at h
      cases h
      exact fun hi => hs (List.infix_nil.mp hi)
    case neg =>
      have hx := eq_of_cut h
      rw [cut_cons hp, Option.map_eq_some_iff] at h
      obtain ⟨w, hc, he⟩ := h
      cases he
      intro hi
      cases List.infix_cons_iff.mp hi
      case inl hq =>
        apply hp
        rw [hx, List.append_assoc]
        exact hq.trans (List.prefix_append ..)
      case inr hi => exact ih hc hi

theorem cut_eq_none : cut sep x = none ↔ ¬sep <:+: x := by
  constructor
  case mp =>
    rintro h ⟨u, v, rfl⟩
    induction u
    case nil         => rw [List.nil_append, cut_start (List.prefix_append ..)] at h; cases h
    case cons a u ih =>
      by_cases hp : sep <+: a :: (u ++ sep ++ v)
      case pos =>
        rw [List.cons_append, List.cons_append, cut_start hp] at h
        cases h
      case neg =>
        rw [List.cons_append, List.cons_append, cut_cons hp, Option.map_eq_none_iff] at h
        exact ih h
  case mpr =>
    intro h
    cases hc : cut sep x
    case none   => rfl
    case some w => exact absurd ⟨w.1, w.2, (eq_of_cut (u := w.1) (v := w.2) hc).symm⟩ h

-- An occurrence stays the first one if the text goes on.
theorem cut_append (h : cut sep x = some (u, v)) (y : List σ) : cut sep (x ++ y) = some (u, v ++ y) := by
  induction x generalizing u
  case nil =>
    unfold cut at h
    split at h
    case isFalse   => cases h
    case isTrue hs =>
      cases h
      rw [hs, cut_start List.nil_prefix]
      rfl
  case cons a x ih =>
    by_cases hp : sep <+: a :: x
    case pos =>
      rw [cut_start hp] at h
      cases h
      rw [cut_start (hp.trans (List.prefix_append _ y)), List.drop_append_of_le_length hp.length_le]
    case neg =>
      have hx := eq_of_cut h
      have hlength : sep.length ≤ (a :: x).length := by
        rw [hx]
        simp only [List.length_append]
        omega
      have hp' : ¬sep <+: a :: (x ++ y) := fun hq =>
        hp (List.prefix_of_prefix_length_le hq (List.prefix_append (a :: x) y) hlength)
      rw [cut_cons hp, Option.map_eq_some_iff] at h
      obtain ⟨w, hc, he⟩ := h
      cases he
      rw [List.cons_append, cut_cons hp', ih hc]
      rfl

end Cut

namespace Regex

variable {σ : Type}

-- `r*?` with at most `n` rounds: to stop is tried before one round more.
def lazyStar (r : Regex σ) : Nat → Regex σ
  | 0     => empty
  | n + 1 => alt empty (seq r (lazyStar r n))

-- A match at the beginning of the text. The lazy quantifiers get the length of the text as their bound.
def matchAt (r : Nat → Regex σ) (x : List σ) : Option (Pos σ) :=
  (r x.length).run (.start x) some

def search (r : Nat → Regex σ) (x : List σ) : Bool :=
  x.tails.any fun y => (matchAt r y).isSome

-- All matches from left to right, each as far left as can be, for an expression that does not match
-- the empty text: what is replaced with `f` of the match, in a text of at most `n` characters.
def replaceLoop (r : Nat → Regex σ) (f : Pos σ → List σ) : Nat → List σ → List σ
  | 0, x     => x
  | n + 1, x =>
    match matchAt r x with
    | some y => f y ++ replaceLoop r f n y.rest
    | none   =>
      match x with
      | []     => []
      | a :: x => a :: replaceLoop r f n x

def replace (r : Nat → Regex σ) (f : Pos σ → List σ) (x : List σ) : List σ :=
  replaceLoop r f x.length x

theorem search_iff {r : Nat → Regex σ} {x : List σ} :
    search r x = true ↔ ∃ u v, x = u ++ v ∧ (matchAt r v).isSome := by
  simp only [search, List.any_eq_true, List.mem_tails]
  constructor
  case mp  =>
    intro ⟨v, ⟨u, hu⟩, hv⟩
    exact ⟨u, v, hu.symm, hv⟩
  case mpr =>
    intro ⟨u, v, hx, hv⟩
    exact ⟨v, ⟨u, hx.symm⟩, hv⟩

section Replace

variable {r : Nat → Regex σ} {f : Pos σ → List σ} {x : List σ} {y : Pos σ} {a : σ}

-- Every match takes something of the text.
def Proper (r : Nat → Regex σ) : Prop :=
  ∀ {x : List σ} {y : Pos σ}, matchAt r x = some y → y.rest.length < x.length

theorem Proper.replaceLoop_nil (h : Proper r) (n : Nat) : replaceLoop r f n [] = [] := by
  cases n
  case zero   => rfl
  case succ n =>
    cases hx : matchAt r ([] : List σ)
    case none   => rw [replaceLoop, hx]
    case some y => exact absurd (h hx) (Nat.not_lt_zero _)

theorem Proper.replaceLoop_eq (h : Proper r) {n m : Nat} (hn : x.length ≤ n) (hm : x.length ≤ m) :
    replaceLoop r f n x = replaceLoop r f m x := by
  induction n generalizing x m
  case zero =>
    cases List.length_eq_zero_iff.mp (Nat.le_zero.mp hn)
    rw [h.replaceLoop_nil, h.replaceLoop_nil]
  case succ n ih =>
    cases m
    case zero =>
      cases List.length_eq_zero_iff.mp (Nat.le_zero.mp hm)
      rw [h.replaceLoop_nil, h.replaceLoop_nil]
    case succ m =>
      unfold replaceLoop
      cases hx : matchAt r x
      case some y =>
        have hlt := h hx
        dsimp only
        rw [ih (Nat.le_of_lt_succ (Nat.lt_of_lt_of_le hlt hn)) (Nat.le_of_lt_succ (Nat.lt_of_lt_of_le hlt hm))]
      case none =>
        cases x
        case nil      => rfl
        case cons a x =>
          dsimp only
          rw [ih (Nat.le_of_succ_le_succ hn) (Nat.le_of_succ_le_succ hm)]

theorem Proper.replace_of_some (h : Proper r) (hm : matchAt r x = some y) :
    replace r f x = f y ++ replace r f y.rest := by
  cases x
  case nil      => exact absurd (h hm) (Nat.not_lt_zero _)
  case cons a x =>
    rw [replace, List.length_cons, replaceLoop, hm]
    dsimp only
    rw [replace, h.replaceLoop_eq (Nat.le_of_lt_succ (h hm)) (Nat.le_refl _)]

theorem replace_of_none (hm : matchAt r (a :: x) = none) :
    replace r f (a :: x) = a :: replace r f x := by
  rw [replace, List.length_cons, replaceLoop, hm, replace]

theorem replace_nil : replace r f [] = [] :=
  rfl

-- Nothing is replaced that begins in `w`.
theorem replace_skip {w : List σ} (h : ∀ s t, w = s ++ t → t ≠ [] → matchAt r (t ++ x) = none) :
    replace r f (w ++ x) = w ++ replace r f x := by
  induction w
  case nil         => rfl
  case cons a w ih =>
    have ha : matchAt r (a :: (w ++ x)) = none := h [] (a :: w) rfl (List.cons_ne_nil a w)
    have hw := ih fun s t hs => h (a :: s) t (congrArg (a :: ·) hs)
    rw [List.cons_append, replace_of_none ha, hw, List.cons_append]

end Replace

section Existence

variable {p : σ → Bool} {c : Cont σ} {caps : Nat → Option (List σ)}

-- There is a match if the text can be cut somehow.

theorem run_cls_isSome {x : List σ} :
    ((cls p).run ⟨x, caps⟩ c).isSome ↔ ∃ a rest, x = a :: rest ∧ p a = true ∧ (c ⟨rest, caps⟩).isSome := by
  cases x
  case nil         => simp
  case cons a rest => by_cases hp : p a <;> simp [hp]

theorem run_lazyStar_isSome {n : Nat} {x : List σ} :
    ((lazyStar (cls p) n).run ⟨x, caps⟩ c).isSome ↔
      ∃ u rest, x = u ++ rest ∧ u.length ≤ n ∧ (∀ a ∈ u, p a = true) ∧ (c ⟨rest, caps⟩).isSome := by
  induction n generalizing x
  case zero =>
    constructor
    case mp  => exact fun h => ⟨[], x, rfl, Nat.le_refl 0, nofun, h⟩
    case mpr =>
      rintro ⟨u, rest, rfl, hu, _, hc⟩
      rw [List.length_eq_zero_iff.mp (Nat.le_zero.mp hu)]
      exact hc
  case succ n ih =>
    rw [lazyStar, run_alt, run_seq, Option.isSome_or, Bool.or_eq_true, run_cls_isSome]
    constructor
    case mp =>
      rintro (h | ⟨a, rest, rfl, hp, h⟩)
      case inl => exact ⟨[], x, rfl, Nat.zero_le _, nofun, h⟩
      case inr =>
        obtain ⟨u, rest, rfl, hu, ha, hc⟩ := ih.mp h
        exact ⟨a :: u, rest, rfl, Nat.succ_le_succ hu, List.forall_mem_cons.mpr ⟨hp, ha⟩, hc⟩
    case mpr =>
      rintro ⟨u, rest, rfl, hu, ha, hc⟩
      cases u
      case nil      => exact .inl hc
      case cons a u =>
        obtain ⟨hp, ha⟩ := List.forall_mem_cons.mp ha
        exact .inr ⟨a, u ++ rest, rfl, hp, ih.mpr ⟨u, rest, rfl, Nat.le_of_succ_le_succ hu, ha, hc⟩⟩

end Existence

-- `p+` takes all it can, if giving one back cannot help.
theorem run_plus {p : σ → Bool} {c : Cont σ} (hc : ∀ a rest caps, p a → c ⟨a :: rest, caps⟩ = none)
    (x : List σ) (caps : Nat → Option (List σ)) :
    (rep (cls p) 1 none).run ⟨x, caps⟩ c =
      if x.takeWhile p = [] then none else c ⟨x.dropWhile p, caps⟩ := by
  have hle : (x.takeWhile p).length ≤ 1 + x.length :=
    Nat.le_trans (List.takeWhile_prefix p).length_le (Nat.le_add_left ..)
  rw [run_rep, Option.getD_none, groups, Reads.repeatMatcher_greedy p hc (Nat.le_add_right ..)]
  by_cases hx : x.takeWhile p = []
  case pos => simp [hx]
  case neg =>
    have hpos : 1 ≤ (x.takeWhile p).length := List.length_pos_of_ne_nil hx
    rw [if_pos ⟨hpos, hle⟩, if_neg hx]

section Lazy

variable [DecidableEq σ]

theorem run_lit (sep x : List σ) (caps : Nat → Option (List σ)) (c : Cont σ) :
    (lit sep).run ⟨x, caps⟩ c = if sep <+: x then c ⟨x.drop sep.length, caps⟩ else none := by
  induction sep generalizing x
  case nil           => simp [lit, run]
  case cons a sep ih =>
    cases x
    case nil      => simp [lit, run_seq]
    case cons b x =>
      rw [lit, run_seq, run_cls_cons, ih]
      by_cases h : b = a
      case pos => simp [h]
      case neg => simp [h, Ne.symm h]

-- `(.*?)` in front of a literal takes what is before the first occurrence of it.
theorem run_lazyStar_lit {sep : List σ} (i : Nat) (x : Pos σ) {n : Nat} {w y : List σ}
    (hx : x.rest = w ++ y) (hn : y.length ≤ n) :
    (lazyStar (cls fun _ => true) n).run ⟨y, x.caps⟩ (fun z => (lit sep).run (z.capture x i) some) =
      (cut sep y).map fun (u, v) => ⟨v, Function.update x.caps i (some (w ++ u))⟩ := by
  have hc : ∀ {w y : List σ}, x.rest = w ++ y → (lit sep).run ((⟨y, x.caps⟩ : Pos σ).capture x i) some =
      if sep <+: y then some ⟨y.drop sep.length, Function.update x.caps i (some w)⟩ else none := by
    intro w y hx
    rw [Pos.capture_append w hx]
    exact run_lit sep y _ some
  induction n generalizing w y
  case zero =>
    cases List.length_eq_zero_iff.mp (Nat.le_zero.mp hn)
    rw [lazyStar, run, hc hx]
    by_cases hs : sep = []
    case pos => simp [hs, cut]
    case neg => simp [hs, cut]
  case succ n ih =>
    rw [lazyStar, run_alt, run, hc hx, run_seq]
    by_cases hs : sep <+: y
    case pos => simp only [if_pos hs, Option.some_or, cut_start hs, Option.map_some, List.append_nil]
    case neg =>
      rw [if_neg hs, Option.none_or]
      cases y
      case nil      =>
        have hne : sep ≠ [] := fun he => hs (he ▸ List.nil_prefix)
        simp [hne, cut]
      case cons a y =>
        have hx' : x.rest = (w ++ [a]) ++ y := by rw [hx, List.append_assoc, List.singleton_append]
        rw [run_cls_cons, if_pos rfl, ih hx' (Nat.le_of_succ_le_succ hn), cut_cons hs, Option.map_map]
        congr 1
        funext z
        simp only [Function.comp_apply, List.append_assoc, List.singleton_append]

end Lazy

end Regex
