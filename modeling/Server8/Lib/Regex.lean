import Mathlib.Data.List.Basic
import Mathlib.Data.List.TakeWhile
import Mathlib.Logic.Function.Basic

-- Regular expressions with capture groups and greedy quantifiers, under the backtracking semantics
-- of ECMAScript: a matcher gets a position and a continuation, tries its alternatives in order, and
-- the first one whose continuation succeeds decides the match.

inductive Regex (σ : Type)
  | empty
  | cls   (p : σ → Bool)
  | seq   (r s : Regex σ)
  | alt   (r s : Regex σ)
  | rep   (r : Regex σ) (min : Nat) (max : Option Nat)
  | group (i : Nat) (r : Regex σ)

namespace Regex

variable {σ : Type}

@[ext]
structure Pos (σ : Type) where
  rest : List σ
  caps : Nat → Option (List σ)

abbrev Cont (σ : Type) := Pos σ → Option (Pos σ)

abbrev Matcher (σ : Type) := Pos σ → Cont σ → Option (Pos σ)

namespace Pos

def start (input : List σ) : Pos σ where
  rest := input
  caps := fun _ => none

def set (x : Pos σ) (i : Nat) (w : List σ) : Pos σ :=
  { x with caps := Function.update x.caps i (some w) }

-- The text between the positions `x` and `y` is what a group that was entered at `x` captures.
def capture (y x : Pos σ) (i : Nat) : Pos σ :=
  y.set i (x.rest.take (x.rest.length - y.rest.length))

def clear (x : Pos σ) (is : List Nat) : Pos σ :=
  { x with caps := fun i => if i ∈ is then none else x.caps i }

@[simp]
theorem set_rest (x : Pos σ) (i : Nat) (w : List σ) : (x.set i w).rest = x.rest :=
  rfl

@[simp]
theorem capture_rest (x y : Pos σ) (i : Nat) : (y.capture x i).rest = y.rest :=
  rfl

@[simp]
theorem clear_rest (x : Pos σ) (is : List Nat) : (x.clear is).rest = x.rest :=
  rfl

@[simp]
theorem clear_nil (x : Pos σ) : x.clear [] = x := by
  simp [clear]

theorem capture_append {x y : Pos σ} (u : List σ) (h : x.rest = u ++ y.rest) (i : Nat) :
    y.capture x i = y.set i u := by
  simp [capture, h]

end Pos

def groups : Regex σ → List Nat
  | empty | cls _      => []
  | seq r s | alt r s  => r.groups ++ s.groups
  | rep r _ _          => r.groups
  | group i r          => i :: r.groups

-- `RepeatMatcher` of the ECMAScript standard for a greedy quantifier. A round that is not required
-- anymore (`min = 0`) and matches the empty text fails, and each round forgets the groups in `r`.
def repeatMatcher (m : Matcher σ) (gs : List Nat) : Nat → Nat → Matcher σ
  | 0, _, x, c => c x
  | max + 1, min, x, c =>
    let d : Cont σ := fun y =>
      if min = 0 ∧ y.rest.length = x.rest.length then none
      else repeatMatcher m gs max (min - 1) y c
    if min = 0 then (m (x.clear gs) d).or (c x) else m (x.clear gs) d

-- An unbounded quantifier makes at most `min` rounds on the empty text, so `min + x.rest.length`
-- rounds are as good as any number of them.
def run : Regex σ → Matcher σ
  | empty, x, c => c x
  | cls p, x, c =>
    match x.rest with
    | []        => none
    | a :: rest => if p a then c { x with rest } else none
  | seq r s, x, c         => r.run x fun y => s.run y c
  | alt r s, x, c         => (r.run x c).or (s.run x c)
  | rep r min max, x, c   => repeatMatcher r.run r.groups (max.getD (min + x.rest.length)) min x c
  | group i r, x, c       => r.run x fun y => c (y.capture x i)

-- A match of the whole input.
def fullMatch (r : Regex σ) (input : List σ) : Option (Pos σ) :=
  r.run (.start input) fun y => if y.rest.isEmpty then some y else none

def lit [BEq σ] : List σ → Regex σ
  | []     => empty
  | a :: w => seq (cls (· == a)) (lit w)

abbrev opt (r : Regex σ) : Regex σ :=
  rep r 0 (some 1)

abbrev star (r : Regex σ) : Regex σ :=
  rep r 0 none

section Equations

variable {p : σ → Bool} {caps : Nat → Option (List σ)} {c : Cont σ}

@[simp]
theorem run_cls_nil : (cls p).run ⟨[], caps⟩ c = none :=
  rfl

@[simp]
theorem run_cls_cons {a : σ} {rest : List σ} :
    (cls p).run ⟨a :: rest, caps⟩ c = if p a then c ⟨rest, caps⟩ else none :=
  rfl

theorem run_seq {r s : Regex σ} {x : Pos σ} : (seq r s).run x c = r.run x fun y => s.run y c :=
  rfl

theorem run_alt {r s : Regex σ} {x : Pos σ} : (alt r s).run x c = (r.run x c).or (s.run x c) :=
  rfl

theorem run_group {r : Regex σ} {i : Nat} {x : Pos σ} :
    (group i r).run x c = r.run x fun y => c (y.capture x i) :=
  rfl

theorem run_rep {r : Regex σ} {min : Nat} {max : Option Nat} {x : Pos σ} :
    (rep r min max).run x c =
      repeatMatcher r.run r.groups (max.getD (min + x.rest.length)) min x c :=
  rfl

end Equations

-- Some expressions need no backtracking: they read the input in one way only.
-- `Reads r d` says that the matcher of `r` is the deterministic reader `d`, whatever follows.
def Reads (r : Regex σ) (d : Pos σ → Option (Pos σ)) : Prop :=
  ∀ x c, r.run x c = (d x).bind c

namespace Reads

variable {r s : Regex σ} {d e : Pos σ → Option (Pos σ)}

def readCls (p : σ → Bool) : Pos σ → Option (Pos σ)
  | ⟨[], _⟩           => none
  | ⟨a :: rest, caps⟩ => if p a then some ⟨rest, caps⟩ else none

theorem cls (p : σ → Bool) : Reads (.cls p) (readCls p)
  | ⟨[], _⟩, _           => rfl
  | ⟨a :: rest, caps⟩, c => by by_cases hp : p a <;> simp [readCls, hp]

theorem seq (hr : Reads r d) (hs : Reads s e) : Reads (.seq r s) (fun x => (d x).bind e) := by
  intro x c
  rw [run_seq, hr x, Option.bind_assoc]
  congr
  funext y
  exact hs y c

theorem group (hr : Reads r d) (i : Nat) :
    Reads (.group i r) (fun x => (d x).map (·.capture x i)) := by
  intro x c
  simp only [run_group, hr x, Option.bind_map]
  rfl

def readLit [BEq σ] (w : List σ) (x : Pos σ) : Option (Pos σ) :=
  (w.isPrefixOf? x.rest).map fun rest => ⟨rest, x.caps⟩

theorem lit [BEq σ] [LawfulBEq σ] (w : List σ) : Reads (lit w) (readLit w) := by
  induction w
  case nil => exact fun ⟨_, _⟩ _ => rfl
  case cons a w ih =>
    intro ⟨rest, caps⟩ c
    cases rest
    case nil         => rfl
    case cons b rest =>
      rw [Regex.lit, run_seq, run_cls_cons, ih]
      by_cases hb : b = a
      case pos => simp [readLit, hb, List.isPrefixOf?]
      case neg => simp [readLit, hb, Ne.symm hb, List.isPrefixOf?]

-- A quantifier with a fixed number of rounds over a class.
def readExact (p : σ → Bool) (n : Nat) (x : Pos σ) : Option (Pos σ) :=
  if n ≤ x.rest.length ∧ (x.rest.take n).all p then some ⟨x.rest.drop n, x.caps⟩ else none

theorem exact (p : σ → Bool) (n : Nat) : Reads (.rep (.cls p) n (some n)) (readExact p n) := by
  intro ⟨rest, caps⟩ c
  simp only [run_rep, groups, Option.getD_some]
  induction n generalizing rest
  case zero      => simp [repeatMatcher, readExact]
  case succ n ih =>
    cases rest
    case nil         => simp [repeatMatcher, readExact]
    case cons a rest =>
      by_cases hp : p a
      case pos => simp [repeatMatcher, hp, ih, readExact]
      case neg => simp [repeatMatcher, hp, readExact]

-- A greedy quantifier over `p` whose continuation fails on the characters of `p` takes all of them
-- or fails: giving one back cannot help.
theorem repeatMatcher_greedy (p : σ → Bool) {c : Cont σ}
    (hc : ∀ a rest caps, p a → c ⟨a :: rest, caps⟩ = none) {m n : Nat} (hm : m ≤ n)
    (rest : List σ) (caps : Nat → Option (List σ)) :
    repeatMatcher (run (.cls p)) [] n m ⟨rest, caps⟩ c =
      if m ≤ (rest.takeWhile p).length ∧ (rest.takeWhile p).length ≤ n
      then c ⟨rest.dropWhile p, caps⟩ else none := by
  induction n generalizing m rest
  case zero =>
    cases Nat.le_zero.mp hm
    cases rest
    case nil         => simp [repeatMatcher]
    case cons a rest => by_cases hp : p a <;> simp [repeatMatcher, hp, hc a rest caps]
  case succ n ih =>
    cases rest
    case nil         => cases m <;> simp [repeatMatcher]
    case cons a rest =>
      by_cases hp : p a <;> cases m
      case pos.zero   => simp [repeatMatcher, hp, ih (Nat.zero_le n), hc a rest caps]
      case pos.succ m => simp [repeatMatcher, hp, ih (Nat.le_of_succ_le_succ hm)]
      case neg.zero   => simp [repeatMatcher, hp]
      case neg.succ m => simp [repeatMatcher, hp]

-- A captured field over `p` of `m` to `n` characters with its separator, a character of `q`.
def readField (p q : σ → Bool) (m n i : Nat) (x : Pos σ) : Option (Pos σ) :=
  let w := x.rest.takeWhile p
  if m ≤ w.length ∧ w.length ≤ n
  then readCls q ⟨x.rest.dropWhile p, (x.set i w).caps⟩ else none

theorem field {p q : σ → Bool} (hpq : ∀ a, p a → q a = false) {m n : Nat} (hm : m ≤ n) (i : Nat) :
    Reads (.seq (.group i (.rep (.cls p) m (some n))) (.cls q)) (readField p q m n i) := by
  intro ⟨rest, caps⟩ c
  simp only [run_seq, run_group, run_rep, groups, Option.getD_some]
  rw [repeatMatcher_greedy p _ hm]
  · have hx : rest = rest.takeWhile p ++ rest.dropWhile p := List.takeWhile_append_dropWhile.symm
    rw [Pos.capture_append _ hx]
    split
    case isTrue h  => simp [readField, h, ← cls q _ c, Pos.set]
    case isFalse h => simp [readField, h]
  · intro a rest caps hp
    simp [Pos.capture, Pos.set, hpq a hp]

end Reads

-- A reader that consumes a prefix of the input, beginning with a character of `p`, and does not
-- look beyond that prefix.
def Consumes (p : σ → Bool) (d : Pos σ → Option (Pos σ)) : Prop :=
  ∀ x y, d x = some y → ∃ u, (∃ a ∈ u.head?, p a) ∧ x.rest = u ++ y.rest ∧
    ∀ v, d ⟨u ++ v, x.caps⟩ = some ⟨v, y.caps⟩

namespace Consumes

open Reads

variable {p q : σ → Bool} {d e : Pos σ → Option (Pos σ)}

theorem mono (h : Consumes p d) (hpq : ∀ a, p a → q a) : Consumes q d := by
  intro x y hd
  have ⟨u, ⟨a, ha, hp⟩, hu⟩ := h x y hd
  exact ⟨u, ⟨a, ha, hpq a hp⟩, hu⟩

theorem first (h : Consumes p d) {x y : Pos σ} (hd : d x = some y) : ∃ a ∈ x.rest.head?, p a := by
  have ⟨u, ⟨a, ha, hp⟩, hu, _⟩ := h x y hd
  exact ⟨a, by simp_all, hp⟩

theorem length_lt (h : Consumes p d) {x y : Pos σ} (hd : d x = some y) :
    y.rest.length < x.rest.length := by
  have ⟨u, ⟨a, ha, _⟩, hu, _⟩ := h x y hd
  cases u
  case nil      => cases ha
  case cons b u =>
    rw [hu, List.length_append, List.length_cons]
    omega

theorem cls (p : σ → Bool) : Consumes p (readCls p) := by
  intro ⟨rest, caps⟩ y hd
  cases rest
  case nil         => simp [readCls] at hd
  case cons a rest =>
    by_cases hp : p a <;> simp [readCls, hp] at hd
    subst hd
    exact ⟨[a], ⟨a, rfl, hp⟩, rfl, fun v => by simp [readCls, hp]⟩

theorem seq (hd : Consumes p d) (he : Consumes q e) : Consumes p (fun x => (d x).bind e) := by
  intro x z h
  have ⟨y, hy, hz⟩ := Option.bind_eq_some_iff.mp h
  have ⟨u, ⟨a, ha, hp⟩, hu, hv⟩ := hd x y hy
  have ⟨w, _, hw, hv'⟩ := he y z hz
  refine ⟨u ++ w, ⟨a, by simp_all, hp⟩, by simp [hu, hw], fun v => ?_⟩
  simp [hv, hv']

theorem group (hd : Consumes p d) (i : Nat) :
    Consumes p (fun x => (d x).map (·.capture x i)) := by
  intro x z h
  have ⟨y, hy, hz⟩ := Option.map_eq_some_iff.mp h
  have ⟨u, ha, hu, hv⟩ := hd x y hy
  subst hz
  refine ⟨u, ha, hu, fun v => ?_⟩
  simp only [hv v, Option.map_some]
  rw [Pos.capture_append u rfl, Pos.capture_append u hu]
  rfl

theorem lit [BEq σ] [LawfulBEq σ] (a : σ) (w : List σ) : Consumes (· == a) (readLit (a :: w)) := by
  intro ⟨rest, caps⟩ y hd
  have ⟨t, ht, hy⟩ := Option.map_eq_some_iff.mp hd
  subst hy
  refine ⟨a :: w, ⟨a, rfl, beq_self_eq_true a⟩, ?_, fun v => ?_⟩
  · exact (List.isPrefixOf?_eq_some_iff_append_eq.mp ht).symm
  · rw [readLit, List.isPrefixOf?_eq_some_iff_append_eq.mpr rfl]
    rfl

theorem exact (p : σ → Bool) (n : Nat) : Consumes (fun _ => true) (readExact p (n + 1)) := by
  intro ⟨rest, caps⟩ y hd
  simp only [readExact, Option.ite_none_right_eq_some] at hd
  have ⟨⟨hl, hp⟩, hy⟩ := hd
  cases rest
  case nil         => simp at hl
  case cons a rest =>
    cases hy
    have hn : n ≤ rest.length := by simpa using hl
    refine ⟨a :: rest.take n, ⟨a, rfl, rfl⟩, by simp, fun v => ?_⟩
    simp_all [readExact]

theorem field {p q : σ → Bool} (hpq : ∀ a, p a → q a = false) (m n i : Nat) :
    Consumes (fun _ => true) (readField p q m n i) := by
  intro ⟨rest, caps⟩ y hd
  simp only [readField, Option.ite_none_right_eq_some] at hd
  have ⟨hw, hd⟩ := hd
  cases hr : rest.dropWhile p
  case nil       => simp [hr, readCls] at hd
  case cons b rs =>
    by_cases hb : q b <;> simp [hr, readCls, hb] at hd
    have hpb : p b = false := by
      cases h : p b
      case false => rfl
      case true  => exact absurd (hpq b h) (by simp [hb])
    have hall : ∀ a ∈ rest.takeWhile p, p a := fun a => List.mem_takeWhile_imp
    subst hd
    refine ⟨rest.takeWhile p ++ [b], ?_, ?_, fun v => ?_⟩
    · cases rest.takeWhile p <;> simp
    · simp [← hr]
    · simp [readField, readCls, Pos.set, List.takeWhile_append_of_pos hall,
        List.dropWhile_append_of_pos hall, hpb, hb, hw]

end Consumes

-- An optional part in front of `s` needs no backtracking if the two begin with different characters.
def readOpt (gs : List Nat) (d e : Pos σ → Option (Pos σ)) (x : Pos σ) : Option (Pos σ) :=
  match d (x.clear gs) with
  | some y => e y
  | none   => e x

section Optional

variable {p q : σ → Bool} {d e : Pos σ → Option (Pos σ)} {r s : Regex σ}

theorem readOpt_of_none {gs : List Nat} {x : Pos σ} (h : d (x.clear gs) = none) :
    readOpt gs d e x = e x := by
  simp [readOpt, h]

theorem readOpt_of_some {gs : List Nat} {x y : Pos σ} (h : d (x.clear gs) = some y) :
    readOpt gs d e x = e y := by
  simp [readOpt, h]

-- Where the optional part begins, what follows it does not.
theorem Consumes.exclusive (hd : Consumes p d) (he : Consumes q e) (hpq : ∀ a, p a → q a = false)
    {x y : Pos σ} (h : d x = some y) (x' : Pos σ) (hx : x'.rest = x.rest) : e x' = none := by
  have ⟨a, ha, hp⟩ := hd.first h
  cases h' : e x'
  case none   => rfl
  case some z =>
    have ⟨b, hb, hq⟩ := he.first h'
    cases Option.mem_unique ha (hx ▸ hb)
    simp [hpq a hp] at hq

theorem Reads.opt (hr : Reads r d) (hs : Reads s e) (hd : Consumes p d) (he : Consumes q e)
    (hpq : ∀ a, p a → q a = false) : Reads (.seq (.opt r) s) (readOpt r.groups d e) := by
  intro x c
  simp only [run_seq, run_rep, Option.getD_some, repeatMatcher, hr (x.clear r.groups), hs x c]
  cases h : d (x.clear r.groups)
  case none   => simp [readOpt_of_none h]
  case some y =>
    have hl : y.rest.length ≠ x.rest.length := Nat.ne_of_lt (by simpa using hd.length_lt h)
    have hx := hd.exclusive he hpq h x rfl
    simp [readOpt_of_some h, hx, hs y c, hl]

theorem Consumes.opt {gs : List Nat} (hd : Consumes p d) (he : Consumes q e)
    (hpq : ∀ a, p a → q a = false) : Consumes (fun a => p a || q a) (readOpt gs d e) := by
  intro x z hz
  cases h : d (x.clear gs)
  case none =>
    rw [readOpt_of_none h] at hz
    have ⟨u, ⟨a, ha, hq⟩, hu, hv⟩ := he x z hz
    refine ⟨u, ⟨a, ha, by simp [hq]⟩, hu, fun v => ?_⟩
    cases h' : d (Pos.clear ⟨u ++ v, x.caps⟩ gs)
    case none   => rw [readOpt_of_none h', hv]
    case some y => simpa [hv] using hd.exclusive he hpq h' ⟨u ++ v, x.caps⟩ rfl
  case some y =>
    rw [readOpt_of_some h] at hz
    have ⟨u, ⟨a, ha, hp⟩, hu, hv⟩ := hd _ y h
    have ⟨w, _, hw, hv'⟩ := he y z hz
    refine ⟨u ++ w, ⟨a, by simp_all, by simp [hp]⟩, by simp_all, fun v => ?_⟩
    have h' : d (Pos.clear ⟨u ++ w ++ v, x.caps⟩ gs) = some ⟨w ++ v, y.caps⟩ := by
      simpa [Pos.clear] using hv (w ++ v)
    rw [readOpt_of_some h', hv' v]

end Optional

-- The groups outside `gs` keep their text.
def Frames (gs : List Nat) (d : Pos σ → Option (Pos σ)) : Prop :=
  ∀ x y, d x = some y → ∀ i, i ∉ gs → y.caps i = x.caps i

namespace Frames

open Reads

variable {gs hs : List Nat} {d e : Pos σ → Option (Pos σ)}

theorem cls (p : σ → Bool) : Frames [] (readCls p) := by
  intro ⟨rest, caps⟩ y hd i _
  cases rest
  case nil         => simp [readCls] at hd
  case cons a rest =>
    simp only [readCls, Option.ite_none_right_eq_some] at hd
    cases hd.right
    rfl

theorem lit [BEq σ] (w : List σ) : Frames [] (readLit w) := by
  intro x y hd i _
  have ⟨_, _, hy⟩ := Option.map_eq_some_iff.mp hd
  subst hy
  rfl

theorem exact (p : σ → Bool) (n : Nat) : Frames [] (readExact p n) := by
  intro x y hd i _
  simp only [readExact, Option.ite_none_right_eq_some] at hd
  cases hd.right
  rfl

theorem field (p q : σ → Bool) (m n i : Nat) : Frames [i] (readField p q m n i) := by
  intro x y hd j hj
  simp only [readField, Option.ite_none_right_eq_some] at hd
  have hc := cls q _ y hd.right j List.not_mem_nil
  simp_all [Pos.set]

theorem seq (hd : Frames gs d) (he : Frames hs e) : Frames (gs ++ hs) (fun x => (d x).bind e) := by
  intro x z h i hi
  have ⟨y, hy, hz⟩ := Option.bind_eq_some_iff.mp h
  simp only [List.mem_append, not_or] at hi
  rw [he y z hz i hi.right, hd x y hy i hi.left]

theorem group (hd : Frames gs d) (i : Nat) : Frames (i :: gs) (fun x => (d x).map (·.capture x i)) := by
  intro x z h j hj
  have ⟨y, hy, hz⟩ := Option.map_eq_some_iff.mp h
  simp only [List.mem_cons, not_or] at hj
  subst hz
  simp [Pos.capture, Pos.set, hj.left, hd x y hy j hj.right]

theorem opt (hd : Frames gs d) (he : Frames hs e) : Frames (gs ++ hs) (readOpt gs d e) := by
  intro x z h i hi
  simp only [List.mem_append, not_or] at hi
  cases h' : d (x.clear gs)
  case none =>
    rw [readOpt_of_none h'] at h
    exact he x z h i hi.right
  case some y =>
    rw [readOpt_of_some h'] at h
    rw [he y z h i hi.right, hd _ y h' i hi.left]
    simp [Pos.clear, hi.left]

end Frames

-- A star over single characters that cover the whole alphabet matches whatever is left.
theorem repeatMatcher_full {p q : σ → Bool} (hpq : ∀ a, p a ∨ q a) (i : Nat) (rest : List σ)
    (caps : Nat → Option (List σ)) :
    ∃ y, repeatMatcher (run (.group i (.alt (.cls p) (.cls q)))) [i] rest.length 0 ⟨rest, caps⟩
        (fun y => if y.rest.isEmpty then some y else none) = some y ∧
      ∀ j, j ≠ i → y.caps j = caps j := by
  induction rest generalizing caps
  case nil => exact ⟨⟨[], caps⟩, rfl, fun _ _ => rfl⟩
  case cons a rest ih =>
    have ⟨y, hy, hc⟩ := ih (((⟨rest, caps⟩ : Pos σ).clear [i]).set i [a]).caps
    refine ⟨y, ?_, fun j hj => ?_⟩
    · have hs : (((⟨rest, caps⟩ : Pos σ).clear [i]).capture ((⟨a :: rest, caps⟩ : Pos σ).clear [i]) i)
          = ((⟨rest, caps⟩ : Pos σ).clear [i]).set i [a] := Pos.capture_append [a] rfl i
      simp only [Pos.clear] at hs
      cases hp : p a <;> have hq := hpq a <;>
        simp_all [repeatMatcher, run_group, run_alt, Pos.clear, Pos.set]
    · rw [hc j hj]
      simp [Pos.set, Pos.clear, hj]

-- An expression without backtracking in front of such a star decides the match of the whole input.
theorem Reads.fullMatch {r : Regex σ} {d : Pos σ → Option (Pos σ)} (hr : Reads r d)
    {p q : σ → Bool} (hpq : ∀ a, p a ∨ q a) (i : Nat) (input : List σ) :
    match d (.start input) with
    | none   => (Regex.seq r (star (.group i (.alt (.cls p) (.cls q))))).fullMatch input = none
    | some x => ∃ y, (Regex.seq r (star (.group i (.alt (.cls p) (.cls q))))).fullMatch input = some y ∧
        ∀ j, j ≠ i → y.caps j = x.caps j := by
  simp only [Regex.fullMatch, run_seq, hr (.start input)]
  split
  case _ h   => simp [h]
  case _ x h =>
    simp only [h, Option.bind_some, run_rep, Option.getD_none, Nat.zero_add]
    exact repeatMatcher_full hpq i x.rest x.caps

end Regex
