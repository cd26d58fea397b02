import Server8.Lib.Regex

-- What an expression matches, whatever the order in which a matcher tries its alternatives. An
-- expression that is read in one way only has one match at most.

namespace Regex

variable {σ : Type}

inductive Parses : Regex σ → Pos σ → Pos σ → Prop
  | empty {x : Pos σ} : Parses .empty x x
  | cls {p : σ → Bool} {a : σ} {rest : List σ} {caps : Nat → Option (List σ)} : p a →
      Parses (.cls p) ⟨a :: rest, caps⟩ ⟨rest, caps⟩
  | seq {r s : Regex σ} {x y z : Pos σ} : Parses r x y → Parses s y z → Parses (.seq r s) x z
  | left {r s : Regex σ} {x y : Pos σ} : Parses r x y → Parses (.alt r s) x y
  | right {r s : Regex σ} {x y : Pos σ} : Parses s x y → Parses (.alt r s) x y
  | done {r : Regex σ} {max : Option Nat} {x : Pos σ} : Parses (.rep r 0 max) x x
  | round {r : Regex σ} {min : Nat} {max : Option Nat} {x y z : Pos σ} : max ≠ some 0 →
      Parses r (x.clear r.groups) y → Parses (.rep r (min - 1) (max.map (· - 1))) y z →
      Parses (.rep r min max) x z
  | group {i : Nat} {r : Regex σ} {x y : Pos σ} : Parses r x y → Parses (.group i r) x (y.capture x i)

-- The matches of `r` are the results of the reader `d`.
def Decides (r : Regex σ) (d : Pos σ → Option (Pos σ)) : Prop :=
  ∀ x y, Parses r x y ↔ d x = some y

namespace Decides

open Reads

variable {r s : Regex σ} {d e : Pos σ → Option (Pos σ)} {p q : σ → Bool}

theorem existsUnique (h : Decides r d) {x y : Pos σ} (hd : d x = some y) : ∃! y, Parses r x y :=
  ⟨y, (h x y).mpr hd, fun z hz => Option.some.inj (((h x z).mp hz).symm.trans hd)⟩

theorem cls (p : σ → Bool) : Decides (.cls p) (readCls p) := by
  rintro ⟨rest, caps⟩ y
  constructor
  case mp =>
    intro h
    cases h
    case cls hp => simp [readCls, hp]
  case mpr =>
    intro h
    cases rest
    case nil         => cases h
    case cons a rest =>
      simp only [readCls, Option.ite_none_right_eq_some] at h
      cases h.right
      exact .cls h.left

theorem seq (hr : Decides r d) (hs : Decides s e) : Decides (.seq r s) (fun x => (d x).bind e) := by
  intro x z
  constructor
  case mp =>
    intro h
    cases h
    case seq y hy hz => exact Option.bind_eq_some_iff.mpr ⟨y, (hr x y).mp hy, (hs y z).mp hz⟩
  case mpr =>
    intro h
    have ⟨y, hy, hz⟩ := Option.bind_eq_some_iff.mp h
    exact .seq ((hr x y).mpr hy) ((hs y z).mpr hz)

theorem group (hr : Decides r d) (i : Nat) :
    Decides (.group i r) (fun x => (d x).map (·.capture x i)) := by
  intro x z
  constructor
  case mp =>
    intro h
    cases h
    case group y hy => exact Option.map_eq_some_iff.mpr ⟨y, (hr x y).mp hy, rfl⟩
  case mpr =>
    intro h
    obtain ⟨y, hy, rfl⟩ := Option.map_eq_some_iff.mp h
    exact .group ((hr x y).mpr hy)

theorem lit [BEq σ] [LawfulBEq σ] (w : List σ) : Decides (lit w) (readLit w) := by
  induction w
  case nil =>
    intro x y
    constructor
    case mp =>
      intro h
      cases h
      rfl
    case mpr =>
      intro h
      cases h
      exact .empty
  case cons a w ih =>
    have hr : readLit (a :: w) = fun x => (readCls (· == a) x).bind (readLit w) := by
      funext x
      obtain ⟨rest, caps⟩ := x
      cases rest
      case nil         => rfl
      case cons b rest =>
        by_cases hb : b = a
        case pos => simp [readLit, readCls, hb, List.isPrefixOf?]
        case neg => simp [readLit, readCls, hb, Ne.symm hb, List.isPrefixOf?]
    rw [hr, Regex.lit]
    exact (cls _).seq ih

-- Rounds over a class take as many characters of it as there are rounds.
theorem parses_rep_cls {m : Nat} {n : Nat} {x y : Pos σ} :
    Parses (.rep (.cls p) m (some n)) x y ↔
      ∃ w, x.rest = w ++ y.rest ∧ y.caps = x.caps ∧ (∀ a ∈ w, p a) ∧ m ≤ w.length ∧ w.length ≤ n := by
  induction n generalizing m x
  case zero =>
    constructor
    case mp =>
      intro h
      cases h
      case done           => exact ⟨[], rfl, rfl, List.forall_mem_nil _, Nat.le_refl _, Nat.le_refl _⟩
      case round hmax _ _ => exact absurd rfl hmax
    case mpr =>
      rintro ⟨w, hw, hc, _, hm, hn⟩
      cases List.eq_nil_of_length_eq_zero (Nat.le_zero.mp hn)
      cases Nat.le_zero.mp hm
      cases x
      cases y
      cases hw
      cases hc
      exact .done
  case succ n ih =>
    constructor
    case mp =>
      intro h
      cases h
      case done             => exact ⟨[], rfl, rfl, List.forall_mem_nil _, Nat.le_refl _, Nat.zero_le _⟩
      case round z _ hz hzy =>
        obtain ⟨rest, caps⟩ := x
        obtain ⟨w, hw, hc, hp, hm, hn⟩ := ih.mp hzy
        simp only [groups, Pos.clear_nil] at hz
        cases hz
        case cls a rest hpa =>
          refine ⟨a :: w, congrArg (a :: ·) hw, hc, ?_, by simp only [List.length_cons]; omega,
            Nat.succ_le_succ hn⟩
          exact List.forall_mem_cons.mpr ⟨hpa, hp⟩
    case mpr =>
      rintro ⟨w, hw, hc, hp, hm, hn⟩
      obtain ⟨rest, caps⟩ := x
      cases w
      case nil      =>
        cases Nat.le_zero.mp hm
        cases y
        cases hw
        cases hc
        exact .done
      case cons a w =>
        cases hw
        refine .round (y := ⟨w ++ y.rest, caps⟩) (by simp) ?_ (ih.mpr ⟨w, rfl, hc, ?_, ?_, ?_⟩)
        · simpa only [groups, Pos.clear_nil, List.cons_append] using .cls (hp a List.mem_cons_self)
        · exact fun b hb => hp b (List.mem_cons_of_mem _ hb)
        · exact Nat.sub_le_of_le_add hm
        · exact Nat.le_of_succ_le_succ hn

theorem exact (p : σ → Bool) (n : Nat) : Decides (.rep (.cls p) n (some n)) (readExact p n) := by
  intro x y
  rw [parses_rep_cls]
  simp only [readExact, Option.ite_none_right_eq_some, Option.some.injEq]
  constructor
  case mp =>
    rintro ⟨w, hw, hc, hp, hm, hn⟩
    cases Nat.le_antisymm hm hn
    refine ⟨⟨by simp [hw], by simpa [hw] using hp⟩, ?_⟩
    simp [hw, ← hc]
  case mpr =>
    rintro ⟨⟨hl, hp⟩, hy⟩
    refine ⟨x.rest.take n, ?_, hy ▸ rfl, List.all_eq_true.mp hp, ?_, ?_⟩
    · rw [← hy, List.take_append_drop]
    · rw [List.length_take]
      exact Nat.le_min.mpr ⟨Nat.le_refl _, hl⟩
    · exact List.length_take_le ..

theorem field (hpq : ∀ a, p a → q a = false) {m n : Nat} (i : Nat) :
    Decides (.seq (.group i (.rep (.cls p) m (some n))) (.cls q)) (readField p q m n i) := by
  intro x z
  constructor
  case mp =>
    intro h
    cases h
    case seq y hy hz =>
      cases hy
      case group y hy =>
        obtain ⟨w, hw, hc, hp, hm, hn⟩ := parses_rep_cls.mp hy
        rw [Pos.capture_append w hw] at hz
        obtain ⟨rest, caps⟩ := y
        cases hz
        case cls b rest hb =>
          have hpb : p b = false := by
            by_contra h
            simp [hpq b ((Bool.not_eq_false _).mp h)] at hb
          simp only [readField, hw, List.takeWhile_append_of_pos hp, List.dropWhile_append_of_pos hp]
          simp [readCls, hpb, hb, hm, hn, Pos.set, ← hc]
  case mpr =>
    intro h
    simp only [readField, Option.ite_none_right_eq_some] at h
    obtain ⟨⟨hm, hn⟩, hz⟩ := h
    have hx : x.rest = x.rest.takeWhile p ++ x.rest.dropWhile p := List.takeWhile_append_dropWhile.symm
    have hy : Parses (.rep (.cls p) m (some n)) x ⟨x.rest.dropWhile p, x.caps⟩ :=
      parses_rep_cls.mpr ⟨_, hx, rfl, fun _ => List.mem_takeWhile_imp, hm, hn⟩
    refine .seq (.group hy) ?_
    rw [Pos.capture_append _ hx]
    exact (cls q _ z).mpr hz

theorem opt (hr : Decides r d) (hs : Decides s e) (hd : Consumes p d) (he : Consumes q e)
    (hpq : ∀ a, p a → q a = false) : Decides (.seq (.opt r) s) (readOpt r.groups d e) := by
  intro x z
  constructor
  case mp =>
    intro h
    cases h
    case seq y hy hz =>
      have hz := (hs y z).mp hz
      cases hy
      case done               =>
        cases h : d (x.clear r.groups)
        case none   => exact readOpt_of_none h ▸ hz
        case some y => simp [hd.exclusive he hpq h x rfl] at hz
      case round y _ hy hdone =>
        cases hdone
        case done           => exact readOpt_of_some ((hr _ y).mp hy) ▸ hz
        case round hmax _ _ => exact absurd rfl hmax
  case mpr =>
    intro h
    cases hy : d (x.clear r.groups)
    case none   =>
      rw [readOpt_of_none hy] at h
      exact .seq .done ((hs x z).mpr h)
    case some y =>
      rw [readOpt_of_some hy] at h
      exact .seq (.round (by simp) ((hr _ y).mpr hy) .done) ((hs y z).mpr h)

end Decides

-- What a reader puts into the group `i` has the property `Q`.
def Captures (i : Nat) (Q : List σ → Prop) (d : Pos σ → Option (Pos σ)) : Prop :=
  ∀ x y, d x = some y → (∀ w ∈ x.caps i, Q w) → ∀ w ∈ y.caps i, Q w

-- A reader puts a text with the property `Q` into the group `i`.
def Sets (i : Nat) (Q : List σ → Prop) (d : Pos σ → Option (Pos σ)) : Prop :=
  ∀ x y, d x = some y → ∃ w, y.caps i = some w ∧ Q w

section Captures

open Reads

variable {i : Nat} {Q : List σ → Prop} {gs : List Nat} {d e : Pos σ → Option (Pos σ)} {p q : σ → Bool}

theorem Frames.captures (h : Frames gs d) (hi : i ∉ gs) : Captures i Q d := by
  intro x y hd hx
  rw [h x y hd i hi]
  exact hx

theorem Captures.seq (hd : Captures i Q d) (he : Captures i Q e) :
    Captures i Q (fun x => (d x).bind e) := by
  intro x z h hx
  have ⟨y, hy, hz⟩ := Option.bind_eq_some_iff.mp h
  exact he y z hz (hd x y hy hx)

theorem Captures.group (hd : Captures i Q d) {j : Nat} (hj : i ≠ j) :
    Captures i Q (fun x => (d x).map (·.capture x j)) := by
  intro x z h hx
  obtain ⟨y, hy, rfl⟩ := Option.map_eq_some_iff.mp h
  simp only [Pos.capture, Pos.set, Function.update_of_ne hj]
  exact hd x y hy hx

theorem Captures.opt (hd : Captures i Q d) (he : Captures i Q e) : Captures i Q (readOpt gs d e) := by
  intro x z h hx
  cases hy : d (x.clear gs)
  case none   => exact he x z ((readOpt_of_none hy).symm.trans h) hx
  case some y =>
    refine he y z ((readOpt_of_some hy).symm.trans h) (hd _ y hy ?_)
    by_cases hi : i ∈ gs
    case pos => simp [Pos.clear, hi]
    case neg => simpa [Pos.clear, hi] using hx

theorem Sets.captures (h : Sets i Q d) : Captures i Q d := by
  intro x y hd _ w hw
  obtain ⟨v, hv, hq⟩ := h x y hd
  rw [hv] at hw
  cases hw
  exact hq

theorem Sets.seq_left (hd : Sets i Q d) (he : Frames gs e) (hi : i ∉ gs) :
    Sets i Q (fun x => (d x).bind e) := by
  intro x z h
  have ⟨y, hy, hz⟩ := Option.bind_eq_some_iff.mp h
  rw [he y z hz i hi]
  exact hd x y hy

theorem Sets.seq_right (he : Sets i Q e) : Sets i Q (fun x => (d x).bind e) := by
  intro x z h
  have ⟨y, _, hz⟩ := Option.bind_eq_some_iff.mp h
  exact he y z hz

theorem Sets.opt (he : Sets i Q e) : Sets i Q (readOpt gs d e) := by
  intro x z h
  cases hy : d (x.clear gs)
  case none   => exact he x z ((readOpt_of_none hy).symm.trans h)
  case some y => exact he y z ((readOpt_of_some hy).symm.trans h)

theorem Sets.field (p q : σ → Bool) (m n i : Nat) :
    Sets i (fun w => (∀ a ∈ w, p a) ∧ m ≤ w.length ∧ w.length ≤ n) (readField p q m n i) := by
  intro x y h
  simp only [readField, Option.ite_none_right_eq_some] at h
  have hc := Frames.cls q _ y h.right i List.not_mem_nil
  refine ⟨x.rest.takeWhile p, ?_, fun _ => List.mem_takeWhile_imp, h.left⟩
  simp [hc, Pos.set]

theorem Sets.exact (p : σ → Bool) (n i : Nat) :
    Sets i (fun w => (∀ a ∈ w, p a) ∧ n ≤ w.length ∧ w.length ≤ n)
      (fun x => (readExact p n x).map (·.capture x i)) := by
  intro x y h
  obtain ⟨y, hy, rfl⟩ := Option.map_eq_some_iff.mp h
  simp only [readExact, Option.ite_none_right_eq_some, Option.some.injEq] at hy
  obtain ⟨⟨hl, hp⟩, rfl⟩ := hy
  rw [Pos.capture_append (x.rest.take n) (List.take_append_drop n x.rest).symm]
  refine ⟨x.rest.take n, by simp [Pos.set], List.all_eq_true.mp hp, ?_, List.length_take_le ..⟩
  rw [List.length_take]
  exact Nat.le_min.mpr ⟨Nat.le_refl _, hl⟩

end Captures

-- How much of the input a reader takes.
def Spans (lo hi : Nat) (d : Pos σ → Option (Pos σ)) : Prop :=
  ∀ x y, d x = some y → y.rest.length + lo ≤ x.rest.length ∧ x.rest.length ≤ y.rest.length + hi

namespace Spans

open Reads

variable {l m n k : Nat} {gs : List Nat} {d e : Pos σ → Option (Pos σ)}

theorem mono (hd : Spans l m d) (hn : n ≤ l) (hk : m ≤ k) : Spans n k d := by
  intro x y h
  have := hd x y h
  omega

theorem cls (p : σ → Bool) : Spans 1 1 (readCls p) := by
  rintro ⟨rest, caps⟩ y h
  cases rest
  case nil         => cases h
  case cons a rest =>
    simp only [readCls, Option.ite_none_right_eq_some] at h
    cases h.right
    exact ⟨Nat.le_refl _, Nat.le_refl _⟩

theorem lit [BEq σ] [LawfulBEq σ] (w : List σ) : Spans w.length w.length (readLit w) := by
  intro x y h
  obtain ⟨rest, hr, rfl⟩ := Option.map_eq_some_iff.mp h
  rw [← List.isPrefixOf?_eq_some_iff_append_eq.mp hr, List.length_append]
  exact ⟨Nat.le_of_eq (Nat.add_comm ..), Nat.le_of_eq (Nat.add_comm ..)⟩

theorem exact (p : σ → Bool) (n : Nat) : Spans n n (readExact p n) := by
  intro x y h
  simp only [readExact, Option.ite_none_right_eq_some, Option.some.injEq] at h
  obtain ⟨⟨hl, _⟩, rfl⟩ := h
  rw [List.length_drop]
  omega

theorem field (p q : σ → Bool) (m n i : Nat) : Spans (m + 1) (n + 1) (readField p q m n i) := by
  intro x y h
  simp only [readField, Option.ite_none_right_eq_some] at h
  have hl := congrArg List.length (List.takeWhile_append_dropWhile (p := p) (l := x.rest))
  have : y.rest.length + 1 ≤ (x.rest.dropWhile p).length ∧
      (x.rest.dropWhile p).length ≤ y.rest.length + 1 := cls q _ y h.right
  rw [List.length_append] at hl
  omega

theorem seq (hd : Spans l m d) (he : Spans n k e) : Spans (l + n) (m + k) (fun x => (d x).bind e) := by
  intro x z h
  have ⟨y, hy, hz⟩ := Option.bind_eq_some_iff.mp h
  have := hd x y hy
  have := he y z hz
  omega

theorem group (hd : Spans l m d) (i : Nat) : Spans l m (fun x => (d x).map (·.capture x i)) := by
  intro x z h
  obtain ⟨y, hy, rfl⟩ := Option.map_eq_some_iff.mp h
  exact hd x y hy

theorem opt (hd : Spans l m d) (he : Spans n k e) : Spans n (m + k) (readOpt gs d e) := by
  intro x z h
  cases hy : d (x.clear gs)
  case none   =>
    have := he x z ((readOpt_of_none hy).symm.trans h)
    omega
  case some y =>
    have := hd _ y hy
    have := he y z ((readOpt_of_some hy).symm.trans h)
    simp only [Pos.clear_rest] at *
    omega

end Spans

end Regex
