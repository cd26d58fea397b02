import Mathlib.Data.List.DropRight
import Server8.Indexer.CombineChunk

-- Which chunked bodies `combineChunk` decodes. The text is read line by line, and the carriage returns
-- are counted: every match takes two of them.

namespace Server8

namespace GetData

variable {t h u v w x y z l : Bytes} {a : UInt8}

section Lines

-- A line does not have a break in it.
def IsLine (x : Bytes) : Prop :=
  ¬crlf <:+: x

-- The last character is not one of a size.
def Blunt (x : Bytes) : Prop :=
  ∀ s a, x = s ++ [a] → isSizeChar a = false

theorem IsLine.ne_break (hl : IsLine x) (hx : x ≠ []) (hy : y.head? ≠ some 10) : x ++ y ≠ crlf ++ z := by
  intro he
  cases x
  case nil      => exact hx rfl
  case cons a x =>
    cases x
    case nil =>
      cases y
      case nil      => cases he
      case cons b y =>
        cases he
        exact hy rfl
    case cons b x =>
      cases he
      exact hl ⟨[], x, rfl⟩

theorem IsLine.right (hl : IsLine (x ++ y)) : IsLine y :=
  fun h => hl (h.trans (List.suffix_append x y).isInfix)

theorem IsLine.left (hl : IsLine (x ++ y)) : IsLine x :=
  fun h => hl (h.trans (List.prefix_append x y).isInfix)

theorem IsLine.cut_eq (hl : IsLine l) (y : Bytes) : cut crlf (l ++ (crlf ++ y)) = some (l, y) := by
  have hskip : cut crlf (l ++ (crlf ++ y)) = (cut crlf (crlf ++ y)).map fun p => (l ++ p.1, p.2) := by
    apply cut_skip
    rintro s t rfl ht ⟨z, hz⟩
    exact hl.right.ne_break ht (y := crlf ++ y) (by simp [crlf]) hz.symm
  rw [hskip, cut_start (List.prefix_append ..)]
  simp [crlf]

theorem line_or_lines (x : Bytes) : IsLine x ∨ ∃ l y, x = l ++ (crlf ++ y) ∧ IsLine l := by
  cases hc : cut crlf x
  case none   => exact .inl (cut_eq_none.mp hc)
  case some w =>
    have hc : cut crlf x = some (w.1, w.2) := hc
    exact .inr ⟨w.1, w.2, by rw [eq_of_cut hc, List.append_assoc], cut_first (by decide) hc⟩

theorem isLine_of_size (hs : ∀ b ∈ x, isSizeChar b = true) : IsLine x := by
  rintro ⟨s, t, rfl⟩
  exact Bool.noConfusion (isSizeChar_13.symm.trans (hs 13 (by simp [crlf])))

theorem split_size (x : Bytes) : ∃ t h, x = t ++ h ∧ Blunt t ∧ ∀ b ∈ h, isSizeChar b = true := by
  induction x using List.reverseRecOn
  case nil                => exact ⟨[], [], rfl, fun s a he => by simp at he, List.forall_mem_nil _⟩
  case append_singleton x a ih =>
    cases ha : isSizeChar a
    case false =>
      refine ⟨x ++ [a], [], (List.append_nil _).symm, fun s b he => ?_, List.forall_mem_nil _⟩
      cases (List.append_inj' he rfl).right
      exact ha
    case true  =>
      obtain ⟨t, h, rfl, ht, hh⟩ := ih
      refine ⟨t, h ++ [a], List.append_assoc .., ht, ?_⟩
      exact List.forall_mem_append.mpr ⟨hh, List.forall_mem_singleton.mpr ha⟩

-- A line whose end is not a size is no match, wherever the search begins in it.
theorem IsLine.sizedLine_eq (hl : IsLine l) (ha : a ∈ l) (hs : isSizeChar a = false) (y : Bytes) :
    sizedLine (l ++ (crlf ++ y)) = none := by
  cases hz : sizedLine (l ++ (crlf ++ y))
  case none   => rfl
  case some w =>
    obtain ⟨size, z, he, _, hall, _⟩ := sizedLine_iff.mp (show _ = some (w.1, w.2) from hz)
    have hc := (isLine_of_size hall).cut_eq z
    rw [← List.append_assoc, ← he, hl.cut_eq y] at hc
    cases hc
    exact Bool.noConfusion (hs.symm.trans (hall a ha))

theorem Blunt.mem (hb : Blunt (x ++ y)) (hy : y ≠ []) : ∃ a ∈ y, isSizeChar a = false := by
  obtain ⟨s, a, rfl⟩ := (List.eq_nil_or_concat' y).resolve_left hy
  exact ⟨a, by simp, hb (x ++ s) a (List.append_assoc ..).symm⟩

theorem decode_break (y : Bytes) : decode (crlf ++ y) = crlf ++ decode y := by
  rw [crlf, List.cons_append, List.singleton_append, decode_of_none rfl, decode_of_none rfl]
  rfl

theorem Blunt.decode_eq (hb : Blunt l) (hl : IsLine l) (y : Bytes) :
    decode (l ++ (crlf ++ y)) = l ++ (crlf ++ decode y) := by
  rw [decode_skip, decode_break]
  rintro s t rfl ht
  obtain ⟨a, ha, hs⟩ := hb.mem ht
  exact hl.right.sizedLine_eq ha hs y

-- The next line stays, and the breaks around it go with the size.
theorem Blunt.decode_sized (hb : Blunt t) (hl : IsLine (t ++ h)) (hh : h ≠ [])
    (hall : ∀ b ∈ h, isSizeChar b = true) (hc : cut crlf y = some (u, v)) :
    decode (t ++ (h ++ (crlf ++ y))) = t ++ (u ++ decode v) := by
  have hskip : decode (t ++ (h ++ (crlf ++ y))) = t ++ decode (h ++ (crlf ++ y)) := by
    apply decode_skip
    rintro s t' rfl ht
    obtain ⟨a, ha, hs⟩ := hb.mem ht
    rw [List.append_assoc] at hl
    rw [← List.append_assoc]
    exact hl.right.sizedLine_eq (List.mem_append_left _ ha) hs y
  rw [hskip, decode_of_some (sizedLine_iff.mpr ⟨h, y, (List.append_assoc ..).symm, hh, hall, hc⟩)]

end Lines
section Returns

def returns (x : Bytes) : Nat :=
  x.count 13

@[simp]
theorem returns_append (x y : Bytes) : returns (x ++ y) = returns x + returns y :=
  List.count_append

@[simp]
theorem returns_crlf : returns crlf = 1 := by
  decide

theorem returns_size (hs : ∀ b ∈ x, isSizeChar b = true) : returns x = 0 :=
  List.count_eq_zero.mpr fun hm => Bool.noConfusion (isSizeChar_13.symm.trans (hs 13 hm))

-- A text that can stand behind the data of a chunk: it begins with a size, and its own data has
-- `n` returns.
structure Follows (x : Bytes) (n : Nat) : Prop where
  decoded : returns (decode x) ≤ n
  next    : ∃ size y, cut crlf x = some (size, y) ∧ size ≠ [] ∧ (∀ b ∈ size, isSizeChar b = true) ∧
    returns (decode y) ≤ n + 1

variable {n : Nat}

-- What looks like a size inside the data costs two returns.
theorem Follows.returns_sized (hf : Follows x n) (ht : Blunt t) (hl : IsLine (t ++ h)) (hh : h ≠ [])
    (hs : ∀ b ∈ h, isSizeChar b = true) (v : Bytes)
    (ih : ∀ w : Bytes, w.length ≤ v.length → returns (decode (w ++ (crlf ++ x))) ≤ returns w + 1 + n) :
    returns (decode (t ++ (h ++ (crlf ++ (v ++ (crlf ++ x)))))) ≤ returns t + returns v + n := by
  have hx := hf.decoded
  cases line_or_lines v
  case inl hv =>
    rw [ht.decode_sized hl hh hs (hv.cut_eq x)]
    simp only [returns_append]
    omega
  case inr hv =>
    obtain ⟨l, w, rfl, hv⟩ := hv
    have hw := ih w (by simp only [List.length_append]; omega)
    rw [List.append_assoc, List.append_assoc, ht.decode_sized hl hh hs (hv.cut_eq _)]
    simp only [returns_append, returns_crlf]
    omega

-- By induction on the lines of the data.
theorem Follows.returns_le (hf : Follows x n) (v : Bytes) :
    returns (decode (v ++ (crlf ++ x))) ≤ returns v + 1 + n := by
  induction hn : v.length using Nat.strong_induction_on generalizing v
  case h k ih =>
    subst hn
    have hx := hf.decoded
    cases line_or_lines v
    case inl hl =>
      obtain ⟨t, h, rfl, ht, hs⟩ := split_size v
      by_cases hh : h = []
      case pos =>
        rw [hh, List.append_nil] at hl ⊢
        rw [ht.decode_eq hl]
        simp only [returns_append, returns_crlf]
        omega
      case neg =>
        obtain ⟨size, y, hc, _, hsize, hy⟩ := hf.next
        have hz := returns_size hsize
        rw [List.append_assoc, ht.decode_sized hl hh hs hc]
        simp only [returns_append]
        omega
    case inr hlines =>
      obtain ⟨l, v, rfl, hl⟩ := hlines
      obtain ⟨t, h, rfl, ht, hs⟩ := split_size l
      have ih : ∀ w : Bytes, w.length ≤ v.length →
          returns (decode (w ++ (crlf ++ x))) ≤ returns w + 1 + n := by
        intro w hw
        refine ih w.length ?_ w rfl
        simp only [List.length_append, crlf, List.length_cons]
        omega
      by_cases hh : h = []
      case pos =>
        have hv := ih v (Nat.le_refl _)
        rw [hh, List.append_nil] at hl ⊢
        rw [List.append_assoc, List.append_assoc, ht.decode_eq hl]
        simp only [returns_append, returns_crlf]
        omega
      case neg =>
        have hv := hf.returns_sized ht hl hh hs v ih
        simp only [List.append_assoc, returns_append, returns_crlf]
        omega

-- If the break in front of the data comes out where it should, the data are breaks only: a line of the
-- data would come out first, and for a match in the data there would be too few returns.
theorem Follows.breaks (hf : Follows x n) {b : Bytes} (hb : returns b = n) (w : Bytes)
    (hd : decode (w ++ (crlf ++ x)) = crlf ++ (w ++ b)) : ∃ j, w = (List.replicate j crlf).flatten := by
  induction hn : w.length using Nat.strong_induction_on generalizing w
  case h k ih =>
    subst hn
    cases line_or_lines w
    case inl hl =>
      by_cases hw : w = []
      case pos => exact ⟨0, hw⟩
      case neg =>
        obtain ⟨t, h, rfl, ht, hs⟩ := split_size w
        by_cases hh : h = []
        case pos =>
          rw [hh, List.append_nil] at hl hw hd
          rw [ht.decode_eq hl] at hd
          exact absurd hd (hl.ne_break hw (by simp [crlf]))
        case neg =>
          obtain ⟨size, y, hc, hne, hsize, _⟩ := hf.next
          obtain ⟨c, size, rfl⟩ := List.exists_cons_of_ne_nil hne
          have hc' := hsize c List.mem_cons_self
          rw [List.append_assoc, ht.decode_sized hl hh hs hc] at hd
          by_cases hte : t = []
          case pos =>
            rw [hte, List.nil_append] at hd
            have h13 : c = 13 := (List.cons.inj hd).left
            exact Bool.noConfusion (isSizeChar_13.symm.trans (h13 ▸ hc'))
          case neg =>
            refine absurd hd (hl.left.ne_break hte fun h10 => ?_)
            cases h10
            exact absurd hc' (by decide)
    case inr hlines =>
      obtain ⟨l, v, rfl, hl⟩ := hlines
      by_cases hw : l = []
      case pos =>
        rw [hw, List.nil_append, List.append_assoc, decode_break, List.append_cancel_left_eq,
          List.append_assoc] at hd
        obtain ⟨j, hj⟩ := ih v.length (by simp only [List.length_append, crlf, List.length_cons]; omega) v hd rfl
        exact ⟨j + 1, by rw [hw, hj, List.nil_append, List.replicate_succ, List.flatten_cons]⟩
      case neg =>
        obtain ⟨t, h, rfl, ht, hs⟩ := split_size l
        by_cases hh : h = []
        case pos =>
          rw [hh, List.append_nil] at hl hw hd
          rw [List.append_assoc, List.append_assoc, ht.decode_eq hl] at hd
          exact absurd hd (hl.ne_break hw (by simp [crlf]))
        case neg =>
          have hle := hf.returns_sized ht hl hh hs v fun w _ => hf.returns_le w
          have heq := congrArg returns hd
          simp only [List.append_assoc, returns_append, returns_crlf] at hle heq
          omega

end Returns

-- The value of a size in hexadecimal digits.
def hexDigit (b : UInt8) : Option Nat :=
  if 48 ≤ b && b ≤ 57 then some (b.toNat - 48)
  else if 97 ≤ b && b ≤ 102 then some (b.toNat - 87)
  else if 65 ≤ b && b ≤ 70 then some (b.toNat - 55)
  else none

def hexValue (size : Bytes) : Option Nat :=
  size.foldlM (fun n b => (hexDigit b).map (16 * n + ·)) 0

structure Chunk where
  size  : Bytes
  data  : Bytes
  ne    : data ≠ []
  zero  : 0 ∉ data
  value : hexValue size = some data.length

namespace Chunk

theorem isSizeChar_of_hexDigit {m : Nat} (hd : hexDigit a = some m) : isSizeChar a = true := by
  unfold hexDigit at hd
  unfold isSizeChar
  split at hd
  case isTrue h₁ => simp only [h₁, Bool.true_or]
  case isFalse =>
    split at hd
    case isTrue h₂ => simp only [h₂, Bool.or_true, Bool.true_or]
    case isFalse =>
      split at hd
      case isTrue h₃ =>
        simp only [Bool.and_eq_true, decide_eq_true_eq] at h₃
        have h₁₀₂ : a ≤ 102 := UInt8.le_trans h₃.right (by decide)
        simp only [h₃.left, h₁₀₂, decide_true, Bool.and_true, Bool.or_true]
      case isFalse => cases hd

theorem size_ne (c : Chunk) : c.size ≠ [] := by
  intro hs
  have hv := c.value
  rw [hs] at hv
  exact c.ne (List.length_eq_zero_iff.mp (Option.some.inj hv).symm)

theorem isSizeChar_size (c : Chunk) : ∀ b ∈ c.size, isSizeChar b = true := by
  have hall : ∀ (w : Bytes) (n m : Nat), w.foldlM (fun n b => (hexDigit b).map (16 * n + ·)) n = some m →
      ∀ b ∈ w, isSizeChar b = true := by
    intro w
    induction w
    case nil => exact fun _ _ _ => List.forall_mem_nil _
    case cons a w ih =>
      intro n m hw
      obtain ⟨k, hk, hw⟩ := Option.bind_eq_some_iff.mp hw
      obtain ⟨d, hd, _⟩ := Option.map_eq_some_iff.mp hk
      exact List.forall_mem_cons.mpr ⟨isSizeChar_of_hexDigit hd, ih k m hw⟩
  exact hall c.size 0 _ c.value

-- The data are one line and breaks behind it.
def Plain (c : Chunk) : Prop :=
  ∃ l j, IsLine l ∧ c.data = l ++ (List.replicate j crlf).flatten

end Chunk

def encode : List Chunk → Bytes
  | []          => ascii "0" ++ (crlf ++ crlf)
  | c :: chunks => c.size ++ (crlf ++ (c.data ++ (crlf ++ encode chunks)))

def body (chunks : List Chunk) : Bytes :=
  chunks.flatMap Chunk.data

section Encoded

variable {chunks : List Chunk}

theorem blunt_nil : Blunt [] := by
  intro s a he
  simp at he

theorem isSizeChar_zero : ∀ b ∈ ascii "0", isSizeChar b = true :=
  List.forall_mem_singleton.mpr rfl

theorem decode_end : decode (encode []) = [] :=
  blunt_nil.decode_sized (isLine_of_size isSizeChar_zero) (List.cons_ne_nil _ _) isSizeChar_zero
    (cut_start (List.prefix_refl crlf))

theorem follows_encode (chunks : List Chunk) : Follows (encode chunks) (returns (body chunks)) := by
  induction chunks
  case nil =>
    constructor
    case decoded => rw [decode_end]; exact Nat.le_refl _
    case next    =>
      refine ⟨ascii "0", crlf, (isLine_of_size isSizeChar_zero).cut_eq crlf, List.cons_ne_nil _ _, isSizeChar_zero, ?_⟩
      exact Nat.le_of_eq (congrArg returns (decode_break []))
  case cons c chunks ih =>
    have hs := c.isSizeChar_size
    have hbody : returns (body (c :: chunks)) = returns c.data + returns (body chunks) := by
      rw [body, List.flatMap_cons, returns_append, body]
    constructor
    case decoded =>
      have hle := ih.returns_sized blunt_nil (isLine_of_size hs) c.size_ne hs c.data fun w _ => ih.returns_le w
      rw [hbody]
      exact Nat.le_trans hle (Nat.le_of_eq (by rw [show returns [] = 0 from rfl, Nat.zero_add]))
    case next    =>
      refine ⟨c.size, _, (isLine_of_size hs).cut_eq _, c.size_ne, hs, ?_⟩
      have hle := ih.returns_le c.data
      omega

theorem decode_breaks (j : Nat) (y : Bytes) :
    decode ((List.replicate j crlf).flatten ++ y) = (List.replicate j crlf).flatten ++ decode y := by
  induction j
  case zero      => rfl
  case succ j ih =>
    rw [List.replicate_succ, List.flatten_cons, List.append_assoc, decode_break, ih, List.append_assoc]

-- The first line of a chunk stays, and the size in front of it goes.
theorem decode_chunk {c : Chunk} (hc : cut crlf (c.data ++ (crlf ++ encode chunks)) = some (u, v)) :
    decode (encode (c :: chunks)) = u ++ decode v :=
  blunt_nil.decode_sized (isLine_of_size c.isSizeChar_size) c.size_ne c.isSizeChar_size hc

theorem Chunk.Plain.decode_eq {c : Chunk} (h : c.Plain) :
    decode (encode (c :: chunks)) = c.data ++ decode (encode chunks) := by
  obtain ⟨l, j, hl, hd⟩ := h
  cases j
  case zero   =>
    rw [List.replicate_zero, List.flatten_nil, List.append_nil] at hd
    rw [decode_chunk (hd ▸ hl.cut_eq _), hd]
  case succ j =>
    have hc : cut crlf (c.data ++ (crlf ++ encode chunks)) =
        some (l, (List.replicate j crlf).flatten ++ (crlf ++ encode chunks)) := by
      rw [hd, List.replicate_succ, List.flatten_cons, List.append_assoc, List.append_assoc]
      exact hl.cut_eq _
    rw [decode_chunk hc, decode_breaks, decode_break, hd, List.replicate_succ', List.flatten_append,
      List.flatten_singleton]
    simp only [List.append_assoc]

theorem Chunk.plain_of_decode {c : Chunk} (h : decode (encode (c :: chunks)) = c.data ++ body chunks) :
    c.Plain := by
  cases line_or_lines c.data
  case inl hl => exact ⟨c.data, 0, hl, (List.append_nil _).symm⟩
  case inr hl =>
    obtain ⟨l, w, hd, hl⟩ := hl
    have hc : cut crlf (c.data ++ (crlf ++ encode chunks)) = some (l, w ++ (crlf ++ encode chunks)) := by
      rw [hd, List.append_assoc, List.append_assoc]
      exact hl.cut_eq _
    rw [decode_chunk hc, hd, List.append_assoc, List.append_assoc, List.append_cancel_left_eq] at h
    obtain ⟨j, hj⟩ := (follows_encode chunks).breaks rfl w h
    exact ⟨l, j + 1, hl, by rw [hd, hj, List.replicate_succ, List.flatten_cons]⟩

-- A chunked body is decoded if and only if all of its chunks are plain.
theorem decode_encode_iff (chunks : List Chunk) :
    decode (encode chunks) = body chunks ↔ ∀ c ∈ chunks, c.Plain := by
  induction chunks
  case nil => exact iff_of_true decode_end (List.forall_mem_nil _)
  case cons c chunks ih =>
    rw [List.forall_mem_cons, body, List.flatMap_cons, ← body]
    constructor
    case mp =>
      intro h
      have hc := Chunk.plain_of_decode h
      rw [hc.decode_eq, List.append_cancel_left_eq] at h
      exact ⟨hc, ih.mp h⟩
    case mpr =>
      rintro ⟨hc, hall⟩
      rw [hc.decode_eq, ih.mpr hall]

end Encoded

namespace HeaderBlock

variable {header : HeaderBlock} {rest b : Bytes} {chunks : List Chunk}

-- The buffer holds the header block, the blank line and the body, up to the zero behind them.
def Decodes (header : HeaderBlock) (chunks : List Chunk) (rest : Bytes) : Prop :=
  ∃ data, combineChunk (header.head ++ encode chunks ++ 0 :: rest) (header.head ++ encode chunks).length =
      some (data, (header.head ++ body chunks).length) ∧
    header.head ++ body chunks ++ [0] <+: data

def Leaves (header : HeaderBlock) (b rest : Bytes) : Prop :=
  combineChunk (header.head ++ b ++ 0 :: rest) (header.head ++ b).length =
    some (header.head ++ b ++ 0 :: rest, (header.head ++ b).length)

theorem findsChunked_append (h : FindsChunked x) (y : Bytes) : FindsChunked (x ++ y) := by
  obtain ⟨u, name, ws, ws', value, v, rfl, h⟩ := h
  exact ⟨u, name, ws, ws', value, v ++ y, by simp only [List.append_assoc], h⟩

theorem zero_notMem_encode (chunks : List Chunk) : 0 ∉ encode chunks := by
  induction chunks
  case nil            => decide
  case cons c chunks ih =>
    simp only [encode, List.mem_append, not_or]
    refine ⟨fun h => ?_, by decide, c.zero, by decide, ih⟩
    exact absurd (c.isSizeChar_size 0 h) (by decide)

theorem decodes_iff (h : FindsChunked header.bytes) :
    header.Decodes chunks rest ↔ ∀ c ∈ chunks, c.Plain := by
  have hs : Regex.search chunkedPattern (header.head ++ encode chunks) = true :=
    search_chunkedPattern.mpr (findsChunked_append (findsChunked_append h crlf) _)
  rw [← decode_encode_iff, Decodes, combineChunk_eq header (zero_notMem_encode chunks), if_pos hs]
  constructor
  case mp =>
    rintro ⟨data, hd, y, hp⟩
    obtain ⟨hdata, hlen⟩ := Prod.mk.inj (Option.some.inj hd)
    have hlen : (decode (encode chunks)).length = (body chunks).length := by
      rw [List.length_append] at hlen
      omega
    rw [← hdata, List.append_assoc, List.append_assoc, List.append_assoc, List.append_cancel_left_eq] at hp
    exact (List.append_inj hp hlen.symm).left.symm
  case mpr =>
    intro hd
    have hlen : (body chunks).length + header.head.length = (header.head ++ body chunks).length := by
      rw [List.length_append, Nat.add_comm]
    rw [hd, hlen]
    exact ⟨_, rfl, _, List.append_assoc ..⟩

theorem leaves_iff (hb : 0 ∉ b) :
    header.Leaves b rest ↔ ¬FindsChunked (header.head ++ b) ∨ ¬Sized b := by
  rw [Leaves, combineChunk_eq header hb, ← search_chunkedPattern, ← decode_eq_self]
  by_cases hs : Regex.search chunkedPattern (header.head ++ b) = true
  case neg => exact iff_of_true (by rw [if_neg hs]) (.inl hs)
  case pos =>
    rw [if_pos hs]
    constructor
    case mp =>
      intro h
      obtain ⟨hdata, hlen⟩ := Prod.mk.inj (Option.some.inj h)
      have hlen : (decode b).length = b.length := by
        rw [List.length_append] at hlen
        omega
      rw [List.append_assoc, List.append_assoc, List.append_cancel_left_eq] at hdata
      exact .inr (List.append_inj hdata hlen).left
    case mpr =>
      intro h
      have hd := h.resolve_left (not_not.mpr hs)
      have hlen : b.length + header.head.length = (header.head ++ b).length := by
        rw [List.length_append, Nat.add_comm]
      rw [hd, List.drop_length_add_append, List.drop_one, List.tail_cons, hlen]

end HeaderBlock

-- Where the header block has the announcement, a chunked body comes out right if and only if its chunks are
-- plain. Any response stays as it is if and only if there is no announcement in all of it, body included, or
-- the body has no size in it.
theorem combineChunk_exact_iff (header : HeaderBlock) (rest : Bytes) :
    (FindsChunked header.bytes → ∀ chunks, header.Decodes chunks rest ↔ ∀ c ∈ chunks, c.Plain) ∧
      ∀ b, 0 ∉ b → (header.Leaves b rest ↔ ¬FindsChunked (header.head ++ b) ∨ ¬Sized b) :=
  ⟨fun h _ => header.decodes_iff h, fun _ hb => header.leaves_iff hb⟩

section Responses

def chunkedHeader : HeaderBlock where
  lines := [ascii "HTTP/1.1 200 OK", ascii "Transfer-Encoding: chunked"]
  ne    := List.cons_ne_nil _ _
  line  := by decide +kernel

def plainHeader : HeaderBlock where
  lines := [ascii "HTTP/1.1 200 OK", ascii "Content-Length: 36"]
  ne    := List.cons_ne_nil _ _
  line  := by decide +kernel

-- Two lines in one chunk.
def brokenChunk : Chunk where
  size  := ascii "4"
  data  := ascii "a\r\nb"
  ne    := by decide
  zero  := by decide
  value := by decide

-- A chunk that ends with a line break.
def plainChunk : Chunk where
  size  := ascii "3"
  data  := ascii "a\r\n"
  ne    := by decide
  zero  := by decide
  value := by decide

-- A field with a longer name, which does not say that the body is chunked.
def prefixedHeader : HeaderBlock where
  lines := [ascii "HTTP/1.1 200 OK", ascii "X-Transfer-Encoding: chunked"]
  ne    := List.cons_ne_nil _ _
  line  := by decide +kernel

theorem combineChunk_exact_chunked :
    chunkedHeader.Decodes [plainChunk] [] ∧ plainHeader.Leaves (ascii "a\r\nb\r\n") [] ∧
      ¬prefixedHeader.Leaves (ascii "a\r\nb\r\n") [] := by
  have hfound : FindsChunked chunkedHeader.bytes := search_chunkedPattern.mp (by decide +kernel)
  have hplain : ∀ c ∈ [plainChunk], c.Plain := by
    rw [List.forall_mem_singleton]
    refine ⟨ascii "a", 1, ?_, rfl⟩
    unfold IsLine
    decide
  have hnot : ¬FindsChunked (plainHeader.head ++ ascii "a\r\nb\r\n") := by
    rw [← search_chunkedPattern]
    decide +kernel
  have hprefixed : FindsChunked (prefixedHeader.head ++ ascii "a\r\nb\r\n") :=
    search_chunkedPattern.mp (by decide +kernel)
  have hsized : Sized (ascii "a\r\nb\r\n") :=
    ⟨[], ascii "a", ascii "b", [], by decide +kernel, by decide +kernel, by decide +kernel⟩
  refine ⟨((combineChunk_exact_iff chunkedHeader []).left hfound _).mpr hplain,
    ((combineChunk_exact_iff plainHeader []).right _ (by decide)).mpr (.inl hnot), fun h => ?_⟩
  cases ((combineChunk_exact_iff prefixedHeader []).right _ (by decide)).mp h
  case inl h => exact h hprefixed
  case inr h => exact h hsized

theorem combineChunk_not_exact :
    (¬∀ (header : HeaderBlock) (chunks : List Chunk), ascii "Transfer-Encoding: chunked" <:+: header.bytes →
      header.Decodes chunks []) ∧
      ¬∀ (header : HeaderBlock) (b : Bytes), ¬FindsChunked header.bytes → 0 ∉ b → header.Leaves b [] := by
  constructor
  case left =>
    intro h
    obtain ⟨data, hd, hp⟩ := h chunkedHeader [brokenChunk] (by decide +kernel)
    have he : ((combineChunk (chunkedHeader.head ++ encode [brokenChunk] ++ 0 :: [])
        (chunkedHeader.head ++ encode [brokenChunk]).length).map fun result =>
          decide (chunkedHeader.head ++ body [brokenChunk] ++ [0] <+: result.1)) = some false := by
      decide +kernel
    rw [hd, Option.map_some, Option.some.injEq] at he
    exact of_decide_eq_false he hp
  case right =>
    intro h
    have hl := h plainHeader (ascii "Transfer-Encoding: chunked\r\na\r\nb\r\n")
      (fun ha => by
        have := search_chunkedPattern.mpr ha
        revert this
        decide +kernel) (by decide)
    revert hl
    unfold HeaderBlock.Leaves
    decide +kernel

end Responses
end GetData

end Server8
