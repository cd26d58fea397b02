import Server8.Lib.Search
import Server8.Log.LogModule

-- `combineChunk` of the crawlers, which is the same in Indexer2.cpp and in Indexer3.cpp.

namespace Server8

namespace GetData

open Regex

def crlf : Bytes :=
  [13, 10]

def toLower (b : UInt8) : UInt8 :=
  if 65 ≤ b && b ≤ 90 then b + 32 else b

-- A literal under `boost::regex::icase`.
def icase : Bytes → Regex UInt8
  | []     => empty
  | b :: w => seq (cls fun a => toLower a == b) (icase w)

-- `transfer-encoding\s*?:\s*?chunked`.
def chunkedPattern (n : Nat) : Regex UInt8 :=
  seq (icase (ascii "transfer-encoding")) <|
  seq (lazyStar (cls isSpace) n) <|
  seq (icase (ascii ":")) <|
  seq (lazyStar (cls isSpace) n) <|
  (icase (ascii "chunked"))

-- `[0-9a-fA-f]`, whose last range has more than letters.
def isSizeChar (b : UInt8) : Bool :=
  (48 ≤ b && b ≤ 57) || (97 ≤ b && b ≤ 102) || (65 ≤ b && b ≤ 102)

-- `[0-9a-fA-f]+\r\n(.*?)\r\n`, where `.` is any character.
def replacePattern (n : Nat) : Regex UInt8 :=
  seq (rep (cls isSizeChar) 1 none) <|
  seq (lit crlf) <|
  seq (group 1 (lazyStar (cls fun _ => true) n)) <|
  (lit crlf)

-- The format `$1`.
def first (x : Pos UInt8) : Bytes :=
  (x.caps 1).getD []

-- `string(data)`, undefined if there is no zero.
def cString (data : Bytes) : Option Bytes :=
  if 0 ∈ data then some (data.takeWhile (· ≠ 0)) else none

-- The buffer at `data`, and the result.
def combineChunk (data : Bytes) (length : Nat) : Option (Bytes × Nat) := do
  let str ← cString data
  if search chunkedPattern str = false then some (data, length)
  else match cut (ascii "\r\n\r\n") str with
    | none             => some (data, length)
    | some (u, pStart) =>
      let prevLen := u.length + 4
      let str := replace replacePattern first pStart
      let newLength := str.length
      let data := (LogModule.memcpy_s data prevLen (length - prevLen) str).2
      if newLength + prevLen < data.length then some (data.set (newLength + prevLen) 0, newLength + prevLen)
      else none

section Chunked

-- The pattern is found in the text: at the end of any word, and over line breaks.
def FindsChunked (x : Bytes) : Prop :=
  ∃ u name ws ws' value v, x = u ++ name ++ ws ++ ascii ":" ++ ws' ++ value ++ v ∧
    name.map toLower = ascii "transfer-encoding" ∧ value.map toLower = ascii "chunked" ∧
    (∀ b ∈ ws, isSpace b = true) ∧ ∀ b ∈ ws', isSpace b = true

theorem run_icase_isSome {w x : Bytes} {caps : Nat → Option Bytes} {c : Cont UInt8} :
    ((icase w).run ⟨x, caps⟩ c).isSome ↔
      ∃ u rest, x = u ++ rest ∧ u.map toLower = w ∧ (c ⟨rest, caps⟩).isSome := by
  induction w generalizing x
  case nil =>
    constructor
    case mp  => exact fun h => ⟨[], x, rfl, rfl, h⟩
    case mpr =>
      rintro ⟨u, rest, rfl, hu, hc⟩
      rw [List.map_eq_nil_iff.mp hu]
      exact hc
  case cons b w ih =>
    rw [icase, run_seq, run_cls_isSome]
    constructor
    case mp =>
      rintro ⟨a, rest, rfl, hp, h⟩
      obtain ⟨u, rest, rfl, hu, hc⟩ := ih.mp h
      exact ⟨a :: u, rest, rfl, by rw [List.map_cons, hu, beq_iff_eq.mp hp], hc⟩
    case mpr =>
      rintro ⟨u, rest, rfl, hu, hc⟩
      obtain ⟨a, u, rfl, ha, hu⟩ := List.map_eq_cons_iff.mp hu
      exact ⟨a, u ++ rest, rfl, beq_iff_eq.mpr ha, ih.mpr ⟨u, rest, rfl, hu, hc⟩⟩

theorem eq_colon {w : Bytes} : w.map toLower = ascii ":" ↔ w = ascii ":" := by
  have hb : ∀ b : UInt8, toLower b = 58 → b = 58 := by
    intro b hb
    unfold toLower at hb
    split at hb
    case isFalse   => exact hb
    case isTrue hl =>
      have hn := congrArg UInt8.toNat hb
      simp only [UInt8.toNat_add, UInt8.reduceToNat, Bool.and_eq_true, decide_eq_true_eq,
        UInt8.le_iff_toNat_le] at hn hl
      omega
  constructor
  case mp =>
    intro h
    obtain ⟨b, u, rfl, hc, hu⟩ := List.map_eq_cons_iff.mp (show w.map toLower = [58] from h)
    rw [hb b hc, List.map_eq_nil_iff.mp hu]
    rfl
  case mpr =>
    rintro rfl
    rfl

theorem search_chunkedPattern {x : Bytes} : search chunkedPattern x = true ↔ FindsChunked x := by
  rw [search_iff]
  constructor
  case mp =>
    rintro ⟨u, y, rfl, hy⟩
    obtain ⟨name, y, rfl, hname, hy⟩ := run_icase_isSome.mp hy
    obtain ⟨ws, y, rfl, _, hws, hy⟩ := run_lazyStar_isSome.mp hy
    obtain ⟨colon, y, rfl, hcolon, hy⟩ := run_icase_isSome.mp hy
    obtain ⟨ws', y, rfl, _, hws', hy⟩ := run_lazyStar_isSome.mp hy
    obtain ⟨value, v, rfl, hvalue, _⟩ := run_icase_isSome.mp hy
    rw [eq_colon.mp hcolon]
    exact ⟨u, name, ws, ws', value, v, by simp only [List.append_assoc], hname, hvalue, hws, hws'⟩
  case mpr =>
    rintro ⟨u, name, ws, ws', value, v, rfl, hname, hvalue, hws, hws'⟩
    refine ⟨u, name ++ (ws ++ (ascii ":" ++ (ws' ++ (value ++ v)))), by simp only [List.append_assoc], ?_⟩
    apply run_icase_isSome.mpr
    refine ⟨name, _, rfl, hname, run_lazyStar_isSome.mpr ⟨ws, _, rfl, ?_, hws, ?_⟩⟩
    · simp only [List.length_append]
      omega
    apply run_icase_isSome.mpr
    refine ⟨ascii ":", _, rfl, rfl, run_lazyStar_isSome.mpr ⟨ws', _, rfl, ?_, hws', ?_⟩⟩
    · simp only [List.length_append]
      omega
    exact run_icase_isSome.mpr ⟨value, v, rfl, hvalue, rfl⟩

end Chunked

section Decode

-- The size and the line that `replacePattern` finds at the beginning of a text: the line, and what is
-- left.
def sizedLine (x : Bytes) : Option (Bytes × Bytes) :=
  if x.takeWhile isSizeChar = [] then none
  else if crlf <+: x.dropWhile isSizeChar then cut crlf ((x.dropWhile isSizeChar).drop 2) else none

def decode (x : Bytes) : Bytes :=
  replace replacePattern first x

theorem isSizeChar_13 : isSizeChar 13 = false := by
  decide

theorem not_crlf_start {a : UInt8} {x : Bytes} (h : isSizeChar a = true) : ¬crlf <+: a :: x := by
  intro hp
  obtain ⟨y, hy⟩ := hp
  cases hy
  exact Bool.noConfusion (isSizeChar_13.symm.trans h)

theorem matchAt_replacePattern (x : Bytes) :
    matchAt replacePattern x =
      (sizedLine x).map fun (u, v) => ⟨v, Function.update (fun _ => none) 1 (some u)⟩ := by
  rw [matchAt, replacePattern, run_seq, Pos.start, run_plus]
  case hc =>
    intro a rest caps hp
    rw [run_seq, run_lit, if_neg (not_crlf_start hp)]
  rw [sizedLine, run_seq, run_lit]
  split
  case isTrue  => rfl
  case isFalse =>
    split
    case isFalse => rfl
    case isTrue hp =>
      let y : Pos UInt8 := ⟨(x.dropWhile isSizeChar).drop 2, fun _ => none⟩
      have hle : y.rest.length ≤ x.length :=
        Nat.le_trans (List.drop_sublist ..).length_le (List.dropWhile_sublist _).length_le
      exact run_lazyStar_lit 1 y (List.nil_append _).symm hle

theorem sizedLine_iff {x u v : Bytes} :
    sizedLine x = some (u, v) ↔
      ∃ size y, x = size ++ crlf ++ y ∧ size ≠ [] ∧ (∀ b ∈ size, isSizeChar b = true) ∧
        cut crlf y = some (u, v) := by
  constructor
  case mp =>
    intro h
    unfold sizedLine at h
    split at h
    case isTrue     => cases h
    case isFalse hs =>
      split at h
      case isFalse  => cases h
      case isTrue hp =>
        obtain ⟨y, hy⟩ := hp
        rw [← hy, show 2 = crlf.length from rfl, List.drop_left] at h
        refine ⟨x.takeWhile isSizeChar, y, ?_, hs, fun b => List.mem_takeWhile_imp, h⟩
        rw [List.append_assoc, hy, List.takeWhile_append_dropWhile]
  case mpr =>
    rintro ⟨size, y, rfl, hs, hall, hc⟩
    have ht : (crlf ++ y).takeWhile isSizeChar = [] := rfl
    have hd : (crlf ++ y).dropWhile isSizeChar = crlf ++ y := rfl
    rw [sizedLine, List.append_assoc, List.takeWhile_append_of_pos hall, List.dropWhile_append_of_pos hall,
      ht, hd, List.append_nil, if_neg hs, if_pos (List.prefix_append ..)]
    exact hc

theorem length_lt_of_sizedLine {x u v : Bytes} (h : sizedLine x = some (u, v)) :
    u.length + v.length < x.length := by
  obtain ⟨size, y, rfl, _, _, hc⟩ := sizedLine_iff.mp h
  rw [eq_of_cut hc]
  simp only [List.length_append, crlf, List.length_cons]
  omega

theorem proper : Proper replacePattern := by
  intro x y h
  rw [matchAt_replacePattern, Option.map_eq_some_iff] at h
  obtain ⟨⟨u, v⟩, hs, rfl⟩ := h
  exact Nat.lt_of_le_of_lt (Nat.le_add_left ..) (length_lt_of_sizedLine hs)

theorem decode_nil : decode [] = [] :=
  rfl

theorem decode_of_some {x u v : Bytes} (h : sizedLine x = some (u, v)) : decode x = u ++ decode v := by
  have hm := matchAt_replacePattern x
  rw [h] at hm
  rw [decode, proper.replace_of_some hm]
  rfl

theorem decode_skip {w y : Bytes} (h : ∀ s t, w = s ++ t → t ≠ [] → sizedLine (t ++ y) = none) :
    decode (w ++ y) = w ++ decode y := by
  apply replace_skip
  intro s t hs ht
  rw [matchAt_replacePattern, h s t hs ht, Option.map_none]

-- The text has a size in a line of its own, or what the pattern takes for one.
def Sized (x : Bytes) : Prop :=
  ∃ u size line v, x = u ++ size ++ crlf ++ line ++ crlf ++ v ∧ size ≠ [] ∧
    ∀ b ∈ size, isSizeChar b = true

theorem not_sized {x : Bytes} : ¬Sized x ↔ ∀ u y, x = u ++ y → sizedLine y = none := by
  constructor
  case mp =>
    rintro h u y rfl
    cases hs : sizedLine y
    case none   => rfl
    case some w =>
      obtain ⟨size, y, rfl, hne, hall, hc⟩ := sizedLine_iff.mp (show sizedLine y = some (w.1, w.2) from hs)
      refine absurd ⟨u, size, w.1, w.2, ?_, hne, hall⟩ h
      rw [eq_of_cut hc]
      simp only [List.append_assoc]
  case mpr =>
    rintro h ⟨u, size, line, v, rfl, hne, hall⟩
    have hs := h u (size ++ crlf ++ (line ++ crlf ++ v)) (by simp only [List.append_assoc])
    cases hc : cut crlf (line ++ crlf ++ v)
    case none   => exact cut_eq_none.mp hc ⟨line, v, rfl⟩
    case some w =>
      rw [sizedLine_iff.mpr ⟨size, _, rfl, hne, hall, (show _ = some (w.1, w.2) from hc)⟩] at hs
      cases hs

theorem decode_of_none {a : UInt8} {x : Bytes} (h : sizedLine (a :: x) = none) :
    decode (a :: x) = a :: decode x := by
  apply replace_of_none
  rw [matchAt_replacePattern, h, Option.map_none]

-- Along the places where the search for a match begins.
theorem decode_induction {P : Bytes → Prop} (nil : P [])
    (found : ∀ {x u v : Bytes}, sizedLine x = some (u, v) → P v → P x)
    (next : ∀ {a : UInt8} {x : Bytes}, sizedLine (a :: x) = none → P x → P (a :: x)) (x : Bytes) : P x := by
  induction hn : x.length using Nat.strong_induction_on generalizing x
  case h n ih =>
    subst hn
    cases hs : sizedLine x
    case some w =>
      have hlt := length_lt_of_sizedLine (u := w.1) (v := w.2) hs
      exact found (u := w.1) (v := w.2) hs (ih _ (by omega) _ rfl)
    case none   =>
      cases x
      case nil      => exact nil
      case cons a x => exact next hs (ih _ (Nat.lt_succ_self _) x rfl)

theorem length_decode_le (x : Bytes) : (decode x).length ≤ x.length := by
  induction x using decode_induction
  case nil => exact Nat.le_refl _
  case found x u v hs ih =>
    have hlt := length_lt_of_sizedLine hs
    rw [decode_of_some hs, List.length_append]
    omega
  case next hs ih =>
    rw [decode_of_none hs]
    exact Nat.succ_le_succ ih

theorem decode_eq_self {x : Bytes} : decode x = x ↔ ¬Sized x := by
  rw [not_sized]
  constructor
  case mp =>
    induction x using decode_induction
    case nil =>
      intro _ u y hx
      rw [(List.append_eq_nil_iff.mp hx.symm).right]
      rfl
    case found x u v hs ih =>
      intro h
      have hlt := length_lt_of_sizedLine hs
      have hle := length_decode_le v
      rw [decode_of_some hs] at h
      have hl := congrArg List.length h
      rw [List.length_append] at hl
      omega
    case next a x hs ih =>
      intro h u y hx
      rw [decode_of_none hs] at h
      cases u
      case nil      =>
        rw [List.nil_append] at hx
        exact hx ▸ hs
      case cons b u => exact ih (List.cons.inj h).right u y (List.cons.inj hx).right
  case mpr =>
    intro h
    have hskip := decode_skip (w := x) (y := []) fun s t hs _ => h s _ (by rw [hs, List.append_nil])
    rwa [List.append_nil, decode_nil, List.append_nil] at hskip

end Decode

-- The status line and the fields of a response, each of them with its line break.
structure HeaderBlock where
  lines : List Bytes
  ne    : lines ≠ []
  line  : ∀ l ∈ lines, l ≠ [] ∧ ∀ b ∈ l, b ≠ 0 ∧ b ≠ 10 ∧ b ≠ 13

namespace HeaderBlock

variable {header : HeaderBlock} {b rest : Bytes}

def bytes (header : HeaderBlock) : Bytes :=
  header.lines.flatMap (· ++ crlf)

-- The header block and the blank line.
def head (header : HeaderBlock) : Bytes :=
  header.bytes ++ crlf

theorem cut_line {l x : Bytes} (hl : ∀ b ∈ l, b ≠ 13) :
    cut (ascii "\r\n\r\n") (l ++ x) = (cut (ascii "\r\n\r\n") x).map fun (u, v) => (l ++ u, v) := by
  apply cut_skip
  rintro s t rfl ht ⟨y, hy⟩
  cases t
  case nil      => exact ht rfl
  case cons a t =>
    have ha : a = 13 := (List.cons.inj hy).left.symm
    exact hl a (List.mem_append_right _ List.mem_cons_self) ha

theorem cut_break {a : UInt8} {x : Bytes} (ha : a ≠ 13) :
    cut (ascii "\r\n\r\n") (crlf ++ a :: x) =
      (cut (ascii "\r\n\r\n") (a :: x)).map fun (u, v) => (crlf ++ u, v) := by
  have h₁ : ¬ascii "\r\n\r\n" <+: 13 :: 10 :: a :: x := fun ⟨y, hy⟩ => ha (by cases hy; rfl)
  have h₂ : ¬ascii "\r\n\r\n" <+: 10 :: a :: x := fun ⟨y, hy⟩ => by cases hy
  rw [crlf, List.cons_append, List.singleton_append, cut_cons h₁, cut_cons h₂, Option.map_map]
  rfl

theorem cut_lines {lines : List Bytes} (hne : lines ≠ [])
    (hl : ∀ l ∈ lines, l ≠ [] ∧ ∀ b ∈ l, b ≠ 0 ∧ b ≠ 10 ∧ b ≠ 13) (b : Bytes) :
    ∃ u, cut (ascii "\r\n\r\n") (lines.flatMap (· ++ crlf) ++ (crlf ++ b)) = some (u, b) := by
  induction lines
  case nil             => exact absurd rfl hne
  case cons l lines ih =>
    obtain ⟨hl, hls⟩ := List.forall_mem_cons.mp hl
    have hl : ∀ b ∈ l, b ≠ 13 := fun b hb => (hl.right b hb).right.right
    rw [List.flatMap_cons, List.append_assoc, List.append_assoc, cut_line hl]
    cases lines
    case nil             =>
      have hp : ascii "\r\n\r\n" <+: crlf ++ (crlf ++ b) := ⟨b, rfl⟩
      exact ⟨l, by rw [List.flatMap_nil, List.nil_append, cut_start hp]; simp [crlf, ascii]⟩
    case cons l' lines =>
      obtain ⟨u, hu⟩ := ih (List.cons_ne_nil l' lines) hls
      obtain ⟨a, w, rfl⟩ := List.exists_cons_of_ne_nil (hls l' List.mem_cons_self).left
      have ha : a ≠ 13 := ((hls _ List.mem_cons_self).right a List.mem_cons_self).right.right
      rw [List.flatMap_cons, List.cons_append, List.cons_append, List.cons_append] at hu ⊢
      rw [cut_break ha, hu]
      exact ⟨_, rfl⟩

theorem cut_head (header : HeaderBlock) (b : Bytes) :
    ∃ u, cut (ascii "\r\n\r\n") (header.head ++ b) = some (u, b) ∧ u.length + 4 = header.head.length := by
  obtain ⟨u, hu⟩ := cut_lines header.ne header.line b
  rw [← List.append_assoc] at hu
  refine ⟨u, hu, ?_⟩
  have hl : header.head = u ++ ascii "\r\n\r\n" := List.append_cancel_right (eq_of_cut hu)
  rw [hl, List.length_append]
  rfl

theorem zero_notMem_head (header : HeaderBlock) : 0 ∉ header.head := by
  intro h
  cases List.mem_append.mp h
  case inr h => exact absurd h (by decide)
  case inl h =>
    obtain ⟨l, hl, h⟩ := List.mem_flatMap.mp h
    cases List.mem_append.mp h
    case inl h => exact ((header.line l hl).right 0 h).left rfl
    case inr h => exact absurd h (by decide)

theorem cString_eq {x : Bytes} (h : 0 ∉ x) (rest : Bytes) : cString (x ++ 0 :: rest) = some x := by
  have hx : ∀ b ∈ x, decide (b ≠ 0) = true := fun b hb => decide_eq_true fun hn => h (hn ▸ hb)
  rw [cString, if_pos (List.mem_append_right _ List.mem_cons_self), List.takeWhile_append_of_pos hx,
    List.takeWhile_cons_of_neg (by decide), List.append_nil]

-- What `combineChunk` does with a response: nothing, or the body is decoded in place.
theorem combineChunk_eq (header : HeaderBlock) (hb : 0 ∉ b) (rest : Bytes) :
    combineChunk (header.head ++ b ++ 0 :: rest) (header.head ++ b).length =
      some (if search chunkedPattern (header.head ++ b) = true then
        (header.head ++ decode b ++ 0 :: (b ++ 0 :: rest).drop ((decode b).length + 1),
          (decode b).length + header.head.length)
      else (header.head ++ b ++ 0 :: rest, (header.head ++ b).length)) := by
  have hzero : 0 ∉ header.head ++ b := by
    rw [List.mem_append]
    exact not_or.mpr ⟨header.zero_notMem_head, hb⟩
  obtain ⟨u, hu, hlen⟩ := header.cut_head b
  have hle := length_decode_le b
  unfold combineChunk
  rw [cString_eq hzero, Option.bind_eq_bind, Option.bind_some]
  by_cases hs : search chunkedPattern (header.head ++ b) = true
  case neg => rw [if_neg hs, if_pos (Bool.eq_false_iff.mpr hs)]
  case pos =>
    rw [if_pos hs, if_neg (by simp [hs]), hu]
    have hcopy : LogModule.memcpy_s (header.head ++ b ++ 0 :: rest) header.head.length
        ((header.head ++ b).length - header.head.length) (decode b) =
          (true, header.head ++ decode b ++ (b ++ 0 :: rest).drop (decode b).length) := by
      unfold LogModule.memcpy_s
      rw [if_pos (by rw [List.length_append]; omega)]
      rw [Int.toNat_natCast, List.append_assoc header.head b, List.take_left, List.drop_length_add_append]
    obtain ⟨c, w, hw⟩ : ∃ c w, (b ++ 0 :: rest).drop (decode b).length = c :: w := by
      apply List.exists_cons_of_length_pos
      rw [List.length_drop, List.length_append, List.length_cons]
      omega
    have htail : (b ++ 0 :: rest).drop ((decode b).length + 1) = w := by
      rw [← List.drop_drop, hw, List.drop_one, List.tail_cons]
    have hindex : (decode b).length + header.head.length = (header.head ++ decode b).length := by
      rw [List.length_append, Nat.add_comm]
    dsimp only
    rw [hlen, ← decode, hcopy, hw, htail, hindex, List.set_append_right _ _ (Nat.le_refl _), Nat.sub_self,
      List.set_cons_zero, if_pos]
    have hlast : (header.head ++ decode b ++ c :: w).length = (header.head ++ decode b).length + (c :: w).length :=
      List.length_append
    change (header.head ++ decode b).length < (header.head ++ decode b ++ c :: w).length
    rw [hlast]
    exact Nat.lt_add_of_pos_right (Nat.succ_pos _)

end HeaderBlock
end GetData

end Server8
