import Server8.Protocol.Packet

-- The header pattern needs no backtracking: each optional line begins with a character that the
-- line after it cannot begin with, and no field can give a character back to its separator.
-- So the matcher is a deterministic reader, one line after the other.

namespace Server8.Packet

open Regex Regex.Reads

abbrev Reader := Pos UInt8 → Option (Pos UInt8)

def readText (p : UInt8 → Bool) (m n i : Nat) : Reader :=
  readField p isSpace m n i

def readFixed (p : UInt8 → Bool) (n i : Nat) : Reader :=
  fun x => ((readExact p n x).map (·.capture x i)).bind (readCls isSpace)

def readLine (name : String) (d : Reader) : Reader :=
  fun x => (readLit (ascii name) x).bind d

def readGroup (i : Nat) (d : Reader) : Reader :=
  fun x => (d x).map (·.capture x i)

def readSessionID : Reader :=
  readOpt [9, 10] (readGroup 9 (readLine "SessionID:" (readFixed isWord 16 10))) (readCls isSpace)

def readInstanceName : Reader :=
  readOpt [7, 8] (readGroup 7 (readLine "InstanceName:" (readText isWord 1 32 8))) readSessionID

def readTimeStamp : Reader :=
  fun x => (readLine "TimeStamp:" (readFixed isDot 23 6) x).bind readInstanceName

def readContentLength : Reader :=
  fun x => (readLine "ContentLength:" (readText isDigit 1 7 5) x).bind readTimeStamp

def readOperationStatus : Reader :=
  readOpt [3, 4] (readGroup 3 (readLine "OperationStatus:" (readText isWord 1 32 4)))
    readContentLength

def readHeader : Reader :=
  fun x => (readLine "Operation:" (readText isWord 1 32 2) x).bind readOperationStatus

section Classes

theorem isWord_not_isSpace (b : UInt8) (h : isWord b) : isSpace b = false := by
  simp [isWord, isDigit, isSpace, UInt8.le_iff_toNat_le, ← UInt8.toNat_inj] at h ⊢
  omega

theorem isDigit_not_isSpace (b : UInt8) (h : isDigit b) : isSpace b = false :=
  isWord_not_isSpace b (by simp [isWord, h])

theorem isSpace_newline : isSpace newline :=
  rfl

theorem isDot_or_isSpace (b : UInt8) : isDot b ∨ isSpace b := by
  simp [isDot, isSpace, UInt8.le_iff_toNat_le, ← UInt8.toNat_inj]
  omega

theorem beq_disjoint {b c : UInt8} (h : b ≠ c) (a : UInt8) (ha : a == b) : (a == c) = false := by
  simp_all

theorem beq_not_isSpace {b : UInt8} (h : isSpace b = false) (a : UInt8) (ha : a == b) :
    isSpace a = false := by
  simp_all

end Classes

section Pattern

theorem text_reads {p : UInt8 → Bool} (hp : ∀ b, p b → isSpace b = false) {m n : Nat} (hm : m ≤ n)
    (name : String) (i : Nat) :
    Reads (field name (.group i (.rep (.cls p) m (some n)))) (readLine name (readText p m n i)) :=
  (Reads.lit _).seq (Reads.field hp hm i)

theorem fixed_reads (p : UInt8 → Bool) (name : String) (n i : Nat) :
    Reads (field name (.group i (.rep (.cls p) n (some n)))) (readLine name (readFixed p n i)) :=
  (Reads.lit _).seq (((Reads.exact p n).group i).seq (Reads.cls isSpace))

theorem text_consumes {p : UInt8 → Bool} (hp : ∀ b, p b → isSpace b = false) (m n i : Nat) :
    Consumes (fun _ => true) (readText p m n i) :=
  Consumes.field hp m n i

theorem fixed_consumes (p : UInt8 → Bool) (n i : Nat) :
    Consumes (fun _ => true) (readFixed p (n + 1) i) :=
  ((Consumes.exact p n).group i).seq (Consumes.cls isSpace)

theorem line_consumes {name : String} {b : UInt8} {w : Bytes} (hn : ascii name = b :: w)
    {d : Reader} (hd : Consumes (fun _ => true) d) : Consumes (· == b) (readLine name d) := by
  unfold readLine
  rw [hn]
  exact (Consumes.lit b w).seq hd

theorem statusLine_consumes :
    Consumes (· == 79) (readGroup 3 (readLine "OperationStatus:" (readText isWord 1 32 4))) :=
  (line_consumes rfl (text_consumes isWord_not_isSpace 1 32 4)).group 3

theorem instanceLine_consumes :
    Consumes (· == 73) (readGroup 7 (readLine "InstanceName:" (readText isWord 1 32 8))) :=
  (line_consumes rfl (text_consumes isWord_not_isSpace 1 32 8)).group 7

theorem sessionLine_consumes :
    Consumes (· == 83) (readGroup 9 (readLine "SessionID:" (readFixed isWord 16 10))) :=
  (line_consumes rfl (fixed_consumes isWord 15 10)).group 9

theorem sessionID_consumes : Consumes (fun b => b == 83 || isSpace b) readSessionID :=
  sessionLine_consumes.opt (Consumes.cls isSpace) (beq_not_isSpace rfl)

theorem sessionID_disjoint (a : UInt8) (ha : a == 73) : (a == 83 || isSpace a) = false := by
  simp [beq_disjoint (by decide : (73 : UInt8) ≠ 83) a ha, beq_not_isSpace rfl a ha]

theorem instanceName_consumes :
    Consumes (fun b => b == 73 || (b == 83 || isSpace b)) readInstanceName :=
  instanceLine_consumes.opt sessionID_consumes sessionID_disjoint

theorem timeStamp_consumes : Consumes (· == 84) readTimeStamp :=
  (line_consumes rfl (fixed_consumes isDot 22 6)).seq instanceName_consumes

theorem contentLength_consumes : Consumes (· == 67) readContentLength :=
  (line_consumes rfl (text_consumes isDigit_not_isSpace 1 7 5)).seq timeStamp_consumes

theorem operationStatus_consumes : Consumes (fun b => b == 79 || b == 67) readOperationStatus :=
  statusLine_consumes.opt contentLength_consumes (beq_disjoint (by decide))

theorem header_consumes : Consumes (· == 79) readHeader :=
  (line_consumes rfl (text_consumes isWord_not_isSpace 1 32 2)).seq operationStatus_consumes

theorem headerPattern_reads : Reads headerPattern readHeader := by
  refine (text_reads isWord_not_isSpace (by decide) _ 2).seq ?_
  refine Reads.opt ((text_reads isWord_not_isSpace (by decide) _ 4).group 3) ?_
    statusLine_consumes contentLength_consumes (beq_disjoint (by decide))
  refine (text_reads isDigit_not_isSpace (by decide) _ 5).seq ?_
  refine (fixed_reads isDot _ 23 6).seq ?_
  refine Reads.opt ((text_reads isWord_not_isSpace (by decide) _ 8).group 7) ?_
    instanceLine_consumes sessionID_consumes sessionID_disjoint
  exact Reads.opt ((fixed_reads isWord _ 16 10).group 9) (Reads.cls isSpace)
    sessionLine_consumes (Consumes.cls isSpace) (beq_not_isSpace rfl)

end Pattern

section Fields

theorem line_frames {d : Reader} {gs : List Nat} (hd : Frames gs d) (name : String) :
    Frames gs (readLine name d) :=
  (Frames.lit (ascii name)).seq hd

theorem fixed_frames (p : UInt8 → Bool) (n i : Nat) : Frames [i] (readFixed p n i) :=
  ((Frames.exact p n).group i).seq (Frames.cls isSpace)

theorem sessionID_frames : Frames [9, 10] readSessionID :=
  Frames.opt ((line_frames (fixed_frames isWord 16 10) _).group 9) (Frames.cls isSpace)

theorem instanceName_frames : Frames [7, 8, 9, 10] readInstanceName :=
  Frames.opt ((line_frames (Frames.field isWord isSpace 1 32 8) _).group 7) sessionID_frames

theorem timeStamp_frames : Frames [6, 7, 8, 9, 10] readTimeStamp :=
  (line_frames (fixed_frames isDot 23 6) _).seq instanceName_frames

theorem readText_caps {p : UInt8 → Bool} {m n i : Nat} {x y : Pos UInt8}
    (h : readText p m n i x = some y) :
    ∃ w, y.caps i = some w ∧ (∀ b ∈ w, p b) ∧ m ≤ w.length ∧ w.length ≤ n := by
  simp only [readText, readField, Option.ite_none_right_eq_some] at h
  have hc := Frames.cls isSpace _ y h.right i List.not_mem_nil
  refine ⟨x.rest.takeWhile p, ?_, fun _ => List.mem_takeWhile_imp, h.left.left, h.left.right⟩
  simp [hc, Pos.set]

theorem readHeader_contentLength {x y : Pos UInt8} (h : readHeader x = some y) :
    ∃ w, y.caps 5 = some w ∧ (∀ b ∈ w, isDigit b) ∧ 1 ≤ w.length ∧ w.length ≤ 7 := by
  have contentLength : ∀ z, readContentLength z = some y →
      ∃ w, y.caps 5 = some w ∧ (∀ b ∈ w, isDigit b) ∧ 1 ≤ w.length ∧ w.length ≤ 7 := by
    intro z hz
    have ⟨z', hl, ht⟩ := Option.bind_eq_some_iff.mp hz
    have ⟨z'', _, hd⟩ := Option.bind_eq_some_iff.mp hl
    rw [timeStamp_frames z' y ht 5 (by decide)]
    exact readText_caps hd
  have ⟨z, _, hz⟩ := Option.bind_eq_some_iff.mp h
  simp only [readOperationStatus, readOpt] at hz
  split at hz <;> exact contentLength _ hz

theorem scanInt_digits {w : Bytes} (hd : ∀ b ∈ w, isDigit b) (hw : w ≠ []) :
    scanInt w = some (digitsValue w) := by
  obtain ⟨b, w, rfl⟩ := List.exists_cons_of_ne_nil hw
  have hb := hd b List.mem_cons_self
  have hm : b ≠ 45 := by rintro rfl; simp [isDigit] at hb
  have hp : b ≠ 43 := by rintro rfl; simp [isDigit] at hb
  have ht : (b :: w).takeWhile isDigit = b :: w := List.takeWhile_eq_self_iff.mpr hd
  simp [scanInt, scanDigits, isDigit_not_isSpace b hb, hm, hp, ht]

end Fields

section Match

-- `matchHeader` only looks at the groups below 11, and the reader decides them.
theorem assign_congr {p : Packet} {x y : Pos UInt8} (h : ∀ i, i ≠ 11 → y.caps i = x.caps i) :
    p.assign y = p.assign x := by
  simp [assign, str, h]

theorem assign_headLength (p : Packet) (x : Pos UInt8) :
    (p.assign x).2.headLength = (str x 1).length := by
  simp only [assign]
  split <;> rfl

theorem assign_digits {p : Packet} {x : Pos UInt8} {w : Bytes} (hc : x.caps 5 = some w)
    (hd : ∀ b ∈ w, isDigit b) (hw : w ≠ []) :
    (p.assign x).1 = true ∧ (p.assign x).2.contentLength = digitsValue w := by
  simp [assign, str, hc, scanInt_digits hd hw]

theorem matchBuffer_eq (p : Packet) (buf : Bytes) :
    p.matchBuffer buf =
      match readHeader (.start buf) with
      | some x => p.assign (x.capture (.start buf) 1)
      | none   => (false, p) := by
  have h := (headerPattern_reads.group 1).fullMatch isDot_or_isSpace 11 buf
  simp only [matchBuffer, pattern]
  cases hx : readHeader (.start buf)
  case none =>
    simp only [hx, Option.map_none] at h
    rw [h]
  case some x =>
    simp only [hx, Option.map_some] at h
    obtain ⟨y, hy, hc⟩ := h
    rw [hy]
    exact assign_congr hc

theorem matchBuffer_of_readHeader {p : Packet} {u v : Bytes} {x : Pos UInt8}
    (h : readHeader (.start (u ++ v)) = some x) (hv : x.rest = v) :
    p.matchBuffer (u ++ v) = p.assign (x.set 1 u) := by
  have hx : (Pos.start (u ++ v)).rest = u ++ x.rest := hv ▸ rfl
  simp only [matchBuffer_eq, h]
  rw [Pos.capture_append u hx]

-- Where a header matches, the buffer splits into the header and a rest, the packet length covers
-- the header, and every buffer that begins with the same header matches with the same result.
structure Matched (p : Packet) (buf : Bytes) (q : Packet) : Prop where
  pos           : 1 ≤ q.headLength
  contentLength : 0 ≤ q.contentLength
  local_        : ∃ u v, buf = u ++ v ∧ q.headLength = u.length ∧
    ∀ w, p.matchBuffer (u ++ w) = (true, q)

theorem matchBuffer_true {p q : Packet} {buf : Bytes} (h : p.matchBuffer buf = (true, q)) :
    p.Matched buf q := by
  cases hx : readHeader (.start buf)
  case none => simp [matchBuffer_eq, hx] at h
  case some x =>
    obtain ⟨u, ⟨a, ha, _⟩, hu, hv⟩ := header_consumes (.start buf) x hx
    have hb : buf = u ++ x.rest := hu
    have hm : ∀ w, p.matchBuffer (u ++ w) = p.assign (x.set 1 u) := fun w => by
      rw [matchBuffer_of_readHeader (hv w) rfl]
      exact assign_congr fun _ _ => rfl
    have hq : p.assign (x.set 1 u) = (true, q) := by rw [← hm x.rest, ← hb, h]
    have hl : q.headLength = u.length := by
      have := assign_headLength p (x.set 1 u)
      rw [hq] at this
      simpa [str, Pos.set] using this
    obtain ⟨w, hw, hd, hw₁, _⟩ := readHeader_contentLength hx
    have hc : q.contentLength = digitsValue w := by
      have := (assign_digits (p := p) (x := x.set 1 u) (w := w) (by simpa [Pos.set] using hw) hd
        (List.ne_nil_of_length_pos hw₁)).right
      rwa [hq] at this
    refine ⟨?_, hc ▸ Int.natCast_nonneg _, u, x.rest, hb, hl, fun v => hm v ▸ hq⟩
    cases u
    case nil  => simp at ha
    case cons b u =>
      rw [hl, List.length_cons]
      omega

-- The header pattern decides alone: `sscanf` succeeds on what the fifth group captures.
theorem matchBuffer_false {p q : Packet} {buf : Bytes} (h : p.matchBuffer buf = (false, q)) :
    readHeader (.start buf) = none ∧ q = p := by
  cases hx : readHeader (.start buf)
  case none => simp_all [matchBuffer_eq]
  case some x =>
    have ⟨w, hw, hd, hw₁, _⟩ := readHeader_contentLength hx
    have hc := (assign_digits (p := p) (x := x.capture (.start buf) 1) (w := w)
      (by simpa [Pos.capture, Pos.set] using hw) hd (List.ne_nil_of_length_pos hw₁)).left
    simp [matchBuffer_eq, hx] at h
    simp [h] at hc

-- A successful match overwrites every field.
theorem assign_true {p q : Packet} {x : Pos UInt8} (h : p.assign x = (true, q)) (p' : Packet) :
    p'.assign x = (true, q) := by
  simp only [assign] at h ⊢
  split at h <;> cases h
  rfl

theorem matchBuffer_congr {p q : Packet} {buf : Bytes} (h : p.matchBuffer buf = (true, q))
    (p' : Packet) : p'.matchBuffer buf = (true, q) := by
  simp only [matchBuffer] at h ⊢
  split at h
  case h_1 => exact assign_true h p'
  case h_2 => cases h

-- The bytes that `matchHeader` looks at.
def headerWindow (data : Bytes) (length : Int) : Bytes :=
  data.take (if length > 256 then 256 else length).toNat

theorem matchHeader_eq {p : Packet} {data : Bytes} {length : Int} (h : 0 < length) :
    p.matchHeader (some data) length = p.matchBuffer (headerWindow data length) := by
  rw [matchHeader, if_neg (Int.not_le.mpr h), headerWindow]

theorem matchHeader_true {p q : Packet} {data : Bytes} {length : Int}
    (h : p.matchHeader (some data) length = (true, q)) :
    0 < length ∧ p.Matched (headerWindow data length) q := by
  by_cases hl : length ≤ 0
  case pos => simp [matchHeader, hl] at h
  case neg =>
    have hl := Int.not_le.mp hl
    rw [matchHeader_eq hl] at h
    exact ⟨hl, matchBuffer_true h⟩

theorem matchHeader_false {p q : Packet} {data : Bytes} {length : Int}
    (h : p.matchHeader (some data) length = (false, q)) : q = p := by
  by_cases hl : length ≤ 0
  case pos =>
    simp only [matchHeader, hl, if_true, Prod.mk.injEq, true_and] at h
    exact h.symm
  case neg =>
    rw [matchHeader_eq (Int.not_le.mp hl)] at h
    exact (matchBuffer_false h).right

theorem matchHeader_congr {p q : Packet} {data : Bytes} {length : Int}
    (h : p.matchHeader (some data) length = (true, q)) (p' : Packet) :
    p'.matchHeader (some data) length = (true, q) := by
  have hl := (matchHeader_true h).left
  rw [matchHeader_eq hl] at h ⊢
  exact matchBuffer_congr h p'

theorem Matched.getPacketLength_pos {p q : Packet} {buf : Bytes} (h : p.Matched buf q) :
    1 ≤ q.getPacketLength := by
  have := h.pos
  have := h.contentLength
  unfold getPacketLength
  omega

theorem matchHeader_pos {p q : Packet} {data : Bytes} {length : Int}
    (h : p.matchHeader (some data) length = (true, q)) : 1 ≤ q.getPacketLength :=
  (matchHeader_true h).right.getPacketLength_pos

end Match

end Server8.Packet
