import Mathlib.Algebra.Ring.Nat
import Server8.Lib.Parse
import Server8.Protocol.RoundTrip

-- Which headers `matchHeader` accepts, and what it makes of them.

namespace Server8.Packet

open Regex Regex.Reads

section Pattern

theorem text_decides {p : UInt8 → Bool} (hp : ∀ b, p b → isSpace b = false) (m n : Nat)
    (name : String) (i : Nat) :
    Decides (field name (.group i (.rep (.cls p) m (some n)))) (readLine name (readText p m n i)) :=
  (Decides.lit _).seq (Decides.field hp i)

theorem fixed_decides (p : UInt8 → Bool) (name : String) (n i : Nat) :
    Decides (field name (.group i (.rep (.cls p) n (some n)))) (readLine name (readFixed p n i)) :=
  (Decides.lit _).seq (((Decides.exact p n).group i).seq (Decides.cls isSpace))

theorem headerPattern_decides : Decides headerPattern readHeader := by
  refine (text_decides isWord_not_isSpace 1 32 _ 2).seq ?_
  refine Decides.opt ((text_decides isWord_not_isSpace 1 32 _ 4).group 3) ?_
    statusLine_consumes contentLength_consumes (beq_disjoint (by decide))
  refine (text_decides isDigit_not_isSpace 1 7 _ 5).seq ?_
  refine (fixed_decides isDot _ 23 6).seq ?_
  refine Decides.opt ((text_decides isWord_not_isSpace 1 32 _ 8).group 7) ?_
    instanceLine_consumes sessionID_consumes sessionID_disjoint
  exact Decides.opt ((fixed_decides isWord _ 16 10).group 9) (Decides.cls isSpace)
    sessionLine_consumes (Consumes.cls isSpace) (beq_not_isSpace rfl)

end Pattern

section Captures

theorem line_sets {Q : Bytes → Prop} {i : Nat} {d : Reader} (h : Sets i Q d) (name : String) :
    Sets i Q (readLine name d) :=
  h.seq_right

theorem fixed_sets (p : UInt8 → Bool) (n i : Nat) : Sets i (IsField p n n) (readFixed p n i) :=
  (Sets.exact p n i).seq_left (Frames.cls isSpace) List.not_mem_nil

theorem contentLength_frames : Frames [5, 6, 7, 8, 9, 10] readContentLength :=
  (line_frames (Frames.field isDigit isSpace 1 7 5) _).seq timeStamp_frames

theorem operationStatus_frames : Frames [3, 4, 5, 6, 7, 8, 9, 10] readOperationStatus :=
  Frames.opt ((line_frames (Frames.field isWord isSpace 1 32 4) _).group 3) contentLength_frames

theorem operation_sets : Sets 2 (IsField isWord 1 32) readHeader :=
  (line_sets (Sets.field isWord isSpace 1 32 2) _).seq_left operationStatus_frames (by decide)

theorem timeStamp_sets : Sets 6 (IsField isDot 23 23) readHeader :=
  ((line_sets (fixed_sets isDot 23 6) _).seq_left instanceName_frames (by decide)).seq_right.opt.seq_right

theorem operationStatus_captures : Captures 4 (IsField isWord 1 32) readHeader := by
  refine ((line_frames (Frames.field isWord isSpace 1 32 2) _).captures (by decide)).seq (.opt ?_ ?_)
  · exact (line_sets (Sets.field isWord isSpace 1 32 4) _).captures.group (by decide)
  · exact contentLength_frames.captures (by decide)

theorem instanceName_captures : Captures 8 (IsField isWord 1 32) readInstanceName := by
  refine .opt ?_ (sessionID_frames.captures (by decide))
  exact (line_sets (Sets.field isWord isSpace 1 32 8) _).captures.group (by decide)

theorem sessionID_captures : Captures 10 (IsField isWord 16 16) readSessionID := by
  refine .opt ?_ ((Frames.cls isSpace).captures (by decide))
  exact (line_sets (fixed_sets isWord 16 10) _).captures.group (by decide)

-- What comes before the instance name leaves its group and the later ones alone.
theorem header_captures {Q : Bytes → Prop} {i : Nat} (hi : 7 ≤ i) (h : Captures i Q readInstanceName) :
    Captures i Q readHeader := by
  refine ((line_frames (Frames.field isWord isSpace 1 32 2) _).captures ?_).seq (.opt ?_ (.seq ?_ (.seq ?_ h)))
  · simp only [List.mem_singleton]
    omega
  · refine Frames.captures ((line_frames (Frames.field isWord isSpace 1 32 4) _).group 3) ?_
    simp only [List.mem_cons, List.not_mem_nil, or_false]
    omega
  · refine Frames.captures (line_frames (Frames.field isDigit isSpace 1 7 5) _) ?_
    simp only [List.mem_singleton]
    omega
  · refine Frames.captures (line_frames (fixed_frames isDot 23 6) _) ?_
    simp only [List.mem_singleton]
    omega

theorem sessionID_captures_header : Captures 10 (IsField isWord 16 16) readHeader :=
  header_captures (by decide) (.opt
    ((line_frames (Frames.field isWord isSpace 1 32 8) _).group 7 |>.captures (by decide)) sessionID_captures)

end Captures

section Soundness

-- An absent field is empty.
theorem str_isField {x : Pos UInt8} {i : Nat} {Q : Bytes → Prop} (h : ∀ w ∈ x.caps i, Q w) :
    str x i = [] ∨ Q (str x i) := by
  unfold str
  cases hc : x.caps i
  case none   => exact .inl rfl
  case some w => exact .inr (h w hc)

theorem toNat_ofNat {n : Nat} (h : n < 256) : (Char.ofNat n).toNat = n := by
  rw [Char.ofNat, dif_pos (Or.inl (by omega))]
  rfl

theorem ofDigitChars_lt {w : Bytes} (h : ∀ b ∈ w, isDigit b) (n : Nat) :
    Nat.ofDigitChars 10 (w.map fun b => Char.ofNat b.toNat) n < (n + 1) * 10 ^ w.length := by
  induction w generalizing n
  case nil => simp
  case cons b w ih =>
    have hb := h b List.mem_cons_self
    have hl := ih (fun c hc => h c (List.mem_cons_of_mem _ hc))
      (10 * n + ((Char.ofNat b.toNat).toNat - '0'.toNat))
    simp only [List.map_cons, Nat.ofDigitChars_cons]
    simp only [isDigit, Bool.and_eq_true, decide_eq_true_eq, UInt8.le_iff_toNat_le] at hb
    rw [toNat_ofNat b.toNat_lt] at hl ⊢
    refine Nat.lt_of_lt_of_le hl ?_
    rw [List.length_cons, Nat.pow_succ, ← Nat.mul_assoc, Nat.mul_right_comm]
    refine Nat.mul_le_mul_right _ ?_
    have h₀ : '0'.toNat = 48 := rfl
    have h₉ : UInt8.toNat 57 = 57 := rfl
    omega

theorem digitsValue_le {w : Bytes} (hd : ∀ b ∈ w, isDigit b) (hw : w.length ≤ 7) :
    digitsValue w ≤ 9999999 := by
  have h₁ : digitsValue w < (0 + 1) * 10 ^ w.length := ofDigitChars_lt hd 0
  have h₂ : 10 ^ w.length ≤ 10 ^ 7 := Nat.pow_le_pow_right (by decide) hw
  omega

-- The packet that `matchHeader` makes of what the pattern captures.
structure Decoded (x : Pos UInt8) (q : Packet) : Prop where
  operation       : q.operation = str x 2
  operationStatus : q.operationStatus = str x 4
  contentLength   : q.contentLength = digitsValue (str x 5)
  timeStamp       : q.timeStamp = str x 6
  instanceName    : q.instanceName = str x 8
  sessionID       : q.sessionID = str x 10

theorem decoded_of_readHeader {p : Packet} {x y : Pos UInt8} (h : readHeader x = some y) (u : Bytes) :
    ∃ q, p.assign (y.set 1 u) = (true, q) ∧ q.headLength = u.length ∧ Decoded y q := by
  obtain ⟨w, hw, hd, hw₁, _⟩ := readHeader_contentLength h
  have hs := scanInt_digits hd (List.ne_nil_of_length_pos hw₁)
  have hstr (i : Nat) (hi : i ≠ 1) : str (y.set 1 u) i = str y i := by
    simp [str, Pos.set, hi]
  have h₁ : str (y.set 1 u) 1 = u := by simp [str, Pos.set]
  have h₅ : str y 5 = w := by simp [str, hw]
  refine ⟨{
    headLength      := u.length
    operation       := str y 2
    operationStatus := str y 4
    contentLength   := digitsValue w
    timeStamp       := str y 6
    instanceName    := str y 8
    sessionID       := str y 10 }, ?_, rfl, rfl, rfl, by rw [h₅], rfl, rfl, rfl⟩
  simp [assign, hstr, h₁, h₅, hs]

theorem wellFormed_of_readHeader {q : Packet} {x y : Pos UInt8} (h : readHeader x = some y)
    (hx : ∀ i, x.caps i = none) (hq : Decoded y q) : q.WellFormed := by
  have hn {Q : Bytes → Prop} (i : Nat) : ∀ w ∈ x.caps i, Q w := by simp [hx i]
  obtain ⟨w₂, h₂, hw₂⟩ := operation_sets x y h
  obtain ⟨w₅, h₅, hd₅, _, hw₅⟩ := readHeader_contentLength h
  obtain ⟨w₆, h₆, hw₆⟩ := timeStamp_sets x y h
  constructor
  · rw [hq.operation, str, h₂]
    exact hw₂
  · rw [hq.operationStatus]
    exact str_isField (operationStatus_captures x y h (hn 4))
  · rw [hq.contentLength, str, h₅]
    exact ⟨Int.natCast_nonneg _, Int.ofNat_le.mpr (digitsValue_le hd₅ hw₅)⟩
  · rw [hq.timeStamp, str, h₆]
    exact hw₆
  · rw [hq.instanceName]
    exact str_isField (header_captures (by decide) instanceName_captures x y h (hn 8))
  · rw [hq.sessionID]
    exact str_isField (sessionID_captures_header x y h (hn 10))

-- The six fields of a packet, without the length of its header.
structure SameFields (p q : Packet) : Prop where
  operation       : p.operation = q.operation
  operationStatus : p.operationStatus = q.operationStatus
  contentLength   : p.contentLength = q.contentLength
  timeStamp       : p.timeStamp = q.timeStamp
  instanceName    : p.instanceName = q.instanceName
  sessionID       : p.sessionID = q.sessionID

-- What the window shows of a header is what the data has.
theorem readHeader_of_matchHeader {p q : Packet} {data : Bytes} {length : Int}
    (h : p.matchHeader (some data) length = (true, q)) :
    ∃ u y, readHeader (.start data) = some y ∧ data = u ++ y.rest ∧ q.headLength = u.length ∧
      q.headLength ≤ length ∧ Decoded y q := by
  have hl := (matchHeader_true h).left
  rw [matchHeader_eq hl] at h
  cases hx : readHeader (.start (headerWindow data length))
  case none   => simp [matchBuffer_eq, hx] at h
  case some x =>
    obtain ⟨u, _, hu, hall⟩ := header_consumes _ x hx
    have hw : headerWindow data length = u ++ x.rest := hu
    have hu' : u <+: data :=
      (List.prefix_append u x.rest).trans (hw ▸ List.take_prefix _ data)
    obtain ⟨v, hv⟩ := hu'
    rw [hw, matchBuffer_of_readHeader (hw ▸ hx) rfl] at h
    obtain ⟨q', hq', hlen, hd⟩ := decoded_of_readHeader (p := p) hx u
    rw [hq'] at h
    cases h
    refine ⟨u, ⟨v, x.caps⟩, ?_, hv.symm, hlen, ?_, ⟨hd.operation, hd.operationStatus,
      hd.contentLength, hd.timeStamp, hd.instanceName, hd.sessionID⟩⟩
    · rw [← hv]
      exact hall v
    · have := congrArg List.length hw
      simp only [headerWindow, List.length_take, List.length_append] at this
      omega

-- `matchHeader` accepts what the header pattern matches in one way only, takes the fields from it, and
-- they can be written again. What it does not accept leaves the packet alone.
theorem matchHeader_sound (p : Packet) (data : Option Bytes) (length : Int) :
    match p.matchHeader data length with
    | (true, q)  =>
      ∃ d y, data = some d ∧ (∃! y, Parses headerPattern (.start d) y) ∧
        Parses headerPattern (.start d) y ∧ (∃ u, d = u ++ y.rest ∧ q.headLength = u.length) ∧
        q.headLength ≤ length ∧ Decoded y q ∧ q.WellFormed ∧
        ∀ p' : Packet, ∃ q', p'.matchHeader (some q.createHeader.1) q.createHeader.1.length = (true, q') ∧
          SameFields q' q
    | (false, q) => q = p := by
  cases data
  case none   => rfl
  case some d =>
    split
    case h_2 q h => exact matchHeader_false h
    case h_1 q h =>
      obtain ⟨u, y, hy, hd, hu, hle, hdec⟩ := readHeader_of_matchHeader h
      have hp := (headerPattern_decides _ y).mpr hy
      have hwf := wellFormed_of_readHeader hy (fun _ => rfl) hdec
      refine ⟨d, y, rfl, headerPattern_decides.existsUnique hy, hp, ⟨u, hd, hu⟩, hle, hdec, hwf,
        fun p' => ⟨q.createHeader.2, ?_, ⟨rfl, rfl, rfl, rfl, rfl, rfl⟩⟩⟩
      simpa only [List.append_nil] using matchHeader_createHeader hwf p' []

end Soundness

section Window

variable {p q : Packet} {data : Bytes} {n m : Int}

theorem length_of_matchHeader (h : p.matchHeader (some data) n = (true, q)) :
    1 ≤ q.headLength ∧ q.headLength ≤ 256 ∧ q.headLength ≤ n := by
  obtain ⟨hpos, hm⟩ := matchHeader_true h
  obtain ⟨u, v, hw, hu, _⟩ := hm.local_
  have hl := congrArg List.length hw
  have := hm.pos
  simp only [headerWindow, List.length_take, List.length_append] at hl
  refine ⟨this, ?_, ?_⟩
  · omega
  · omega

-- A length that covers the header is as good as any other.
theorem matchHeader_of_length (h : p.matchHeader (some data) n = (true, q)) (hm : q.headLength ≤ m)
    (p' : Packet) : p'.matchHeader (some data) m = (true, q) := by
  obtain ⟨h₁, h₂, _⟩ := length_of_matchHeader h
  obtain ⟨u, v, hw, hu, hall⟩ := (matchHeader_true h).right.local_
  have hpre : u <+: data := (List.prefix_append u v).trans (hw ▸ List.take_prefix _ data)
  obtain ⟨w, rfl⟩ := hpre
  have hle : u.length ≤ (if m > 256 then 256 else m).toNat := by
    split <;> omega
  rw [matchHeader_eq (by omega), headerWindow, List.take_append, List.take_of_length_le hle]
  exact matchBuffer_congr (hall _) p'

-- What follows the header makes no difference, and neither does how much of it is there.
theorem matchHeader_window (h : n ≤ m) (p' : Packet) :
    (p.matchHeader (some data) n = (true, q) → p'.matchHeader (some data) m = (true, q)) ∧
      (p.matchHeader (some data) m = (true, q) → q.headLength ≤ n →
        p'.matchHeader (some data) n = (true, q)) :=
  ⟨fun hn => matchHeader_of_length hn (Int.le_trans (length_of_matchHeader hn).right.right h) p',
    fun hm hn => matchHeader_of_length hm hn p'⟩

theorem matchHeader_window_sample :
    ({} : Packet).matchHeader (some (sample.header ++ ascii "body")) 117 =
      (true, sample.createHeader.2) := by
  have h : ({} : Packet).matchHeader (some (sample.header ++ ascii "body")) 113 =
      (true, sample.createHeader.2) := matchHeader_header sample_wellFormed {} _ (by decide +kernel)
  exact (matchHeader_window (by decide) {}).left h

end Window

section Limits

theorem line_spans {lo hi : Nat} {d : Reader} (h : Spans lo hi d) (name : String) :
    Spans ((ascii name).length + lo) ((ascii name).length + hi) (readLine name d) :=
  (Spans.lit _).seq h

theorem fixed_spans (p : UInt8 → Bool) (n i : Nat) : Spans (n + 1) (n + 1) (readFixed p n i) :=
  ((Spans.exact p n).group i).seq (Spans.cls isSpace)

theorem sessionID_spans : Spans 1 28 readSessionID :=
  (Spans.opt ((line_spans (fixed_spans isWord 16 10) "SessionID:").group 9) (Spans.cls isSpace)).mono
    (by decide) (by decide)

theorem instanceName_spans : Spans 1 74 readInstanceName :=
  (Spans.opt ((line_spans (Spans.field isWord isSpace 1 32 8) "InstanceName:").group 7)
    sessionID_spans).mono (by decide) (by decide)

theorem timeStamp_spans : Spans 35 108 readTimeStamp :=
  ((line_spans (fixed_spans isDot 23 6) "TimeStamp:").seq instanceName_spans).mono
    (by decide) (by decide)

theorem contentLength_spans : Spans 51 130 readContentLength :=
  ((line_spans (Spans.field isDigit isSpace 1 7 5) "ContentLength:").seq timeStamp_spans).mono
    (by decide) (by decide)

theorem operationStatus_spans : Spans 51 179 readOperationStatus :=
  (Spans.opt ((line_spans (Spans.field isWord isSpace 1 32 4) "OperationStatus:").group 3)
    contentLength_spans).mono (by decide) (by decide)

-- The shortest header and the longest one.
theorem header_spans : Spans 63 222 readHeader :=
  ((line_spans (Spans.field isWord isSpace 1 32 2) "Operation:").seq operationStatus_spans).mono
    (by decide) (by decide)

-- The limits of the protocol description, of which `sendData` checks the last.
structure WithinLimits (q : Packet) : Prop where
  headLength    : q.headLength < 256
  contentLength : 0 ≤ q.contentLength ∧ q.contentLength ≤ 8388608
  packetLength  : 0 < q.getPacketLength ∧ q.getPacketLength ≤ 0x800100

-- A header is within the limits if and only if the number in its line `ContentLength` is.
theorem withinLimits_iff {p q : Packet} {data : Bytes} {length : Int}
    (h : p.matchHeader (some data) length = (true, q)) :
    q.WithinLimits ↔
      ∀ y, Parses headerPattern (.start data) y → digitsValue (str y 5) ≤ 8388608 := by
  obtain ⟨u, y, hy, hd, hu, _, hdec⟩ := readHeader_of_matchHeader h
  have hl := header_spans _ y hy
  have hlen := congrArg List.length hd
  simp only [Pos.start, List.length_append] at hl hlen
  have hc := hdec.contentLength
  constructor
  case mp =>
    intro hw z hz
    rw [headerPattern_decides, hy] at hz
    cases hz
    have := hw.contentLength
    omega
  case mpr =>
    intro hall
    have := hall y ((headerPattern_decides _ y).mpr hy)
    refine ⟨by omega, ⟨by omega, by omega⟩, matchHeader_pos h, ?_⟩
    unfold getPacketLength
    omega

theorem withinLimits_sample :
    sample.createHeader.2.WithinLimits ∧
      ∀ y, Parses headerPattern (.start sample.header) y → digitsValue (str y 5) ≤ 8388608 := by
  have h := matchHeader_header sample_wellFormed {} [] (Int.le_refl _)
  rw [List.append_nil] at h
  have hw : sample.createHeader.2.WithinLimits :=
    ⟨by decide +kernel, by decide +kernel, by decide +kernel⟩
  exact ⟨hw, (withinLimits_iff h).mp hw⟩

-- A header that declares more than the protocol allows.
def oversized : Packet :=
  { sample with contentLength := 9999999 }

theorem oversized_wellFormed : oversized.WellFormed :=
  ⟨by decide +kernel, by decide +kernel, by decide +kernel, by decide +kernel, by decide +kernel,
    by decide +kernel⟩

theorem oversized_not_withinLimits :
    ¬∀ (p q : Packet) (data : Bytes) (length : Int),
      p.matchHeader (some data) length = (true, q) → q.WithinLimits := by
  intro h
  have hm := matchHeader_header oversized_wellFormed {} [] (Int.le_refl _)
  have := (h {} _ _ _ hm).contentLength
  exact absurd this.right (by decide)

end Limits

end Server8.Packet
