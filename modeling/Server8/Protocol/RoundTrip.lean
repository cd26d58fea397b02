import Server8.Protocol.Header

namespace Server8.Packet

open Regex Regex.Reads

def IsField (p : UInt8 → Bool) (m n : Nat) (w : Bytes) : Prop :=
  (∀ b ∈ w, p b) ∧ m ≤ w.length ∧ w.length ≤ n

instance (p : UInt8 → Bool) (m n : Nat) (w : Bytes) : Decidable (IsField p m n w) :=
  inferInstanceAs (Decidable (_ ∧ _))

-- The lexical domains of the protocol description.
structure WellFormed (p : Packet) : Prop where
  operation       : IsField isWord 1 32 p.operation
  operationStatus : p.operationStatus = [] ∨ IsField isWord 1 32 p.operationStatus
  contentLength   : 0 ≤ p.contentLength ∧ p.contentLength ≤ 9999999
  timeStamp       : IsField isDot 23 23 p.timeStamp
  instanceName    : p.instanceName = [] ∨ IsField isWord 1 32 p.instanceName
  sessionID       : p.sessionID = [] ∨ IsField isWord 16 16 p.sessionID

section Decimal

theorem toNat_ofNat_isDigit {c : Char} (h : c.isDigit) :
    Char.ofNat (UInt8.ofNat c.toNat).toNat = c := by
  have hc : c.toNat < 256 := by
    simp [Char.isDigit, UInt32.le_iff_toNat_le] at h
    exact Nat.lt_of_le_of_lt h.right (by decide)
  simp [Nat.mod_eq_of_lt hc, Char.ofNat_toNat]

theorem isDigit_ofNat {c : Char} (h : c.isDigit) : isDigit (UInt8.ofNat c.toNat) := by
  simp only [Char.isDigit, UInt32.le_iff_toNat_le, decide_eq_true_eq, Bool.and_eq_true] at h
  have h₁ : 48 ≤ c.toNat := h.left
  have h₂ : c.toNat ≤ 57 := h.right
  simp [isDigit, UInt8.le_iff_toNat_le, Nat.mod_eq_of_lt (show c.toNat < 256 by omega), h₁, h₂]

theorem decimal_isField {n : Int} (h₁ : 0 ≤ n) (h₂ : n ≤ 9999999) :
    IsField isDigit 1 7 (decimal n) := by
  obtain ⟨n, rfl⟩ := Int.eq_ofNat_of_zero_le h₁
  refine ⟨?_, ?_, ?_⟩
  · intro b hb
    obtain ⟨c, hc, rfl⟩ := List.mem_map.mp hb
    exact isDigit_ofNat (Nat.isDigit_of_mem_toDigits (by decide) (by decide) hc)
  · simpa [decimal] using Nat.succ_le_of_lt Nat.length_toDigits_pos
  · simp only [decimal, List.length_map]
    exact (Nat.length_toDigits_le_iff (by decide) (by decide)).mpr (by omega)

theorem digitsValue_decimal {n : Int} (h : 0 ≤ n) : digitsValue (decimal n) = n := by
  obtain ⟨n, rfl⟩ := Int.eq_ofNat_of_zero_le h
  have hm : ∀ c ∈ Nat.toDigits 10 n, Char.ofNat (UInt8.ofNat c.toNat).toNat = c := fun c hc =>
    toNat_ofNat_isDigit (Nat.isDigit_of_mem_toDigits (by decide) (by decide) hc)
  simp only [digitsValue, decimal, List.map_map]
  have hid := List.map_congr_left (g := id) hm
  simp only [Function.comp_def, hid, List.map_id, Nat.ofDigitChars_ten_toDigits]

end Decimal

section Lines

theorem readLine_line {name : String} {d : Reader} {value rest : Bytes} {caps : Nat → Option Bytes} :
    readLine name d ⟨line name value ++ rest, caps⟩ = d ⟨value ++ newline :: rest, caps⟩ := by
  have h : (ascii name).isPrefixOf? (line name value ++ rest) = some (value ++ newline :: rest) := by
    rw [List.isPrefixOf?_eq_some_iff_append_eq]
    simp [line]
  simp [readLine, readLit, h]

theorem readText_value {p : UInt8 → Bool} (hp : p newline = false) {m n : Nat} {value : Bytes}
    (hv : IsField p m n value) (i : Nat) (rest : Bytes) (caps : Nat → Option Bytes) :
    readText p m n i ⟨value ++ newline :: rest, caps⟩ =
      some ⟨rest, Function.update caps i (some value)⟩ := by
  have ⟨hall, hm, hn⟩ := hv
  simp [readText, readField, readCls, Pos.set, List.takeWhile_append_of_pos hall,
    List.dropWhile_append_of_pos hall, hp, hm, hn, isSpace_newline]

theorem readFixed_value {p : UInt8 → Bool} {n : Nat} {value : Bytes} (hv : IsField p n n value)
    (i : Nat) (rest : Bytes) (caps : Nat → Option Bytes) :
    readFixed p n i ⟨value ++ newline :: rest, caps⟩ =
      some ⟨rest, Function.update caps i (some value)⟩ := by
  have ⟨hall, hm, hn⟩ := hv
  have hl : n = value.length := Nat.le_antisymm hm hn
  subst hl
  have he : readExact p value.length ⟨value ++ newline :: rest, caps⟩ =
      some ⟨newline :: rest, caps⟩ := by
    simp [readExact]
    exact hall
  simp only [readFixed, he, Option.map_some, Option.bind_some]
  rw [Pos.capture_append value rfl]
  simp [readCls, Pos.set, isSpace_newline]

-- An optional line: absent when the field is empty, and then the reader goes on where it is.
theorem readOpt_optionalLine {name : String} {b : UInt8} {d e : Reader} {i j : Nat}
    {value rest : Bytes} {caps : Nat → Option Bytes}
    (hd : Consumes (· == b) (readGroup j (readLine name d)))
    (hb : rest.head? ≠ some b)
    (hv : value = [] ∨ ∀ caps, d ⟨value ++ newline :: rest, caps⟩ =
      some ⟨rest, Function.update caps i (some value)⟩)
    (hi : caps i = none) (hij : i ≠ j) :
    ∃ caps', readOpt [j, i] (readGroup j (readLine name d)) e ⟨optionalLine name value ++ rest, caps⟩
        = e ⟨rest, caps'⟩ ∧
      (caps' i).getD [] = value ∧ ∀ k, k ≠ i → k ≠ j → caps' k = caps k := by
  cases value
  case nil =>
    refine ⟨caps, ?_, by simp [hi], fun _ _ _ => rfl⟩
    apply readOpt_of_none
    cases h : readGroup j (readLine name d) (Pos.clear ⟨optionalLine name [] ++ rest, caps⟩ [j, i])
    case none   => rfl
    case some y =>
      have ⟨a, ha, hab⟩ := hd.first h
      simp_all [optionalLine]
  case cons a w =>
    let cleared := (Pos.clear ⟨line name (a :: w) ++ rest, caps⟩ [j, i]).caps
    refine ⟨Function.update (Function.update cleared i (some (a :: w))) j (some (line name (a :: w))),
      readOpt_of_some ?_, by simp [hij], fun k hi hj => by simp [cleared, Pos.clear, hi, hj]⟩
    simp only [readGroup, optionalLine, List.length_cons, Nat.zero_lt_succ, if_true, Pos.clear]
    rw [readLine_line, hv.resolve_left (List.cons_ne_nil a w), Option.map_some,
      Pos.capture_append (line name (a :: w)) rfl]
    rfl

theorem head?_line (name : String) (value rest : Bytes) (h : ascii name ≠ []) :
    (line name value ++ rest).head? = (ascii name).head? := by
  obtain ⟨b, w, hb⟩ := List.exists_cons_of_ne_nil h
  simp [line, hb]

theorem head?_optionalLine {name : String} {value rest : Bytes} {b : UInt8} (hn : ascii name ≠ [])
    (hb : (ascii name).head? ≠ some b) (hr : rest.head? ≠ some b) :
    (optionalLine name value ++ rest).head? ≠ some b := by
  unfold optionalLine
  split
  · rwa [head?_line name value rest hn]
  · exact hr

theorem readOperationStatus_line {value rest : Bytes} (caps : Nat → Option Bytes)
    (hv : value = [] ∨ IsField isWord 1 32 value) (hr : rest.head? ≠ some 79) (hc : caps 4 = none) :
    ∃ caps', readOperationStatus ⟨optionalLine "OperationStatus:" value ++ rest, caps⟩ =
        readContentLength ⟨rest, caps'⟩ ∧
      (caps' 4).getD [] = value ∧ ∀ k, k ≠ 4 → k ≠ 3 → caps' k = caps k :=
  readOpt_optionalLine statusLine_consumes hr (hv.imp_right fun h => readText_value rfl h 4 rest) hc
    (by decide)

theorem readInstanceName_line {value rest : Bytes} (caps : Nat → Option Bytes)
    (hv : value = [] ∨ IsField isWord 1 32 value) (hr : rest.head? ≠ some 73) (hc : caps 8 = none) :
    ∃ caps', readInstanceName ⟨optionalLine "InstanceName:" value ++ rest, caps⟩ =
        readSessionID ⟨rest, caps'⟩ ∧
      (caps' 8).getD [] = value ∧ ∀ k, k ≠ 8 → k ≠ 7 → caps' k = caps k :=
  readOpt_optionalLine instanceLine_consumes hr (hv.imp_right fun h => readText_value rfl h 8 rest) hc
    (by decide)

theorem readSessionID_line {value : Bytes} (rest : Bytes) (caps : Nat → Option Bytes)
    (hv : value = [] ∨ IsField isWord 16 16 value) (hr : rest.head? ≠ some 83)
    (hc : caps 10 = none) :
    ∃ caps', readSessionID ⟨optionalLine "SessionID:" value ++ rest, caps⟩ =
        readCls isSpace ⟨rest, caps'⟩ ∧
      (caps' 10).getD [] = value ∧ ∀ k, k ≠ 10 → k ≠ 9 → caps' k = caps k :=
  readOpt_optionalLine sessionLine_consumes hr (hv.imp_right fun h => readFixed_value h 10 rest) hc
    (by decide)

end Lines

-- The reader on a header that `createHeader` wrote: it stops exactly behind it, and its groups hold
-- the fields.
theorem readHeader_header {p : Packet} (hp : p.WellFormed) (body : Bytes) :
    ∃ caps, readHeader (.start (p.header ++ body)) = some ⟨body, caps⟩ ∧
      (caps 2).getD [] = p.operation ∧ (caps 4).getD [] = p.operationStatus ∧
      caps 5 = some (decimal p.contentLength) ∧ (caps 6).getD [] = p.timeStamp ∧
      (caps 8).getD [] = p.instanceName ∧ (caps 10).getD [] = p.sessionID := by
  let rest₁ := optionalLine "SessionID:" p.sessionID ++ newline :: body
  let rest₂ := optionalLine "InstanceName:" p.instanceName ++ rest₁
  let rest₃ := line "ContentLength:" (decimal p.contentLength) ++ (line "TimeStamp:" p.timeStamp ++ rest₂)
  have hsplit : p.header ++ body =
      line "Operation:" p.operation ++ (optionalLine "OperationStatus:" p.operationStatus ++ rest₃) := by
    simp [header, rest₁, rest₂, rest₃]
  have hdec := decimal_isField hp.contentLength.left hp.contentLength.right
  have h₃ : rest₃.head? ≠ some 79 := by
    rw [head?_line _ _ _ (by decide)]
    decide
  have h₁ : rest₁.head? ≠ some 73 :=
    head?_optionalLine (by decide) (by decide) (by simp [newline])
  have ⟨caps₁, he₁, hv₁, hc₁⟩ := readOperationStatus_line
    (Function.update (fun _ => none) 2 (some p.operation)) hp.operationStatus h₃ rfl
  have ⟨caps₂, he₂, hv₂, hc₂⟩ := readInstanceName_line
    (Function.update (Function.update caps₁ 5 (some (decimal p.contentLength))) 6 (some p.timeStamp))
    hp.instanceName h₁ (by simp [hc₁])
  have ⟨caps₃, he₃, hv₃, hc₃⟩ := readSessionID_line (newline :: body) caps₂ hp.sessionID
    (by simp [newline]) (by simp [hc₂, hc₁])
  refine ⟨caps₃, ?_, ?_, ?_, ?_, ?_, ?_, hv₃⟩
  · calc readHeader (.start (p.header ++ body))
      _ = readOperationStatus ⟨optionalLine "OperationStatus:" p.operationStatus ++ rest₃, _⟩ := by
        simp only [readHeader, Pos.start, hsplit]
        rw [readLine_line, readText_value rfl hp.operation, Option.bind_some]
      _ = readContentLength ⟨rest₃, caps₁⟩ := he₁
      _ = readTimeStamp ⟨line "TimeStamp:" p.timeStamp ++ rest₂, _⟩ := by
        simp only [readContentLength, rest₃]
        rw [readLine_line, readText_value rfl hdec, Option.bind_some]
      _ = readInstanceName ⟨rest₂, _⟩ := by
        simp only [readTimeStamp]
        rw [readLine_line, readFixed_value hp.timeStamp, Option.bind_some]
      _ = readSessionID ⟨rest₁, caps₂⟩ := he₂
      _ = readCls isSpace ⟨newline :: body, caps₃⟩ := he₃
      _ = some ⟨body, caps₃⟩ := rfl
  all_goals simp_all

section Length

theorem length_line (name : String) (value : Bytes) :
    (line name value).length = (ascii name).length + value.length + 1 := by
  simp [line]
  omega

theorem length_optionalLine_le (name : String) {p : UInt8 → Bool} {m n : Nat} {value : Bytes}
    (hv : value = [] ∨ IsField p m n value) :
    (optionalLine name value).length ≤ (ascii name).length + n + 1 := by
  unfold optionalLine
  split
  case isFalse => simp
  case isTrue h =>
    have ⟨_, _, hn⟩ := hv.resolve_left (List.ne_nil_of_length_pos h)
    rw [length_line]
    omega

theorem length_header {p : Packet} (hp : p.WellFormed) : p.header.length ≤ 222 := by
  have h₁ := hp.operation.right.right
  have h₂ := length_optionalLine_le "OperationStatus:" hp.operationStatus
  have h₃ := (decimal_isField hp.contentLength.left hp.contentLength.right).right.right
  have h₄ := hp.timeStamp.right.right
  have h₅ := length_optionalLine_le "InstanceName:" hp.instanceName
  have h₆ := length_optionalLine_le "SessionID:" hp.sessionID
  simp only [header, List.length_append, length_line, List.length_singleton]
  simp only [show (ascii "Operation:").length = 10 from rfl,
    show (ascii "OperationStatus:").length = 16 from rfl,
    show (ascii "ContentLength:").length = 14 from rfl,
    show (ascii "TimeStamp:").length = 10 from rfl,
    show (ascii "InstanceName:").length = 13 from rfl,
    show (ascii "SessionID:").length = 10 from rfl] at *
  omega

end Length

theorem matchBuffer_header {p : Packet} (hp : p.WellFormed) (q : Packet) (body : Bytes) :
    q.matchBuffer (p.header ++ body) = (true, p.createHeader.2) := by
  have ⟨caps, h, h₂, h₄, h₅, h₆, h₈, h₁₀⟩ := readHeader_header hp body
  have hdec := decimal_isField hp.contentLength.left hp.contentLength.right
  have hne : decimal p.contentLength ≠ [] := List.ne_nil_of_length_pos hdec.right.left
  rw [matchBuffer_of_readHeader h rfl]
  simp [assign, str, Pos.set, createHeader, h₂, h₄, h₅, h₆, h₈, h₁₀, scanInt_digits hdec.left hne,
    digitsValue_decimal hp.contentLength.left]

theorem header_ne_nil (p : Packet) : p.header ≠ [] := by
  simp [header]

-- The window of 256 bytes holds the whole header.
theorem matchHeader_header {p : Packet} (hp : p.WellFormed) (q : Packet) (rest : Bytes) {n : Int}
    (hn : p.header.length ≤ n) :
    q.matchHeader (some (p.header ++ rest)) n = (true, p.createHeader.2) := by
  have h₁ := length_header hp
  have h₂ := List.length_pos_of_ne_nil p.header_ne_nil
  have hw : p.header.length ≤ (if n > 256 then 256 else n).toNat := by
    split <;> omega
  have hpos : ¬n ≤ 0 := by omega
  simp only [matchHeader, hpos, if_false]
  rw [List.take_append, List.take_of_length_le hw]
  exact matchBuffer_header hp q _

-- Decoding gives back what was encoded: the six fields, and the length of the header.
theorem matchHeader_createHeader {p : Packet} (hp : p.WellFormed) (q : Packet) (body : Bytes) :
    q.matchHeader (some (p.createHeader.1 ++ body)) (p.createHeader.1 ++ body).length =
      (true, p.createHeader.2) :=
  matchHeader_header hp q body (by rw [List.length_append]; exact Int.ofNat_le.mpr (Nat.le_add_right ..))

-- The example of the protocol description.
def sample : Packet where
  operation    := ascii "NULL"
  timeStamp    := ascii "YYYY/MM/DD HH:MM:SS:MMM"
  instanceName := ascii "Server"
  sessionID    := ascii "AAAABBBBCCCCDDDD"

theorem sample_wellFormed : sample.WellFormed :=
  ⟨by decide +kernel, by decide +kernel, by decide +kernel, by decide +kernel, by decide +kernel,
    by decide +kernel⟩

theorem matchHeader_createHeader_sample :
    ({} : Packet).matchHeader (some (sample.createHeader.1 ++ ascii "body"))
      (sample.createHeader.1 ++ ascii "body").length = (true, sample.createHeader.2) :=
  matchHeader_createHeader sample_wellFormed {} (ascii "body")

end Server8.Packet
