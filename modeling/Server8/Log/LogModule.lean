import Server8.Protocol.Packet
import Server8.Lib.Runs

-- `LogModule` of svrutil.h: a log file with a buffer in front of it.

namespace Server8

-- What an `int` holds after an overflow.
def toInt (n : Int) : Int :=
  Int.bmod n 4294967296

structure SYSTEMTIME where
  wYear         : Nat
  wMonth        : Nat
  wDay          : Nat
  wHour         : Nat
  wMinute       : Nat
  wSecond       : Nat
  wMilliseconds : Nat
  deriving DecidableEq, Repr

-- `%0wd` of `sprintf`.
def padded (w n : Nat) : Bytes :=
  List.replicate (w - (decimal n).length) 48 ++ decimal n

def SYSTEMTIME.timeStamp (t : SYSTEMTIME) : Bytes :=
  ascii "[" ++ padded 4 t.wYear ++ ascii "/" ++ padded 2 t.wMonth ++ ascii "/" ++ padded 2 t.wDay ++
    ascii " " ++ padded 2 t.wHour ++ ascii ":" ++ padded 2 t.wMinute ++ ascii ":" ++
    padded 2 t.wSecond ++ ascii ":" ++ padded 3 t.wMilliseconds ++ ascii "]: "

-- `file` is what was written to `pFile` since it was opened, and `console` what was written to
-- `stdout`.
structure LogModule where
  filePath : String
  buffer   : Bytes
  index    : Int
  limit    : Int
  file     : Bytes
  console  : Bytes
  deriving DecidableEq, Repr

namespace LogModule

variable {α : Type} (expand : Bytes → α → Bytes)

-- The program ends when the size is negative or the file cannot be opened. What is in a new buffer is
-- never read.
def new (file : String) (bufSize : Int32) (opened : Bool) : Option LogModule :=
  if bufSize.toInt < 0 then none
  else if file = "console" then some ⟨file, [], 0, bufSize.toInt, [], []⟩
  else if !opened then none
  else some ⟨file, List.replicate bufSize.toInt.toNat 0, 0, bufSize.toInt, [], []⟩

def flush (log : LogModule) : LogModule :=
  if log.filePath ≠ "console" ∧ 0 < log.index then
    { log with file := log.file ++ log.buffer.take log.index.toNat, index := 0 }
  else log

-- The result is what was put into `tempBuffer`, which must have room for a terminating zero too.
def vsprintf_s (size : Int) (format : Bytes) (vl : α) : Option Bytes :=
  if (expand format vl).length < size then some (expand format vl) else none

-- A copy to `buffer + index` with room for `size` bytes. What does not fit is not copied, and the room
-- is filled with zeros.
def memcpy_s (buffer : Bytes) (index size : Int) (src : Bytes) : Bool × Bytes :=
  if src.length ≤ size then
    (true, buffer.take index.toNat ++ src ++ buffer.drop (index.toNat + src.length))
  else (false, buffer.take index.toNat ++ List.replicate size.toNat 0)

-- What `write` and `print` have in common.
def put (log : LogModule) (format : Bytes) (vl : α) : Int × LogModule :=
  if log.filePath = "console" then
    (toInt (expand format vl).length, { log with console := log.console ++ expand format vl })
  else if log.limit ≤ toInt format.length then
    (toInt (expand format vl).length, { log.flush with file := log.flush.file ++ expand format vl })
  else match vsprintf_s expand log.limit format vl with
    | none            => (-1, log)
    | some tempBuffer =>
      if log.limit ≤ toInt (log.index + tempBuffer.length) then
        (tempBuffer.length, { log with
          file  := log.file ++ log.buffer.take log.index.toNat ++ tempBuffer
          index := 0 })
      else match memcpy_s log.buffer log.index (log.limit - log.index) tempBuffer with
        | (true, buffer)  =>
          (tempBuffer.length, { log with buffer, index := log.index + tempBuffer.length })
        | (false, buffer) => (-1, { log with buffer })

def writeFormat (time : SYSTEMTIME) (str : Bytes) : Bytes :=
  time.timeStamp ++ str ++ [newline]

def printFormat (str : Bytes) : Bytes :=
  str ++ [newline]

def write (log : LogModule) (time : SYSTEMTIME) (str : Bytes) (vl : α) : Int × LogModule :=
  log.put expand (writeFormat time str) vl

def print (log : LogModule) (str : Bytes) (vl : α) : Int × LogModule :=
  log.put expand (printFormat str) vl

inductive Call (α : Type)
  | write (time : SYSTEMTIME) (str : Bytes) (vl : α)
  | print (str : Bytes) (vl : α)
  | flush
  deriving DecidableEq, Repr

def step (log : LogModule) : Call α → Except Empty LogModule
  | .write time str vl => .ok (log.write expand time str vl).2
  | .print str vl      => .ok (log.print expand str vl).2
  | .flush             => .ok log.flush

-- The fully expanded message of a call.
def message : Call α → Bytes
  | .write time str vl => expand (writeFormat time str) vl
  | .print str vl      => expand (printFormat str) vl
  | .flush             => []

def messages (calls : List (Call α)) : Bytes :=
  calls.flatMap (message expand)

-- What was written to the file, and what the buffer holds back.
def content (log : LogModule) : Bytes :=
  log.file ++ log.buffer.take log.index.toNat

structure Keeps (log : LogModule) (text : Bytes) : Prop where
  content : log.content = text
  index   : 0 ≤ log.index ∧ (log.index < log.limit ∨ log.index = 0)
  flush   : log.flush.file = text

-- A message gets through directly, by the length of its format, or it fits in the temporary buffer,
-- and so does its terminating zero, and with what the buffer holds it is not too much for an `int`.
def Fits (log : LogModule) (format : Bytes) (vl : α) : Bool :=
  decide (log.limit ≤ toInt format.length ∨
    (expand format vl).length < max log.limit 1 ∧ log.index + (expand format vl).length ≤ 2147483647)

def fits (log : LogModule) : Call α → Bool
  | .write time str vl => log.Fits expand (writeFormat time str) vl
  | .print str vl      => log.Fits expand (printFormat str) vl
  | .flush             => true

-- A log that was opened on a file.
structure Buffered (log : LogModule) : Prop where
  filePath : log.filePath ≠ "console"
  length   : log.buffer.length = log.limit.toNat
  index    : 0 ≤ log.index ∧ (log.index < log.limit ∨ log.index = 0)
  limit    : 0 ≤ log.limit ∧ log.limit ≤ 2147483647

theorem Buffered.new {file : String} {bufSize : Int32} {opened : Bool} {log : LogModule}
    (hf : file ≠ "console") (h : new file bufSize opened = some log) :
    log.Buffered ∧ log.content = [] := by
  unfold LogModule.new at h
  split at h
  case isTrue     => cases h
  case isFalse hn =>
    split at h
    case isTrue  => cases h
    case isFalse =>
      cases h
      refine ⟨⟨hf, List.length_replicate, ⟨Int.le_refl _, .inr rfl⟩, ?_, ?_⟩, rfl⟩
      · exact Int.not_lt.mp hn
      · exact bufSize.toInt_le

section Buffered

variable {expand} {log : LogModule} {format : Bytes} {vl : α}

theorem Buffered.file_flush (h : log.Buffered) : log.flush.file = log.content := by
  unfold flush content
  split
  case isTrue     => rfl
  case isFalse hn =>
    have : log.index = 0 := by
      have := h.index.left
      by_contra hne
      exact hn ⟨h.filePath, by omega⟩
    rw [this]
    exact (List.append_nil _).symm

theorem Buffered.flush (h : log.Buffered) : log.flush.Buffered ∧ log.flush.index = 0 := by
  unfold LogModule.flush
  split
  case isTrue     => exact ⟨⟨h.filePath, h.length, ⟨Int.le_refl _, .inr rfl⟩, h.limit⟩, rfl⟩
  case isFalse hn =>
    refine ⟨h, ?_⟩
    have := h.index.left
    by_contra hne
    exact hn ⟨h.filePath, by omega⟩

theorem Buffered.keeps (h : log.Buffered) : log.Keeps log.content :=
  ⟨rfl, h.index, h.file_flush⟩

theorem content_of_index (h : log.index = 0) : log.content = log.file := by
  simp [content, h]

theorem toInt_of_le {n : Int} (h : 0 ≤ n) (hn : n ≤ 2147483647) : toInt n = n := by
  unfold toInt
  exact Int.bmod_eq_of_le_mul_two (by omega) (by omega)

theorem toInt_of_lt {n : Int} (h : 2147483647 < n) (hn : n < 4294967296) : toInt n < 0 := by
  unfold toInt
  rw [Int.bmod_def]
  split <;> omega

-- A message that the buffer has room for stands behind what the buffer held.
theorem Buffered.append {temp : Bytes} (h : log.Buffered) (hlt : log.index + temp.length < log.limit) :
    let log' := { log with
      buffer := log.buffer.take log.index.toNat ++ temp ++ log.buffer.drop (log.index.toNat + temp.length)
      index  := log.index + temp.length }
    log'.Buffered ∧ log'.content = log.content ++ temp := by
  have hi := h.index.left
  have hb : log.index.toNat + temp.length ≤ log.buffer.length := by
    rw [h.length]
    omega
  have hl : (log.index + temp.length).toNat = log.index.toNat + temp.length := by omega
  refine ⟨⟨h.filePath, ?_, ⟨by simp only; omega, .inl hlt⟩, h.limit⟩, ?_⟩
  · simp only [List.length_append, List.length_take, List.length_drop, ← h.length]
    omega
  · simp only [content, hl, List.append_assoc]
    congr 1
    rw [← List.append_assoc, List.take_left']
    simp only [List.length_append, List.length_take]
    omega

theorem Buffered.put (h : log.Buffered) (format : Bytes) (vl : α) :
    (log.put expand format vl).2.Buffered ∧
      (log.Fits expand format vl = true →
        (log.put expand format vl).2.content = log.content ++ expand format vl) ∧
      (log.Fits expand format vl = false →
        (log.put expand format vl).2.content = log.content ∧ expand format vl ≠ []) := by
  have hi := h.index
  have hm := h.limit
  simp only [LogModule.put, if_neg h.filePath, LogModule.Fits, decide_eq_true_eq, decide_eq_false_iff_not]
  split
  case isTrue hd  =>
    obtain ⟨hf, hz⟩ := h.flush
    refine ⟨⟨hf.filePath, hf.length, hf.index, hf.limit⟩, fun _ => ?_, fun hn => absurd (.inl hd) hn⟩
    simp only [content, hz, Int.toNat_zero, List.take_zero, List.append_nil, h.file_flush]
  case isFalse hd =>
    simp only [hd, false_or]
    unfold vsprintf_s
    by_cases hs : (expand format vl).length < log.limit
    case neg =>
      simp only [hs, if_false]
      refine ⟨h, fun ⟨hlt, _⟩ => ?_, fun hn => ⟨trivial, fun he => hn ?_⟩⟩
      · have : (expand format vl).length = 0 := by omega
        rw [List.eq_nil_of_length_eq_zero this, List.append_nil]
      · simp only [he, List.length_nil]
        omega
    case pos =>
      simp only [hs, if_true]
      by_cases ho : log.index + (expand format vl).length ≤ 2147483647
      case pos =>
        rw [toInt_of_le (by omega) ho]
        by_cases hl : log.limit ≤ log.index + (expand format vl).length
        case pos =>
          simp only [hl, if_true]
          refine ⟨⟨h.filePath, h.length, ⟨Int.le_refl _, .inr rfl⟩, h.limit⟩, fun _ => ?_,
            fun hn => absurd ⟨by omega, ho⟩ hn⟩
          simp [content]
        case neg =>
          simp only [hl, if_false, memcpy_s]
          rw [if_pos (by omega)]
          obtain ⟨hb, hc⟩ := h.append (Int.not_le.mp hl)
          exact ⟨hb, fun _ => hc, fun hn => absurd ⟨by omega, ho⟩ hn⟩
      case neg =>
        have := toInt_of_lt (Int.not_le.mp ho) (by omega)
        have hl : ¬log.limit ≤ toInt (log.index + (expand format vl).length) := by omega
        simp only [hl, if_false, memcpy_s]
        rw [if_neg (show ¬((expand format vl).length : Int) ≤ log.limit - log.index by omega)]
        refine ⟨⟨h.filePath, ?_, hi, hm⟩, fun hf => absurd hf.right ho, fun _ => ⟨?_, ?_⟩⟩
        · simp only [List.length_append, List.length_take, List.length_replicate, h.length]
          omega
        · have hb : log.index.toNat ≤ (log.buffer.take log.index.toNat).length := by
            rw [List.length_take, h.length]
            omega
          simp only [content]
          rw [List.take_append_of_le_length hb, List.take_take, Nat.min_self]
        · intro he
          simp only [he, List.length_nil] at ho
          omega

theorem Buffered.step {c : Call α} {log' : LogModule} (h : log.Buffered)
    (hs : log.step expand c = .ok log') :
    log'.Buffered ∧ (log.fits expand c = true → log'.content = log.content ++ message expand c) ∧
      (log.fits expand c = false → log'.content = log.content ∧ message expand c ≠ []) := by
  cases c
  case write time str vl =>
    cases hs
    exact h.put (writeFormat time str) vl
  case print str vl      =>
    cases hs
    exact h.put (printFormat str) vl
  case flush             =>
    cases hs
    obtain ⟨hf, hz⟩ := h.flush
    refine ⟨hf, fun _ => ?_, nofun⟩
    rw [content_of_index hz, h.file_flush]
    exact (List.append_nil _).symm

end Buffered

-- Whatever calls were made so far, the log keeps their messages in order.
def Logged (log : LogModule) (calls : List (Call α)) : Prop :=
  ∀ calls' log', calls' <+: calls → Runs.run (step expand) log calls' = .ok log' →
    log'.Keeps (log.content ++ messages expand calls')

theorem Buffered.logged_iff {log : LogModule} (h : log.Buffered) (calls : List (Call α)) :
    log.Logged expand calls ↔ Runs.Along (LogModule.step expand) (fits expand · ·) log calls := by
  induction calls generalizing log
  case nil =>
    refine iff_of_true (fun calls' log' hp hr => ?_) trivial
    cases List.prefix_nil.mp hp
    cases hr
    simpa [messages] using h.keeps
  case cons c calls ih =>
    obtain ⟨log₁, hs⟩ : ∃ log₁, log.step expand c = .ok log₁ := by
      cases c <;> exact ⟨_, rfl⟩
    obtain ⟨h₁, hfit, hlost⟩ := h.step hs
    have hrun (calls') : Runs.run (LogModule.step expand) log (c :: calls') =
        Runs.run (LogModule.step expand) log₁ calls' := by
      rw [Runs.run_cons, hs]
      rfl
    have hcons (calls') : messages expand (c :: calls') = message expand c ++ messages expand calls' :=
      List.flatMap_cons
    constructor
    case mp =>
      intro hl
      have hf : log.fits expand c = true := by
        by_contra hn
        obtain ⟨hsame, hne⟩ := hlost ((Bool.not_eq_true _).mp hn)
        have hk := (hl [c] log₁ (by simp) (hrun [])).content
        rw [hsame, hcons] at hk
        simp [messages, hne] at hk
      refine ⟨hf, fun log₂ hs₂ => ?_⟩
      cases hs.symm.trans hs₂
      refine (ih h₁).mp fun calls' log' hp hr => ?_
      have hk := hl (c :: calls') log' (List.cons_prefix_cons.mpr ⟨rfl, hp⟩) ((hrun calls').trans hr)
      rwa [hcons, ← List.append_assoc, ← hfit hf] at hk
    case mpr =>
      intro ⟨hf, ha⟩ calls' log' hp hr
      have hl := (ih h₁).mpr (ha log₁ hs)
      cases calls'
      case nil =>
        cases hr
        simpa [messages] using h.keeps
      case cons c' calls' =>
        obtain ⟨rfl, ht⟩ := List.cons_prefix_cons.mp hp
        rw [hcons, ← List.append_assoc, ← hfit hf]
        exact hl calls' log' ht ((hrun calls').symm.trans hr)

-- A log on a file has every message, there or in front of it and in the order of the calls, if and only
-- if no message is longer than its format and too long for the buffer.
theorem logged_iff_fits {file : String} {bufSize : Int32} {opened : Bool} {log : LogModule}
    (hf : file ≠ "console") (h : new file bufSize opened = some log) (calls : List (Call α)) :
    (∀ calls' log', calls' <+: calls → Runs.run (step expand) log calls' = .ok log' →
      log'.Keeps (messages expand calls')) ↔ Runs.Along (step expand) (fits expand · ·) log calls := by
  obtain ⟨hb, he⟩ := Buffered.new hf h
  have hl := hb.logged_iff expand calls
  simpa only [Logged, he, List.nil_append] using hl

-- `vsprintf` for formats with `%s` only.
def expandStrings : Bytes → List Bytes → Bytes
  | 37 :: 115 :: format, s :: vl => s ++ expandStrings format vl
  | b :: format, vl              => b :: expandStrings format vl
  | [], _                        => []

theorem logged_short :
    new "indexer.log" 8 true = some ⟨"indexer.log", List.replicate 8 0, 0, 8, [], []⟩ ∧
      ∀ calls' log', calls' <+: [.print (ascii "ab") [], .print (ascii "%s") [ascii "cd"], .flush] →
        Runs.run (step expandStrings) ⟨"indexer.log", List.replicate 8 0, 0, 8, [], []⟩ calls' = .ok log' →
        log'.Keeps (messages expandStrings calls') := by
  have h : new "indexer.log" 8 true = some ⟨"indexer.log", List.replicate 8 0, 0, 8, [], []⟩ := rfl
  exact ⟨h, (logged_iff_fits expandStrings (by decide) h _).mpr (by decide +kernel)⟩

-- The format is shorter than the buffer, and the message is longer.
theorem long_not_logged :
    ¬∀ (file : String) (bufSize : Int32) (log log' : LogModule) (calls : List (Call (List Bytes))),
      file ≠ "console" → new file bufSize true = some log →
      Runs.run (step expandStrings) log calls = .ok log' → log'.Keeps (messages expandStrings calls) := by
  intro h
  have := (h "indexer.log" 4 _ _ [.print (ascii "%s") [ascii "abcd"]] (by decide) rfl rfl).content
  revert this
  decide +kernel

end LogModule

end Server8
