import Server8.Lib.Regex

namespace Server8

-- A `std::string` or a buffer of `char`.
abbrev Bytes := List UInt8

def ascii (s : String) : Bytes :=
  s.toList.map fun c => UInt8.ofNat c.toNat

def newline : UInt8 := 10

-- The character classes `\d`, `\w`, `\s` and `.` of the header pattern.

def isDigit (b : UInt8) : Bool :=
  48 ≤ b && b ≤ 57

def isWord (b : UInt8) : Bool :=
  isDigit b || (65 ≤ b && b ≤ 90) || (97 ≤ b && b ≤ 122) || b == 95

def isSpace (b : UInt8) : Bool :=
  b == 32 || (9 ≤ b && b ≤ 13)

def isDot (b : UInt8) : Bool :=
  b != 10 && b != 13

-- `sprintf` with `%d`.
def decimal : Int → Bytes
  | .ofNat n   => (Nat.toDigits 10 n).map fun c => UInt8.ofNat c.toNat
  | .negSucc n => 45 :: (Nat.toDigits 10 (n + 1)).map fun c => UInt8.ofNat c.toNat

def digitsValue (w : Bytes) : Nat :=
  Nat.ofDigitChars 10 (w.map fun b => Char.ofNat b.toNat) 0

def scanDigits (w : Bytes) : Option Nat :=
  let digits := w.takeWhile isDigit
  if digits.isEmpty then none else some (digitsValue digits)

-- `sscanf` with `%d`: white space, an optional sign, and at least one digit.
def scanInt (w : Bytes) : Option Int :=
  match w.dropWhile isSpace with
  | []     => none
  | b :: w =>
    if b = 45 then (scanDigits w).map fun n => -(n : Int)
    else if b = 43 then (scanDigits w).map (↑)
    else (scanDigits (b :: w)).map (↑)

@[ext]
structure Packet where
  headLength      : Int   := 0
  operation       : Bytes := []
  operationStatus : Bytes := []
  contentLength   : Int   := 0
  timeStamp       : Bytes := []
  instanceName    : Bytes := []
  sessionID       : Bytes := []
  deriving DecidableEq, Repr

namespace Packet

def getHeaderLength (p : Packet) : Int :=
  p.headLength

def getPacketLength (p : Packet) : Int :=
  p.headLength + p.contentLength

-- One line of a header, as `createHeader` writes it.
def line (name : String) (value : Bytes) : Bytes :=
  ascii name ++ value ++ [newline]

def optionalLine (name : String) (value : Bytes) : Bytes :=
  if value.length > 0 then line name value else []

def header (p : Packet) : Bytes :=
  line "Operation:" p.operation ++
  optionalLine "OperationStatus:" p.operationStatus ++
  line "ContentLength:" (decimal p.contentLength) ++
  line "TimeStamp:" p.timeStamp ++
  optionalLine "InstanceName:" p.instanceName ++
  optionalLine "SessionID:" p.sessionID ++
  [newline]

def createHeader (p : Packet) : Bytes × Packet :=
  (p.header, { p with headLength := p.header.length })

section Pattern

open Regex

def field (name : String) (value : Regex UInt8) : Regex UInt8 :=
  seq (lit (ascii name)) (seq value (cls isSpace))

-- The first group of `Packet::pattern`, without its parentheses.
def headerPattern : Regex UInt8 :=
  seq (field "Operation:" (group 2 (rep (cls isWord) 1 (some 32)))) <|
  seq (opt (group 3 (field "OperationStatus:" (group 4 (rep (cls isWord) 1 (some 32)))))) <|
  seq (field "ContentLength:" (group 5 (rep (cls isDigit) 1 (some 7)))) <|
  seq (field "TimeStamp:" (group 6 (rep (cls isDot) 23 (some 23)))) <|
  seq (opt (group 7 (field "InstanceName:" (group 8 (rep (cls isWord) 1 (some 32)))))) <|
  seq (opt (group 9 (field "SessionID:" (group 10 (rep (cls isWord) 16 (some 16))))))
  (cls isSpace)

def pattern : Regex UInt8 :=
  seq (group 1 headerPattern) (star (group 11 (alt (cls isDot) (cls isSpace))))

end Pattern

-- `result[i].str()`, which is empty for a group that took no part in the match.
def str (result : Regex.Pos UInt8) (i : Nat) : Bytes :=
  (result.caps i).getD []

-- The assignments of `matchHeader` after a successful `regex_match`.
def assign (p : Packet) (result : Regex.Pos UInt8) : Bool × Packet :=
  let p := { p with
    operation       := str result 2
    operationStatus := str result 4
    timeStamp       := str result 6
    instanceName    := str result 8
    sessionID       := str result 10
    headLength      := (str result 1).length }
  match scanInt (str result 5) with
  | some n => (true, { p with contentLength := n })
  | none   => (false, p)

def matchBuffer (p : Packet) (buf : Bytes) : Bool × Packet :=
  match pattern.fullMatch buf with
  | some result => p.assign result
  | none        => (false, p)

-- `data` is `none` for the null pointer.
def matchHeader (p : Packet) (data : Option Bytes) (length : Int) : Bool × Packet :=
  match data with
  | none      => (false, p)
  | some data =>
    if length ≤ 0 then (false, p)
    else p.matchBuffer (data.take (if length > 256 then 256 else length).toNat)

end Packet
end Server8
