import Mathlib.Algebra.Ring.Nat
import Server8.Indexer.Chunked

-- `Zlib::inflateHTTPGzip` of svrutil.h, which unpacks the body of a response in one step.

namespace Server8

namespace Zlib

open GetData

section Scan

-- The text behind a sign, and behind `0x`.

def unsign (w : Bytes) : Bytes :=
  if w.head? = some 45 ∨ w.head? = some 43 then w.tail else w

def skipZero (w : Bytes) : Bytes :=
  if (w.take 2).map toLower = ascii "0x" then w.drop 2 else w

def hexDigits (w : Bytes) : Bytes :=
  w.takeWhile fun b => (hexDigit b).isSome

-- `sscanf_s` with `%x`: white space, a sign, `0x` and at least one digit. `large` is what is left of a
-- number that an `unsigned long` has no room for.
def scanHex (large : Nat → UInt32) (w : Bytes) : Option UInt32 :=
  let digits := hexDigits (skipZero (unsign (w.dropWhile isSpace)))
  if digits = [] then none
  else
    let n := (hexValue digits).getD 0
    let size := if n < 2 ^ 32 then UInt32.ofNat n else large n
    some (if (w.dropWhile isSpace).head? = some 45 then -size else size)

end Scan

inductive Status
  | SUCCESS
  | INVALID_STRING
  | ZLIB_ERROR
  deriving DecidableEq, Repr

-- The fields of `z_stream` when `inflate` is called: where the input begins in `src`, and the two sizes.
-- The output begins where `dest` does.
structure Stream where
  next_in   : Nat
  avail_in  : UInt32
  avail_out : UInt32
  deriving DecidableEq, Repr

-- What the library says. `inflate` gives the size of the output if it comes to the end of the stream.
structure Library where
  inflateInit2 : Bool
  inflate      : Stream → Option UInt32
  inflateEnd   : Bool

structure Outcome where
  status       : Status
  call         : Option Stream := none
  outputLen    : Option UInt32 := none
  deriving DecidableEq, Repr

-- `strstr` and `sscanf_s` read on behind `src`, up to the first zero: `rest` is what they find there.
def inflateHTTPGzip (large : Nat → UInt32) (zlib : Library) (destLen : UInt32) (src rest : Bytes) : Outcome :=
  let text := (src ++ rest).takeWhile (· ≠ 0)
  match cut (ascii "\r\n\r\n") text with
  | none             => { status := .INVALID_STRING }
  | some (u, pStart) =>
    match scanHex large pStart with
    | none      => { status := .INVALID_STRING }
    | some size =>
      match cut crlf pStart with
      | none           => { status := .INVALID_STRING }
      | some (line, _) =>
        let call := { next_in := u.length + 4 + (line.length + 2), avail_in := size, avail_out := destLen - 1 : Stream }
        if !zlib.inflateInit2 then { status := .ZLIB_ERROR }
        else match zlib.inflate call with
          | none           => { status := .ZLIB_ERROR, call }
          | some total_out =>
            if !zlib.inflateEnd then { status := .ZLIB_ERROR, call }
            else { status := .SUCCESS, call, outputLen := total_out }

-- A header, a line with a size and a body of at least this size.
def Complete (large : Nat → UInt32) (src : Bytes) : Prop :=
  ∃ u x line body size, cut (ascii "\r\n\r\n") src = some (u, x) ∧ cut crlf x = some (line, body) ∧
    scanHex large line = some size ∧ size.toNat ≤ body.length

-- The text is not turned down, wherever its end is.
def Accepts (large : Nat → UInt32) (text : Bytes) : Prop :=
  ∃ u x line body size, cut (ascii "\r\n\r\n") text = some (u, x) ∧ scanHex large x = some size ∧
    cut crlf x = some (line, body)

-- Every byte of the input is one of `src`, every byte of the output is one of `dest`, and an incomplete
-- response is turned down.
structure Safe (large : Nat → UInt32) (destLen : UInt32) (src rest : Bytes) : Prop where
  input   : ∀ zlib call, (inflateHTTPGzip large zlib destLen src rest).call = some call →
    ∀ i, call.next_in ≤ i → i < call.next_in + call.avail_in.toNat → i < src.length
  output  : ∀ zlib call, (inflateHTTPGzip large zlib destLen src rest).call = some call →
    call.avail_out ≤ destLen
  refused : ¬Complete large src → ∀ zlib,
    inflateHTTPGzip large zlib destLen src rest = { status := .INVALID_STRING }

section Scan

variable {large : Nat → UInt32} {w z : Bytes} {size : UInt32}

theorem unsign_append (h : w ≠ []) (z : Bytes) : unsign (w ++ z) = unsign w ++ z := by
  have hhead : (w ++ z).head? = w.head? := List.head?_append_of_ne_nil _ h
  by_cases hs : w.head? = some 45 ∨ w.head? = some 43
  case pos => rw [unsign, unsign, hhead, if_pos hs, if_pos hs, List.tail_append_of_ne_nil h]
  case neg => rw [unsign, unsign, hhead, if_neg hs, if_neg hs]

theorem skipZero_append (h : w ≠ []) (z : Bytes) : skipZero (w ++ (crlf ++ z)) = skipZero w ++ (crlf ++ z) := by
  cases w
  case nil      => exact absurd rfl h
  case cons b w =>
    cases w
    case cons a w =>
      simp only [skipZero, List.cons_append, List.take_succ_cons, List.take_zero, List.drop_succ_cons, List.drop_zero]
      by_cases hs : [b, a].map toLower = ascii "0x"
      case pos => rw [if_pos hs, if_pos hs]
      case neg => rw [if_neg hs, if_neg hs, List.cons_append, List.cons_append]
    case nil      =>
      have hlong : ¬[b, 13].map toLower = ascii "0x" := fun he =>
        absurd (List.cons.inj (List.cons.inj he).right).left (by decide)
      have hshort : ¬[b].map toLower = ascii "0x" := fun he =>
        absurd (List.cons.inj he).right (by decide)
      exact (if_neg hlong).trans (congrArg (· ++ (crlf ++ z)) (if_neg hshort).symm)

theorem hexDigits_append (w z : Bytes) : hexDigits (w ++ (crlf ++ z)) = hexDigits w := by
  have hz : hexDigits (crlf ++ z) = [] := rfl
  rw [hexDigits, List.takeWhile_append]
  split
  case isTrue h  =>
    have hw : hexDigits w = w := (List.takeWhile_prefix _).eq_of_length h
    rw [← hexDigits, hz, List.append_nil, hw]
  case isFalse h => rfl

-- A number in a line is the number that is found in the text from there on.
theorem scanHex_append (h : scanHex large w = some size) (z : Bytes) :
    scanHex large (w ++ (crlf ++ z)) = some size := by
  have hdigits : hexDigits (skipZero (unsign (w.dropWhile isSpace))) ≠ [] := by
    intro he
    rw [scanHex, if_pos he] at h
    cases h
  have hunsign : unsign (w.dropWhile isSpace) ≠ [] := by
    intro he
    rw [he] at hdigits
    exact hdigits rfl
  have hskip : w.dropWhile isSpace ≠ [] := by
    intro he
    rw [he] at hunsign
    exact hunsign rfl
  have hspace : (w ++ (crlf ++ z)).dropWhile isSpace = w.dropWhile isSpace ++ (crlf ++ z) := by
    rw [List.dropWhile_append, if_neg (by rwa [List.isEmpty_iff])]
  have hhead : (w.dropWhile isSpace ++ (crlf ++ z)).head? = (w.dropWhile isSpace).head? :=
    List.head?_append_of_ne_nil _ hskip
  rw [scanHex, hspace, unsign_append hskip, skipZero_append hunsign, hexDigits_append, hhead]
  exact h

end Scan

section Safe

variable {large : Nat → UInt32} {destLen : UInt32} {src rest : Bytes}

-- What is accepted has its header, its size and its line end in `src` if the response is complete.
theorem Complete.found (h : Complete large src) {text u x line body : Bytes} {size : UInt32}
    (ht : text <+: src ++ rest) (hu : cut (ascii "\r\n\r\n") text = some (u, x))
    (hs : scanHex large x = some size) (hc : cut crlf x = some (line, body)) :
    u.length + 4 + (line.length + 2) + size.toNat ≤ src.length := by
  obtain ⟨u', x', line', body', size', hu', hc', hs', hsize⟩ := h
  obtain ⟨y, hy⟩ := ht
  have h₁ := cut_append hu y
  rw [hy, cut_append hu' rest] at h₁
  obtain ⟨rfl, hx⟩ := Prod.mk.inj (Option.some.inj h₁)
  have h₂ := cut_append hc y
  rw [← hx, cut_append hc' rest] at h₂
  obtain ⟨rfl, hbody⟩ := Prod.mk.inj (Option.some.inj h₂)
  have hscan := scanHex_append hs' body
  rw [← List.append_assoc, ← eq_of_cut hc, hs] at hscan
  cases hscan
  have hsrc := congrArg List.length (eq_of_cut hu')
  have hline := congrArg List.length (eq_of_cut hc')
  have h4 : (ascii "\r\n\r\n").length = 4 := rfl
  have h2 : crlf.length = 2 := rfl
  simp only [List.length_append, h4, h2] at hsrc hline
  omega

theorem inflateHTTPGzip_refused (h : ¬Accepts large ((src ++ rest).takeWhile (· ≠ 0))) (zlib : Library) :
    inflateHTTPGzip large zlib destLen src rest = { status := .INVALID_STRING } := by
  unfold inflateHTTPGzip
  dsimp only
  cases hu : cut (ascii "\r\n\r\n") ((src ++ rest).takeWhile (· ≠ 0))
  case none   => rfl
  case some p =>
    dsimp only
    cases hs : scanHex large p.2
    case none      => rfl
    case some size =>
      dsimp only
      cases hc : cut crlf p.2
      case none   => rfl
      case some q => exact absurd ⟨p.1, p.2, q.1, q.2, size, hu, hs, hc⟩ h

theorem inflateHTTPGzip_accepted (destLen : UInt32) {u x line body : Bytes} {size : UInt32}
    (hu : cut (ascii "\r\n\r\n") ((src ++ rest).takeWhile (· ≠ 0)) = some (u, x))
    (hs : scanHex large x = some size) (hc : cut crlf x = some (line, body)) (zlib : Library) :
    (inflateHTTPGzip large zlib destLen src rest).status ≠ .INVALID_STRING ∧
      (inflateHTTPGzip large zlib destLen src rest).call =
        if zlib.inflateInit2 then some {
          next_in   := u.length + 4 + (line.length + 2)
          avail_in  := size
          avail_out := destLen - 1 }
        else none := by
  simp only [inflateHTTPGzip, hu, hs, hc]
  cases zlib.inflateInit2
  case false => exact ⟨Status.noConfusion, rfl⟩
  case true  =>
    cases zlib.inflate { next_in := u.length + 4 + (line.length + 2), avail_in := size, avail_out := destLen - 1 }
    case none   => exact ⟨Status.noConfusion, rfl⟩
    case some n =>
      cases zlib.inflateEnd
      case false => exact ⟨Status.noConfusion, rfl⟩
      case true  => exact ⟨Status.noConfusion, rfl⟩

theorem safe_of_complete (h : Complete large src) (hd : destLen ≠ 0) : Safe large destLen src rest := by
  by_cases ha : Accepts large ((src ++ rest).takeWhile (· ≠ 0))
  case neg =>
    constructor
    case refused => exact fun hn => absurd h hn
    all_goals
      intro zlib call hcall
      rw [inflateHTTPGzip_refused ha] at hcall
      cases hcall
  case pos =>
    obtain ⟨u, x, line, body, size, hu, hs, hc⟩ := ha
    have hcalls : ∀ zlib call, (inflateHTTPGzip large zlib destLen src rest).call = some call →
        call = { next_in := u.length + 4 + (line.length + 2), avail_in := size, avail_out := destLen - 1 } := by
      intro zlib call hcall
      rw [(inflateHTTPGzip_accepted destLen hu hs hc zlib).right, Option.ite_none_right_eq_some] at hcall
      exact (Option.some.inj hcall.right).symm
    constructor
    case refused => exact fun hn => absurd h hn
    case input   =>
      intro zlib call hcall i _ hi
      rw [hcalls zlib call hcall] at hi
      exact Nat.lt_of_lt_of_le hi (h.found (List.takeWhile_prefix _) hu hs hc)
    case output  =>
      intro zlib call hcall
      rw [hcalls zlib call hcall]
      have hpos : 1 ≤ destLen.toNat := Nat.one_le_iff_ne_zero.mpr fun h0 => hd (UInt32.toNat_inj.mp h0)
      have hle : (1 : UInt32) ≤ destLen := UInt32.le_iff_toNat_le.mpr hpos
      rw [UInt32.le_iff_toNat_le, UInt32.toNat_sub_of_le _ _ hle]
      exact Nat.sub_le ..

-- A response is unpacked safely if and only if it is turned down, or it is complete and there is room
-- for one byte.
theorem safe_iff (large : Nat → UInt32) (destLen : UInt32) (src rest : Bytes) :
    Safe large destLen src rest ↔
      ¬Accepts large ((src ++ rest).takeWhile (· ≠ 0)) ∨ Complete large src ∧ destLen ≠ 0 := by
  constructor
  case mp  =>
    intro h
    refine or_iff_not_imp_left.mpr fun ha => ?_
    obtain ⟨u, x, line, body, size, hu, hs, hc⟩ := not_not.mp ha
    constructor
    case left  =>
      by_contra hn
      have hstatus := (inflateHTTPGzip_accepted destLen hu hs hc ⟨false, fun _ => none, false⟩).left
      rw [h.refused hn] at hstatus
      exact hstatus rfl
    case right =>
      rintro rfl
      have hcall := (inflateHTTPGzip_accepted 0 hu hs hc ⟨true, fun _ => none, false⟩).right
      exact absurd (h.output _ _ hcall) (show ¬(0 - 1 : UInt32) ≤ 0 by decide)
  case mpr =>
    intro h
    cases h
    case inr h => exact safe_of_complete h.left h.right
    case inl h =>
      constructor
      case refused => exact fun _ => inflateHTTPGzip_refused h
      all_goals
        intro zlib call hcall
        rw [inflateHTTPGzip_refused h] at hcall
        cases hcall

-- The body has two bytes, and its line says 255.
def truncated : Bytes :=
  ascii "HTTP/1.1 200 OK\r\n\r\nff\r\nab"

theorem not_safe : ¬∀ large destLen src rest, Safe large destLen src rest := by
  intro h
  have hin := (h (fun _ => 0) 10 truncated []).input ⟨true, fun _ => none, false⟩ _ rfl 30
  exact absurd (hin (by decide) (by decide)) (by decide)

end Safe

end Zlib

end Server8
