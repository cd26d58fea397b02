import Mathlib.Data.List.Basic

-- Stream coders. A call has some input and room for some output, takes a part of the one and fills a part
-- of the other.

namespace Codec

variable {α σ : Type}

inductive Ret
  | ok
  | streamEnd
  | dataError
  | otherError
  deriving DecidableEq, Repr

structure Reply (α σ : Type) where
  ret     : Ret
  taken   : Nat
  written : List α
  next    : σ

-- `content s x` is what a decoder in the state `s` has still to write, if `x` is all that it has still to
-- take. There is none if the stream does not end there.
structure Decoder (α σ : Type) where
  start       : σ
  call        : σ → List α → Nat → Reply α σ
  content     : σ → List α → Option (List α)
  taken_le    : ∀ s x n, (call s x n).taken ≤ x.length
  on_ok       : ∀ s x n, (call s x n).ret = .ok → ∀ y,
    content s (x.take (call s x n).taken ++ y) = (content (call s x n).next y).map ((call s x n).written ++ ·)
  on_end      : ∀ s x n, (call s x n).ret = .streamEnd →
    content s (x.take (call s x n).taken) = some (call s x n).written
  -- A call that can go on does something, and does not leave the stream with nothing to do.
  progress    : ∀ s x n, (call s x n).ret = .ok → 0 < (call s x n).taken + (call s x n).written.length
  unfinished  : ∀ s x n, (call s x n).ret = .ok → content (call s x n).next [] ≠ some []
  start_empty : content start [] = none
  -- With some input and some room there is no error in a stream that has an end.
  sound       : ∀ s x n, x ≠ [] → 0 < n → (call s x n).ret ≠ .ok → (call s x n).ret ≠ .streamEnd → ∀ y,
    content s (x ++ y) = none

structure Encoder (α σ : Type) where
  start      : σ
  call       : σ → Bool → List α → Nat → Reply α σ
  taken_le   : ∀ s f x n, (call s f x n).taken ≤ x.length
  written_le : ∀ s f x n, (call s f x n).written.length ≤ n
  progress   : ∀ s f x n, (call s f x n).ret = .ok → 0 < (call s f x n).taken + (call s f x n).written.length

-- The states of an encoder, with what it has taken and written so far.
inductive Encoder.Encoded (e : Encoder α σ) : σ → List α → List α → Prop
  | start : e.Encoded e.start [] []
  | call {s : σ} {x z : List α} (f : Bool) (y : List α) (n : Nat) : e.Encoded s x z → (e.call s f y n).ret = .ok →
      e.Encoded (e.call s f y n).next (x ++ y.take (e.call s f y n).taken) (z ++ (e.call s f y n).written)

-- A stream that the encoder has brought to its end is one of the decoder, with what was taken in it.
def Inverse {τ : Type} (e : Encoder α σ) (d : Decoder α τ) : Prop :=
  ∀ s x z y n, e.Encoded s x z → (e.call s true y n).ret = .streamEnd →
    d.content d.start (z ++ (e.call s true y n).written) = some (x ++ y.take (e.call s true y n).taken)

end Codec
