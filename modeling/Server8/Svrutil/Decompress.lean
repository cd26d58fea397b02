import Server8.Lib.Codec
import Server8.Lib.Loop
import Server8.Protocol.Packet

-- `zdecompress`, `httpgzdecompress` and `gzdecompress` of svrutil.h, which give the decoder one byte at a
-- time and room for one byte, and the functions whose output they get.

namespace Server8

namespace Zlib

open Codec

variable {σ τ : Type}

-- The header that a retry gives to the decoder.
def dummy_head : Bytes :=
  [0x8 + 0x7 * 0x10, 0x01]

-- What `next_in` points to: a byte of `zdata`, or one of `dummy_head` and of what is behind it.
inductive Source
  | zdata (i : Nat)
  | head (j : Nat)
  deriving DecidableEq, Repr

namespace Source

def byte (zdata : Bytes) (behind : Nat → UInt8) : Source → UInt8
  | .zdata i => zdata.getD i 0
  | .head j  => dummy_head.getD j (behind j)

def advance : Source → Nat → Source
  | .zdata i, k => .zdata (i + k)
  | .head j, k  => .head (j + k)

end Source

-- `total_out` is the size of `data`. The last two fields are not in the source: the decoder's state after
-- the last retry, and where the bytes come from that it has taken since then.
structure d_stream (σ : Type) where
  state    : σ
  next_in  : Source
  total_in : Nat
  data     : Bytes
  base     : σ
  given    : List Source
  deriving DecidableEq

namespace d_stream

def start (d : Decoder UInt8 σ) : d_stream σ where
  state    := d.start
  next_in  := .zdata 0
  total_in := 0
  data     := []
  base     := d.start
  given    := []

def after (x : d_stream σ) (r : Reply UInt8 σ) : d_stream σ where
  state    := r.next
  next_in  := x.next_in.advance r.taken
  total_in := x.total_in + r.taken
  data     := x.data ++ r.written
  base     := x.base
  given    := x.given ++ (List.range r.taken).map x.next_in.advance

-- After a retry `next_in` stays in the header.
def restart (x : d_stream σ) (r : Reply UInt8 σ) : d_stream σ where
  state    := r.next
  next_in  := .head r.taken
  total_in := x.total_in + r.taken
  data     := x.data ++ r.written
  base     := r.next
  given    := []

end d_stream

-- A loop over `zdata`: which decoder it has, whether it tries again after `Z_DATA_ERROR`, and the size of
-- the output.
structure Job (σ : Type) where
  decoder : Decoder UInt8 σ
  retry   : Bool
  behind  : Nat → UInt8
  zdata   : Bytes
  ndata   : Nat

namespace Job

variable (j : Job σ)

def inflate (x : d_stream σ) : Reply UInt8 σ :=
  j.decoder.call x.state [x.next_in.byte j.zdata j.behind] 1

-- The call that follows `Z_DATA_ERROR`. The room is what the first call has left of it.
def again (x : d_stream σ) : Reply UInt8 σ :=
  j.decoder.call (j.inflate x).next dummy_head (1 - (j.inflate x).written.length)

def Left (x : d_stream σ) : Prop :=
  x.data.length < j.ndata ∧ x.total_in < j.zdata.length

instance (x : d_stream σ) : Decidable (j.Left x) :=
  inferInstanceAs (Decidable (_ ∧ _))

def turn (x : d_stream σ) : Option (d_stream σ) :=
  if j.Left x then
    match (j.inflate x).ret with
    | .ok         => some (x.after (j.inflate x))
    | .dataError  =>
      if j.retry = true ∧ (j.again x).ret = .ok then some ((x.after (j.inflate x)).restart (j.again x)) else none
    | .streamEnd  => none
    | .otherError => none
  else none

-- What the loop leaves: nothing if it returns -1.
def finish (x : d_stream σ) : Option (d_stream σ) :=
  if j.Left x then
    if (j.inflate x).ret = .streamEnd then some (x.after (j.inflate x)) else none
  else some x

-- `init` and `fini` are the results of `inflateInit` and `inflateEnd`.
def decompress (init fini : Bool) : Option (d_stream σ) :=
  if !init then none
  else
    match j.finish (Loop.run j.turn (j.zdata.length + j.ndata) (.start j.decoder)) with
    | none   => none
    | some x => if !fini then none else some x

end Job

section Functions

-- The three differ in what `inflateInit` gets, and so in their decoders. Only two of them try again.

def zdecompress (d : Decoder UInt8 σ) (zdata : Bytes) (ndata : Nat) : Job σ where
  decoder := d
  retry   := false
  behind  := fun _ => 0
  zdata
  ndata

def httpgzdecompress (d : Decoder UInt8 σ) (behind : Nat → UInt8) (zdata : Bytes) (ndata : Nat) : Job σ where
  decoder := d
  retry   := true
  behind
  zdata
  ndata

def gzdecompress (d : Decoder UInt8 σ) (behind : Nat → UInt8) (zdata : Bytes) (ndata : Nat) : Job σ where
  decoder := d
  retry   := true
  behind
  zdata
  ndata

end Functions

namespace Job

variable (j : Job σ)

-- If 0 is returned, the decoder has got the bytes of `zdata` in order since the last retry, and what was
-- written is the whole content of them.
def Complete : Prop :=
  ∀ init fini x, j.decompress init fini = some x →
    x.given = (List.range j.zdata.length).map .zdata ∧ j.decoder.content x.base j.zdata = some x.data

-- What becomes of the decoder if it gets single bytes and room for single bytes, whatever there is of them.
inductive Fed : d_stream σ → Prop
  | start : Fed (.start j.decoder)
  | call {x : d_stream σ} : Fed x → (j.inflate x).ret = .ok → Fed (x.after (j.inflate x))
  | again {x : d_stream σ} : Fed x → (j.inflate x).ret = .dataError → j.retry = true → (j.again x).ret = .ok →
      Fed ((x.after (j.inflate x)).restart (j.again x))

-- As long as the decoder goes on there is a byte of `zdata` and room for a byte. If the stream ends, it
-- does not end in what is taken for the header, and there is nothing behind it.
structure Lasts : Prop where
  left  : ∀ x, j.Fed x → j.Left x
  own   : ∀ x k, j.Fed x → x.next_in = .head k → (j.inflate x).ret ≠ .streamEnd
  whole : ∀ x, j.Fed x → (j.inflate x).ret = .streamEnd → x.total_in + (j.inflate x).taken = j.zdata.length

section Turns

variable {j} {x y : d_stream σ} {n : Nat}

theorem turn_eq_some : j.turn x = some y ↔ j.Left x ∧ ((j.inflate x).ret = .ok ∧ x.after (j.inflate x) = y ∨
    (j.inflate x).ret = .dataError ∧ j.retry = true ∧ (j.again x).ret = .ok ∧
      (x.after (j.inflate x)).restart (j.again x) = y) := by
  unfold turn
  split
  case isFalse h => simp [h]
  case isTrue h  =>
    cases (j.inflate x).ret
    case ok         => simp [h]
    case dataError  => simp [h, and_assoc]
    case streamEnd  => simp
    case otherError => simp

theorem fed_of_turns (h : Loop.turns j.turn n (.start j.decoder) = some x) : j.Fed x := by
  refine Loop.invariant .start (fun x y hx ht => ?_) h
  rcases (turn_eq_some.mp ht).right with ⟨hr, rfl⟩ | ⟨hr, hretry, ha, rfl⟩
  · exact hx.call hr
  · exact hx.again hr hretry ha

-- Where the decoder is, and whose bytes it has got.
structure Sound (j : Job σ) (x : d_stream σ) : Prop where
  zdata      : ∀ i, x.next_in = .zdata i → i = x.total_in ∧ x.base = j.decoder.start ∧
    x.given = (List.range i).map .zdata ∧ ∀ y, j.decoder.content j.decoder.start (j.zdata.take i ++ y) =
      (j.decoder.content x.state y).map (x.data ++ ·)
  head       : ∀ k, x.next_in = .head k → j.zdata ≠ [] ∧ ∀ p ∈ x.given, ∃ k, p = .head k
  unfinished : j.decoder.content x.state [] ≠ some []

theorem sound_start : j.Sound (.start j.decoder) := by
  constructor
  case head       => exact fun k hk => Source.noConfusion hk
  case unfinished =>
    rw [d_stream.start, j.decoder.start_empty]
    exact Option.some_ne_none [] ∘ Eq.symm
  case zdata      =>
    intro i hi
    cases hi
    refine ⟨rfl, rfl, rfl, fun y => ?_⟩
    exact Option.map_id.symm ▸ rfl

theorem take_add {zdata : Bytes} {i k : Nat} (hi : i < zdata.length) (hk : k ≤ 1) :
    zdata.take (i + k) = zdata.take i ++ [zdata.getD i 0].take k := by
  have h₁ : k = 0 ∨ k = 1 := by omega
  rcases h₁ with rfl | rfl
  · simp
  · rw [List.take_add_one, List.getD_eq_getElem?_getD, List.getElem?_eq_getElem hi]
    rfl

theorem advance_map (i k : Nat) :
    (List.range i).map Source.zdata ++ (List.range k).map (Source.advance (.zdata i)) =
      (List.range (i + k)).map .zdata := by
  rw [List.range_add, List.map_append, List.map_map]
  rfl

theorem taken_le_one (j : Job σ) (x : d_stream σ) : (j.inflate x).taken ≤ 1 :=
  j.decoder.taken_le ..

theorem content_ok (hr : (j.inflate x).ret = .ok) (y : Bytes) :
    j.decoder.content x.state ([x.next_in.byte j.zdata j.behind].take (j.inflate x).taken ++ y) =
      (j.decoder.content (x.after (j.inflate x)).state y).map ((j.inflate x).written ++ ·) :=
  j.decoder.on_ok _ _ _ hr y

theorem content_end (hr : (j.inflate x).ret = .streamEnd) :
    j.decoder.content x.state ([x.next_in.byte j.zdata j.behind].take (j.inflate x).taken) =
      some (j.inflate x).written :=
  j.decoder.on_end _ _ _ hr

theorem Sound.head_after (h : j.Sound x) {k : Nat} (hk : (x.after (j.inflate x)).next_in = .head k) :
    j.zdata ≠ [] ∧ ∀ p ∈ (x.after (j.inflate x)).given, ∃ k, p = .head k := by
  cases hn : x.next_in
  case zdata i => simp [d_stream.after, hn, Source.advance] at hk
  case head m  =>
    refine ⟨(h.head m hn).left, fun p hp => ?_⟩
    cases List.mem_append.mp hp
    case inl hp => exact (h.head m hn).right p hp
    case inr hp =>
      obtain ⟨l, _, rfl⟩ := List.mem_map.mp hp
      exact ⟨m + l, by rw [hn, Source.advance]⟩

-- What a call takes is the next byte of `zdata`.
theorem Sound.take_after (h : j.Sound x) (hl : j.Left x) {i : Nat}
    (hi : (x.after (j.inflate x)).next_in = .zdata i) :
    (x.after (j.inflate x)).total_in = i ∧ (x.after (j.inflate x)).base = j.decoder.start ∧
      (x.after (j.inflate x)).given = (List.range i).map .zdata ∧
      ∀ y, j.decoder.content j.decoder.start (j.zdata.take i ++ y) =
        (j.decoder.content x.state ([x.next_in.byte j.zdata j.behind].take (j.inflate x).taken ++ y)).map
          (x.data ++ ·) := by
  cases hn : x.next_in
  case head k  => simp [d_stream.after, hn, Source.advance] at hi
  case zdata m =>
    obtain ⟨hm, hbase, hgiven, hcontent⟩ := h.zdata m hn
    have hlt : m < j.zdata.length := hm ▸ hl.right
    have hi : m + (j.inflate x).taken = i := by
      simp only [d_stream.after, hn, Source.advance, Source.zdata.injEq] at hi
      exact hi
    subst hi
    refine ⟨?_, hbase, ?_, fun y => ?_⟩
    · rw [d_stream.after, hm]
    · rw [← advance_map, d_stream.after, hgiven, hn]
    · rw [take_add hlt (taken_le_one j x), List.append_assoc, hcontent, Source.byte]

theorem Sound.after (h : j.Sound x) (hl : j.Left x) (hr : (j.inflate x).ret = .ok) :
    j.Sound (x.after (j.inflate x)) := by
  constructor
  case head       => exact fun k hk => h.head_after hk
  case unfinished => exact j.decoder.unfinished _ _ _ hr
  case zdata      =>
    intro i hi
    obtain ⟨htotal, hbase, hgiven, hcontent⟩ := h.take_after hl hi
    refine ⟨htotal.symm, hbase, hgiven, fun y => ?_⟩
    rw [hcontent, content_ok hr, Option.map_map]
    congr 1
    funext w
    exact (List.append_assoc ..).symm

theorem sound_restart (hl : j.Left x) (hr : (j.again x).ret = .ok) :
    j.Sound ((x.after (j.inflate x)).restart (j.again x)) := by
  constructor
  case head       =>
    exact fun k _ => ⟨List.ne_nil_of_length_pos (Nat.zero_lt_of_lt hl.right), List.forall_mem_nil _⟩
  case unfinished => exact j.decoder.unfinished _ _ _ hr
  case zdata      => exact fun i hi => Source.noConfusion hi

theorem sound_of_turns (h : Loop.turns j.turn n (.start j.decoder) = some x) : j.Sound x := by
  refine Loop.invariant sound_start (fun x y hx ht => ?_) h
  obtain ⟨hl, ht⟩ := turn_eq_some.mp ht
  rcases ht with ⟨hr, rfl⟩ | ⟨_, _, ha, rfl⟩
  · exact hx.after hl hr
  · exact sound_restart hl ha

end Turns

section Complete

variable {j} {x y : d_stream σ} {n : Nat}

def remaining (j : Job σ) (x : d_stream σ) : Nat :=
  j.zdata.length + j.ndata - (x.total_in + x.data.length)

-- Every turn takes or writes something.
theorem ends (j : Job σ) : ∃ n ≤ j.zdata.length + j.ndata, ∃ y, Loop.Ends j.turn (.start j.decoder) n y := by
  refine Loop.ends_of_variant (μ := j.remaining) (fun x y ht => ?_) (.start j.decoder)
  obtain ⟨hl, ht⟩ := turn_eq_some.mp ht
  have hlt := Nat.add_lt_add hl.right hl.left
  rcases ht with ⟨hr, rfl⟩ | ⟨_, _, ha, rfl⟩
  · have hp : 0 < (j.inflate x).taken + (j.inflate x).written.length := j.decoder.progress _ _ _ hr
    simp only [remaining, d_stream.after, List.length_append]
    omega
  · have hp : 0 < (j.again x).taken + (j.again x).written.length := j.decoder.progress _ _ _ ha
    simp only [remaining, d_stream.restart, d_stream.after, List.length_append]
    omega

theorem decompress_eq (h : Loop.turns j.turn n (.start j.decoder) = some y) (hy : j.turn y = none) :
    j.decompress true true = j.finish y := by
  obtain ⟨m, hm, z, hz⟩ := j.ends
  have hzy : z = y := by
    have hle := hz.le h
    have hge := Loop.Ends.le ⟨h, hy⟩ hz.reached
    cases Nat.le_antisymm hge hle
    exact Option.some.inj (hz.reached.symm.trans h)
  rw [decompress, hz.run_eq hm, hzy]
  cases j.finish y
  case none   => rfl
  case some x => rfl

theorem not_given_head (hgiven : x.given = (List.range j.zdata.length).map .zdata) :
    ¬(j.zdata ≠ [] ∧ ∀ p ∈ x.given, ∃ k, p = Source.head k) := by
  rintro ⟨hn, h⟩
  have hm : Source.zdata 0 ∈ x.given := by
    rw [hgiven]
    exact List.mem_map_of_mem (List.mem_range.mpr (List.length_pos_of_ne_nil hn))
  obtain ⟨k, hk⟩ := h _ hm
  cases hk

theorem length_of_given {i : Nat} (hi : x.given = (List.range i).map .zdata)
    (hgiven : x.given = (List.range j.zdata.length).map .zdata) : i = j.zdata.length := by
  have hlength := congrArg List.length (hi.symm.trans hgiven)
  rwa [List.length_map, List.length_map, List.length_range, List.length_range] at hlength

-- A loop that stops before the decoder comes to the end has not written everything.
theorem Complete.left (h : j.Complete) (ht : Loop.turns j.turn n (.start j.decoder) = some x) : j.Left x := by
  by_contra hl
  have hfinish : j.finish x = some x := if_neg hl
  obtain ⟨hgiven, hcontent⟩ := h _ _ _ ((decompress_eq ht (if_neg hl)).trans hfinish)
  have hs := sound_of_turns ht
  cases hnext : x.next_in
  case head k  => exact not_given_head hgiven (hs.head k hnext)
  case zdata i =>
    obtain ⟨_, hbase, hgiven', hstate⟩ := hs.zdata i hnext
    have hempty := hstate []
    rw [List.append_nil, length_of_given hgiven' hgiven, List.take_length, ← hbase, hcontent] at hempty
    obtain ⟨w, hw, he⟩ := Option.map_eq_some_iff.mp hempty.symm
    cases List.append_right_eq_self.mp he
    exact hs.unfinished hw

theorem Complete.of_end (h : j.Complete) (ht : Loop.turns j.turn n (.start j.decoder) = some x)
    (hr : (j.inflate x).ret = .streamEnd) :
    (x.after (j.inflate x)).given = (List.range j.zdata.length).map .zdata := by
  have hl := h.left ht
  have hturn : j.turn x = none := by
    rw [turn, if_pos hl, hr]
  have hfinish : j.finish x = some (x.after (j.inflate x)) := by
    rw [finish, if_pos hl, if_pos hr]
  exact (h _ _ _ ((decompress_eq ht hturn).trans hfinish)).left

theorem Complete.own (h : j.Complete) (ht : Loop.turns j.turn n (.start j.decoder) = some x) {k : Nat}
    (hnext : x.next_in = .head k) : (j.inflate x).ret ≠ .streamEnd := by
  intro hr
  have hafter : (x.after (j.inflate x)).next_in = .head (k + (j.inflate x).taken) := by
    rw [d_stream.after, hnext, Source.advance]
  exact not_given_head (h.of_end ht hr) ((sound_of_turns ht).head_after hafter)

theorem Complete.whole (h : j.Complete) (ht : Loop.turns j.turn n (.start j.decoder) = some x)
    (hr : (j.inflate x).ret = .streamEnd) : x.total_in + (j.inflate x).taken = j.zdata.length := by
  cases hnext : x.next_in
  case head k  => exact absurd hr (h.own ht hnext)
  case zdata i =>
    have hafter : (x.after (j.inflate x)).next_in = .zdata (i + (j.inflate x).taken) := by
      rw [d_stream.after, hnext, Source.advance]
    obtain ⟨htotal, _, hgiven, _⟩ := (sound_of_turns ht).take_after (h.left ht) hafter
    exact htotal.trans (length_of_given hgiven (h.of_end ht hr))

theorem Complete.turns (h : j.Complete) (hx : j.Fed x) :
    ∃ n, Loop.turns j.turn n (.start j.decoder) = some x := by
  induction hx
  case start               => exact ⟨0, rfl⟩
  case call x _ hr ih      =>
    obtain ⟨n, hn⟩ := ih
    exact ⟨n + 1, Loop.turns_last hn (turn_eq_some.mpr ⟨h.left hn, .inl ⟨hr, rfl⟩⟩)⟩
  case again x _ hr ht ha ih =>
    obtain ⟨n, hn⟩ := ih
    exact ⟨n + 1, Loop.turns_last hn (turn_eq_some.mpr ⟨h.left hn, .inr ⟨hr, ht, ha, rfl⟩⟩)⟩

theorem Lasts.complete (h : j.Lasts) : j.Complete := by
  intro init fini x hx
  cases init
  case false => cases hx
  obtain ⟨n, hn, y, hy⟩ := j.ends
  have hfed := fed_of_turns hy.reached
  have hl := h.left y hfed
  have hfinish : j.finish y = some x := by
    rw [decompress, hy.run_eq hn] at hx
    cases hf : j.finish y
    case none   => rw [hf] at hx; cases hx
    case some z =>
      rw [hf] at hx
      cases fini
      case false => cases hx
      case true  => exact hx
  rw [finish, if_pos hl, Option.ite_none_right_eq_some] at hfinish
  obtain ⟨hr, hxy⟩ := hfinish
  cases hxy
  have hs := sound_of_turns hy.reached
  cases hnext : y.next_in
  case head k  => exact absurd hr (h.own y k hfed hnext)
  case zdata i =>
    have hafter : (y.after (j.inflate y)).next_in = .zdata (i + (j.inflate y).taken) := by
      rw [d_stream.after, hnext, Source.advance]
    obtain ⟨htotal, hbase, hgiven, hcontent⟩ := hs.take_after hl hafter
    have hlength : i + (j.inflate y).taken = j.zdata.length := htotal.symm.trans (h.whole y hfed hr)
    have hwhole := hcontent []
    rw [List.append_nil, List.append_nil, content_end hr, Option.map_some, hlength, List.take_length] at hwhole
    exact ⟨hlength ▸ hgiven, hbase ▸ hwhole⟩

-- What is returned is complete if and only if the loop does not stop for lack of input or room, and the
-- decoder does not come to an end in the wrong bytes or too early.
theorem complete_iff (j : Job σ) : j.Complete ↔ j.Lasts := by
  constructor
  case mpr => exact Lasts.complete
  case mp  =>
    intro h
    constructor
    case left  =>
      intro x hx
      obtain ⟨n, hn⟩ := h.turns hx
      exact h.left hn
    case own   =>
      intro x k hx hk
      obtain ⟨n, hn⟩ := h.turns hx
      exact h.own hn hk
    case whole =>
      intro x hx hr
      obtain ⟨n, hn⟩ := h.turns hx
      exact h.whole hn hr

variable {data : Bytes}

-- In a stream with an end there is no error, and no retry.
theorem ret_of_content (hc : j.decoder.content j.decoder.start j.zdata = some data) (hs : j.Sound x)
    (hl : j.Left x) {i : Nat} (hi : x.next_in = .zdata i) :
    (j.inflate x).ret = .ok ∨ (j.inflate x).ret = .streamEnd := by
  by_contra hr
  rw [not_or] at hr
  obtain ⟨htotal, _, _, hcontent⟩ := hs.zdata i hi
  have hlt : i < j.zdata.length := htotal ▸ hl.right
  have hbyte : j.zdata.drop i = [x.next_in.byte j.zdata j.behind] ++ j.zdata.drop (i + 1) := by
    rw [hi, Source.byte, List.drop_eq_getElem_cons hlt, List.getD_eq_getElem?_getD, List.getElem?_eq_getElem hlt]
    rfl
  have hnone := j.decoder.sound x.state [x.next_in.byte j.zdata j.behind] 1 (List.cons_ne_nil _ _) Nat.one_pos
    hr.left hr.right (j.zdata.drop (i + 1))
  have hall := hcontent (j.zdata.drop i)
  rw [List.take_append_drop, hc, hbyte, hnone] at hall
  cases hall

theorem next_in_of_content (hc : j.decoder.content j.decoder.start j.zdata = some data)
    (ht : Loop.turns j.turn n (.start j.decoder) = some x) : ∃ i, x.next_in = .zdata i := by
  have hboth : j.Sound x ∧ ∃ i, x.next_in = .zdata i := by
    refine Loop.invariant (I := fun x => j.Sound x ∧ ∃ i, x.next_in = .zdata i) ⟨sound_start, 0, rfl⟩
      (fun x y hx ht => ?_) ht
    obtain ⟨hs, i, hi⟩ := hx
    obtain ⟨hl, ht⟩ := turn_eq_some.mp ht
    have hret := ret_of_content hc hs hl hi
    rcases ht with ⟨hr, rfl⟩ | ⟨hr, _⟩
    · exact ⟨hs.after hl hr, _, by rw [d_stream.after, hi, Source.advance]⟩
    · rw [hr] at hret
      cases hret
      case inl h => cases h
      case inr h => cases h
  exact hboth.right

-- A whole stream gives its content back.
theorem Lasts.gives_back (h : j.Lasts) (hc : j.decoder.content j.decoder.start j.zdata = some data) :
    ∃ x, j.decompress true true = some x ∧ x.data = data := by
  obtain ⟨n, _, y, hy⟩ := j.ends
  have hs := sound_of_turns hy.reached
  have hl := h.left y (fed_of_turns hy.reached)
  obtain ⟨i, hi⟩ := next_in_of_content hc hy.reached
  have hr : (j.inflate y).ret = .streamEnd := by
    refine (ret_of_content hc hs hl hi).resolve_left fun hr => ?_
    have hlast := hy.last
    rw [turn_eq_some.mpr ⟨hl, .inl ⟨hr, rfl⟩⟩] at hlast
    cases hlast
  have hfinish : j.finish y = some (y.after (j.inflate y)) := by
    rw [finish, if_pos hl, if_pos hr]
  have hx := (decompress_eq hy.reached hy.last).trans hfinish
  refine ⟨_, hx, ?_⟩
  have hcontent := (h.complete _ _ _ hx).right
  have hbase : (y.after (j.inflate y)).base = j.decoder.start := (hs.zdata i hi).right.left
  rw [hbase, hc] at hcontent
  exact (Option.some.inj hcontent).symm

end Complete

end Job

-- The fields of a `z_stream` that is written: `next_in` and `avail_in` are the input that is left.
structure c_stream (τ : Type) where
  state : τ
  input : Bytes
  zdata : Bytes

section Compress

variable (e : Encoder UInt8 τ) (nzdata : Nat)

def c_stream.after (x : c_stream τ) (r : Reply UInt8 τ) : c_stream τ where
  state := r.next
  input := x.input.drop r.taken
  zdata := x.zdata ++ r.written

def deflate (finish : Bool) (x : c_stream τ) : Reply UInt8 τ :=
  e.call x.state finish x.input (nzdata - x.zdata.length)

def feed (x : c_stream τ) : Option (c_stream τ) :=
  if x.input ≠ [] ∧ x.zdata.length < nzdata ∧ (deflate e nzdata false x).ret = .ok then
    some (x.after (deflate e nzdata false x))
  else none

def drain (x : c_stream τ) : Option (c_stream τ) :=
  if (deflate e nzdata true x).ret = .ok then some (x.after (deflate e nzdata true x)) else none

-- The output if 0 is returned. Where input is left, `avail_in` is returned or -1.
def compress (data : Bytes) (init fini : Bool) : Option Bytes :=
  if data = [] then none
  else if !init then none
  else
    let x := Loop.run (feed e nzdata) (data.length + nzdata) { state := e.start, input := data, zdata := [] }
    if x.input ≠ [] then none
    else
      let y := Loop.run (drain e nzdata) nzdata x
      if (deflate e nzdata true y).ret ≠ .streamEnd then none
      else if !fini then none
      else some (y.zdata ++ (deflate e nzdata true y).written)

-- The two differ in what `deflateInit` gets.

def zcompress (data : Bytes) (init fini : Bool) : Option Bytes :=
  compress e nzdata data init fini

def gzcompress (data : Bytes) (init fini : Bool) : Option Bytes :=
  compress e nzdata data init fini

variable {e nzdata} {x y : c_stream τ} {data zdata : Bytes} {n : Nat}

-- What was taken and what is left are the data.
def Packs (e : Encoder UInt8 τ) (data : Bytes) (x : c_stream τ) : Prop :=
  ∃ w, e.Encoded x.state w x.zdata ∧ w ++ x.input = data

theorem Packs.after (h : Packs e data x) {finish : Bool} (hr : (deflate e nzdata finish x).ret = .ok) :
    Packs e data (x.after (deflate e nzdata finish x)) := by
  obtain ⟨w, hw, rfl⟩ := h
  refine ⟨_, hw.call finish x.input (nzdata - x.zdata.length) hr, ?_⟩
  rw [List.append_assoc, c_stream.after]
  exact congrArg (w ++ ·) (List.take_append_drop ..)

theorem feed_eq_some : feed e nzdata x = some y ↔ (x.input ≠ [] ∧ x.zdata.length < nzdata ∧
    (deflate e nzdata false x).ret = .ok) ∧ x.after (deflate e nzdata false x) = y := by
  rw [feed, Option.ite_none_right_eq_some, Option.some_inj]

theorem drain_eq_some : drain e nzdata x = some y ↔
    (deflate e nzdata true x).ret = .ok ∧ x.after (deflate e nzdata true x) = y := by
  rw [drain, Option.ite_none_right_eq_some, Option.some_inj]

-- How much there is to take and to write.
def c_stream.room (nzdata : Nat) (x : c_stream τ) : Nat :=
  x.input.length + (nzdata - x.zdata.length)

theorem room_after {finish : Bool} (hr : (deflate e nzdata finish x).ret = .ok) :
    (x.after (deflate e nzdata finish x)).room nzdata < x.room nzdata := by
  have hp : 0 < (deflate e nzdata finish x).taken + (deflate e nzdata finish x).written.length :=
    e.progress _ _ _ _ hr
  have ht : (deflate e nzdata finish x).taken ≤ x.input.length := e.taken_le ..
  have hw : (deflate e nzdata finish x).written.length ≤ nzdata - x.zdata.length := e.written_le ..
  simp only [c_stream.room, c_stream.after, List.length_drop, List.length_append]
  omega

-- The turns that the loops have in `compress` are enough for them: there is no turn after them.
theorem compress_ends (e : Encoder UInt8 τ) (nzdata : Nat) (data : Bytes) :
    let x := Loop.run (feed e nzdata) (data.length + nzdata) ⟨e.start, data, []⟩
    feed e nzdata x = none ∧ (x.input = [] → drain e nzdata (Loop.run (drain e nzdata) nzdata x) = none) := by
  have hfeed : ∀ x y, feed e nzdata x = some y → y.room nzdata < x.room nzdata := by
    intro x y ht
    obtain ⟨⟨_, _, hr⟩, rfl⟩ := feed_eq_some.mp ht
    exact room_after hr
  have hdrain : ∀ x y, drain e nzdata x = some y → y.room nzdata < x.room nzdata := by
    intro x y ht
    obtain ⟨hr, rfl⟩ := drain_eq_some.mp ht
    exact room_after hr
  constructor
  case left  =>
    obtain ⟨n, hn, y, hy⟩ := Loop.ends_of_variant hfeed ⟨e.start, data, []⟩
    have hn : n ≤ data.length + nzdata := hn
    rw [hy.run_eq hn]
    exact hy.last
  case right =>
    intro hx
    obtain ⟨n, hn, y, hy⟩ := Loop.ends_of_variant hdrain
      (Loop.run (feed e nzdata) (data.length + nzdata) ⟨e.start, data, []⟩)
    rw [c_stream.room, hx, List.length_nil, Nat.zero_add] at hn
    rw [hy.run_eq (Nat.le_trans hn (Nat.sub_le ..))]
    exact hy.last

-- What is packed decodes to the data.
theorem content_compress {d : Decoder UInt8 σ} (hi : Inverse e d) {init fini : Bool}
    (h : compress e nzdata data init fini = some zdata) : d.content d.start zdata = some data := by
  have hstart : Packs e data ⟨e.start, data, []⟩ := ⟨[], .start, rfl⟩
  have hfeed : ∀ x y, Packs e data x → feed e nzdata x = some y → Packs e data y := by
    intro x y hx ht
    obtain ⟨⟨_, _, hr⟩, rfl⟩ := feed_eq_some.mp ht
    exact hx.after hr
  have hdrain : ∀ x y, Packs e data x ∧ x.input = [] → drain e nzdata x = some y →
      Packs e data y ∧ y.input = [] := by
    intro x y hx ht
    obtain ⟨hr, rfl⟩ := drain_eq_some.mp ht
    exact ⟨hx.left.after hr, by rw [c_stream.after, hx.right, List.drop_nil]⟩
  obtain ⟨_, h⟩ := Option.ite_none_left_eq_some.mp h
  obtain ⟨_, h⟩ := Option.ite_none_left_eq_some.mp h
  obtain ⟨hinput, h⟩ := Option.ite_none_left_eq_some.mp h
  obtain ⟨hr, h⟩ := Option.ite_none_left_eq_some.mp h
  obtain ⟨_, h⟩ := Option.ite_none_left_eq_some.mp h
  cases h
  have hx := Loop.run_invariant hstart hfeed (data.length + nzdata)
  obtain ⟨⟨w, hw, hwhole⟩, hnil⟩ := Loop.run_invariant ⟨hx, not_not.mp hinput⟩ hdrain nzdata
  rw [hnil, List.append_nil] at hwhole
  refine (hi _ _ _ _ _ hw (not_not.mp hr)).trans ?_
  rw [hnil, List.take_nil, List.append_nil, hwhole]

end Compress

-- Each function returns whole contents if and only if its loop is not cut short, and then what was packed
-- comes back.
theorem complete_iff_lasts (d : Decoder UInt8 σ) (behind : Nat → UInt8) (zdata : Bytes) (ndata : Nat) :
    ((zdecompress d zdata ndata).Complete ↔ (zdecompress d zdata ndata).Lasts) ∧
    ((httpgzdecompress d behind zdata ndata).Complete ↔ (httpgzdecompress d behind zdata ndata).Lasts) ∧
    ((gzdecompress d behind zdata ndata).Complete ↔ (gzdecompress d behind zdata ndata).Lasts) ∧
    ∀ (τ : Type) (e : Encoder UInt8 τ) nzdata data init fini, Inverse e d →
      (zcompress e nzdata data init fini = some zdata → (zdecompress d zdata ndata).Lasts →
        ∃ x, (zdecompress d zdata ndata).decompress true true = some x ∧ x.data = data) ∧
      (gzcompress e nzdata data init fini = some zdata → (gzdecompress d behind zdata ndata).Lasts →
        ∃ x, (gzdecompress d behind zdata ndata).decompress true true = some x ∧ x.data = data) :=
  ⟨Job.complete_iff _, Job.complete_iff _, Job.complete_iff _, fun _ _ _ _ _ _ hi =>
    ⟨fun hz hl => hl.gives_back (content_compress hi hz), fun hz hl => hl.gives_back (content_compress hi hz)⟩⟩

section Copies

-- A stream is one byte, and its content is so many copies of it. A state has the copies that are still
-- to be written.
def copiesCall (k : Nat) : Option Bytes → Bytes → Nat → Reply UInt8 (Option Bytes)
  | none, [], _     => { ret := .otherError, taken := 0, written := [], next := none }
  | none, b :: _, n =>
    if k ≤ n then { ret := .streamEnd, taken := 1, written := List.replicate k b, next := some [] }
    else { ret := .ok, taken := 1, written := List.replicate n b, next := some (List.replicate (k - n) b) }
  | some w, _, n    =>
    if w.length ≤ n then { ret := .streamEnd, taken := 0, written := w, next := some [] }
    else if n = 0 then { ret := .otherError, taken := 0, written := [], next := some w }
    else { ret := .ok, taken := 0, written := w.take n, next := some (w.drop n) }

def copiesContent (k : Nat) : Option Bytes → Bytes → Option Bytes
  | none, [b]  => some (List.replicate k b)
  | some w, [] => some w
  | _, _       => none

variable {k n : Nat} {s : Option Bytes} {x y : Bytes}

theorem copies_ok (hr : (copiesCall k s x n).ret = .ok) (y : Bytes) :
    copiesContent k s (x.take (copiesCall k s x n).taken ++ y) =
      (copiesContent k (copiesCall k s x n).next y).map ((copiesCall k s x n).written ++ ·) := by
  revert hr
  fun_cases copiesCall k s x n
  case case3 b x hn =>
    have hk : n + (k - n) = k := by omega
    cases y <;> simp [copiesContent, hk]
  case case6 w hw hn => cases y <;> simp [copiesContent]
  all_goals simp

theorem copies_end (hr : (copiesCall k s x n).ret = .streamEnd) :
    copiesContent k s (x.take (copiesCall k s x n).taken) = some (copiesCall k s x n).written := by
  revert hr
  fun_cases copiesCall k s x n
  all_goals simp [copiesContent]

theorem copies_progress (hr : (copiesCall k s x n).ret = .ok) :
    0 < (copiesCall k s x n).taken + (copiesCall k s x n).written.length ∧
      copiesContent k (copiesCall k s x n).next [] ≠ some [] := by
  revert hr
  fun_cases copiesCall k s x n
  all_goals
    simp [copiesContent]
    try omega

theorem copies_sound (hx : x ≠ []) (hn : 0 < n) :
    (copiesCall k s x n).ret = .ok ∨ (copiesCall k s x n).ret = .streamEnd := by
  fun_cases copiesCall k s x n
  all_goals simp_all

def copies (k : Nat) : Decoder UInt8 (Option Bytes) where
  start       := none
  call        := copiesCall k
  content     := copiesContent k
  taken_le    := by
    intro s x n
    fun_cases copiesCall k s x n
    all_goals simp
  on_ok       := fun _ _ _ => copies_ok
  on_end      := fun _ _ _ => copies_end
  progress    := fun _ _ _ hr => (copies_progress hr).left
  unfinished  := fun _ _ _ hr => (copies_progress hr).right
  start_empty := rfl
  sound       := fun _ _ _ hx hn hok hend => absurd (copies_sound hx hn) (not_or.mpr ⟨hok, hend⟩)

-- The loop stops behind the only byte, and one of its two copies is lost.
theorem not_complete : ¬∀ (σ : Type) (d : Decoder UInt8 σ) (behind : Nat → UInt8) zdata ndata,
    (gzdecompress d behind zdata ndata).Complete := by
  intro h
  have hcontent := (h _ (copies 2) (fun _ => 0) [97] 10 true true _ rfl).right
  exact absurd hcontent (by decide)

end Copies

section Lengths

-- A stream of runs, each one a byte for its length and the byte that is repeated. It ends with a zero.
inductive Rle
  | pending (w : Bytes)
  | length (k : UInt8)
  deriving DecidableEq

def rleCall : Rle → Bytes → Nat → Reply UInt8 Rle
  | .pending [], [], _           => { ret := .otherError, taken := 0, written := [], next := .pending [] }
  | .pending [], k :: _, _       =>
    if k = 0 then { ret := .streamEnd, taken := 1, written := [], next := .pending [] }
    else { ret := .ok, taken := 1, written := [], next := .length k }
  | .pending (b :: w), _, 0      => { ret := .otherError, taken := 0, written := [], next := .pending (b :: w) }
  | .pending (b :: w), _, n + 1  => { ret := .ok, taken := 0, written := b :: w.take n, next := .pending (w.drop n) }
  | .length k, [], _             => { ret := .otherError, taken := 0, written := [], next := .length k }
  | .length k, b :: _, n         => {
    ret     := .ok
    taken   := 1
    written := (List.replicate k.toNat b).take n
    next    := .pending ((List.replicate k.toNat b).drop n) }

def rleContent : Rle → Bytes → Option Bytes
  | _, []               => none
  | .pending w, k :: x  =>
    if k = 0 then if x = [] then some w else none else (rleContent (.length k) x).map (w ++ ·)
  | .length k, b :: x   => (rleContent (.pending []) x).map (List.replicate k.toNat b ++ ·)

variable {n : Nat} {s : Rle} {w x y z : Bytes}

theorem rleContent_pending (w z y : Bytes) :
    rleContent (.pending (w ++ z)) y = (rleContent (.pending z) y).map (w ++ ·) := by
  cases y
  case nil      => rfl
  case cons k y =>
    simp only [rleContent]
    split
    case isTrue  => split <;> rfl
    case isFalse => cases rleContent (.length k) y <;> simp

theorem rle_ok (hr : (rleCall s x n).ret = .ok) (y : Bytes) :
    rleContent s (x.take (rleCall s x n).taken ++ y) =
      (rleContent (rleCall s x n).next y).map ((rleCall s x n).written ++ ·) := by
  revert hr
  fun_cases rleCall s x n
  case case3 k x hk  => simp [rleContent, hk]
  case case5 b w n   =>
    intro _
    have := rleContent_pending (b :: w.take n) (w.drop n) y
    rwa [List.cons_append, List.take_append_drop] at this
  case case7 k b x =>
    intro _
    have := rleContent_pending ((List.replicate k.toNat b).take n) ((List.replicate k.toNat b).drop n) y
    rw [List.take_append_drop] at this
    rw [← this, ← List.append_nil (List.replicate k.toNat b), rleContent_pending]
    rfl
  all_goals simp

theorem rle_end (hr : (rleCall s x n).ret = .streamEnd) :
    rleContent s (x.take (rleCall s x n).taken) = some (rleCall s x n).written := by
  revert hr
  fun_cases rleCall s x n
  all_goals simp [rleContent]

def rle : Decoder UInt8 Rle where
  start       := .pending []
  call        := rleCall
  content     := rleContent
  taken_le    := by
    intro s x n
    fun_cases rleCall s x n
    all_goals simp
  on_ok       := fun _ _ _ => rle_ok
  on_end      := fun _ _ _ => rle_end
  progress    := by
    intro s x n
    fun_cases rleCall s x n
    case case7 => exact fun _ => Nat.lt_add_right _ Nat.one_pos
    all_goals simp
  unfinished  := by
    intro s x n _
    rw [rleContent]
    exact Option.some_ne_none [] ∘ Eq.symm
  start_empty := rfl
  sound       := by
    intro s x n
    fun_cases rleCall s x n
    all_goals simp_all

-- The encoder takes a run of at most 255 bytes at once.
def runOf (b : UInt8) (x : Bytes) : Bytes :=
  (x.takeWhile (· = b)).take 254

def rleEncode (f : Bool) (x : Bytes) (n : Nat) : Reply UInt8 Unit :=
  match x with
  | []     =>
    if f ∧ 1 ≤ n then { ret := .streamEnd, taken := 0, written := [0], next := () }
    else { ret := .otherError, taken := 0, written := [], next := () }
  | b :: x =>
    if 2 ≤ n then {
      ret     := .ok
      taken   := (runOf b x).length + 1
      written := [UInt8.ofNat ((runOf b x).length + 1), b]
      next    := () }
    else { ret := .otherError, taken := 0, written := [], next := () }

theorem runOf_length (b : UInt8) (x : Bytes) : (runOf b x).length ≤ 254 ∧ (runOf b x).length ≤ x.length := by
  have := (List.takeWhile_prefix (· = b) (l := x)).length_le
  rw [runOf, List.length_take]
  omega

theorem take_runOf (b : UInt8) (x : Bytes) :
    (b :: x).take ((runOf b x).length + 1) = List.replicate ((runOf b x).length + 1) b := by
  have hp : runOf b x <+: x := (List.take_prefix ..).trans (List.takeWhile_prefix _)
  have hall : ∀ a ∈ runOf b x, a = b := fun a ha =>
    of_decide_eq_true (p := a = b)
      (List.mem_takeWhile_imp (p := fun c => decide (c = b)) (List.mem_of_mem_take (show a ∈ List.take 254 _ from ha)))
  rw [List.take_succ_cons, ← List.prefix_iff_eq_take.mp hp, List.replicate_succ]
  exact congrArg (b :: ·) (List.eq_replicate_of_mem hall)

def runs : Encoder UInt8 Unit where
  start      := ()
  call _     := rleEncode
  taken_le   := by
    intro s f x n
    fun_cases rleEncode f x n
    case case3 b x _ => simpa using (runOf_length b x).right
    all_goals simp
  written_le := by
    intro s f x n
    fun_cases rleEncode f x n
    all_goals simp_all
  progress   := by
    intro s f x n
    fun_cases rleEncode f x n
    all_goals simp

theorem rleEncode_ok {f : Bool} (hr : (rleEncode f x n).ret = .ok) : ∃ k b, 1 ≤ k ∧ k ≤ 255 ∧
    (rleEncode f x n).written = [UInt8.ofNat k, b] ∧ x.take (rleEncode f x n).taken = List.replicate k b := by
  revert hr
  fun_cases rleEncode f x n
  case case3 b x _ =>
    intro _
    have := (runOf_length b x).left
    exact ⟨_, b, by omega, by omega, rfl, take_runOf b x⟩
  all_goals simp

theorem rleContent_run {k : Nat} (b : UInt8) (h₁ : 1 ≤ k) (h₂ : k ≤ 255) (w y : Bytes) :
    rleContent (.pending w) (UInt8.ofNat k :: b :: y) =
      (rleContent (.pending []) y).map (w ++ List.replicate k b ++ ·) := by
  have hk : (UInt8.ofNat k).toNat = k := by
    rw [UInt8.toNat_ofNat']
    omega
  have hne : UInt8.ofNat k ≠ 0 := by
    intro he
    have := congrArg UInt8.toNat he
    rw [hk] at this
    have h0 : (0 : UInt8).toNat = 0 := rfl
    omega
  simp only [rleContent, if_neg hne, hk, Option.map_map]
  congr 1
  funext v
  exact (List.append_assoc ..).symm

-- What is written decodes to what was taken, whatever follows.
theorem content_encoded {u : Unit} (h : runs.Encoded u x z) (y : Bytes) :
    rleContent (.pending []) (z ++ y) = (rleContent (.pending []) y).map (x ++ ·) := by
  induction h generalizing y
  case start            => simp
  case call f w n _ hr ih =>
    obtain ⟨k, b, h₁, h₂, hwritten, htaken⟩ := rleEncode_ok hr
    simp only [runs, hwritten, htaken, List.append_assoc, ih, List.cons_append, List.nil_append,
      rleContent_run b h₁ h₂, Option.map_map]
    rfl

theorem inverse_runs : Inverse runs rle := by
  intro s x z y n h hr
  revert hr
  simp only [runs]
  fun_cases rleEncode true y n
  case case1 => simp [rle, content_encoded h, rleContent]
  all_goals simp

-- Three runs. The decoder has output left over when it has taken the byte of a run.
def packed : Bytes :=
  [3, 97, 1, 98, 2, 0, 0]

theorem lasts_packed : (zdecompress rle packed 10).Lasts := by
  have hnext : ∀ n < 10, ∀ x ∈ Loop.turns (zdecompress rle packed 10).turn n (.start rle),
      ((zdecompress rle packed 10).inflate x).ret = .ok → ∃ m < 10,
        Loop.turns (zdecompress rle packed 10).turn m (.start rle) =
          some (x.after ((zdecompress rle packed 10).inflate x)) := by
    decide +kernel
  have hfed : ∀ x, (zdecompress rle packed 10).Fed x → ∃ n < 10,
      Loop.turns (zdecompress rle packed 10).turn n (.start rle) = some x := by
    intro x hx
    induction hx
    case start                     => exact ⟨0, by decide, rfl⟩
    case call hr ih                =>
      obtain ⟨n, hn, hx⟩ := ih
      exact hnext n hn _ hx hr
    case again _ hretry _ _        => exact Bool.noConfusion hretry
  have hall : ∀ n < 10, ∀ x ∈ Loop.turns (zdecompress rle packed 10).turn n (.start rle),
      (zdecompress rle packed 10).Left x ∧ (∃ i < 8, x.next_in = .zdata i) ∧
        (((zdecompress rle packed 10).inflate x).ret = .streamEnd →
          x.total_in + ((zdecompress rle packed 10).inflate x).taken = packed.length) := by
    decide +kernel
  constructor
  case left  =>
    intro x hx
    obtain ⟨n, hn, hx⟩ := hfed x hx
    exact (hall n hn x hx).left
  case own   =>
    intro x k hx hk
    obtain ⟨n, hn, hx⟩ := hfed x hx
    obtain ⟨i, _, hi⟩ := (hall n hn x hx).right.left
    cases hk.symm.trans hi
  case whole =>
    intro x hx hr
    obtain ⟨n, hn, hx⟩ := hfed x hx
    exact (hall n hn x hx).right.right hr

theorem gives_back_packed :
    ∃ x, (zdecompress rle packed 10).decompress true true = some x ∧ x.data = [97, 97, 97, 98, 0, 0] :=
  ((complete_iff_lasts rle (fun _ => 0) packed 10).right.right.right _ runs 10 [97, 97, 97, 98, 0, 0] true true
    inverse_runs).left (by decide +kernel) lasts_packed

end Lengths


end Zlib

end Server8
