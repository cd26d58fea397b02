import Server8.Lib.Loop
import Server8.Protocol.Recognition
import Server8.IOCP.Receive

-- The loops of `doRecv` over the packets in a buffer come to an end.

namespace Server8

open Loop

-- The bounds of a header, and of the body that it announces.
structure Packet.Sized (q : Packet) : Prop where
  headLength    : 63 ≤ q.headLength ∧ q.headLength ≤ 222
  contentLength : 0 ≤ q.contentLength ∧ q.contentLength ≤ 9999999

theorem Packet.sized_of_matchHeader {p q : Packet} {data : Bytes} {length : Int}
    (h : p.matchHeader (some data) length = (true, q)) : q.Sized := by
  obtain ⟨u, y, hy, hd, hu, _, hq⟩ := readHeader_of_matchHeader h
  have hl := header_spans _ y hy
  have hlen := congrArg List.length hd
  simp only [Regex.Pos.start, List.length_append] at hl hlen
  exact ⟨by omega, (wellFormed_of_readHeader hy (fun _ => rfl) hq).contentLength⟩

namespace IOCPContext

-- A turn of the loop, from the packet and the offset before its test.
def turn (buf : Bytes) (dataLength : Int) (x : Packet × Int) : Option (Packet × Int) :=
  if x.2 < dataLength then
    match x.1.matchHeader (some (buf.drop x.2.toNat)) (dataLength - x.2) with
    | (true, pack) => some (pack, x.2 + pack.getPacketLength)
    | (false, _)   => none
  else none

-- The values of type `int` in the test of a turn, and in its body.
def turnInts (buf : Bytes) (dataLength : Int) (x : Packet × Int) : List Int :=
  if x.2 < dataLength then
    match x.1.matchHeader (some (buf.drop x.2.toNat)) (dataLength - x.2) with
    | (true, pack) => [x.2, dataLength - x.2, pack.headLength, pack.contentLength, pack.getPacketLength,
      x.2 + pack.getPacketLength]
    | (false, _)   => [x.2, dataLength - x.2]
  else [x.2]

def IsInt (n : Int) : Prop :=
  -2 ^ 31 ≤ n ∧ n < 2 ^ 31

variable {buf : Bytes} {dataLength count : Int} {pack : Packet} {x y : Packet × Int} {n : Nat}

theorem turn_eq_some : turn buf dataLength x = some y ↔
    x.2 < dataLength ∧ ∃ q, x.1.matchHeader (some (buf.drop x.2.toNat)) (dataLength - x.2) = (true, q) ∧
      (q, x.2 + q.getPacketLength) = y := by
  unfold turn
  split
  case isFalse h => simp [h]
  case isTrue h =>
    split
    case h_1 hm => simp [h, hm]
    case h_2 hm => simp [hm]

-- A turn goes on behind a header, by no more than a packet can have.
theorem turn_bounds (h : turn buf dataLength x = some y) :
    x.2 < dataLength ∧ x.2 + 63 ≤ y.2 ∧ y.2 ≤ x.2 + (222 + 9999999) := by
  obtain ⟨hlt, q, hm, rfl⟩ := turn_eq_some.mp h
  obtain ⟨hh, hc⟩ := Packet.sized_of_matchHeader hm
  refine ⟨hlt, ?_, ?_⟩
  · dsimp only [Packet.getPacketLength]
    omega
  · dsimp only [Packet.getPacketLength]
    omega

theorem turns_count (h : turns (turn buf dataLength) n x = some y) :
    x.2 + 63 * n ≤ y.2 ∧ (n ≠ 0 → x.2 + 63 * (n - 1) < dataLength) := by
  induction n generalizing x
  case zero =>
    cases h
    exact ⟨by omega, fun hn => absurd rfl hn⟩
  case succ n ih =>
    obtain ⟨z, hz, h⟩ := turns_succ.mp h
    obtain ⟨hlt, hle, _⟩ := turn_bounds hz
    obtain ⟨h₁, h₂⟩ := ih h
    refine ⟨by omega, fun _ => ?_⟩
    by_cases hn : n = 0
    case pos =>
      subst hn
      omega
    case neg =>
      have := h₂ hn
      omega

theorem turns_le (hc : x.2 ≤ dataLength) (h : turns (turn buf dataLength) n x = some y) :
    y.2 ≤ dataLength + (222 + 9999999) := by
  have hle : x.2 ≤ dataLength + (222 + 9999999) := by omega
  refine invariant (I := fun x => x.2 ≤ dataLength + (222 + 9999999)) hle (fun x y _ hxy => ?_) h
  have := turn_bounds hxy
  omega

theorem isInt_of_mem (h₀ : 0 ≤ x.2) (h : x.2 ≤ dataLength + (222 + 9999999)) (hd : dataLength < 2 ^ 30) :
    ∀ k ∈ turnInts buf dataLength x, IsInt k := by
  intro k hk
  unfold turnInts at hk
  split at hk
  case isFalse =>
    cases List.mem_singleton.mp hk
    exact ⟨by omega, by omega⟩
  case isTrue hlt =>
    split at hk
    case h_1 q hm =>
      obtain ⟨hh, hc⟩ := Packet.sized_of_matchHeader hm
      simp only [Packet.getPacketLength, List.mem_cons, List.not_mem_nil, or_false] at hk
      unfold IsInt
      omega
    case h_2 =>
      simp only [List.mem_cons, List.not_mem_nil, or_false] at hk
      unfold IsInt
      omega

-- `splice` is the loop, turn by turn, with a callback in a turn at most.
theorem splice_ends (buf : Bytes) (dataLength : Int) (pack : Packet) (count : Int) :
    ∃ n, Ends (turn buf dataLength) (pack, count) n
        ((splice buf dataLength pack count).1, (splice buf dataLength pack count).2.1) ∧
      (splice buf dataLength pack count).2.2.length ≤ n := by
  induction count using splice_induction buf dataLength generalizing pack
  case none o ho =>
    rw [splice_of_none ho]
    refine ⟨0, .done ?_, Nat.le_refl _⟩
    rw [Option.eq_none_iff_forall_ne_some]
    intro y hy
    obtain ⟨_, q, hm, _⟩ := turn_eq_some.mp hy
    rw [headerAt_eq_some.mpr (Packet.matchHeader_congr hm {})] at ho
    cases ho
  case some o q ho ih =>
    obtain ⟨n, hn, hl⟩ := ih q
    rw [splice_of_some ho]
    refine ⟨n + 1, hn.turn (turn_eq_some.mpr ⟨headerAt_lt ho, q, ?_, rfl⟩), ?_⟩
    · exact Packet.matchHeader_congr (headerAt_eq_some.mp ho) pack
    · dsimp only
      split
      case isTrue  => exact Nat.succ_le_succ hl
      case isFalse => exact Nat.le_succ_of_le hl

-- How the loop goes: where it ends, how much a turn adds, and how large its numbers get.
structure Terminates (buf : Bytes) (dataLength : Int) (pack : Packet) (count : Int) : Prop where
  ends : ∃ n, Ends (turn buf dataLength) (pack, count) n
      ((splice buf dataLength pack count).1, (splice buf dataLength pack count).2.1) ∧
    (n : Int) ≤ dataLength / 63 + 1 ∧ (splice buf dataLength pack count).2.2.length ≤ n
  grows : ∀ n x y, turns (turn buf dataLength) n (pack, count) = some x →
    turn buf dataLength x = some y → x.2 + 63 ≤ y.2 ∧ y.2 ≤ x.2 + (222 + 9999999)
  bounded : ∀ n x, turns (turn buf dataLength) n (pack, count) = some x →
    x.2 ≤ dataLength + (222 + 9999999) ∧ ∀ k ∈ turnInts buf dataLength x, IsInt k

theorem splice_terminates (buf : Bytes) (dataLength : Int) (pack : Packet) (count : Int)
    (hcount : 0 ≤ count ∧ count ≤ dataLength) (hlength : dataLength ≤ buf.length)
    (hbuf : buf.length < 2 ^ 30) : Terminates buf dataLength pack count where
  ends := by
    obtain ⟨n, hn, hl⟩ := splice_ends buf dataLength pack count
    refine ⟨n, hn, ?_, hl⟩
    have := turns_count hn.reached
    by_cases hz : n = 0
    case pos =>
      subst hz
      omega
    case neg =>
      have := this.right hz
      omega
  grows n x y _ hxy := (turn_bounds hxy).right
  bounded n x hx := by
    have hle := turns_le hcount.right hx
    have := (turns_count hx).left
    exact ⟨hle, isInt_of_mem (by omega) hle (by omega)⟩

-- A header that announces the longest body, in a buffer that ends with it.
theorem splice_terminates_oversized : Terminates Packet.oversized.header 119 {} 0 :=
  splice_terminates _ 119 {} 0 (by decide) (by decide +kernel) (by decide +kernel)

end IOCPContext
end Server8
