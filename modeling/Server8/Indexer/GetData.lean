import Server8.Indexer.CombineChunk

-- What a fetch writes to its array: `getData` and `combineChunk`, and the callers in Indexer2.cpp and
-- Indexer3.cpp.

namespace Server8

namespace GetData

open Regex

-- An array, and where it was written to: the offsets and the sizes. What is written behind the end is
-- lost.
structure Output where
  data   : Bytes
  writes : List (Nat × Nat)
  deriving DecidableEq, Repr

namespace Output

def write (o : Output) (offset : Nat) (bytes : Bytes) : Output where
  data   := (o.data.take offset ++ bytes ++ o.data.drop (offset + bytes.length)).take o.data.length
  writes := (offset, bytes.length) :: o.writes

-- As `LogModule.memcpy_s`.
def memcpy_s (o : Output) (index size : Nat) (src : Bytes) : Output :=
  if src.length ≤ size then o.write index src else o.write index (List.replicate size 0)

-- The result is `none` where the text has no end in the array.
def combineChunk (o : Output) (length : Nat) : Output × Option Int :=
  match cString o.data with
  | none     => (o, none)
  | some str =>
    if search chunkedPattern str = false then (o, some length)
    else match cut (ascii "\r\n\r\n") str with
      | none             => (o, some length)
      | some (u, pStart) =>
        let prevLen := u.length + 4
        let str := replace replacePattern first pStart
        let newLength := str.length
        let o := o.memcpy_s prevLen (length - prevLen) str
        (o.write (newLength + prevLen) [0], some (newLength + prevLen))

end Output

-- The results of the system calls in a fetch. A call of `recv` gives bytes, none at the end of the
-- response, or `SOCKET_ERROR`.
structure Replies where
  connected : Bool
  sent      : Bool
  shutdown  : Bool
  received  : List (Option Bytes)
  deriving DecidableEq, Repr

-- The loop has not ended when there is no result.
def recvLoop : Output → Nat → List (Option Bytes) → Output × Option (Option Nat)
  | o, _, []                           => (o, none)
  | o, _, none :: _                    => (o, some none)
  | o, count, some [] :: _             => (o, some (some count))
  | o, count, some (b :: data) :: rest =>
    recvLoop (o.write count (b :: data)) (count + (data.length + 1)) rest

def getData (output : Bytes) (replies : Replies) : Output × Option Int :=
  let o := { data := output, writes := [] : Output }.write 0 (List.replicate output.length 0)
  if !replies.connected then (o, some (-1))
  else if !replies.sent then (o, some (-1))
  else if !replies.shutdown then (o, some (-1))
  else match recvLoop o 0 replies.received with
    | (o, none)              => (o, none)
    | (o, some none)         => (o, some (-1))
    | (o, some (some count)) => (o.write count [0]).combineChunk count

-- The first part of `run` in Indexer2.cpp.
def fetch2 (currentURL output : Bytes) (replies : Replies) : Output :=
  if currentURL ≠ [] then
    match getData output replies with
    | (o, none)        => o
    | (o, some length) => if length ≤ 0 then o else o.write length.toNat [0]
  else { data := output, writes := [] }

-- The first part of `run` in Indexer3.cpp.
def fetch3 (output : Bytes) (replies : Replies) : Output :=
  (getData output replies).1

-- Each call of `recv` gives at most as many bytes as there is room for.
def Asked : Nat → List (Option Bytes) → Prop
  | _, []                          => True
  | _, none :: _                   => True
  | _, some [] :: _                => True
  | room, some (_ :: data) :: rest =>
    data.length + 1 ≤ room ∧ Asked (room - (data.length + 1)) rest

-- The response fills the array, and then `recv` has nothing more to give.
def Fills : Nat → List (Option Bytes) → Prop
  | _, []                          => False
  | _, none :: _                   => False
  | room, some [] :: _             => room = 0
  | room, some (_ :: data) :: rest => Fills (room - (data.length + 1)) rest

namespace Output

variable {o o' : Output} {offset n limit : Nat} {bytes : Bytes}

-- All that is written lies in the array.
def InBounds (limit : Nat) (o : Output) : Prop :=
  ∀ w ∈ o.writes, ∀ i, w.1 ≤ i → i < w.1 + w.2 → i < limit

@[simp]
theorem length_write : (o.write offset bytes).data.length = o.data.length := by
  simp only [write, List.length_take, List.length_append, List.length_drop]
  omega

theorem inBounds_write : (o.write offset bytes).InBounds limit ↔
    (bytes = [] ∨ offset + bytes.length ≤ limit) ∧ o.InBounds limit := by
  simp only [InBounds, write, List.forall_mem_cons]
  refine and_congr_left fun _ => ?_
  constructor
  case mp =>
    intro h
    by_cases hb : bytes = []
    case pos => exact .inl hb
    case neg =>
      have hpos := List.length_pos_iff.mpr hb
      have := h (offset + bytes.length - 1) (by omega) (by omega)
      exact .inr (by omega)
  case mpr =>
    intro h i hi hlt
    cases h
    case inl hb =>
      subst hb
      simp only [List.length_nil] at hlt
      omega
    case inr hb => omega

theorem InBounds.of_write (h : (o.write offset bytes).InBounds limit) : o.InBounds limit :=
  (inBounds_write.mp h).right

-- A zero is found where it was written.
theorem write_zero (h : offset < o.data.length) : (o.write offset [0]).data = o.data.set offset 0 := by
  rw [write, List.set_eq_take_append_cons_drop, if_pos h, List.append_assoc, List.singleton_append,
    List.length_singleton]
  refine List.take_of_length_le ?_
  rw [List.length_append, List.length_take, List.length_cons, List.length_drop]
  omega

theorem getElem?_write (h : offset < o.data.length) : (o.write offset [0]).data[offset]? = some 0 := by
  rw [write_zero h, List.getElem?_set_self h]

theorem length_of_cString {data str : Bytes} (hc : cString data = some str) (hn : data[n]? = some 0) :
    str.length ≤ n := by
  unfold cString at hc
  split at hc
  case isFalse => cases hc
  case isTrue  =>
    cases hc
    by_contra hlt
    have hlt := Nat.lt_of_not_le hlt
    have hp := List.mem_takeWhile_imp (List.getElem_mem hlt)
    obtain ⟨_, hget⟩ := List.getElem?_eq_some_iff.mp hn
    have he : (data.takeWhile (· ≠ 0))[n] = data[n] := (List.takeWhile_prefix _).getElem hlt
    rw [he, hget] at hp
    simp at hp

-- With a zero at its end the text is changed in place, and its end stays in the array.
theorem combineChunk_kept (hn : o.data[n]? = some 0) (h : o.InBounds limit)
    (hl : o.data.length = limit) :
    (o.combineChunk n).1.InBounds limit ∧ (o.combineChunk n).1.data.length = limit ∧
      ∃ k : Nat, (o.combineChunk n).2 = some (k : Int) ∧ k ≤ n := by
  obtain ⟨hlt, _⟩ := List.getElem?_eq_some_iff.mp hn
  unfold combineChunk
  split
  case h_1 hc =>
    unfold cString at hc
    rw [if_pos (List.mem_of_getElem? hn)] at hc
    cases hc
  case h_2 str hc =>
    have hstr := length_of_cString hc hn
    split
    case isTrue  => exact ⟨h, hl, n, rfl, Nat.le_refl n⟩
    case isFalse =>
      split
      case h_1 => exact ⟨h, hl, n, rfl, Nat.le_refl n⟩
      case h_2 u pStart hcut =>
        have hlen := congrArg List.length (eq_of_cut hcut)
        rw [List.length_append, List.length_append, show (ascii "\r\n\r\n").length = 4 from rfl] at hlen
        have hnew : (replace replacePattern first pStart).length ≤ pStart.length := length_decode_le pStart
        dsimp only
        rw [memcpy_s, if_pos (by omega), inBounds_write, inBounds_write]
        refine ⟨⟨.inr ?_, .inr ?_, h⟩, ?_, _, rfl, ?_⟩
        · rw [List.length_singleton]
          omega
        · omega
        · rw [length_write, length_write, hl]
        · omega

-- This is `combineChunk`, as long as the text ends where it should.
theorem combineChunk_eq (hn : o.data[n]? = some 0) :
    GetData.combineChunk o.data n =
      (o.combineChunk n).2.map fun length => ((o.combineChunk n).1.data, length.toNat) := by
  obtain ⟨hlt, _⟩ := List.getElem?_eq_some_iff.mp hn
  unfold combineChunk GetData.combineChunk
  cases hc : cString o.data
  case none     => rfl
  case some str =>
    have hstr := length_of_cString hc hn
    rw [Option.bind_eq_bind, Option.bind_some]
    dsimp only
    split
    case isTrue  => rfl
    case isFalse =>
      cases hcut : cut (ascii "\r\n\r\n") str
      case none   => rfl
      case some w =>
        have hlen := congrArg List.length (eq_of_cut (u := w.1) (v := w.2) hcut)
        rw [List.length_append, List.length_append, show (ascii "\r\n\r\n").length = 4 from rfl] at hlen
        have hnew : (replace replacePattern first w.2).length ≤ w.2.length := length_decode_le w.2
        have hcopy : (LogModule.memcpy_s o.data (w.1.length + 4 : Nat) (n - (w.1.length + 4 : Nat))
            (replace replacePattern first w.2)).2 =
              (o.memcpy_s (w.1.length + 4) (n - (w.1.length + 4)) (replace replacePattern first w.2)).data := by
          rw [LogModule.memcpy_s, if_pos (by omega), memcpy_s, if_pos (by omega), write, Int.toNat_natCast]
          refine (List.take_of_length_le ?_).symm
          simp only [List.length_append, List.length_take, List.length_drop]
          omega
        have hl : (o.memcpy_s (w.1.length + 4) (n - (w.1.length + 4)) (replace replacePattern first w.2)).data.length =
            o.data.length := by
          rw [memcpy_s, if_pos (by omega), length_write]
        dsimp only
        rw [hcopy, if_pos (by rw [hl]; omega), ← write_zero (by rw [hl]; omega), Option.map_some,
          ← Int.natCast_add, Int.toNat_natCast]

theorem writes_write : o.writes ⊆ (o.write offset bytes).writes :=
  List.subset_cons_self ..

theorem writes_combineChunk : o.writes ⊆ (o.combineChunk n).1.writes := by
  unfold combineChunk
  split
  case h_1 => exact List.Subset.refl _
  case h_2 =>
    split
    case isTrue  => exact List.Subset.refl _
    case isFalse =>
      split
      case h_1 => exact List.Subset.refl _
      case h_2 =>
        refine List.Subset.trans ?_ writes_write
        unfold memcpy_s
        split
        case isTrue  => exact writes_write
        case isFalse => exact writes_write

theorem InBounds.mono (h : o'.InBounds limit) (hs : o.writes ⊆ o'.writes) : o.InBounds limit :=
  fun w hw => h w (hs hw)

end Output

section Loop

variable {o o' : Output} {count count' limit : Nat} {received : List (Option Bytes)}

-- What the loop writes is in the array; at its end there is room for a zero unless the array is full.
theorem recvLoop_spec (ha : Asked (limit - count) received) (hc : count ≤ limit)
    (h : o.InBounds limit) (hl : o.data.length = limit) :
    (recvLoop o count received).1.InBounds limit ∧ (recvLoop o count received).1.data.length = limit ∧
      ∀ count', (recvLoop o count received).2 = some (some count') → count' ≤ limit := by
  induction received generalizing o count
  case nil => exact ⟨h, hl, nofun⟩
  case cons data received ih =>
    match data with
    | none             => exact ⟨h, hl, fun _ he => by cases he⟩
    | some []          =>
      refine ⟨h, hl, fun count' he => ?_⟩
      cases he
      exact hc
    | some (b :: data) =>
      obtain ⟨hle, ha⟩ := ha
      have hsub : limit - count - (data.length + 1) = limit - (count + (data.length + 1)) := by omega
      rw [recvLoop]
      refine ih (hsub ▸ ha) (by omega) (Output.inBounds_write.mpr ⟨.inr ?_, h⟩) (Output.length_write.trans hl)
      rw [List.length_cons]
      omega

theorem recvLoop_full (ha : Asked (limit - count) received) (hc : count ≤ limit) :
    (recvLoop o count received).2 = some (some limit) ↔ Fills (limit - count) received := by
  induction received generalizing o count
  case nil => exact iff_of_false nofun id
  case cons data received ih =>
    match data with
    | none             => exact iff_of_false (fun he => by cases he) id
    | some []          =>
      simp only [recvLoop, Fills, Option.some.injEq]
      omega
    | some (b :: data) =>
      obtain ⟨hle, ha⟩ := ha
      have hsub : limit - count - (data.length + 1) = limit - (count + (data.length + 1)) := by omega
      rw [recvLoop, Fills, hsub]
      exact ih (hsub ▸ ha) (by omega)

end Loop

section Fetch

variable {output currentURL : Bytes} {replies : Replies}

-- A request goes out, and the response fills the array.
def Replies.Overflow (limit : Nat) (replies : Replies) : Prop :=
  replies.connected = true ∧ replies.sent = true ∧ replies.shutdown = true ∧ Fills limit replies.received

-- The array after `ZeroMemory`.
theorem zeroed_inBounds :
    ({ data := output, writes := [] : Output }.write 0 (List.replicate output.length 0)).InBounds
      output.length := by
  refine Output.inBounds_write.mpr ⟨.inr ?_, nofun⟩
  rw [List.length_replicate, Nat.zero_add]

theorem getData_eq (output : Bytes) (replies : Replies) :
    ∃ o : Output, o.InBounds output.length ∧ o.data.length = output.length ∧
      getData output replies =
        if replies.connected = true ∧ replies.sent = true ∧ replies.shutdown = true then
          match recvLoop o 0 replies.received with
          | (o, none)              => (o, none)
          | (o, some none)         => (o, some (-1))
          | (o, some (some count)) => (o.write count [0]).combineChunk count
        else (o, some (-1)) := by
  refine ⟨_, zeroed_inBounds, Output.length_write, ?_⟩
  obtain ⟨connected, sent, shutdown, received⟩ := replies
  cases connected
  case false => rfl
  case true  =>
    cases sent
    case false => rfl
    case true  =>
      cases shutdown
      case false => rfl
      case true  => rfl

-- `getData` stays in the array if and only if the response does not fill it, and then its result is
-- less than the size of the array.
theorem getData_inBounds (ha : Asked output.length replies.received) :
    ((getData output replies).1.InBounds output.length ↔ ¬replies.Overflow output.length) ∧
      ((getData output replies).1.InBounds output.length →
        ∀ length, (getData output replies).2 = some length → length < output.length) := by
  obtain ⟨o, ho, hl, he⟩ := getData_eq output replies
  rw [he]
  by_cases hr : replies.connected = true ∧ replies.sent = true ∧ replies.shutdown = true
  case neg =>
    rw [if_neg hr]
    refine ⟨iff_of_true ho fun h => hr ⟨h.left, h.right.left, h.right.right.left⟩, fun _ length hlen => ?_⟩
    cases hlen
    exact Int.lt_of_lt_of_le (by decide) (Int.natCast_nonneg _)
  case pos =>
    rw [if_pos hr]
    have hov : replies.Overflow output.length ↔ Fills output.length replies.received :=
      ⟨fun h => h.right.right.right, fun h => ⟨hr.left, hr.right.left, hr.right.right, h⟩⟩
    have ha : Asked (output.length - 0) replies.received := ha
    have hfull := recvLoop_full (o := o) ha (Nat.zero_le _)
    obtain ⟨hb, hd, hcount⟩ := recvLoop_spec ha (Nat.zero_le _) ho hl
    rw [hov, ← Nat.sub_zero output.length, ← hfull, Nat.sub_zero]
    cases hloop : recvLoop o 0 replies.received
    case mk o' r =>
      rw [hloop] at hb hd hcount
      match r with
      | none              => exact ⟨iff_of_true hb nofun, nofun⟩
      | some none         =>
        refine ⟨iff_of_true hb (by simp), fun _ length hlen => ?_⟩
        cases hlen
        exact Int.lt_of_lt_of_le (by decide) (Int.natCast_nonneg _)
      | some (some count) =>
        have hle := hcount count rfl
        simp only [Option.some.injEq]
        by_cases hlt : count = output.length
        case pos =>
          have hn : ¬((o'.write count [0]).combineChunk count).1.InBounds output.length := fun h => by
            have hw := (Output.inBounds_write.mp (h.mono Output.writes_combineChunk)).left
            simp only [List.cons_ne_nil, List.length_singleton, false_or] at hw
            omega
          exact ⟨iff_of_false hn (not_not.mpr hlt), fun h => absurd h hn⟩
        case neg =>
          have hlt : count < o'.data.length := by rw [hd]; omega
          obtain ⟨hb', _, k, hk, hkle⟩ := Output.combineChunk_kept (Output.getElem?_write hlt)
            (Output.inBounds_write.mpr ⟨.inr (by rw [List.length_singleton]; omega), hb⟩)
            (Output.length_write.trans hd)
          refine ⟨iff_of_true hb' (by omega), fun _ length hlen => ?_⟩
          cases hk.symm.trans hlen
          omega

-- A fetch stays in its array if and only if the response does not fill it.
theorem fetch_inBounds_iff (currentURL : Bytes) (ha : Asked output.length replies.received) :
    ((fetch2 currentURL output replies).InBounds output.length ↔
      (currentURL ≠ [] → ¬replies.Overflow output.length)) ∧
    ((fetch3 output replies).InBounds output.length ↔ ¬replies.Overflow output.length) := by
  obtain ⟨hiff, hlt⟩ := getData_inBounds ha
  refine ⟨?_, hiff⟩
  unfold fetch2
  split
  case isFalse hu => exact iff_of_true nofun fun h => absurd h hu
  case isTrue hu  =>
    rw [← hiff]
    cases hg : getData output replies
    case mk o length =>
      rw [hg] at hlt
      cases length
      case none        => exact ⟨fun h _ => h, fun h => h hu⟩
      case some length =>
        dsimp only
        split
        case isTrue  => exact ⟨fun h _ => h, fun h => h hu⟩
        case isFalse =>
          refine ⟨fun h _ => h.of_write, fun h => Output.inBounds_write.mpr ⟨.inr ?_, h hu⟩⟩
          have := hlt (h hu) length rfl
          rw [List.length_singleton]
          omega

-- A chunked response in two parts, which leaves room for the zero.
def responseHead : Bytes :=
  ascii "HTTP/1.1 200 OK\r\nTransfer-Encoding: chunked\r\n\r\n"

def chunked : Replies where
  connected := true
  sent      := true
  shutdown  := true
  received  := [some (responseHead ++ ascii "3\r\n"), some (ascii "abc\r\n0\r\n\r\n"), some []]

theorem fetch_inBounds_chunked :
    (fetch2 (ascii "http://host/") (List.replicate 80 1) chunked).InBounds 80 ∧
      (fetch3 (List.replicate 80 1) chunked).InBounds 80 ∧
      responseHead ++ ascii "abc" ++ [0] <+: (fetch3 (List.replicate 80 1) chunked).data := by
  have ha : Asked (List.replicate 80 (1 : UInt8)).length chunked.received := ⟨by decide, by decide, trivial⟩
  obtain ⟨h₂, h₃⟩ := fetch_inBounds_iff (ascii "http://host/") ha
  have hn : ¬chunked.Overflow (List.replicate 80 (1 : UInt8)).length :=
    fun h => absurd (show (80 - 50 - 10 : Nat) = 0 from h.right.right.right) (by decide)
  exact ⟨h₂.mpr fun _ => hn, h₃.mpr hn, by decide +kernel⟩

-- A response that is as long as the array: the zero behind it is not in the array.
def full : Replies where
  connected := true
  sent      := true
  shutdown  := true
  received  := [some (ascii "ok"), some []]

theorem fetch_not_inBounds :
    ¬∀ (output : Bytes) (replies : Replies), 1 ≤ output.length → Asked output.length replies.received →
      (fetch3 output replies).InBounds output.length := by
  intro h
  have := h [0, 0] full (by decide) ⟨by decide, trivial⟩ (2, 1) (by decide +kernel) 2 (by decide) (by decide)
  exact absurd this (by decide)

end Fetch

end GetData
end Server8
