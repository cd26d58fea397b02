import Server8.IOCP.Boundaries

-- A connection on its own: what the handlers make of the bytes that arrive on its socket, one receive
-- after the other.

namespace Server8

-- What a socket receives at once, with the accept or with a receive of the connection.
structure Arrival where
  accepted : Bool
  segment  : Segment

-- Where in the stream the packets end for which the callback is called: the first one, which goes to the
-- listening context, and those for the connection itself.
structure Reader where
  context : IOCPContext := { wsabuf := ⟨0, []⟩ }
  length  : Int         := 0
  first   : List Int    := []
  own     : List Int    := []

namespace IOCPContext

def read (bufferSize : Int) (pIC : IOCPContext) (a : Arrival) : Received :=
  if a.accepted then pIC.doAccept a.segment.buf a.segment.dataLength
  else pIC.doRecv bufferSize a.segment.buf a.segment.dataLength

-- The number of bytes that a packet still misses.
def outstanding (pIC : IOCPContext) : Option Int :=
  if pIC.prevFlag then some pIC.bytesToRecv else none

end IOCPContext

namespace Reader

def take (bufferSize : Int) (r : Reader) (a : Arrival) : Reader :=
  let x := r.context.read bufferSize a
  let stops := x.calls.map (r.length + ·.1)
  {
    context := x.context
    length  := r.length + a.segment.dataLength
    first   := if a.accepted then r.first ++ stops else r.first
    own     := if a.accepted then r.own else r.own ++ stops }

def takes (bufferSize : Int) (r : Reader) (arrivals : List Arrival) : Reader :=
  arrivals.foldl (take bufferSize) r

end Reader

section Outstanding

variable {c c' : IOCPContext} {n : Int}

theorem IOCPContext.outstanding_carry (pack : Packet) (count : Int) (h : c.outstanding = c'.outstanding) :
    (c.carry pack count n).1.outstanding = (c'.carry pack count n).1.outstanding := by
  unfold IOCPContext.carry
  split
  case isTrue  => rfl
  case isFalse => exact h

-- What a handler does depends on the bytes that are missing, and on nothing else of the context.
theorem IOCPContext.doRecv_congr (bufferSize : Int) (buf : Bytes) (n : Int) (h : c.outstanding = c'.outstanding) :
    (c.doRecv bufferSize buf n).calls = (c'.doRecv bufferSize buf n).calls ∧
      (c.doRecv bufferSize buf n).context.outstanding = (c'.doRecv bufferSize buf n).context.outstanding := by
  have hflag : c.prevFlag = c'.prevFlag := by
    cases hc : c.prevFlag <;> cases hc' : c'.prevFlag <;> simp [outstanding, hc, hc'] at h ⊢
  unfold IOCPContext.doRecv
  dsimp only
  cases hp : c'.prevFlag
  case false =>
    simp only [hflag, hp, Bool.false_eq_true, if_false]
    exact ⟨trivial, outstanding_carry _ _ h⟩
  case true =>
    have hbytes : c.bytesToRecv = c'.bytesToRecv := by simpa [outstanding, hflag, hp] using h
    simp only [hflag, hp, if_true, hbytes]
    split
    case isTrue  => exact ⟨rfl, rfl⟩
    case isFalse =>
      split
      case isTrue  => exact ⟨rfl, by simp [outstanding]⟩
      case isFalse =>
        split
        case isTrue  => exact ⟨rfl, outstanding_carry _ _ rfl⟩
        case isFalse => exact ⟨rfl, rfl⟩

theorem IOCPContext.doAccept_congr (buf : Bytes) (n : Int) (h : c.outstanding = c'.outstanding) :
    (c.doAccept buf n).calls = (c'.doAccept buf n).calls ∧
      (c.doAccept buf n).context.outstanding = (c'.doAccept buf n).context.outstanding := by
  unfold IOCPContext.doAccept
  split
  case h_1 => exact ⟨rfl, h⟩
  case h_2 =>
    split
    case isTrue  => exact ⟨rfl, h⟩
    case isFalse => exact ⟨rfl, rfl⟩

end Outstanding

-- Offsets that go up, from `low` on and up to `high`.
structure Ascends (low high : Int) (stops : List Int) : Prop where
  sorted : stops.Pairwise (· < ·)
  above  : ∀ stop ∈ stops, low < stop
  below  : ∀ stop ∈ stops, stop ≤ high

namespace Ascends

variable {low low' high high' n : Int} {stops stops' : List Int}

theorem nil : Ascends low high [] :=
  ⟨.nil, nofun, nofun⟩

theorem mono (h : Ascends low high stops) (hl : low' ≤ low) (hh : high ≤ high') : Ascends low' high' stops :=
  ⟨h.sorted, fun s hs => Int.lt_of_le_of_lt hl (h.above s hs), fun s hs => Int.le_trans (h.below s hs) hh⟩

theorem cons (h : Ascends n high stops) (hl : low < n) (hh : n ≤ high) : Ascends low high (n :: stops) where
  sorted := List.pairwise_cons.mpr ⟨h.above, h.sorted⟩
  above  := List.forall_mem_cons.mpr ⟨hl, fun s hs => Int.lt_trans hl (h.above s hs)⟩
  below  := List.forall_mem_cons.mpr ⟨hh, h.below⟩

theorem append (h : Ascends low n stops) (h' : Ascends n high stops') (hl : low ≤ n) (hh : n ≤ high) :
    Ascends low high (stops ++ stops') where
  sorted := List.pairwise_append.mpr
    ⟨h.sorted, h'.sorted, fun s hs t ht => Int.lt_of_le_of_lt (h.below s hs) (h'.above t ht)⟩
  above  := List.forall_mem_append.mpr ⟨h.above, fun s hs => Int.lt_of_le_of_lt hl (h'.above s hs)⟩
  below  := List.forall_mem_append.mpr ⟨fun s hs => Int.le_trans (h.below s hs) hh, h'.below⟩

theorem of_prefix (h : Ascends low high stops) (hp : stops' <+: stops) : Ascends low high stops' where
  sorted := h.sorted.sublist hp.sublist
  above s hs := h.above s (hp.subset hs)
  below s hs := h.below s (hp.subset hs)

theorem shift (h : Ascends low high stops) (n : Int) : Ascends (n + low) (n + high) (stops.map (n + ·)) where
  sorted := List.pairwise_map.mpr (h.sorted.imp fun hlt => Int.add_lt_add_left hlt n)
  above  := List.forall_mem_map.mpr fun s hs => Int.add_lt_add_left (h.above s hs) n
  below  := List.forall_mem_map.mpr fun s hs => Int.add_le_add_left (h.below s hs) n

end Ascends

section Stops

variable {c : IOCPContext} {s : Segment}

theorem splice_ascends (buf : Bytes) (n start : Int) (pack : Packet) :
    Ascends start n (IOCPContext.splice buf n pack start).2.2 := by
  revert pack
  apply splice_induction buf n ?none ?some start
  case none =>
    intro o h pack
    rw [splice_of_none h]
    exact .nil
  case some =>
    intro o q h ih pack
    have := headerAt_pos h
    rw [splice_of_some h]
    dsimp only
    split
    case isTrue hn  => exact (ih q).cons (by omega) hn
    case isFalse hn => exact (ih q).mono (by omega) (Int.le_refl _)

-- The calls are made in the order of the packets, and the bytes that a packet misses are some.
theorem doRecv_ascends (bufferSize : Int) (h : ∀ n ∈ c.outstanding, 1 ≤ n) :
    Ascends 0 s.dataLength ((c.doRecv bufferSize s.buf s.dataLength).calls.map Prod.fst) ∧
      ∀ n ∈ (c.doRecv bufferSize s.buf s.dataLength).context.outstanding, 1 ≤ n := by
  have hs := s.pos
  have carry_pos : ∀ (c : IOCPContext) pack count n, c.prevFlag = false →
      ∀ x ∈ (c.carry pack count n).1.outstanding, 1 ≤ x := by
    intro c pack count n hp x hx
    unfold IOCPContext.carry at hx
    split at hx
    case isTrue hc =>
      simp only [IOCPContext.outstanding, if_true, Option.mem_some_iff] at hx
      omega
    case isFalse => simp [IOCPContext.outstanding, hp] at hx
  unfold IOCPContext.doRecv
  dsimp only
  split
  case isFalse hp =>
    simp only [List.map_map, Function.comp_def, List.map_id']
    exact ⟨splice_ascends .., carry_pos _ _ _ _ (Bool.eq_false_iff.mpr hp)⟩
  case isTrue hp =>
    have hpos : 1 ≤ c.bytesToRecv := h _ (by simp [IOCPContext.outstanding, hp])
    split
    case isTrue => exact ⟨.cons .nil (by omega) (Int.le_refl _), by simp [IOCPContext.outstanding]⟩
    case isFalse he =>
      split
      case isTrue hlt =>
        refine ⟨.nil, fun n hn => ?_⟩
        simp only [IOCPContext.outstanding, hp, if_true, Option.mem_some_iff] at hn
        omega
      case isFalse hlt =>
        split
        case isTrue hgt =>
          simp only [List.map_cons, List.map_map, Function.comp_def, List.map_id']
          exact ⟨(splice_ascends ..).cons (by omega) (by omega), carry_pos _ _ _ _ rfl⟩
        case isFalse => exact ⟨.nil, by simp [IOCPContext.outstanding]⟩

theorem doAccept_ascends (hf : s.FirstFits) (hc : c.outstanding = none) :
    Ascends 0 s.dataLength ((c.doAccept s.buf s.dataLength).calls.map Prod.fst) ∧
      ∀ n ∈ (c.doAccept s.buf s.dataLength).context.outstanding, 1 ≤ n := by
  have hs := s.pos
  unfold IOCPContext.doAccept
  split
  case h_1 => exact ⟨.nil, by simp [hc]⟩
  case h_2 q hm =>
    have := hf q (headerAt_zero.mpr hm)
    split
    case isTrue     => exact ⟨.cons .nil (by omega) (Int.le_refl _), by simp [hc]⟩
    case isFalse he =>
      refine ⟨.nil, fun n hn => ?_⟩
      simp only [IOCPContext.outstanding, if_true, Option.mem_some_iff] at hn
      omega

-- `doAccept` calls the callback for all of the bytes, or not at all.
theorem doAccept_calls (buf : Bytes) (n : Int) :
    (c.doAccept buf n).calls.map Prod.fst = if (c.doAccept buf n).calls ≠ [] then [n] else [] := by
  unfold IOCPContext.doAccept
  split
  case h_1 => rfl
  case h_2 =>
    split
    case isTrue  => rfl
    case isFalse => rfl

-- The copy of `doAccept` has room only for a packet that is no shorter than the bytes.
theorem firstFits_of_copies {length : Int}
    (h : ∀ copy ∈ (c.doAccept s.buf s.dataLength).copies, copy.InBounds length) : s.FirstFits := by
  intro q hq
  by_cases he : q.getPacketLength = s.dataLength
  case pos => exact Int.le_of_eq he.symm
  case neg =>
    rw [IOCPContext.doAccept_some c hq he] at h
    obtain ⟨_, _, _, _, n, hn, hle⟩ := Copy.inBounds_iff.mp (h _ List.mem_cons_self)
    cases hn
    omega

end Stops

namespace Reader

variable {bufferSize : Int} {r : Reader} {a : Arrival}

-- The callbacks are called in the order of the packets in the stream, each for another packet.
structure InOrder (r : Reader) : Prop where
  first       : ∃ n, Ascends 0 n r.first ∧ Ascends n r.length r.own ∧ 0 ≤ n ∧ n ≤ r.length
  outstanding : ∀ n ∈ r.context.outstanding, 1 ≤ n

theorem InOrder.take (h : r.InOrder) (ha : a.accepted = false) : (r.take bufferSize a).InOrder := by
  obtain ⟨n, hf, ho, hn, hl⟩ := h.first
  obtain ⟨hs, hx⟩ := doRecv_ascends (s := a.segment) bufferSize h.outstanding
  have := a.segment.pos
  have hs := hs.shift r.length
  rw [Int.add_zero, List.map_map] at hs
  have hle : r.length ≤ r.length + a.segment.dataLength := by omega
  simp only [Reader.take, IOCPContext.read, ha, Bool.false_eq_true, if_false]
  exact ⟨⟨n, hf, ho.append hs hl hle, hn, Int.le_trans hl hle⟩, hx⟩

theorem InOrder.empty : ({} : Reader).InOrder :=
  ⟨⟨0, .nil, .nil, Int.le_refl _, Int.le_refl _⟩, nofun⟩

theorem InOrder.accept (ha : a.accepted = true) (hf : a.segment.FirstFits) :
    (Reader.take bufferSize {} a).InOrder := by
  obtain ⟨hs, hx⟩ := doAccept_ascends (c := { wsabuf := ⟨0, []⟩ }) hf rfl
  have := a.segment.pos
  simp only [Reader.take, IOCPContext.read, ha, if_true, Int.zero_add, List.nil_append]
  exact ⟨⟨a.segment.dataLength, hs, .nil, by omega, Int.le_refl _⟩, hx⟩

section Messages

variable {arrivals : List Arrival} {messages : List Message}

theorem length_takes (bufferSize : Int) : r.length + arrivals.length ≤ (r.takes bufferSize arrivals).length := by
  induction arrivals generalizing r
  case nil            => simp [takes]
  case cons a arrivals ih =>
    have := a.segment.pos
    have ih : (r.take bufferSize a).length + arrivals.length ≤ _ := ih
    simp only [Reader.take, List.length_cons, takes, List.foldl_cons] at ih ⊢
    omega

end Messages

end Reader
end Server8
