import Server8.Protocol.Lines
import Server8.IOCP.Bounds

namespace Server8

-- A packet as it is sent: a header and as many bytes as it announces.
structure Message where
  packet     : Packet
  body       : Bytes
  wellFormed : packet.WellFormed
  length     : packet.contentLength = body.length
  limit      : packet.header.length + body.length ≤ 0x800100

namespace Message

def bytes (m : Message) : Bytes :=
  m.packet.createHeader.1 ++ m.body

theorem bytes_eq (m : Message) : m.bytes = m.packet.header ++ m.body :=
  rfl

theorem bytes_length (m : Message) : m.packet.createHeader.2.getPacketLength = m.bytes.length := by
  simp [Packet.getPacketLength, Packet.createHeader, bytes, m.length]

end Message

namespace Segment

def bytes (s : Segment) : Bytes :=
  s.buf.take s.dataLength.toNat

theorem bytes_length (s : Segment) : (s.bytes.length : Int) = s.dataLength := by
  have := s.pos
  have := s.le
  simp only [bytes, List.length_take]
  omega

theorem bytes_ne_nil (s : Segment) : s.bytes ≠ [] := by
  have := s.pos
  have := s.bytes_length
  intro h
  simp only [h, List.length_nil] at this
  omega

theorem shown_eq (s : Segment) : shown s.buf s.dataLength = ⟨s.bytes, s.bytes.length⟩ := by
  rw [bytes_length]
  rfl

-- The bytes at the front of a buffer of the default size.
def ofBytes (b : Bytes) (pos : 1 ≤ b.length) : Segment where
  buf        := b ++ List.replicate (defaultBufSize.toNat - b.length) 0
  dataLength := b.length
  pos        := by omega
  le         := by simp

theorem bytes_ofBytes {b : Bytes} (pos : 1 ≤ b.length) : (ofBytes b pos).bytes = b := by
  simp [ofBytes, bytes]

theorem buf_length_ofBytes {b : Bytes} (pos : 1 ≤ b.length) (h : b.length ≤ defaultBufSize.toNat) :
    (ofBytes b pos).buf.length = defaultBufSize := by
  have : (defaultBufSize.toNat : Int) = defaultBufSize := rfl
  simp only [ofBytes, List.length_append, List.length_replicate]
  omega

theorem drop_bytes_prefix (s : Segment) (o : Nat) : s.bytes.drop o <+: s.buf.drop o := by
  rw [bytes, List.drop_take]
  exact List.take_prefix ..

-- The header at an offset of a segment is the header of the bytes from there on.
theorem headerAt_header {s : Segment} {m : Message} {o : Nat} {x : Bytes}
    (h : s.bytes.drop o = m.packet.header ++ x) :
    headerAt s.buf s.dataLength o = some m.packet.createHeader.2 := by
  obtain ⟨rest, hr⟩ := s.drop_bytes_prefix o
  have hl := congrArg List.length h
  have hn := s.bytes_length
  rw [List.length_drop, List.length_append] at hl
  have hp := List.length_pos_of_ne_nil m.packet.header_ne_nil
  rw [headerAt_eq_some, Int.toNat_natCast, ← hr, h, List.append_assoc]
  exact Packet.matchHeader_header m.wellFormed _ _ (by omega)

theorem headerAt_partial {s : Segment} {m : Message} {o : Nat} {z : Bytes}
    (h : m.packet.header = s.bytes.drop o ++ z) (hz : z ≠ []) :
    headerAt s.buf s.dataLength o = none := by
  have hn := s.bytes_length
  by_cases ho : s.dataLength ≤ o
  case pos => exact headerAt_none s.buf ho
  case neg =>
    cases hq : headerAt s.buf s.dataLength o
    case none   => rfl
    case some q =>
      have hm := headerAt_eq_some.mp hq
      rw [Int.toNat_natCast] at hm
      have hx := (List.prefix_iff_eq_take.mp (s.drop_bytes_prefix o)).symm
      refine absurd hm (Packet.matchHeader_partial m.wellFormed h hz ?_ hx {} q)
      rw [List.length_drop]
      omega

-- From the header of a message on, the loop goes to the end of the message.
theorem splice_header {s : Segment} {m : Message} {o : Nat} {x : Bytes}
    (h : s.bytes.drop o = m.packet.header ++ x) (pack : Packet) :
    IOCPContext.splice s.buf s.dataLength pack o =
      let next : Int := o + m.bytes.length
      let rest := IOCPContext.splice s.buf s.dataLength m.packet.createHeader.2 next
      (rest.1, rest.2.1, if next ≤ s.dataLength then next :: rest.2.2 else rest.2.2) := by
  rw [splice_of_some (headerAt_header h), m.bytes_length]

theorem splice_header_end {s : Segment} {m : Message} {o : Nat} {x : Bytes}
    (h : s.bytes.drop o = m.packet.header ++ x) (hn : s.dataLength < o + m.bytes.length)
    (pack : Packet) :
    IOCPContext.splice s.buf s.dataLength pack o =
      (m.packet.createHeader.2, (o : Int) + m.bytes.length, []) := by
  have hz := splice_of_none (headerAt_none s.buf (Int.le_of_lt hn)) m.packet.createHeader.2
  rw [splice_header h]
  dsimp only
  rw [hz, if_neg (Int.not_le.mpr hn)]

theorem splice_message {s : Segment} {m : Message} (h : s.bytes = m.bytes) (pack : Packet) :
    IOCPContext.splice s.buf s.dataLength pack 0 =
      (m.packet.createHeader.2, s.dataLength, [s.dataLength]) := by
  have hs := splice_header (o := 0) (h.trans m.bytes_eq) pack
  have hn := s.bytes_length
  rw [h] at hn
  simp only [Int.natCast_zero, Int.zero_add, hn, Int.le_refl, if_true,
    splice_of_none (headerAt_none s.buf (Int.le_refl _))] at hs
  exact hs

end Segment

variable {bufferSize : Int} {pIC : IOCPContext} {s : Segment} {segments : List Segment} {m : Message}
  {messages : List Message}

-- What the receiving side owes to the messages: one call for each, with its bytes and its length,
-- and no copy outside of the buffers.
def Framed (bufferSize : Int) (pContext : IOCPContext) (messages : List Message) (first : Segment)
    (rest : List Segment) : Prop :=
  let r := pContext.doAccept first.buf first.dataLength
  let rs := receives bufferSize r.context rest
  (∀ c ∈ r.copies, c.InBounds first.buf.length) ∧
    (∀ x ∈ rest.zip rs, ∀ c ∈ x.2.copies, c.InBounds x.1.buf.length) ∧
    (r.calls ++ rs.flatMap Received.calls).map Prod.snd =
      messages.map fun m => ⟨m.bytes, m.bytes.length⟩

-- A way of cutting the stream of the messages, for buffers of the default size.
structure Cut (messages : List Message) (first : Segment) (rest : List Segment) : Prop where
  stream : first.bytes ++ (rest.map Segment.bytes).flatten = (messages.map Message.bytes).flatten
  first  : first.buf.length = defaultBufSize ∧ first.dataLength ≤ defaultBufSize - 64
  rest   : ∀ s ∈ rest, s.buf.length = defaultBufSize

theorem IOCPContext.doAccept_none {buf : Bytes} {n : Int} (pContext : IOCPContext)
    (h : headerAt buf n 0 = none) :
    pContext.doAccept buf n = { context := pContext, calls := [], copies := [] } := by
  unfold IOCPContext.doAccept
  split
  case h_1 => rfl
  case h_2 hm => simp [headerAt_zero.mpr hm] at h

theorem IOCPContext.doAccept_some {buf : Bytes} {n : Int} {q : Packet} (pContext : IOCPContext)
    (h : headerAt buf n 0 = some q) (hn : q.getPacketLength ≠ n) :
    pContext.doAccept buf n = {
      context := { pContext with
        prevFlag    := true
        prevData    := some q.getPacketLength
        bytesToRecv := q.getPacketLength - n
        packet      := q }
      calls   := []
      copies  := [⟨n, 0, 0, some q.getPacketLength⟩] } := by
  simp only [IOCPContext.doAccept, headerAt_zero.mp h, hn, if_false]

section Whole

theorem doAccept_message (pIC : IOCPContext) (h : s.bytes = m.bytes) :
    pIC.doAccept s.buf s.dataLength =
      { context := pIC, calls := [(s.dataLength, shown s.buf s.dataLength)], copies := [] } := by
  have hh := headerAt_zero.mp (Segment.headerAt_header (o := 0) (h.trans m.bytes_eq))
  have hn := s.bytes_length
  rw [h] at hn
  simp only [IOCPContext.doAccept, hh, m.bytes_length, hn, if_true]

theorem doRecv_message (hp : pIC.prevFlag = false) (h : s.bytes = m.bytes) :
    pIC.doRecv bufferSize s.buf s.dataLength =
      { context := pIC, calls := [(s.dataLength, shown s.buf s.dataLength)], copies := [] } := by
  have hc : pIC.carry m.packet.createHeader.2 s.dataLength s.dataLength = (pIC, []) :=
    if_neg (Int.lt_irrefl _)
  simp only [IOCPContext.doRecv, hp, Bool.false_eq_true, if_false, Segment.splice_message h, hc,
    List.map_singleton]

theorem receives_messages (hp : pIC.prevFlag = false)
    (h : segments.map Segment.bytes = messages.map Message.bytes) :
    receives bufferSize pIC segments = segments.map fun s =>
      { context := pIC, calls := [(s.dataLength, shown s.buf s.dataLength)], copies := [] } := by
  induction segments generalizing messages
  case nil => rfl
  case cons s segments ih =>
    cases messages
    case nil => cases h
    case cons m messages =>
      have ⟨hm, hs⟩ := List.cons.inj h
      rw [receives, doRecv_message hp hm, List.map_cons, ih hs]

end Whole

section Unframed

-- A connection whose first bytes were no whole header: the offsets start before the arrays.
structure Lost (pIC : IOCPContext) : Prop where
  pos    : pIC.prevFlag → 1 ≤ pIC.bytesToRecv
  packet : pIC.packet.getPacketLength = 0

theorem carry_pos {pack : Packet} {count n : Int} (h : pIC.prevFlag → 1 ≤ pIC.bytesToRecv) :
    (pIC.carry pack count n).1.prevFlag → 1 ≤ (pIC.carry pack count n).1.bytesToRecv := by
  unfold IOCPContext.carry
  split
  case isTrue  => exact fun _ => by dsimp only; omega
  case isFalse => exact h

theorem Lost.step (h : Lost pIC) : Lost (pIC.doRecv bufferSize s.buf s.dataLength).context where
  packet := by rw [doRecv_packet, h.packet]
  pos    := by
    have idle : false = true → (1 : Int) ≤ 0 := fun h => Bool.noConfusion h
    unfold IOCPContext.doRecv
    dsimp only
    split
    case isFalse => exact carry_pos h.pos
    case isTrue  =>
      split
      case isTrue  => exact idle
      case isFalse =>
        split
        case isTrue hlt => exact fun _ => by dsimp only; omega
        case isFalse    =>
          split
          case isTrue  => exact carry_pos idle
          case isFalse => exact idle

-- A callback that is shown a whole message is the only one of its segment.
theorem splice_stops (h : ∀ stop ∈ (IOCPContext.splice s.buf s.dataLength {} 0).2.2,
    ∃ m : Message, s.bytes = m.bytes) :
    (IOCPContext.splice s.buf s.dataLength {} 0).2.2 = [] ∨
      (IOCPContext.splice s.buf s.dataLength {} 0).2.2 = [s.dataLength] := by
  cases hst : (IOCPContext.splice s.buf s.dataLength {} 0).2.2
  case nil => exact .inl rfl
  case cons stop stops =>
    have ⟨m, hm⟩ := h stop (hst ▸ List.mem_cons_self)
    rw [← hst, Segment.splice_message hm]
    exact .inr rfl

-- Such a connection makes no call, or one with the whole segment, if the segment is one message.
theorem Lost.calls (h : Lost pIC) (hb : s.dataLength ≤ bufferSize)
    (hs : ∀ c ∈ (pIC.doRecv bufferSize s.buf s.dataLength).copies, c.InBounds s.buf.length)
    (hm : ∀ c ∈ (pIC.doRecv bufferSize s.buf s.dataLength).calls, ∃ m : Message, c.2.data = m.bytes) :
    ((pIC.doRecv bufferSize s.buf s.dataLength).calls.map fun c => c.2.data).Sublist [s.bytes] := by
  have before : ∀ {size : Int}, pIC.prevFlag → ¬Copy.InBounds
      ⟨size, 0, pIC.packet.getPacketLength - pIC.bytesToRecv, pIC.prevData⟩ s.buf.length := by
    intro size hp hc
    have := h.pos hp
    have := hc.dest
    simp only [h.packet] at this
    omega
  revert hs hm
  unfold IOCPContext.doRecv
  dsimp only
  split
  case isFalse hp =>
    intro hs hm
    have hst := splice_stops fun stop hst =>
      hm (stop, shown s.buf s.dataLength) (List.mem_map.mpr ⟨stop, hst, rfl⟩)
    cases hst
    case inl hst => simp only [hst, List.map_nil, List.nil_sublist]
    case inr hst => simp only [hst, List.map_cons, List.map_nil]; exact .refl _
  case isTrue hp =>
    split
    case isTrue => exact fun _ _ => .refl _
    case isFalse he =>
      split
      case isTrue => exact fun hs _ => absurd (hs _ List.mem_cons_self) (before hp)
      case isFalse hlt =>
        rw [if_pos ⟨by omega, hb⟩]
        exact fun hs _ => absurd (hs _ List.mem_cons_self) (before hp)

theorem Lost.receives (h : Lost pIC) (hb : ∀ s ∈ segments, s.dataLength ≤ bufferSize)
    (hs : ∀ x ∈ segments.zip (receives bufferSize pIC segments), ∀ c ∈ x.2.copies,
      c.InBounds x.1.buf.length)
    (hm : ∀ c ∈ (receives bufferSize pIC segments).flatMap Received.calls,
      ∃ m : Message, c.2.data = m.bytes) :
    (((receives bufferSize pIC segments).flatMap Received.calls).map fun c => c.2.data).Sublist
      (segments.map Segment.bytes) := by
  induction segments generalizing pIC
  case nil => exact .refl _
  case cons s segments ih =>
    simp only [Server8.receives, List.zip_cons_cons, List.forall_mem_cons, List.flatMap_cons,
      List.forall_mem_append, List.map_append, List.map_cons] at hs hm hb ⊢
    exact (h.calls hb.left hs.left hm.left).append (ih h.step hb.right hs.right hm.right)

-- A connection that waits, in step with the stream, for the rest `t` of a message of which it has
-- at least the header.
structure Waiting (pIC : IOCPContext) (m : Message) (x t : Bytes) : Prop where
  prevFlag : pIC.prevFlag = true
  bytes    : m.bytes = x ++ t
  header   : m.packet.header.length ≤ x.length
  rest     : pIC.bytesToRecv = t.length
  open_    : t ≠ []

-- What is left of a message when less than all of it is read off the front of a stream.
theorem Waiting.of_stream {x y z : Bytes} (pIC : IOCPContext) (m : Message) (hp : pIC.prevFlag = true)
    (hh : m.packet.header.length ≤ x.length)
    (hr : pIC.bytesToRecv = (m.bytes.length : Int) - x.length) (hl : x.length < m.bytes.length)
    (h : x ++ y = m.bytes ++ z) : ∃ t, Waiting pIC m x t ∧ y = t ++ z := by
  obtain ⟨t, ht⟩ : x <+: m.bytes := by
    exact List.prefix_of_prefix_length_le ⟨y, h⟩ (List.prefix_append ..) (Nat.le_of_lt hl)
  have hlen := congrArg List.length ht
  rw [List.length_append] at hlen
  refine ⟨t, ⟨hp, ht.symm, hh, by omega, ?_⟩, ?_⟩
  · intro hn
    simp only [hn, List.length_nil] at hlen
    omega
  · rw [← ht, List.append_assoc] at h
    exact List.append_cancel_left h

theorem shown_eq_message (h : shown s.buf s.dataLength = ⟨m.bytes, m.bytes.length⟩) :
    s.bytes = m.bytes :=
  congrArg Call.data (s.shown_eq.symm.trans h)

section Steps

variable {x t : Bytes}

theorem Waiting.lt (h : Waiting pIC m x t) (hn : s.bytes.length < t.length) :
    pIC.doRecv bufferSize s.buf s.dataLength = {
      context := { pIC with bytesToRecv := pIC.bytesToRecv - s.dataLength }
      calls   := []
      copies  := [⟨s.dataLength, 0, pIC.packet.getPacketLength - pIC.bytesToRecv, pIC.prevData⟩] } := by
  have hs := s.bytes_length
  have hr := h.rest
  rw [IOCPContext.doRecv]
  dsimp only
  rw [if_pos h.prevFlag, if_neg (by omega), if_pos (by omega)]

theorem Waiting.eq (h : Waiting pIC m x t) (hn : s.bytes.length = t.length) :
    (pIC.doRecv bufferSize s.buf s.dataLength).calls =
      [(s.dataLength, shown s.buf s.dataLength)] := by
  have hs := s.bytes_length
  have hr := h.rest
  rw [IOCPContext.doRecv]
  dsimp only
  rw [if_pos h.prevFlag, if_pos (by omega)]

theorem Waiting.gt (h : Waiting pIC m x t) (hn : t.length < s.bytes.length)
    (hb : s.dataLength ≤ bufferSize) :
    let r := pIC.doRecv bufferSize s.buf s.dataLength
    let rest := IOCPContext.splice s.buf s.dataLength {} t.length
    let done := { pIC with prevFlag := false, bytesToRecv := 0, prevData := none }
    r.context = (done.carry rest.1 rest.2.1 s.dataLength).1 ∧
      r.calls.map Prod.snd = shown s.buf s.dataLength ::
        rest.2.2.map fun _ => shown s.buf s.dataLength := by
  have hs := s.bytes_length
  have hr := h.rest
  rw [IOCPContext.doRecv]
  dsimp only
  rw [if_pos h.prevFlag, if_neg (by omega), if_neg (by omega), if_pos (by omega), hr]
  exact ⟨rfl, by rw [List.map_cons, List.map_map]; rfl⟩

variable {m' : Message} {x' y z : Bytes}

-- The header of the next message is whole if the segment `t ++ x'` is the message `x ++ t`.
theorem Waiting.header_le (h : Waiting pIC m x t) (hx : t ++ x' = m.bytes)
    (hs : x' ++ y = m'.bytes ++ z) : m'.packet.header.length ≤ x'.length := by
  apply Nat.le_of_not_lt
  intro hl
  rw [m'.bytes_eq, List.append_assoc] at hs
  obtain ⟨u, hu⟩ : x' <+: m'.packet.header :=
    List.prefix_of_prefix_length_le ⟨_, hs⟩ (List.prefix_append ..) (Nat.le_of_lt hl)
  obtain ⟨w, hw⟩ : m.packet.header <+: x :=
    List.prefix_of_prefix_length_le ⟨m.body, m.bytes_eq.symm.trans h.bytes⟩ (List.prefix_append ..)
      h.header
  have hconj : (m.packet.header ++ w) ++ t = t ++ x' := by
    rw [hw, hx, h.bytes]
  have hne : u ≠ [] := by
    intro hn
    rw [← hu, hn, List.append_nil] at hl
    exact Nat.lt_irrefl _ hl
  exact Packet.not_conj_of_header m.wellFormed m'.wellFormed hconj hu.symm hne

-- Such a segment leaves the next message waiting, or ends it and makes a second call.
theorem Waiting.next (h : Waiting pIC m x t) (hx : t ++ x' = m.bytes) (hm : s.bytes = m.bytes)
    (hn : t.length < s.bytes.length) (hb : s.dataLength ≤ bufferSize)
    (hs : x' ++ y = m'.bytes ++ z) :
    let r := pIC.doRecv bufferSize s.buf s.dataLength
    let call := shown s.buf s.dataLength
    (∃ t', Waiting r.context m' x' t' ∧ y = t' ++ z ∧ r.calls.map Prod.snd = [call]) ∨
      m'.bytes.length < s.bytes.length ∧
        ∃ calls, r.calls.map Prod.snd = call :: call :: calls := by
  have ⟨hcontext, hcalls⟩ := h.gt hn hb
  have hh := h.header_le hx hs
  have hl := congrArg List.length hx
  have ht := List.length_pos_of_ne_nil h.open_
  rw [List.length_append] at hl
  obtain ⟨u, hu⟩ : m'.packet.header <+: x' := by
    rw [m'.bytes_eq, List.append_assoc] at hs
    exact List.prefix_of_prefix_length_le ⟨_, hs.symm⟩ (List.prefix_append ..) hh
  have hdrop : s.bytes.drop t.length = m'.packet.header ++ u := by
    rw [hm, ← hx, List.drop_left, hu]
  have hn' := s.bytes_length
  rw [hm] at hn'
  dsimp only
  rw [hcalls]
  by_cases hnext : (t.length : Int) + m'.bytes.length ≤ s.dataLength
  case pos =>
    rw [Segment.splice_header hdrop]
    dsimp only
    rw [if_pos hnext, List.map_cons, hm]
    exact .inr ⟨by omega, _, rfl⟩
  case neg =>
    rw [Segment.splice_header_end hdrop (Int.not_le.mp hnext)] at hcontext ⊢
    rw [IOCPContext.carry, if_pos (Int.not_le.mp hnext)] at hcontext
    have hw := Waiting.of_stream (pIC.doRecv bufferSize s.buf s.dataLength).context m'
      (by rw [hcontext]) hh (by rw [hcontext]; dsimp only; omega) (by omega) hs
    obtain ⟨t', hw, hy⟩ := hw
    exact .inl ⟨t', hw, hy, rfl⟩

end Steps

-- It never gets in time to the calls that it owes: a call for `m` is shown the segment that ends `m`,
-- which would have to be `m` itself.
theorem Waiting.not_framed {x t : Bytes} (h : Waiting pIC m x t)
    (hb : ∀ s ∈ segments, s.dataLength ≤ bufferSize)
    (hstream : (segments.map Segment.bytes).flatten = t ++ (messages.map Message.bytes).flatten)
    (hcalls : ((receives bufferSize pIC segments).flatMap Received.calls).map Prod.snd =
      (m :: messages).map fun m => ⟨m.bytes, m.bytes.length⟩) : False := by
  induction segments generalizing pIC m x t messages
  case nil => exact h.open_ (List.append_eq_nil_iff.mp hstream.symm).left
  case cons s segments ih =>
    simp only [receives, List.map_cons, List.flatten_cons, List.flatMap_cons, List.map_append,
      List.forall_mem_cons] at hstream hcalls hb
    have hlen := congrArg List.length h.bytes
    rw [List.length_append] at hlen
    have hheader := List.length_pos_of_ne_nil m.packet.header_ne_nil
    have hx := h.header
    cases Nat.lt_trichotomy s.bytes.length t.length
    case inl hn =>
      -- The segment goes on with `m` and does not end it.
      have hx' : (x ++ s.bytes) ++ (segments.map Segment.bytes).flatten =
          m.bytes ++ (messages.map Message.bytes).flatten := by
        rw [List.append_assoc, hstream, h.bytes, List.append_assoc]
      have hl : (x ++ s.bytes).length = x.length + s.bytes.length := List.length_append
      have hs := s.bytes_length
      have hr := h.rest
      obtain ⟨t', hw, hstream'⟩ := Waiting.of_stream
        { pIC with bytesToRecv := pIC.bytesToRecv - s.dataLength } m
        h.prevFlag (by omega) (by dsimp only; omega) (by omega) hx'
      rw [h.lt hn] at hcalls
      exact ih hw hb.right hstream' hcalls
    case inr hn =>
      cases hn
      case inl hn =>
        rw [h.eq hn] at hcalls
        have := congrArg List.length (shown_eq_message (List.cons.inj hcalls).left)
        omega
      case inr hn =>
        have hm : s.bytes = m.bytes := by
          rw [(h.gt hn hb.left).right] at hcalls
          exact shown_eq_message (List.cons.inj hcalls).left
        -- The segment is `t` and what follows it in the stream.
        obtain ⟨x', hx'⟩ : t <+: s.bytes :=
          List.prefix_of_prefix_length_le ⟨_, hstream.symm⟩ (List.prefix_append ..) (Nat.le_of_lt hn)
        have hstream' : x' ++ (segments.map Segment.bytes).flatten =
            (messages.map Message.bytes).flatten := by
          rw [← hx', List.append_assoc] at hstream
          exact List.append_cancel_left hstream
        cases messages
        case nil =>
          have hnil := (List.append_eq_nil_iff.mp hstream').left
          rw [← hx', hnil, List.append_nil] at hn
          exact Nat.lt_irrefl _ hn
        case cons m' messages =>
          cases h.next (hx'.trans hm) hm hn hb.left hstream'
          case inl hw =>
            obtain ⟨t', hw, hstream'', hcall⟩ := hw
            rw [hcall] at hcalls
            exact ih hw hb.right hstream'' (List.cons.inj hcalls).right
          case inr hw =>
            obtain ⟨hl, calls, hcall⟩ := hw
            rw [hcall] at hcalls
            have hsecond := (List.cons.inj (List.cons.inj hcalls).right).left
            have := congrArg List.length (shown_eq_message (m := m') hsecond)
            omega

variable {pContext : IOCPContext} {first : Segment} {rest : List Segment}

theorem Cut.bound (h : Cut messages first rest) : ∀ s ∈ rest, s.dataLength ≤ defaultBufSize :=
  fun s hs => h.rest s hs ▸ s.le

-- When `doAccept` leaves no packet pending, the calls show as many bytes as were sent only if every
-- segment is shown.
theorem Framed.eq_of_lost (h : Framed defaultBufSize pContext messages first rest)
    (hcut : Cut messages first rest)
    (hl : Lost (pContext.doAccept first.buf first.dataLength).context)
    (hc : ((pContext.doAccept first.buf first.dataLength).calls.map fun c => c.2.data).Sublist
      [first.bytes]) :
    (first :: rest).map Segment.bytes = messages.map Message.bytes := by
  have ⟨_, hsafe, hcalls⟩ := h
  have hm : ∀ c ∈ (receives defaultBufSize
      (pContext.doAccept first.buf first.dataLength).context rest).flatMap Received.calls,
      ∃ m : Message, c.2.data = m.bytes := by
    intro c hc
    have hmem := List.mem_map_of_mem (f := Prod.snd)
      (List.mem_append_right (pContext.doAccept first.buf first.dataLength).calls hc)
    rw [hcalls] at hmem
    have ⟨m, _, he⟩ := List.mem_map.mp hmem
    exact ⟨m, congrArg Call.data he.symm⟩
  have hdata := congrArg (List.map Call.data) hcalls
  rw [List.map_append, List.map_append, List.map_map, List.map_map, List.map_map] at hdata
  have hsub := hc.append (hl.receives hcut.bound hsafe hm)
  have hsub : (messages.map Message.bytes).Sublist ((first :: rest).map Segment.bytes) :=
    hdata ▸ hsub
  refine (Words.eq_of_sublist hsub ?_ ?_).symm
  · intro v hv
    have ⟨s, _, hs⟩ := List.mem_map.mp hv
    exact hs ▸ s.bytes_ne_nil
  · rw [← hcut.stream, List.map_cons, List.flatten_cons]

theorem Framed.eq_of_cut {wsabuf : WSABUF} {socket : Option Socket} (hcut : Cut messages first rest)
    (h : Framed defaultBufSize (.accepted wsabuf socket) messages first rest) :
    (first :: rest).map Segment.bytes = messages.map Message.bytes := by
  have hidle : Lost (IOCPContext.accepted wsabuf socket) := ⟨fun h => Bool.noConfusion h, rfl⟩
  have hstream := hcut.stream
  have hn := first.bytes_length
  cases messages
  case nil => exact absurd (List.append_eq_nil_iff.mp hstream).left first.bytes_ne_nil
  case cons m messages =>
    rw [List.map_cons, List.flatten_cons] at hstream
    by_cases hh : first.bytes.length < m.packet.header.length
    case pos =>
      obtain ⟨z, hz⟩ : first.bytes <+: m.packet.header := by
        rw [m.bytes_eq, List.append_assoc] at hstream
        exact List.prefix_of_prefix_length_le ⟨_, hstream⟩ (List.prefix_append ..)
          (Nat.le_of_lt hh)
      have hne : z ≠ [] := by
        intro hn
        rw [← hz, hn, List.append_nil] at hh
        exact Nat.lt_irrefl _ hh
      have hnone := Segment.headerAt_partial (o := 0) hz.symm hne
      have haccept := IOCPContext.doAccept_none (.accepted wsabuf socket) hnone
      exact h.eq_of_lost hcut (by rw [haccept]; exact hidle) (by rw [haccept]; exact List.nil_sublist _)
    case neg =>
      obtain ⟨y, hy⟩ : m.packet.header <+: first.bytes := by
        rw [m.bytes_eq, List.append_assoc] at hstream
        exact List.prefix_of_prefix_length_le ⟨_, hstream.symm⟩ (List.prefix_append ..)
          (Nat.le_of_not_lt hh)
      have hsome := Segment.headerAt_header (o := 0) hy.symm
      cases Nat.lt_trichotomy first.bytes.length m.bytes.length
      case inl hlt =>
        have haccept := IOCPContext.doAccept_some (.accepted wsabuf socket) hsome
          (by rw [m.bytes_length]; omega)
        have hw := Waiting.of_stream
          ((IOCPContext.accepted wsabuf socket).doAccept first.buf first.dataLength).context m
          (by rw [haccept]) (Nat.le_of_not_lt hh)
          (by rw [haccept, ← hn, ← m.bytes_length]) hlt hstream
        obtain ⟨t, hw, hrest⟩ := hw
        have ⟨_, _, hcalls⟩ := h
        rw [haccept, List.nil_append, ← haccept] at hcalls
        exact (hw.not_framed hcut.bound hrest hcalls).elim
      case inr hge =>
        cases hge
        case inl heq =>
          have hm : first.bytes = m.bytes :=
            List.append_inj_left hstream heq
          have haccept := doAccept_message (.accepted wsabuf socket) hm
          refine h.eq_of_lost hcut (by rw [haccept]; exact hidle) ?_
          rw [haccept, List.map_singleton, first.shown_eq]
        case inr hgt =>
          have haccept := IOCPContext.doAccept_some (.accepted wsabuf socket) hsome
            (by rw [m.bytes_length]; omega)
          have ⟨hcopy, _⟩ := h
          rw [haccept] at hcopy
          have := (hcopy _ List.mem_cons_self).write
          simp only [m.bytes_length, Option.some.injEq, exists_eq_left'] at this
          omega

end Unframed

section Whole

theorem framed_of_eq {wsabuf : WSABUF} {socket : Option Socket} {first : Segment}
    {rest : List Segment} (h : (first :: rest).map Segment.bytes = messages.map Message.bytes) :
    Framed bufferSize (.accepted wsabuf socket) messages first rest := by
  cases messages
  case nil => cases h
  case cons m messages =>
    have ⟨hm, hrest⟩ := List.cons.inj h
    have haccept := doAccept_message (.accepted wsabuf socket) hm
    have hcalls : (first :: rest).map (fun s => shown s.buf s.dataLength) =
        (m :: messages).map fun m => ⟨m.bytes, m.bytes.length⟩ := by
      have := congrArg (List.map fun b : Bytes => (⟨b, b.length⟩ : Call)) h
      rw [List.map_map, List.map_map] at this
      simp only [Segment.shown_eq]
      exact this
    unfold Framed
    dsimp only
    rw [haccept, receives_messages rfl hrest]
    refine ⟨List.forall_mem_nil _, ?_, ?_⟩
    · intro x hx c hc
      have ⟨s, _, hs⟩ := List.mem_map.mp (List.of_mem_zip hx).right
      rw [← hs] at hc
      cases hc
    · rw [← hcalls, List.flatMap_map, ← List.map_eq_flatMap, List.map_append, List.map_map]
      rfl

end Whole

-- The calls are the messages just in case every segment is one of them.
theorem framed_iff_whole {first : Segment} {rest : List Segment} (wsabuf : WSABUF)
    (socket : Option Socket) (h : Cut messages first rest) :
    (∀ bufferSize, Framed bufferSize (.accepted wsabuf socket) messages first rest) ↔
      (first :: rest).map Segment.bytes = messages.map Message.bytes :=
  ⟨fun hf => (hf defaultBufSize).eq_of_cut h, fun he _ => framed_of_eq he⟩

-- A packet without a body, one with a body, and the first one again.
def Message.sample : Message where
  packet     := Packet.sample
  body       := []
  wellFormed := Packet.sample_wellFormed
  length     := rfl
  limit      := by decide +kernel

def Message.answer : Message where
  packet     := { Packet.sample with contentLength := 3 }
  body       := [1, 2, 3]
  wellFormed := ⟨by decide +kernel, by decide +kernel, by decide +kernel, by decide +kernel, by decide +kernel,
    by decide +kernel⟩
  length     := rfl
  limit      := by decide +kernel

def Segment.sample : Segment :=
  .ofBytes Message.sample.bytes (by decide +kernel)

def Segment.answer : Segment :=
  .ofBytes Message.answer.bytes (by decide +kernel)

theorem cut_sample :
    Cut [Message.sample, .answer, .sample] Segment.sample [Segment.answer, .sample] where
  stream := by simp [Segment.sample, Segment.answer, Segment.bytes_ofBytes]
  first  := ⟨Segment.buf_length_ofBytes _ (by decide +kernel), by decide +kernel⟩
  rest   := by
    rw [List.forall_mem_cons, List.forall_mem_singleton]
    exact ⟨Segment.buf_length_ofBytes _ (by decide +kernel), Segment.buf_length_ofBytes _ (by decide +kernel)⟩

theorem framed_iff_whole_sample :
    Cut [Message.sample, .answer, .sample] Segment.sample [Segment.answer, .sample] ∧
      ∀ bufferSize, Framed bufferSize (.accepted ⟨8192, []⟩ (some 1)) [Message.sample, .answer, .sample]
        Segment.sample [Segment.answer, .sample] := by
  refine ⟨cut_sample, (framed_iff_whole ⟨8192, []⟩ (some 1) cut_sample).mpr ?_⟩
  simp [Segment.sample, Segment.answer, Segment.bytes_ofBytes]

-- The first packet in two receives, of which the first has a part of the header.
def Segment.sampleHead : Segment :=
  .ofBytes (Message.sample.bytes.take 10) (by decide +kernel)

def Segment.sampleTail : Segment :=
  .ofBytes (Message.sample.bytes.drop 10) (by decide +kernel)

theorem cut_not_framed :
    Cut [Message.sample] Segment.sampleHead [Segment.sampleTail] ∧
      ¬Framed defaultBufSize (.accepted ⟨8192, []⟩ (some 1)) [Message.sample]
        Segment.sampleHead [Segment.sampleTail] := by
  have hcut : Cut [Message.sample] Segment.sampleHead [Segment.sampleTail] := {
    stream := by
      simp [Segment.sampleHead, Segment.sampleTail, Segment.bytes_ofBytes]
    first  := ⟨Segment.buf_length_ofBytes _ (by decide +kernel), by decide +kernel⟩
    rest   := by
      rw [List.forall_mem_singleton]
      exact Segment.buf_length_ofBytes _ (by decide +kernel) }
  refine ⟨hcut, fun h => ?_⟩
  have := congrArg List.length (h.eq_of_cut hcut)
  simp at this

end Server8
