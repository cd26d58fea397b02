import Server8.Protocol.Recognition
import Server8.IOCP.Framing

-- Where `doRecv` sees one packet end and the next one begin.

namespace Server8

open Regex Packet

-- A header that the pattern of the protocol describes, and the packet that it announces.
structure Packet.Announces (header : Bytes) (p : Packet) : Prop where
  parses : ∃ y, Parses headerPattern (.start header) y ∧ y.rest = [] ∧ Decoded y p
  length : p.headLength = header.length

-- The first bytes of a packet: all of its header, some of its body, and `missing` bytes to come.
structure Begins (b : Bytes) (missing : Nat) : Prop where
  split : ∃ header body p, Announces header p ∧ b = header ++ body ∧
    p.contentLength = body.length + missing

-- A complete packet has nothing missing.
abbrev Complete (b : Bytes) : Prop :=
  Begins b 0

section Header

variable {header : Bytes} {p q : Packet}

theorem Packet.Decoded.unique {x y : Pos UInt8} (hp : Decoded x p) (hq : Decoded y q)
    (hc : x.caps = y.caps) (hl : p.headLength = q.headLength) : p = q := by
  have hstr (i : Nat) : str x i = str y i := by simp [str, hc]
  ext1
  · exact hl
  · rw [hp.operation, hq.operation, hstr]
  · rw [hp.operationStatus, hq.operationStatus, hstr]
  · rw [hp.contentLength, hq.contentLength, hstr]
  · rw [hp.timeStamp, hq.timeStamp, hstr]
  · rw [hp.instanceName, hq.instanceName, hstr]
  · rw [hp.sessionID, hq.sessionID, hstr]

theorem Packet.Announces.length_bounds (h : Announces header p) :
    63 ≤ header.length ∧ header.length ≤ 222 := by
  obtain ⟨y, hy, hrest, _⟩ := h.parses
  have hl := header_spans _ y ((headerPattern_decides _ y).mp hy)
  simp only [Pos.start, hrest, List.length_nil] at hl
  exact ⟨by omega, by omega⟩

-- The window that `matchHeader` looks at shows all of a header.
theorem Packet.Announces.window (h : Announces header p) (rest : Bytes) {n : Int}
    (hn : header.length ≤ n) : ∃ rest', headerWindow (header ++ rest) n = header ++ rest' := by
  have hl := h.length_bounds
  have hle : header.length ≤ (if n > 256 then 256 else n).toNat := by
    split <;> omega
  rw [headerWindow, List.take_append, List.take_of_length_le hle]
  exact ⟨_, rfl⟩

-- Whatever follows a header, `matchHeader` finds the packet that it announces.
theorem Packet.Announces.matchHeader (h : Announces header p) (rest : Bytes) {n : Int}
    (hn : header.length ≤ n) (p' : Packet) : p'.matchHeader (some (header ++ rest)) n = (true, p) := by
  have hl := h.length_bounds
  obtain ⟨rest', hw⟩ := h.window rest hn
  obtain ⟨y, hy, hrest, hd⟩ := h.parses
  rw [headerPattern_decides] at hy
  obtain ⟨u, _, hu, hall⟩ := header_consumes _ y hy
  rw [hrest, List.append_nil] at hu
  have hu : header = u := hu
  have hread : readHeader (.start (header ++ rest')) = some ⟨rest', y.caps⟩ := hu ▸ hall rest'
  obtain ⟨q, hq, hlen, hd'⟩ := decoded_of_readHeader (p := p') hread header
  rw [matchHeader_eq (by omega), hw, matchBuffer_of_readHeader hread rfl, hq,
    hd'.unique hd rfl (hlen.trans h.length.symm)]

-- What `createHeader` writes is such a header.
theorem Packet.announces_createHeader (h : p.WellFormed) :
    Announces p.createHeader.1 p.createHeader.2 := by
  have hm := matchHeader_createHeader h {} []
  obtain ⟨u, y, hy, hu, hl, _, hd⟩ := readHeader_of_matchHeader hm
  rw [List.append_nil] at hy hu
  have hlen := congrArg List.length hu
  rw [List.length_append] at hlen
  have hl : (p.header.length : Int) = u.length := hl
  have hlen : p.header.length = u.length + y.rest.length := hlen
  refine ⟨⟨y, (headerPattern_decides _ y).mpr hy, ?_, hd⟩, rfl⟩
  exact List.eq_nil_of_length_eq_zero (by omega)

theorem begins_createHeader (h : p.WellFormed) : Begins p.createHeader.1 p.contentLength.toNat := by
  have := h.contentLength.left
  exact ⟨_, [], _, announces_createHeader h, (List.append_nil _).symm, by simp [createHeader, this]⟩

end Header

section Offsets

variable {s buf b rest : Bytes} {missing : Nat} {packets : List Bytes} {o : Nat}

-- The loop goes from the start of a packet to its end, also when that is not received yet.
theorem Begins.splice (h : Begins b missing) (hs : s <+: buf) (hb : s.drop o = b ++ rest)
    (pack : Packet) : ∃ pack' : Packet, pack'.getPacketLength = (b.length + missing : Nat) ∧
    let next := o + (b.length + missing)
    let last := IOCPContext.splice buf s.length pack' (next : Nat)
    IOCPContext.splice buf s.length pack o =
      (last.1, last.2.1, if next ≤ s.length then ((next : Nat) : Int) :: last.2.2 else last.2.2) := by
  obtain ⟨header, body, p, hp, rfl, hc⟩ := h.split
  obtain ⟨more, hmore⟩ : s.drop o <+: buf.drop o := hs.drop o
  have hlen := congrArg List.length hb
  have hl := hp.length_bounds
  simp only [List.length_drop, List.length_append] at hlen
  have hh : headerAt buf s.length o = some p := by
    rw [headerAt_eq_some, Int.toNat_natCast, ← hmore, hb, List.append_assoc, List.append_assoc]
    exact hp.matchHeader _ (by omega) {}
  have hlength : p.getPacketLength = ((header ++ body).length + missing : Nat) := by
    rw [getPacketLength, hp.length, hc, List.length_append]
    omega
  have hnext : (o : Int) + p.getPacketLength = (o + ((header ++ body).length + missing) : Nat) := by
    omega
  refine ⟨p, hlength, ?_⟩
  rw [splice_of_some hh]
  dsimp only
  rw [hnext]
  simp only [Nat.cast_le]

-- What the received bytes end with: nothing, or a packet with bytes missing.
inductive Tail : Bytes → Nat → Prop
  | empty : Tail [] 0
  | part {b : Bytes} {n : Nat} : Begins b n → n ≠ 0 → Tail b n

theorem Tail.splice (h : Tail rest missing) (hs : s <+: buf) (hb : s.drop o = rest)
    (ho : o ≤ s.length) (pack : Packet) :
    ∃ last : Packet, (missing ≠ 0 → last.getPacketLength = (rest.length + missing : Nat)) ∧
      IOCPContext.splice buf s.length pack o = (last, ((s.length + missing : Nat) : Int), []) := by
  have hl := congrArg List.length hb
  rw [List.length_drop] at hl
  cases h
  case empty =>
    rw [List.length_nil] at hl
    rw [splice_of_none (headerAt_none buf (by omega))]
    exact ⟨pack, fun hn => absurd rfl hn, by simp only [Prod.mk.injEq, true_and, and_true]; omega⟩
  case part hm hb' =>
    obtain ⟨pack', hlength, h⟩ := hb'.splice hs (hb.trans (List.append_nil _).symm) pack
    dsimp only at h
    rw [h, if_neg (by omega), splice_of_none (headerAt_none buf (by omega))]
    exact ⟨pack', fun _ => hlength, by simp only [Prod.mk.injEq, true_and, and_true]; omega⟩

-- The offsets behind the packets that follow on each other from `o` on.
def ends (o : Nat) : List Bytes → List Int
  | []           => []
  | b :: packets => ((o + b.length : Nat) : Int) :: ends (o + b.length) packets

theorem length_ends : (ends o packets).length = packets.length := by
  induction packets generalizing o
  case nil               => rfl
  case cons b packets ih => rw [ends, List.length_cons, List.length_cons, ih]

-- The loop stops behind each complete packet, and in the end behind the one that is not.
theorem splice_packets (hp : ∀ b ∈ packets, Complete b) (hr : Tail rest missing) (hs : s <+: buf)
    (hb : s.drop o = packets.flatten ++ rest) (ho : o ≤ s.length) (pack : Packet) :
    ∃ last : Packet, (missing ≠ 0 → last.getPacketLength = (rest.length + missing : Nat)) ∧
      IOCPContext.splice buf s.length pack o = (last, ((s.length + missing : Nat) : Int), ends o packets) := by
  induction packets generalizing o pack
  case nil => exact hr.splice hs hb ho pack
  case cons b packets ih =>
    have ⟨hhead, hp⟩ := List.forall_mem_cons.mp hp
    rw [List.flatten_cons, List.append_assoc] at hb
    have hl := congrArg List.length hb
    rw [List.length_drop, List.length_append] at hl
    have hdrop : s.drop (o + b.length) = packets.flatten ++ rest := by
      rw [← List.drop_drop, hb, List.drop_left]
    obtain ⟨pack', _, h⟩ := hhead.splice hs hb pack
    dsimp only at h
    obtain ⟨last, hlength, hrest⟩ := ih hp hdrop (by omega) pack'
    rw [h, Nat.add_zero, if_pos (by omega), hrest, ends]
    exact ⟨last, hlength, rfl⟩

end Offsets

section Boundaries

variable {pIC : IOCPContext} {bufferSize : Int} {buf received head rest : Bytes}
  {packets : List Bytes} {missing : Nat}

-- The connection waits for the rest of a packet just in case the received bytes end with a part of one.
structure Awaits (pIC : IOCPContext) (rest : Bytes) (missing : Nat) : Prop where
  prevFlag    : pIC.prevFlag = true ↔ rest ≠ []
  bytesToRecv : rest ≠ [] → pIC.bytesToRecv = missing

theorem Tail.awaits_carry (h : Tail rest missing) (hp : pIC.prevFlag = false) (pack : Packet) {n : Nat} :
    Awaits (pIC.carry pack (n + missing : Nat) n).1 rest missing := by
  cases h
  case empty =>
    rw [IOCPContext.carry, if_neg (by omega)]
    exact ⟨by simp [hp], by simp⟩
  case part hm hb =>
    obtain ⟨header, body, p, ha, rfl, _⟩ := hb.split
    have hl := ha.length_bounds
    have hne : header ++ body ≠ [] := by
      intro h
      simp only [(List.append_eq_nil_iff.mp h).left, List.length_nil] at hl
      omega
    rw [IOCPContext.carry, if_pos (by omega)]
    exact ⟨by simp [hne], fun _ => by dsimp only; omega⟩

-- What a receive owes to its packets: `n` calls, the rest kept with its length, and no copy outside of the
-- arrays.
structure Received.Separates (r : Received) (length : Int) (n : Nat) (rest : Bytes) (missing : Nat) : Prop where
  calls  : r.calls.length = n
  awaits : Awaits r.context rest missing
  copies : ∀ c ∈ r.copies, c.InBounds length

-- The array of the pending packet is long enough for the packet of `doAccept`, of which no more is missing
-- than all of it.
structure HasRoom (pIC : IOCPContext) : Prop where
  offset : pIC.bytesToRecv ≤ pIC.packet.getPacketLength
  room   : ∃ n, pIC.prevData = some n ∧ pIC.packet.getPacketLength ≤ n

-- So it is after `doAccept`, and after a `doRecv` only by chance.
theorem Awaited.Tracks.hasRoom {L : Int} {w : Awaited} (h : w.Tracks L pIC) (hl : pIC.packet.getPacketLength = L) :
    match w with
    | .nothing             => True
    | .first _             => HasRoom pIC
    | .later missing taken => taken = 0 ∨ missing ≤ L → (HasRoom pIC ↔ missing = L) := by
  cases w
  case nothing => trivial
  case first n =>
    obtain ⟨_, hb, hd, _, hle⟩ := h
    exact ⟨by omega, L, hd, by omega⟩
  case later missing taken =>
    obtain ⟨_, hb, hd, hz, hlt, _⟩ := h
    dsimp only
    intro hroom
    constructor
    case mp  =>
      rintro ⟨hoffset, n, hn, hle⟩
      cases hd.symm.trans hn
      omega
    case mpr =>
      rintro rfl
      exact ⟨by omega, _, hd, by omega⟩

-- The copy of the incomplete packet stays in the buffer if its missing bytes do.
theorem carry_inBounds_iff (pIC : IOCPContext) (hs : received <+: buf) (hl : rest.length ≤ received.length)
    (hm : missing = 0 → rest = []) {pack : Packet}
    (hp : missing ≠ 0 → pack.getPacketLength = (rest.length + missing : Nat)) :
    (∀ c ∈ (pIC.carry pack (received.length + missing : Nat) received.length).2, c.InBounds buf.length) ↔
      received.length + missing ≤ buf.length + rest.length := by
  have hle := hs.length_le
  unfold IOCPContext.carry
  by_cases hz : missing = 0
  case pos =>
    rw [if_neg (by omega), hm hz, hz]
    exact iff_of_true (List.forall_mem_nil _) (by simpa using hle)
  case neg =>
    rw [if_pos (by omega), List.forall_mem_singleton, Copy.inBounds_iff, hp hz]
    simp only [Option.some.injEq, exists_eq_left']
    omega

theorem Tail.nil_of_zero (h : Tail rest missing) : missing = 0 → rest = [] := by
  intro hm
  cases h
  case empty   => rfl
  case part hn _ => exact absurd hm hn

-- When no packet is awaited.
theorem separates_idle_iff (bufferSize : Int) (hf : pIC.prevFlag = false) (hp : ∀ b ∈ packets, Complete b)
    (hr : Tail rest missing) (hb : received = packets.flatten ++ rest) (hs : received <+: buf) :
    (pIC.doRecv bufferSize buf received.length).Separates buf.length packets.length rest missing ↔
      received.length + missing ≤ buf.length + rest.length := by
  have hl := congrArg List.length hb
  rw [List.length_append] at hl
  obtain ⟨last, hlast, hsplice⟩ := splice_packets (o := 0) hp hr hs hb (Nat.zero_le _) {}
  rw [Int.natCast_zero] at hsplice
  rw [doRecv_idle _ _ _ hf, hsplice, ← carry_inBounds_iff pIC hs (by omega) hr.nil_of_zero hlast]
  exact ⟨Received.Separates.copies, fun h => ⟨by rw [List.length_map, length_ends], hr.awaits_carry hf _, h⟩⟩

-- One call for each packet that the received bytes complete, and the rest is kept with its length, if and
-- only if as many bytes as are missing can be read from where the rest begins, and the pending packet has
-- its array.
theorem doRecv_boundaries (pIC : IOCPContext) (bufferSize : Int)
    (hp : ∀ b ∈ packets, Complete b) (hr : Tail rest missing)
    (hb : received = head ++ (packets.flatten ++ rest)) (hs : received <+: buf) :
    let r := pIC.doRecv bufferSize buf received.length
    (pIC.prevFlag = false → head = [] →
      (r.Separates buf.length packets.length rest missing ↔
        received.length + missing ≤ buf.length + rest.length)) ∧
    (pIC.prevFlag = true → pIC.bytesToRecv = head.length → pIC.bytesToRecv < received.length →
      received.length ≤ bufferSize →
      (r.Separates buf.length (packets.length + 1) rest missing ↔
        received.length + missing ≤ buf.length + rest.length ∧ HasRoom pIC)) := by
  dsimp only
  constructor
  case left =>
    intro hf hh
    exact separates_idle_iff bufferSize hf hp hr (by rw [hb, hh, List.nil_append]) hs
  case right =>
    intro hf hbytes hlt hbuffer
    have hdrop : received.drop head.length = packets.flatten ++ rest := by
      rw [hb, List.drop_left]
    have hl := congrArg List.length hb
    rw [List.length_append, List.length_append] at hl
    have hle := hs.length_le
    obtain ⟨last, hlast, hsplice⟩ := splice_packets hp hr hs hdrop (by omega) {}
    have hcopies := carry_inBounds_iff { pIC with prevFlag := false, bytesToRecv := 0, prevData := none } hs (by omega)
      hr.nil_of_zero hlast
    have hroom : Copy.InBounds ⟨head.length, 0, pIC.packet.getPacketLength - head.length, pIC.prevData⟩ buf.length ↔
        HasRoom pIC := by
      rw [Copy.inBounds_iff]
      constructor
      case mp  => exact fun ⟨_, _, _, hd, n, hn, hw⟩ => ⟨by omega, n, hn, by omega⟩
      case mpr => exact fun ⟨ho, n, hn, hw⟩ => ⟨by omega, Int.le_refl 0, by omega, by omega, n, hn, by omega⟩
    rw [IOCPContext.doRecv]
    dsimp only
    rw [if_pos hf, if_neg (by omega), if_neg (by omega), if_pos ⟨hlt, hbuffer⟩, hbytes, hsplice, ← hcopies, ← hroom]
    constructor
    case mp  => exact fun h => (List.forall_mem_cons.mp h.copies).symm
    case mpr =>
      exact fun h => ⟨by rw [List.length_cons, List.length_map, length_ends], hr.awaits_carry rfl _,
        List.forall_mem_cons.mpr h.symm⟩

-- The first receive of a connection has a packet without its last two bytes.
def pendingContext : IOCPContext :=
  ((IOCPContext.accepted ⟨8192, []⟩ (some 1)).doAccept (Message.answer.bytes.take 114) 114).context

-- The end of this packet, another packet, and the header of a third.
theorem doRecv_boundaries_sample :
    let received := [2, 3] ++ ([sample.createHeader.1].flatten ++ Message.answer.packet.createHeader.1)
    (pendingContext.doRecv 8192 received received.length).Separates received.length 2
      Message.answer.packet.createHeader.1 3 := by
  have hp : ∀ b ∈ [sample.createHeader.1], Complete b := by
    rw [List.forall_mem_singleton]
    exact begins_createHeader sample_wellFormed
  have hr : Tail Message.answer.packet.createHeader.1 3 :=
    .part (begins_createHeader Message.answer.wellFormed) (by decide)
  have hb : [2, 3] ++ ([sample.createHeader.1].flatten ++ Message.answer.packet.createHeader.1) =
    [2, 3] ++ ([sample.createHeader.1].flatten ++ Message.answer.packet.createHeader.1) := rfl
  have hroom : HasRoom pendingContext := ⟨by decide +kernel, 116, by decide +kernel, by decide +kernel⟩
  exact ((doRecv_boundaries pendingContext 8192 hp hr hb List.prefix_rfl).right (by decide +kernel)
    (by decide +kernel) (by decide +kernel) (by decide +kernel)).mpr ⟨by decide +kernel, hroom⟩

-- A header that announces the longest body that the protocol allows, far more than the buffer has.
def Packet.largest : Packet :=
  { sample with contentLength := 8388608 }

theorem Packet.largest_wellFormed : largest.WellFormed :=
  ⟨by decide +kernel, by decide +kernel, by decide +kernel, by decide +kernel, by decide +kernel,
    by decide +kernel⟩

def largestBuffer : Bytes :=
  largest.createHeader.1 ++ List.replicate (8192 - largest.createHeader.1.length) 0

theorem length_largestBuffer : largestBuffer.length = 8192 := by
  have : largest.createHeader.1.length ≤ 8192 := by decide +kernel
  rw [largestBuffer, List.length_append, List.length_replicate]
  omega

theorem doRecv_not_boundaries :
    Tail largest.createHeader.1 8388608 ∧
      ¬((IOCPContext.accepted ⟨8192, []⟩ (some 1)).doRecv 8192 largestBuffer
        largest.createHeader.1.length).Separates largestBuffer.length 0 largest.createHeader.1 8388608 := by
  have hr : Tail largest.createHeader.1 8388608 :=
    .part (begins_createHeader largest_wellFormed) (by decide)
  have hp : ∀ b ∈ ([] : List Bytes), Complete b := List.forall_mem_nil _
  have hb : largest.createHeader.1 = ([] : List Bytes).flatten ++ largest.createHeader.1 := rfl
  have hs : largest.createHeader.1 <+: largestBuffer := List.prefix_append _ _
  refine ⟨hr, fun h => ?_⟩
  have hfits := (separates_idle_iff 8192 rfl hp hr hb hs).mp h
  rw [length_largestBuffer] at hfits
  omega

end Boundaries
end Server8
