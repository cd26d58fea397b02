import Server8.Protocol.RoundTrip
import Server8.IOCP.Receive

namespace Server8

-- The offsets that the splice loop comes to from `o`.
inductive Reaches (buf : Bytes) (dataLength : Int) : Int → Int → Prop
  | refl {o : Int} : Reaches buf dataLength o o
  | next {o o' : Int} {q : Packet} (head : headerAt buf dataLength o = some q)
      (tail : Reaches buf dataLength (o + q.getPacketLength) o') : Reaches buf dataLength o o'

namespace Segment

-- No packet that begins in the received bytes misses more bytes than were received of it.
def TailFits (s : Segment) (start : Int) : Prop :=
  ∀ o q, Reaches s.buf s.dataLength start o → headerAt s.buf s.dataLength o = some q →
    q.getPacketLength ≤ 2 * (s.dataLength - o)

-- A packet that begins with the first bytes of a connection is no shorter than they are.
def FirstFits (s : Segment) : Prop :=
  ∀ q, headerAt s.buf s.dataLength 0 = some q → s.dataLength ≤ q.getPacketLength

end Segment

variable {buf : Bytes} {dataLength : Int}

theorem headerAt_none (buf : Bytes) {o : Int} (h : dataLength ≤ o) : headerAt buf dataLength o = none := by
  cases hq : headerAt buf dataLength o
  case none   => rfl
  case some q => exact absurd (headerAt_lt hq) (Int.not_lt.mpr h)

theorem tailFits_of_none {s : Segment} {o : Int} (h : headerAt s.buf s.dataLength o = none) :
    s.TailFits o := by
  intro o' q hr hq
  cases hr
  case refl         => simp [h] at hq
  case next q' hh _ => simp [h] at hh

theorem tailFits_of_some {s : Segment} {o : Int} {q : Packet}
    (h : headerAt s.buf s.dataLength o = some q) :
    s.TailFits o ↔
      q.getPacketLength ≤ 2 * (s.dataLength - o) ∧ s.TailFits (o + q.getPacketLength) := by
  constructor
  case mp => exact fun ht => ⟨ht o q .refl h, fun o' q' hr => ht o' q' (.next h hr)⟩
  case mpr =>
    intro ⟨hl, ht⟩ o' q' hr hq
    cases hr
    case refl =>
      cases h.symm.trans hq
      exact hl
    case next q'' hh hr =>
      cases h.symm.trans hh
      exact ht o' q' hr hq

-- The copy of an incomplete last packet stays within the received bytes.
theorem tailFits_iff (s : Segment) (start : Int) (pack : Packet) :
    s.TailFits start ↔
      let r := IOCPContext.splice s.buf s.dataLength pack start
      start ≤ s.dataLength → s.dataLength < r.2.1 →
        r.2.1 - r.1.getPacketLength + (r.2.1 - s.dataLength) ≤ s.dataLength := by
  revert pack
  apply splice_induction s.buf s.dataLength ?none ?some start
  case none =>
    intro o h pack
    rw [splice_of_none h]
    exact iff_of_true (tailFits_of_none h) fun hle hlt => absurd hle (Int.not_le.mpr hlt)
  case some =>
    intro o q h ih pack
    have hlt := headerAt_lt h
    rw [tailFits_of_some h, splice_of_some h]
    by_cases hn : o + q.getPacketLength ≤ s.dataLength
    case pos =>
      have := ih q
      simp only [hn, true_implies] at this
      simp only [this, Int.le_of_lt hlt, true_implies, and_iff_right_iff_imp]
      omega
    case neg =>
      have hz := headerAt_none s.buf (Int.le_of_lt (Int.not_le.mp hn))
      simp only [splice_of_none hz, tailFits_of_none hz, and_true, Int.le_of_lt hlt, true_implies]
      omega

-- An offset behind the received bytes is behind a packet that begins within them.
theorem splice_start (buf : Bytes) (dataLength start : Int) (pack : Packet) (h : start ≤ dataLength) :
    let r := IOCPContext.splice buf dataLength pack start
    dataLength < r.2.1 → start ≤ r.2.1 - r.1.getPacketLength := by
  revert h pack
  apply splice_induction buf dataLength ?none ?some start
  case none =>
    intro o h pack hle
    simp only [splice_of_none h]
    omega
  case some =>
    intro o q h ih pack hle
    have := headerAt_pos h
    simp only [splice_of_some h]
    by_cases hn : o + q.getPacketLength ≤ dataLength
    case pos =>
      intro hc
      have := ih q hn hc
      omega
    case neg =>
      have hz := headerAt_none buf (Int.le_of_lt (Int.not_le.mp hn))
      simp only [splice_of_none hz]
      omega

-- What a connection waits for, as its bytes tell: nothing, the last `n` bytes of the packet that its first
-- receive began, or the rest of a packet that a later receive began, of which `missing` bytes were to come
-- then and `taken` have come since.
inductive Awaited
  | nothing
  | first (n : Int)
  | later (missing taken : Int)
  deriving DecidableEq, Repr

namespace Segment

-- Where the last packet ends that begins in the received bytes, from packet to packet beginning at `o`.
def reach (s : Segment) (o : Int) : Int :=
  match _h : headerAt s.buf s.dataLength o with
  | none   => o
  | some q => s.reach (o + q.getPacketLength)
termination_by (s.dataLength - o).toNat
decreasing_by
  have := headerAt_pos _h
  have := headerAt_lt _h
  omega

-- After the packets from `o` on.
def awaited (s : Segment) (o : Int) : Awaited :=
  if s.dataLength < s.reach o then .later (s.reach o - s.dataLength) 0 else .nothing

-- The length of the packet that the first receive of a connection begins and does not end, or zero.
def begun (s : Segment) : Int :=
  match headerAt s.buf s.dataLength 0 with
  | none   => 0
  | some q => if q.getPacketLength = s.dataLength then 0 else q.getPacketLength

-- After the first receive.
def firstAwaited (s : Segment) : Awaited :=
  if s.begun = 0 then .nothing else .first (s.begun - s.dataLength)

end Segment

namespace Awaited

-- After a receive. One that is longer than `bufferSize` is thrown away when a packet is awaited.
def next (bufferSize : Int) (s : Segment) : Awaited → Awaited
  | nothing             => s.awaited 0
  | first n             =>
    if s.dataLength < n then first (n - s.dataLength)
    else if n < s.dataLength ∧ s.dataLength ≤ bufferSize then s.awaited n
    else nothing
  | later missing taken =>
    if taken + s.dataLength < missing then later missing (taken + s.dataLength)
    else if missing < taken + s.dataLength ∧ s.dataLength ≤ bufferSize then s.awaited (missing - taken)
    else nothing

-- What the receives have to be like. `L` is the length of the packet that the first receive began: `doRecv`
-- takes it for that of each packet, and so puts the missing bytes `L - missing` bytes into an array that has
-- room for `missing`.
def Fits (bufferSize L : Int) : Awaited → List Segment → Prop
  | _, []                              => True
  | nothing, s :: segments             => s.TailFits 0 ∧ Fits bufferSize L (next bufferSize s nothing) segments
  | first n, s :: segments             =>
    (n < s.dataLength → s.dataLength ≤ bufferSize → s.TailFits n) ∧
      Fits bufferSize L (next bufferSize s (first n)) segments
  | later missing taken, s :: segments =>
    ((taken + s.dataLength < missing ∨ missing < taken + s.dataLength ∧ s.dataLength ≤ bufferSize →
        missing ≤ L ∧ L + min (taken + s.dataLength) missing ≤ 2 * missing) ∧
      (missing < taken + s.dataLength → s.dataLength ≤ bufferSize → s.TailFits (missing - taken))) ∧
      Fits bufferSize L (next bufferSize s (later missing taken)) segments

-- The context is that of a connection that waits for this.
def Tracks (L : Int) (pIC : IOCPContext) : Awaited → Prop
  | nothing             => pIC.prevFlag = false
  | first n             => pIC.prevFlag = true ∧ pIC.bytesToRecv = n ∧ pIC.prevData = some L ∧ 1 ≤ n ∧ n ≤ L
  | later missing taken =>
    pIC.prevFlag = true ∧ pIC.bytesToRecv = missing - taken ∧ pIC.prevData = some missing ∧
      0 ≤ taken ∧ taken < missing ∧ (taken ≠ 0 → missing ≤ L)

end Awaited

-- The copies of a run stay in bounds, from a context on.
def Safe (bufferSize : Int) (pIC : IOCPContext) (segments : List Segment) : Prop :=
  ∀ x ∈ segments.zip (receives bufferSize pIC segments), ∀ c ∈ x.2.copies, c.InBounds x.1.dataLength

section Steps

variable {bufferSize L n missing taken : Int} {pIC : IOCPContext} {s : Segment} {pack : Packet} {o : Int}

theorem Segment.reach_eq (s : Segment) (o : Int) (pack : Packet) :
    (IOCPContext.splice s.buf s.dataLength pack o).2.1 = s.reach o := by
  revert pack
  apply splice_induction s.buf s.dataLength ?none ?some o
  case none =>
    intro o h pack
    rw [splice_of_none h, Segment.reach]
    split
    case h_1      => rfl
    case h_2 q hq => cases h.symm.trans hq
  case some =>
    intro o q h ih pack
    rw [splice_of_some h, Segment.reach]
    split
    case h_1 hn   => cases h.symm.trans hn
    case h_2 q hq =>
      cases h.symm.trans hq
      exact ih _

theorem IOCPContext.carry_packet (pIC : IOCPContext) (pack : Packet) (count n : Int) :
    (pIC.carry pack count n).1.packet = pIC.packet := by
  unfold IOCPContext.carry
  split <;> rfl

-- `doRecv` never sets the packet that it computes its offsets from.
theorem doRecv_packet : (pIC.doRecv bufferSize s.buf s.dataLength).context.packet = pIC.packet := by
  unfold IOCPContext.doRecv
  dsimp only
  split
  case isFalse => exact IOCPContext.carry_packet ..
  case isTrue =>
    split
    case isTrue  => rfl
    case isFalse =>
      split
      case isTrue  => rfl
      case isFalse =>
        split
        case isTrue  => exact IOCPContext.carry_packet ..
        case isFalse => rfl

-- `doRecv` when no packet is awaited.
theorem doRecv_idle (bufferSize : Int) (buf : Bytes) (dataLength : Int) (h : pIC.prevFlag = false) :
    pIC.doRecv bufferSize buf dataLength =
      let r := IOCPContext.splice buf dataLength {} 0
      let x := pIC.carry r.1 r.2.1 dataLength
      { context := x.1, calls := r.2.2.map (·, shown buf dataLength), copies := x.2 } := by
  rw [IOCPContext.doRecv]
  dsimp only
  rw [if_neg (by simp [h])]

-- The copies of `carry` stay in bounds just in case the last packet fits.
theorem carry_iff (s : Segment) (start : Int) (hs : start ≤ s.dataLength) (hz : 0 ≤ start)
    (pIC : IOCPContext) :
    (let r := IOCPContext.splice s.buf s.dataLength {} start
      ∀ c ∈ (pIC.carry r.1 r.2.1 s.dataLength).2, c.InBounds s.dataLength) ↔ s.TailFits start := by
  rw [tailFits_iff s start {}]
  have hr := splice_start s.buf s.dataLength start {} hs
  simp only [IOCPContext.carry, hs, true_implies]
  split
  case isTrue hc =>
    have := hr hc
    simp only [List.mem_singleton, forall_eq, Copy.inBounds_iff, Option.some.injEq, exists_eq_left']
    omega
  case isFalse hc =>
    simp [hc]

theorem carry_tracks (s : Segment) (h : pIC.prevFlag = false) :
    (s.awaited o).Tracks L (pIC.carry pack (s.reach o) s.dataLength).1 := by
  unfold Segment.awaited IOCPContext.carry
  split
  case isTrue hc  => exact ⟨rfl, by dsimp only; omega, rfl, Int.le_refl 0, by omega, fun h => absurd rfl h⟩
  case isFalse hc => exact h

end Steps

namespace Awaited

variable {bufferSize L n missing taken : Int} {pIC : IOCPContext} {w : Awaited}

-- What `doRecv` does when it waits for a packet: it appends a part, or it goes on behind the packet.
theorem doRecv_waiting (s : Segment) (hf : pIC.prevFlag = true) (hb : pIC.bytesToRecv = n) (hn : 1 ≤ n) :
    (∀ c ∈ (pIC.doRecv bufferSize s.buf s.dataLength).copies, c.InBounds s.dataLength) ↔
      (s.dataLength < n ∨ n < s.dataLength ∧ s.dataLength ≤ bufferSize →
        n ≤ pIC.packet.getPacketLength ∧ ∃ room, pIC.prevData = some room ∧
          pIC.packet.getPacketLength - n + min s.dataLength n ≤ room) ∧
      (n < s.dataLength → s.dataLength ≤ bufferSize → s.TailFits n) := by
  have hpos := s.pos
  subst hb
  rw [IOCPContext.doRecv]
  dsimp only
  rw [if_pos hf]
  split
  case isTrue he =>
    have h₁ : ¬(s.dataLength < pIC.bytesToRecv ∨ pIC.bytesToRecv < s.dataLength ∧ s.dataLength ≤ bufferSize) := by
      omega
    exact iff_of_true (List.forall_mem_nil _) ⟨fun h => absurd h h₁, fun h => absurd h (by omega)⟩
  case isFalse he =>
    split
    case isTrue hlt =>
      have hgt : ¬pIC.bytesToRecv < s.dataLength := by omega
      simp only [List.forall_mem_singleton, hlt, hgt, true_or, true_implies, false_implies, and_true,
        Copy.inBounds_iff]
      rw [Int.min_eq_left (Int.le_of_lt hlt)]
      constructor
      case mp  => exact fun ⟨_, _, _, hdest, room, hr, hw⟩ => ⟨by omega, room, hr, hw⟩
      case mpr => exact fun ⟨hle, room, hr, hw⟩ => ⟨by omega, Int.le_refl 0, by omega, by omega, room, hr, hw⟩
    case isFalse hlt =>
      split
      case isTrue hb =>
        have hb' : pIC.bytesToRecv < s.dataLength ∧ s.dataLength ≤ bufferSize := hb
        have hc := carry_iff s pIC.bytesToRecv (by omega) (by omega)
          { pIC with prevFlag := false, bytesToRecv := 0, prevData := none }
        simp only [hb', and_self, or_true, true_implies, List.forall_mem_cons, Copy.inBounds_iff]
        refine and_congr ?_ hc
        rw [Int.min_eq_right (Int.le_of_lt hb'.left)]
        constructor
        case mp  => exact fun ⟨_, _, _, hdest, room, hr, hw⟩ => ⟨by omega, room, hr, hw⟩
        case mpr => exact fun ⟨hle, room, hr, hw⟩ => ⟨by omega, Int.le_refl 0, by omega, by omega, room, hr, hw⟩
      case isFalse hb =>
        have hb' : ¬(pIC.bytesToRecv < s.dataLength ∧ s.dataLength ≤ bufferSize) := hb
        exact iff_of_true (List.forall_mem_nil _)
          ⟨fun h => absurd (h.resolve_left hlt) hb', fun h₁ h₂ => absurd ⟨h₁, h₂⟩ hb'⟩

-- What `doRecv` keeps when it waits for a packet.
theorem context_waiting (bufferSize L : Int) (s : Segment) (hf : pIC.prevFlag = true) (hb : pIC.bytesToRecv = n) :
    let x := (pIC.doRecv bufferSize s.buf s.dataLength).context
    (s.dataLength < n → x = { pIC with bytesToRecv := n - s.dataLength }) ∧
    (n < s.dataLength ∧ s.dataLength ≤ bufferSize → (s.awaited n).Tracks L x) ∧
    (¬s.dataLength < n → ¬(n < s.dataLength ∧ s.dataLength ≤ bufferSize) → x.prevFlag = false) := by
  subst hb
  rw [IOCPContext.doRecv]
  dsimp only
  rw [if_pos hf]
  split
  case isTrue he => exact ⟨fun h => absurd h (by omega), fun h => absurd h (by omega), fun _ _ => rfl⟩
  case isFalse he =>
    split
    case isTrue hlt  => exact ⟨fun _ => rfl, fun h => absurd h (by omega), fun h => absurd hlt h⟩
    case isFalse hlt =>
      split
      case isTrue hb  =>
        refine ⟨fun h => absurd h hlt, fun _ => ?_, fun _ h => absurd hb h⟩
        rw [s.reach_eq]
        exact carry_tracks s rfl
      case isFalse hb => exact ⟨fun h => absurd h hlt, fun h => absurd h hb, fun _ _ => rfl⟩

theorem safe_cons (s : Segment) (segments : List Segment) : Safe bufferSize pIC (s :: segments) ↔
    (∀ c ∈ (pIC.doRecv bufferSize s.buf s.dataLength).copies, c.InBounds s.dataLength) ∧
      Safe bufferSize (pIC.doRecv bufferSize s.buf s.dataLength).context segments := by
  simp only [Safe, receives, List.zip_cons_cons, List.forall_mem_cons]

-- By induction on the receives, for all that a connection can wait for.
theorem Tracks.fits_iff (h : w.Tracks L pIC) (hl : pIC.packet.getPacketLength = L) (segments : List Segment) :
    Safe bufferSize pIC segments ↔ w.Fits bufferSize L segments := by
  induction segments generalizing w pIC
  case nil => simp [Safe, receives, Fits]
  case cons s segments ih =>
    have hl' : (pIC.doRecv bufferSize s.buf s.dataLength).context.packet.getPacketLength = L := by
      rw [doRecv_packet, hl]
    rw [safe_cons]
    cases w
    case nothing =>
      have hf : pIC.prevFlag = false := h
      refine and_congr ?_ (ih ?_ hl')
      case refine_1 =>
        rw [doRecv_idle _ _ _ hf]
        exact carry_iff s 0 (Int.le_of_lt s.pos) (Int.le_refl 0) pIC
      case refine_2 =>
        rw [doRecv_idle _ _ _ hf]
        dsimp only
        rw [s.reach_eq]
        exact carry_tracks s hf
    case first n =>
      obtain ⟨hf, hb, hd, hn, hle⟩ := h
      have hc := context_waiting bufferSize L s hf hb
      refine and_congr ?_ (ih ?_ hl')
      case refine_1 =>
        rw [doRecv_waiting s hf hb hn, hl, hd, and_iff_right_iff_imp]
        exact fun _ _ => ⟨hle, L, rfl, by omega⟩
      case refine_2 =>
        unfold next
        dsimp only
        split
        case isTrue hlt =>
          rw [hc.left hlt]
          exact ⟨hf, rfl, hd, by omega, by have := s.pos; omega⟩
        case isFalse hlt =>
          split
          case isTrue hg  => exact hc.right.left hg
          case isFalse hg => exact hc.right.right hlt hg
    case later missing taken =>
      obtain ⟨hf, hb, hd, hz, hlt, hroom⟩ := h
      have hpos := s.pos
      have hc := context_waiting bufferSize L s hf hb
      have hlt' : s.dataLength < missing - taken ↔ taken + s.dataLength < missing := by omega
      have hgt' : missing - taken < s.dataLength ↔ missing < taken + s.dataLength := by omega
      have hstep : (∀ c ∈ (pIC.doRecv bufferSize s.buf s.dataLength).copies, c.InBounds s.dataLength) ↔
          (taken + s.dataLength < missing ∨ missing < taken + s.dataLength ∧ s.dataLength ≤ bufferSize →
            missing ≤ L ∧ L + min (taken + s.dataLength) missing ≤ 2 * missing) ∧
          (missing < taken + s.dataLength → s.dataLength ≤ bufferSize → s.TailFits (missing - taken)) := by
        rw [doRecv_waiting s hf hb (by omega), hl, hd, hlt', hgt']
        simp only [Option.some.injEq, exists_eq_left']
        refine and_congr_left fun _ => forall_congr' fun _ => ?_
        by_cases ht : taken = 0
        case pos => omega
        case neg =>
          have := hroom ht
          omega
      rw [hstep]
      refine and_congr_right fun hfits => ih ?_ hl'
      unfold next
      dsimp only
      split
      case isTrue h =>
        rw [hc.left (hlt'.mpr h)]
        exact ⟨hf, by dsimp only; omega, hd, by omega, h, fun _ => (hfits.left (.inl h)).left⟩
      case isFalse h =>
        split
        case isTrue hg  => exact hc.right.left ⟨hgt'.mpr hg.left, hg.right⟩
        case isFalse hg => exact hc.right.right (mt hlt'.mp h) fun hg' => hg ⟨hgt'.mp hg'.left, hg'.right⟩

end Awaited

-- The context that `doAccept` makes for a connection.
def IOCPContext.accepted (wsabuf : WSABUF) (socket : Option Socket) : IOCPContext :=
  { wsabuf, socket, operation := .recv }

-- The copies of a connection: those of `doAccept`, and those of the `doRecv` calls that follow.
def CopiesInBounds (bufferSize : Int) (pContext : IOCPContext) (first : Segment)
    (rest : List Segment) : Prop :=
  let r := pContext.doAccept first.buf first.dataLength
  (∀ c ∈ r.copies, c.InBounds first.dataLength) ∧ Safe bufferSize r.context rest

theorem accept_iff (s : Segment) (pContext : IOCPContext) :
    (∀ c ∈ (pContext.doAccept s.buf s.dataLength).copies, c.InBounds s.dataLength) ↔ s.FirstFits := by
  have hn := s.pos
  unfold IOCPContext.doAccept Segment.FirstFits
  simp only [headerAt_zero]
  split
  case h_1 _ hm => simp [hm]
  case h_2 packet hm =>
    simp only [hm, Prod.mk.injEq, true_and, forall_eq']
    split
    case isTrue he  => simp [he]
    case isFalse he =>
      simp only [List.mem_singleton, forall_eq, Copy.inBounds_iff, Option.some.injEq,
        exists_eq_left']
      omega

theorem accept_tracks {s : Segment} (h : s.FirstFits) (wsabuf : WSABUF) (socket : Option Socket) :
    let x := ((IOCPContext.accepted wsabuf socket).doAccept s.buf s.dataLength).context
    s.firstAwaited.Tracks s.begun x ∧ x.packet.getPacketLength = s.begun := by
  have hpos := s.pos
  unfold IOCPContext.doAccept Segment.firstAwaited
  split
  case h_1 hm =>
    have hnone : headerAt s.buf s.dataLength 0 = none := by
      cases hq : headerAt s.buf s.dataLength 0
      case none   => rfl
      case some q => cases (headerAt_zero.mp hq).symm.trans hm
    have hz : s.begun = 0 := by rw [Segment.begun, hnone]
    rw [if_pos hz, hz]
    exact ⟨rfl, rfl⟩
  case h_2 packet hm =>
    have hsome := headerAt_zero.mpr hm
    have hle := h packet hsome
    split
    case isTrue he  =>
      have hz : s.begun = 0 := by rw [Segment.begun, hsome]; exact if_pos he
      rw [if_pos hz, hz]
      exact ⟨rfl, rfl⟩
    case isFalse he =>
      have hb : s.begun = packet.getPacketLength := by rw [Segment.begun, hsome]; exact if_neg he
      rw [if_neg (by omega), hb]
      exact ⟨⟨rfl, rfl, rfl, by omega, by omega⟩, rfl⟩

-- The copies of every run stay in bounds just in case the packets fit where they are put.
theorem copiesInBounds_iff (bufferSize : Int) (wsabuf : WSABUF) (socket : Option Socket)
    (first : Segment) (rest : List Segment) :
    CopiesInBounds bufferSize (.accepted wsabuf socket) first rest ↔
      first.FirstFits ∧ first.firstAwaited.Fits bufferSize first.begun rest := by
  unfold CopiesInBounds
  dsimp only
  rw [accept_iff]
  refine and_congr_right fun h => ?_
  obtain ⟨ht, hl⟩ := accept_tracks h wsabuf socket
  exact ht.fits_iff hl rest

-- A first receive that goes on behind the packet it begins with.
def overrun : Segment where
  buf        := Packet.sample.header ++ [0]
  dataLength := (Packet.sample.header ++ [0]).length
  pos        := by simp
  le         := Int.le_refl _

theorem overrun_not_inBounds :
    ¬CopiesInBounds defaultBufSize (.accepted ⟨8192, []⟩ none) overrun [] := by
  intro ⟨h, _⟩
  rw [accept_iff] at h
  have hm := Packet.matchHeader_header Packet.sample_wellFormed {} [0]
    (n := overrun.dataLength) (by simp [overrun])
  have := h _ (headerAt_zero.mpr hm)
  simp [overrun, Packet.getPacketLength, Packet.createHeader, Packet.sample] at this

end Server8
