import Server8.Lib.Words
import Server8.Protocol.RoundTrip

namespace Server8.Packet

-- Text whose lines are neither empty nor open.
structure Lines (w : Bytes) : Prop where
  chain : w.IsChain fun a b => ¬(a = newline ∧ b = newline)
  head  : ∀ b ∈ w.head?, b ≠ newline
  last  : ∀ b ∈ w.getLast?, b = newline

namespace Lines

theorem nil : Lines [] :=
  ⟨.nil, by simp, by simp⟩

theorem append {u v : Bytes} (hu : Lines u) (hv : Lines v) : Lines (u ++ v) where
  chain := List.isChain_append.mpr ⟨hu.chain, hv.chain, fun _ _ b hb hn => hv.head b hb hn.right⟩
  head  := by
    intro b hb
    rw [List.head?_append, Option.mem_def, Option.or_eq_some_iff] at hb
    exact hb.elim (hu.head b) fun h => hv.head b h.right
  last  := by
    intro b hb
    rw [List.getLast?_append, Option.mem_def, Option.or_eq_some_iff] at hb
    exact hb.elim (hv.last b) fun h => hu.last b h.right

theorem line {name : String} {value : Bytes} {b : UInt8} (hb : (ascii name).head? = some b)
    (h : ∀ b ∈ ascii name ++ value, b ≠ newline) : Lines (Packet.line name value) where
  chain := by
    have hp : List.Pairwise (fun a b => ¬(a = newline ∧ b = newline)) (ascii name ++ value) :=
      List.pairwise_of_forall_mem_list fun a ha _ _ hab => h a ha hab.left
    refine List.isChain_append.mpr ⟨hp.isChain, List.isChain_singleton _, fun a ha _ _ hab => ?_⟩
    exact h a (List.mem_of_getLast? ha) hab.left
  head  := by
    intro b' hb'
    simp only [Packet.line, List.append_assoc, List.head?_append, hb, Option.some_or,
      Option.mem_some] at hb'
    exact hb' ▸ h b (List.mem_append_left _ (List.mem_of_head? hb))
  last  := by
    intro b' hb'
    simpa [Packet.line, eq_comm] using hb'

theorem optionalLine {name : String} {value : Bytes} {b : UInt8} (hb : (ascii name).head? = some b)
    (h : value ≠ [] → ∀ b ∈ ascii name ++ value, b ≠ newline) :
    Lines (Packet.optionalLine name value) := by
  unfold Packet.optionalLine
  split
  case isTrue hv => exact .line hb (h (List.ne_nil_of_length_pos hv))
  case isFalse   => exact .nil

end Lines

theorem forall_ne_newline {name : String} {value : Bytes} {p : UInt8 → Bool} {m n : Nat}
    (hn : (ascii name).all (· != newline)) (hp : p newline = false) (hv : IsField p m n value) :
    ∀ b ∈ ascii name ++ value, b ≠ newline := by
  intro b hb hbn
  cases List.mem_append.mp hb
  case inl hb => simpa [hbn] using List.all_eq_true.mp hn b hb
  case inr hb => simpa [hbn, hp] using hv.left b hb

-- The lines of a header, without the empty one that ends it.
def lines (p : Packet) : Bytes :=
  line "Operation:" p.operation ++
  optionalLine "OperationStatus:" p.operationStatus ++
  line "ContentLength:" (decimal p.contentLength) ++
  line "TimeStamp:" p.timeStamp ++
  optionalLine "InstanceName:" p.instanceName ++
  optionalLine "SessionID:" p.sessionID

theorem header_eq (p : Packet) : p.header = p.lines ++ [newline] :=
  rfl

theorem lines_lines {p : Packet} (hp : p.WellFormed) : Lines p.lines := by
  have hdec := decimal_isField hp.contentLength.left hp.contentLength.right
  refine (((((Lines.line (b := 79) rfl ?_).append (.optionalLine (b := 79) rfl ?_)).append
    (.line (b := 67) rfl ?_)).append (.line (b := 84) rfl ?_)).append
    (.optionalLine (b := 73) rfl ?_)).append (.optionalLine (b := 83) rfl ?_)
  · exact forall_ne_newline rfl rfl hp.operation
  · exact fun h => forall_ne_newline rfl rfl (hp.operationStatus.resolve_left h)
  · exact forall_ne_newline rfl rfl hdec
  · exact forall_ne_newline rfl rfl hp.timeStamp
  · exact fun h => forall_ne_newline rfl rfl (hp.instanceName.resolve_left h)
  · exact fun h => forall_ne_newline rfl rfl (hp.sessionID.resolve_left h)

-- A header ends with the only empty line in it.
theorem header_not_chain {p : Packet} (hp : p.WellFormed) (w : Bytes) :
    ¬(p.header ++ w).IsChain fun a b => ¬(a = newline ∧ b = newline) := by
  intro h
  have hl := lines_lines hp
  have hc := h.left_of_append
  rw [header_eq] at hc
  have hne : p.lines ≠ [] := by simp [lines, line]
  have hg := List.getLast?_eq_some_getLast hne
  have hn := hl.last _ hg
  exact (List.isChain_append.mp hc).right.right _ hg newline rfl ⟨hn, rfl⟩

-- So no header goes round into a part of another one.
theorem not_conj_of_header {p p' : Packet} (hp : p.WellFormed) (hp' : p'.WellFormed) {w t x z : Bytes}
    (h : (p.header ++ w) ++ t = t ++ x) (hz : p'.header = x ++ z) (hne : z ≠ []) :
    False := by
  have hl := lines_lines hp'
  have hpre : x <+: p'.lines := by
    rw [header_eq] at hz
    exact List.prefix_of_prefix_length_le ⟨z, hz.symm⟩ (List.prefix_append ..) (by
      have := congrArg List.length hz
      have := List.length_pos_of_ne_nil hne
      simp only [List.length_append, List.length_singleton] at *
      omega)
  have hd : ∀ b ∈ x.head?, ∀ a, ¬(a = newline ∧ b = newline) := by
    intro b hb a hab
    obtain ⟨u, hu⟩ := hpre
    have hb' : b ∈ p'.lines.head? := by
      rw [← hu, List.head?_append, hb, Option.some_or]
      rfl
    exact hl.head b hb' hab.right
  have hchain := List.IsChain.prefix hl.chain hpre
  exact header_not_chain hp w (Words.isChain_of_append_comm h hchain hd)

-- A part of a header is no header: it would stay one in the whole header, and end too early.
theorem matchHeader_partial {p : Packet} (hp : p.WellFormed) {x z buf : Bytes} {n : Int}
    (hz : p.header = x ++ z) (hne : z ≠ []) (hn : n = x.length) (hx : buf.take x.length = x)
    (p' q : Packet) : p'.matchHeader (some buf) n ≠ (true, q) := by
  intro h
  have ⟨hpos, hm⟩ := matchHeader_true h
  have hlen := congrArg List.length hz
  have hl := length_header hp
  have hz' := List.length_pos_of_ne_nil hne
  rw [List.length_append] at hlen
  have hw : headerWindow buf n = x := by
    have : (if n > 256 then 256 else n).toNat = x.length := by
      split <;> omega
    rw [headerWindow, this, hx]
  rw [hw] at hm
  obtain ⟨u, v, hx', hu, hall⟩ := hm.local_
  have hq := matchBuffer_header hp p' []
  rw [List.append_nil, hz, hx', List.append_assoc, hall, Prod.mk.injEq] at hq
  have := congrArg Packet.headLength hq.right
  have := congrArg List.length hx'
  simp only [createHeader, List.length_append] at *
  omega

end Server8.Packet
