import Server8.IOCP.Handlers
import Server8.IOCP.Ledger

-- Every step of the module is one that the account of its connections allows.

namespace Server8

open Runs

def Kind.operation : Kind → IOCPOperationSignal
  | .accept  => .accept
  | .recv    => .recv
  | .send    => .send
  | .close _ => .closeConnection
  | .exit    => .exit

def Kind.tokens (pSC : Nat) : Kind → List Token
  | .recv      => [.receive pSC]
  | .close own => [.close pSC own]
  | _          => []

def Task.tokens : Task → List Token
  | .dispatch p                     => p.kind.tokens p.pSC
  | .insert _ _ pSC _ _             => [.insert pSC]
  | .doRecv pSC _ _ _ _             => [.receive pSC]
  | .postCloseConnection pSC true   => [.receive pSC]
  | .doCloseConnection pSC own      => [.close pSC own]
  | .publish pSC _ _                => [.insert pSC, .receive pSC]
  | _                               => []

def Item.tokens : Item → List Token
  | .operation kind pSC _ => kind.tokens pSC
  | .packet p             => p.kind.tokens p.pSC
  | .thread _ task        => task.tokens

namespace Module

theorem member_iff {map : Std.TreeMap Nat (Option Socket)} {p : Nat} : map[p]? ≠ none ↔ p ∈ map := by
  rw [Option.ne_none_iff_isSome, Std.TreeMap.mem_iff_isSome_getElem?]

def ledger (m : Module) (items : List Item) : Ledger where
  bound p  := ∃ k, m.keys k = some p
  member p := m.socketContextMap[p]? ≠ none
  closed p := ∀ sc, m.socketContexts.block p = some sc → sc.closeFlag = true
  tokens t := (items.flatMap Item.tokens).count t

-- A context that is used for an operation, if it is not deleted: what the operation is, and that it
-- reports to `pSC`. The context of an exit packet has no socket.
structure Holds (m : Module) (kind : Kind) (pSC pIC : Nat) : Prop where
  lt        : pIC < m.contexts.newAddress
  operation : ∀ c, m.contexts.block pIC = some c → c.operation = kind.operation
  key       : kind = .recv ∨ kind = .send → ∀ c, m.contexts.block pIC = some c →
    c.socket.bind m.keys = some pSC
  accept    : kind = .accept → pSC = listening
  exit      : kind = .exit → pSC < m.socketContexts.newAddress ∧
    ∀ sc, m.socketContexts.block pSC = some sc → sc.socket = none

-- A bound socket is the socket of the context that it is bound to.
structure Wired (m : Module) : Prop where
  listen : m.keys listenSocket = some listening
  lt     : ∀ {k : Socket} {p : Nat}, m.keys k = some p → p < m.socketContexts.newAddress
  socket : ∀ {k : Socket} {p : Nat} {sc : SocketContext}, m.keys k = some p →
    m.socketContexts.block p = some sc → sc.socket = some k

end Module

structure Completion.Typed (m : Module) (p : Completion) : Prop where
  holds : m.Holds p.kind p.pSC p.pIC
  plain : p.flag = false ∨ p.dwBytesTransfered = 0 → p.kind = .accept ∨ p.kind = .recv ∨ p.kind = .send

def Task.Typed (m : Module) : Task → Prop
  | .dispatch p            => p.Typed m
  | .insert pSC pIC _ _ _  => m.Holds .accept pSC pIC
  | .process pSC pIC _     => m.Holds .accept pSC pIC
  | .postAccept pIC _ _    => m.Holds .accept listening pIC
  | .doRecv pSC pIC _ _ _  => m.Holds .recv pSC pIC
  | .doSend pSC pIC _ _ _  => m.Holds .send pSC pIC
  | .resent pSC pIC _ _ _  => m.Holds .send pSC pIC
  | .publish pSC pIC _     => m.Holds .recv pSC pIC ∧ pSC ≠ listening
  | .create pSC _          => (∃ k, m.keys k = some pSC) ∧ pSC ≠ listening
  | .postSend pSC pIC      => m.Holds .send pSC pIC
  | .sent pSC pIC _        => m.Holds .send pSC pIC
  | _                      => True

def Item.Typed (m : Module) : Item → Prop
  | .operation kind pSC pIC =>
    (kind = .accept ∨ kind = .recv ∨ kind = .send) ∧ m.Holds kind pSC pIC
  | .packet p               => p.Typed m
  | .thread _ task          => task.Typed m

namespace Module

variable {m m' : Module} {kind : Kind} {pSC pIC : Nat}

theorem Holds.keeps (h : m.Holds kind pSC pIC) (hk : m.Keeps m') : m'.Holds kind pSC pIC where
  lt := Nat.lt_of_lt_of_le h.lt hk.heap.contexts.le
  operation c hc := by
    obtain ⟨c', hc', ho, _⟩ := hk.heap.contexts.kept h.lt hc
    exact ho.trans (h.operation c' hc')
  key hr c hc := by
    obtain ⟨c', hc', ho, hs⟩ := hk.heap.contexts.kept h.lt hc
    have hne : c'.operation ≠ .accept := by
      rw [h.operation c' hc']
      cases hr
      case inl hr => simp [hr, Kind.operation]
      case inr hr => simp [hr, Kind.operation]
    obtain ⟨k, hk', hp⟩ := Option.bind_eq_some_iff.mp (h.key hr c' hc')
    rw [hs.resolve_left hne, hk']
    exact hk.keys hp
  accept := h.accept
  exit he := by
    obtain ⟨hlt, hs⟩ := h.exit he
    refine ⟨Nat.lt_of_lt_of_le hlt hk.heap.socketContexts.le, fun sc hsc => ?_⟩
    obtain ⟨sc', hsc', hs', _⟩ := hk.heap.socketContexts.kept hlt hsc
    exact hs'.trans (hs sc' hsc')

theorem Holds.kind_eq {c : IOCPContext} {k : Kind} (h : m.Holds kind pSC pIC)
    (hc : m.contexts.block pIC = some c) (ho : c.operation = k.operation)
    (hk : k = .accept ∨ k = .recv ∨ k = .send) : kind = k := by
  have he := (h.operation c hc).symm.trans ho
  cases kind <;> rcases hk with rfl | rfl | rfl <;> simp [Kind.operation] at he ⊢

end Module

section Typed

variable {m m' : Module}

theorem Completion.Typed.keeps {p : Completion} (h : p.Typed m) (hk : m.Keeps m') : p.Typed m' :=
  ⟨h.holds.keeps hk, h.plain⟩

theorem Task.Typed.keeps {task : Task} (h : task.Typed m) (hk : m.Keeps m') : task.Typed m' := by
  cases task
  case dispatch p => exact Completion.Typed.keeps h hk
  case create =>
    obtain ⟨⟨k, h⟩, hne⟩ := h
    exact ⟨⟨k, hk.keys h⟩, hne⟩
  case insert     => exact Module.Holds.keeps h hk
  case process    => exact Module.Holds.keeps h hk
  case postAccept => exact Module.Holds.keeps h hk
  case doRecv     => exact Module.Holds.keeps h hk
  case doSend     => exact Module.Holds.keeps h hk
  case resent     => exact Module.Holds.keeps h hk
  case publish    => exact ⟨Module.Holds.keeps h.left hk, h.right⟩
  case postSend   => exact Module.Holds.keeps h hk
  case sent       => exact Module.Holds.keeps h hk
  all_goals exact trivial

theorem Item.Typed.keeps {item : Item} (h : item.Typed m) (hk : m.Keeps m') : item.Typed m' := by
  cases item
  case operation => exact ⟨h.left, h.right.keeps hk⟩
  case packet p  => exact Completion.Typed.keeps h hk
  case thread    => exact Task.Typed.keeps h hk

end Typed

namespace Module

variable {m m' : Module}

theorem Wired.keeps (h : m.Wired) (hk : m.Keeps m') (keys : m'.keys = m.keys) : m'.Wired where
  listen := keys ▸ h.listen
  lt hp := Nat.lt_of_lt_of_le (h.lt (keys ▸ hp)) hk.heap.socketContexts.le
  socket hp hsc := by
    rw [keys] at hp
    obtain ⟨sc, hsc', hs, _⟩ := hk.heap.socketContexts.kept (h.lt hp) hsc
    exact hs.trans (h.socket hp hsc')

theorem Wired.lasts (h : m.Wired) (hk : m.Keeps m') (items items' : List Item) :
    (m.ledger items).Lasts (m'.ledger items') where
  bound := fun ⟨k, hp⟩ => ⟨k, hk.keys hp⟩
  closed := fun ⟨_, hp⟩ hc _ hsc =>
    have ⟨sc', hsc', _, hf⟩ := hk.heap.socketContexts.kept (h.lt hp) hsc
    hf (hc sc' hsc')

-- What the step of an item comes to, next to the rest of the items.
structure Sim (careful : Prop) (m : Module) (used : List Item) (m' : Module) (new rest : List Item) :
    Prop where
  keeps : m.Keeps m'
  wired : m'.Wired
  typed : ∀ item ∈ new, item.Typed m'
  step  : (m.ledger (used ++ rest)).Step careful (m'.ledger (new ++ rest))

section Sim

variable {careful : Prop} {used new rest : List Item} {U N : List Token}

theorem moves (h : ∀ t, (new.flatMap Item.tokens).count t + U.count t =
    (used.flatMap Item.tokens).count t + N.count t) :
    (m.ledger (used ++ rest)).Moves U N (m'.ledger (new ++ rest)) := by
  intro t
  have := h t
  simp only [ledger, List.flatMap_append, List.count_append]
  omega

-- The steps that the account does not notice.
theorem Sim.keep (hw : m.Wired) (hk : m.toContextHeap.Keeps m'.toContextHeap) (keys : m'.keys = m.keys)
    (map : m'.socketContextMap = m.socketContextMap)
    (tokens : new.flatMap Item.tokens = used.flatMap Item.tokens)
    (typed : m.Keeps m' → ∀ item ∈ new, item.Typed m') : m.Sim careful used m' new rest where
  keeps := ⟨hk, fun h => keys ▸ h⟩
  wired := hw.keeps ⟨hk, fun h => keys ▸ h⟩ keys
  typed := typed ⟨hk, fun h => keys ▸ h⟩
  step  := .keep (by simp only [ledger, keys]) (by simp only [ledger, map])
    (moves fun t => by rw [tokens])

-- The steps that bind a socket to a context.
theorem Sim.bind {k : Socket} {q : Nat} {sc : SocketContext} (hw : m.Wired)
    (hk : m.toContextHeap.Keeps m'.toContextHeap) (hkeys : m.keys k = none) (fresh : ∀ k', m.keys k' ≠ some q)
    (keys : m'.keys = Function.update m.keys k (some q))
    (map : m'.socketContextMap = m.socketContextMap) (hsc : m'.socketContexts.block q = some sc)
    (hs : sc.socket = some k)
    (tokens : ∀ t, (new.flatMap Item.tokens).count t =
      (used.flatMap Item.tokens).count t + [Token.receive q, .insert q].count t)
    (typed : m.Keeps m' → ∀ item ∈ new, item.Typed m') : m.Sim careful used m' new rest := by
  have old {k' : Socket} {p : Nat} (h : m.keys k' = some p) : m'.keys k' = some p := by
    have hne : k' ≠ k := fun he => by simp [← he, h] at hkeys
    rw [keys, Function.update_of_ne hne, h]
  have split {k' : Socket} {p : Nat} (h : m'.keys k' = some p) :
      m.keys k' = some p ∨ k' = k ∧ p = q := by
    rw [keys, Function.update_apply] at h
    split at h
    case isTrue he => exact .inr ⟨he, (Option.some.inj h).symm⟩
    case isFalse   => exact .inl h
  refine ⟨⟨hk, old⟩, ⟨old hw.listen, fun h => ?_, fun h hsc' => ?_⟩, typed ⟨hk, old⟩, .bind q ?_ (fun p => ?_) ?_ ?_⟩
  · cases split h
    case inl h => exact Nat.lt_of_lt_of_le (hw.lt h) hk.socketContexts.le
    case inr h => exact h.right ▸ Memory.lt_newAddress hsc
  · cases split h
    case inl h =>
      obtain ⟨sc', hsc', hs, _⟩ := hk.socketContexts.kept (hw.lt h) hsc'
      exact hs.trans (hw.socket h hsc')
    case inr h =>
      obtain ⟨rfl, rfl⟩ := h
      cases hsc.symm.trans hsc'
      exact hs
  · exact fun ⟨k', h⟩ => fresh k' h
  · constructor
    case mp =>
      intro ⟨k', h⟩
      exact (split h).imp (⟨k', ·⟩) And.right
    case mpr =>
      intro h
      cases h
      case inl h => exact h.imp fun _ => old
      case inr h => exact ⟨k, by rw [keys, Function.update_self, h]⟩
  · simp only [ledger, map]
  · exact moves fun t => by rw [tokens, List.count_nil, Nat.add_zero]

-- The steps that drop the receive of a connection that is not in the map, or closed.
theorem Sim.drop {q : Nat} (hw : m.Wired) (hk : m.toContextHeap.Keeps m'.toContextHeap) (keys : m'.keys = m.keys)
    (map : m'.socketContextMap = m.socketContextMap) (tokens : used.flatMap Item.tokens = [.receive q])
    (why : (∀ sc, m'.socketContexts.block q = some sc → sc.closeFlag = true) ∨
      m.socketContextMap[q]? = none ∧ (careful → Token.insert q ∉ rest.flatMap Item.tokens)) :
    m.Sim careful used m' [] rest := by
  refine ⟨⟨hk, fun h => keys ▸ h⟩, hw.keeps ⟨hk, fun h => keys ▸ h⟩ keys, nofun,
    .drop q (by simp only [ledger, keys]) (by simp only [ledger, map]) (moves fun t => ?_) ?_⟩
  · rw [tokens, List.flatMap_nil, Nat.add_comm]
  · refine why.imp id fun ⟨hmap, care⟩ => ⟨not_not.mpr hmap, fun hc => ?_⟩
    simp [ledger, tokens, List.count_eq_zero.mpr (care hc)]

end Sim

section Steps

variable {careful : Prop} {new rest : List Item} {kind : Kind} {pSC pIC : Nat} {p : Completion}
  {c : IOCPContext}

theorem complete_sim {result : Completed} (hw : m.Wired)
    (ht : (Item.operation kind pSC pIC).Typed m)
    (h : m.complete kind pSC pIC result = .ok (m', new)) :
    m.Sim careful [.operation kind pSC pIC] m' new rest := by
  obtain ⟨hkind, holds⟩ := ht
  cases complete_ok h
  case inl h =>
    obtain ⟨rfl, rfl⟩ := h
    exact .keep hw (.refl _) rfl rfl rfl fun _ => by simpa using ⟨holds, fun _ => hkind⟩
  case inr h =>
    cases h
    case inl h =>
      obtain ⟨data, c, heap, hc, _, hset, rfl, rfl⟩ := h
      have hk : m.toContextHeap.Keeps heap := by
        apply ContextHeap.Keeps.setContext hset
        intro c' hc'
        cases hc.symm.trans hc'
        exact ⟨rfl, .inr rfl⟩
      refine .keep hw hk rfl rfl rfl fun hk => ?_
      simpa using ⟨holds.keeps hk, fun _ => hkind⟩
    case inr h =>
      obtain ⟨n, _, rfl, rfl⟩ := h
      exact .keep hw (.refl _) rfl rfl rfl fun _ => by simpa using ⟨holds, fun _ => hkind⟩

theorem doAccept_sim {worker bound posted : Bool} (hw : m.Wired) (holds : m.Holds .accept p.pSC p.pIC)
    (hk : p.kind = .accept) (h : m.doAccept p c bound posted = .ok (m', new)) :
    m.Sim careful [.thread worker (.dispatch p)] m' new rest := by
  have hl := holds.accept rfl
  cases doAccept_ok h
  case inl h =>
    obtain ⟨rfl, rfl⟩ := h
    refine .keep hw (.refl _) rfl rfl (by simp [Item.tokens, Task.tokens, Kind.tokens, hk]) fun hk' => ?_
    simpa [Item.Typed, Task.Typed] using hl ▸ holds.keeps hk'
  case inr h =>
    obtain ⟨k, heap, c₀, pContext, accepts, ⟨hb, hn, ho, hs₀, _⟩, ⟨hb', hn'⟩, rfl, rfl⟩ := h
    have hheap : m.toContextHeap.Keeps heap := by
      refine ⟨⟨by rw [hn]; exact Nat.le_succ _, fun ha hy => ?_⟩,
        ⟨by rw [hn']; exact Nat.le_succ _, fun ha hy => ?_⟩⟩
      · rw [hb, Function.update_of_ne (Nat.ne_of_lt ha)] at hy
        exact ⟨_, hy, rfl, .inr rfl⟩
      · rw [hb', Function.update_of_ne (Nat.ne_of_lt ha)] at hy
        exact ⟨_, hy, rfl, id⟩
    have fresh : ∀ k', m.keys k' ≠ some m.socketContexts.newAddress :=
      fun _ h => Nat.ne_of_lt (hw.lt h) rfl
    refine .bind hw hheap accepts.key fresh rfl rfl ((congrFun hb' _).trans (Function.update_self ..)) rfl
      (fun t => ?_) fun hkeeps => ?_
    · simp [Item.tokens, Task.tokens, Kind.tokens, hk, List.count_cons, Nat.add_comm]
    · simp only [List.forall_mem_cons]
      refine ⟨holds.keeps hkeeps, ⟨.inr (.inl rfl), ?_, fun c' hc' => ?_, fun _ c' hc' => ?_, nofun, nofun⟩,
        nofun⟩
      · exact hn ▸ Nat.lt_succ_self _
      · simp only [hb, Function.update_self] at hc'
        cases hc'
        exact ho
      · simp only [hb, Function.update_self] at hc'
        cases hc'
        rw [hs₀, Option.bind_some]
        exact Function.update_self ..

theorem dispatch_sim {worker first second : Bool} (hw : m.Wired) (ht : p.Typed m)
    (h : m.dispatch p first second = .ok (m', new)) :
    m.Sim careful [.thread worker (.dispatch p)] m' new rest := by
  obtain ⟨c, hc, hd⟩ := dispatch_ok h
  clear h
  have ho := ht.holds.operation c hc
  cases hd
  case empty errorNum operation why =>
    have hk := ht.holds.kind_eq (k := .accept) hc operation (.inl rfl)
    have holds := hk ▸ ht.holds
    refine .keep hw (.refl _) rfl rfl (by simp [Item.tokens, Task.tokens, Kind.tokens, hk]) fun hk' => ?_
    simpa [Item.Typed, Task.Typed] using holds.accept rfl ▸ holds.keeps hk'
  case sendError errorNum operation why =>
    have hk := ht.holds.kind_eq (k := .send) hc operation (.inr (.inr rfl))
    exact .keep hw (.refl _) rfl rfl (by simp [Item.tokens, Task.tokens, Kind.tokens, hk])
      fun _ => by simp [Item.Typed, Task.Typed]
  case close errorNum operation why =>
    refine .keep hw (.refl _) rfl rfl ?_ fun _ => by simp [Item.Typed, Task.Typed]
    have hp := ht.plain (why.imp And.left id)
    cases hp
    case inl hk => exact absurd (by rw [ho, hk, Kind.operation]) operation
    case inr hp =>
      cases hp
      case inl hk => simp [Item.tokens, Task.tokens, Kind.tokens, hk]
      case inr hk => simp [Item.tokens, Task.tokens, Kind.tokens, hk]
  case closed operation why sc block closeFlag =>
    cases ht.plain (.inr why)
    case inl hk => exact absurd (by rw [ho, hk, Kind.operation]) operation
    case inr hp =>
      cases hp
      case inl hk =>
        refine .drop (q := p.pSC) hw (.refl _) rfl rfl
          (by simp [Item.tokens, Task.tokens, Kind.tokens, hk]) (.inl fun sc' hsc' => ?_)
        cases block.symm.trans hsc'
        exact closeFlag
      case inr hk =>
        exact .keep hw (.refl _) rfl rfl (by simp [Item.tokens, Task.tokens, Kind.tokens, hk]) fun _ => nofun
  case null operation =>
    cases hk : p.kind <;> simp [ho, hk, Kind.operation] at operation
  case doAccept operation why h =>
    have hk := ht.holds.kind_eq (k := .accept) hc operation (.inl rfl)
    exact doAccept_sim hw (hk ▸ ht.holds) hk h
  case doRecv operation why h =>
    have hk := ht.holds.kind_eq (k := .recv) hc operation (.inr (.inl rfl))
    obtain ⟨heap, hset, rfl, rfl⟩ := doRecv_ok h
    have hheap : m.toContextHeap.Keeps heap := by
      apply ContextHeap.Keeps.setContext hset
      intro c' hc'
      cases hc.symm.trans hc'
      have hf := c.doRecv_frame m.bufferSize c.wsabuf.buf p.dwBytesTransfered
      exact ⟨hf.left, .inr hf.right.left⟩
    refine .keep hw hheap rfl rfl (by simp [Item.tokens, Task.tokens, Kind.tokens, hk]) fun hk' => ?_
    simpa [Item.Typed, Task.Typed] using hk ▸ ht.holds.keeps hk'
  case doSend operation why h =>
    have hk := ht.holds.kind_eq (k := .send) hc operation (.inr (.inr rfl))
    obtain ⟨heap, _, hf, hset, rfl, rfl⟩ := doSend_ok h
    have hheap : m.toContextHeap.Keeps heap := by
      apply ContextHeap.Keeps.setContext hset
      intro c' hc'
      cases hc.symm.trans hc'
      exact ⟨hf.left, .inr hf.right⟩
    refine .keep hw hheap rfl rfl (by simp [Item.tokens, Task.tokens, Kind.tokens, hk]) fun hk' => ?_
    simpa [Item.Typed, Task.Typed] using hk ▸ ht.holds.keeps hk'
  case doCloseConnection operation =>
    refine .keep hw (.refl _) rfl rfl ?_ fun _ => by simp [Item.Typed, Task.Typed]
    cases hk : p.kind <;> simp [ho, hk, Kind.operation] at operation
    case close receive => cases receive <;> simp [Item.tokens, Task.tokens, Kind.tokens, hk]
  case exit operation h =>
    obtain ⟨heap, socket, hd, rfl, rfl⟩ := exitThread_ok h
    refine .keep hw (.deleteSocketContext hd) rfl rfl ?_ fun _ => nofun
    cases hk : p.kind <;> simp [ho, hk, Kind.operation] at operation
    simp [Item.tokens, Task.tokens, Kind.tokens, hk]

theorem insert_sim {q n : Nat} {flag worker : Bool} (hw : m.Wired) (holds : m.Holds .accept pSC pIC)
    (h : m.insert pSC pIC q n flag = .ok (m', new)) :
    m.Sim careful [.thread worker (.insert pSC pIC q n flag)] m' new rest := by
  obtain ⟨sc, hsc, rfl, rfl⟩ := insert_ok h
  refine ⟨⟨.refl _, id⟩, ⟨hw.listen, hw.lt, hw.socket⟩, ?_, .insert q false rfl (fun p => ?_) (moves fun t => ?_)
    fun _ => rfl⟩
  · have holds : Holds { m with
      socketContextMap := m.socketContextMap.insertIfNew q sc.socket } .. := holds.keeps ⟨.refl _, id⟩
    cases flag
    case true  => simpa [Item.Typed, Task.Typed] using holds
    case false => simpa [Item.Typed, Task.Typed] using holds.accept rfl ▸ holds
  · simp only [ledger, member_iff, Std.TreeMap.mem_insertIfNew, Std.compare_eq_iff_eq]
    rw [or_comm, eq_comm]
  · cases flag <;> simp [Item.tokens, Task.tokens]

theorem repost_sim {reset count worker created posted : Bool} (hw : m.Wired)
    (holds : m.Holds .accept listening pIC)
    (h : m.repost pIC reset count created posted = .ok (m', new)) :
    m.Sim careful [.thread worker (.postAccept pIC reset count)] m' new rest := by
  obtain ⟨c, c', heap, hc, hset, ⟨ho, _⟩, rfl, rfl⟩ := repost_ok h
  have hheap : m.toContextHeap.Keeps heap := by
    apply ContextHeap.Keeps.setContext hset
    intro c₁ hc₁
    have := holds.operation c₁ hc₁
    exact ⟨ho.trans this.symm, .inl this⟩
  refine .keep hw hheap rfl rfl ?_ fun hk => ?_
  · split <;> simp [Item.tokens, Task.tokens, Kind.tokens]
  · split
    case isTrue  => simpa [Item.Typed] using holds.keeps hk
    case isFalse => simp [Item.Typed, Task.Typed]

theorem callback_sim {base : Nat} {count worker posted : Bool} {stops : List Int} (hw : m.Wired)
    (holds : m.Holds .recv pSC pIC)
    (h : m.callback pSC pIC base count stops posted = .ok (m', new)) :
    m.Sim careful [.thread worker (.doRecv pSC pIC base count stops)] m' new rest := by
  obtain ⟨c, hc, h⟩ := callback_ok h
  cases h
  case inl h =>
    obtain ⟨stop, stops, rfl, rfl, rfl⟩ := h
    refine .keep hw (.refl _) rfl rfl (by simp [Item.tokens, Task.tokens]) fun hk => ?_
    simpa [Item.Typed, Task.Typed] using holds.keeps hk
  case inr h =>
    obtain ⟨rfl, heap, hset, hm, rfl⟩ := h
    have hheap : m.toContextHeap.Keeps heap := by
      apply ContextHeap.Keeps.setContext hset
      intro c' hc'
      cases hc.symm.trans hc'
      exact ⟨(holds.operation c hc).symm, .inr rfl⟩
    rw [posted_of_key (holds.key (.inl rfl) c hc)]
    subst hm
    refine .keep hw hheap rfl rfl ?_ fun hk => ?_
    · cases posted <;> simp [Item.tokens, Task.tokens, Kind.tokens]
    · cases posted
      case true  => simpa [Item.Typed] using holds.keeps hk
      case false => simp [Item.Typed, Task.Typed]

theorem perform_sim {worker posted ret : Bool} {effects : List SendEffect} (hw : m.Wired)
    (holds : m.Holds .send pSC pIC) (h : m.perform pSC pIC posted ret effects = .ok (m', new)) :
    m.Sim careful [.thread worker (.doSend pSC pIC posted ret effects)] m' new rest := by
  cases perform_ok h
  case inl h =>
    obtain ⟨rfl, rfl, rfl⟩ := h
    cases ret
    case true  => exact .keep hw (.refl _) rfl rfl rfl fun _ => nofun
    case false => exact .keep hw (.refl _) rfl rfl rfl fun _ => by simp [Item.Typed, Task.Typed]
  case inr h =>
    obtain ⟨effect, effects, c, rfl, hc, h⟩ := h
    rcases h with ⟨call, rfl, rfl, rfl⟩ | ⟨descriptor, rfl, rfl, rfl⟩ | ⟨k, heap, rfl, hr, rfl, rfl⟩
    · refine .keep hw (.refl _) rfl rfl rfl fun hk => ?_
      simpa [Item.Typed, Task.Typed] using holds.keeps hk
    · rw [posted_of_key (holds.key (.inr rfl) c hc)]
      refine .keep hw (.refl _) rfl rfl ?_ fun _ => ?_
      · cases posted <;> simp [Item.tokens, Task.tokens, Kind.tokens]
      · cases posted
        case true  => simpa [Item.Typed, Task.Typed] using holds
        case false => simpa [Item.Typed, Task.Typed] using holds
    · have hheap := ContextHeap.Keeps.removeIOCPContext hr
      refine .keep hw hheap rfl rfl rfl fun hk => ?_
      simpa [Item.Typed, Task.Typed] using holds.keeps hk

-- A context that is used for a send is for sends already.
theorem Holds.setOperation (holds : m.Holds .send pSC pIC) (h : m.setOperation pIC = .ok m') : m = m' := by
  obtain ⟨c, heap, hc, hset, rfl⟩ := setOperation_ok.mp h
  obtain ⟨contexts, hw, rfl⟩ := ContextHeap.setContext_ok.mp hset
  have ho : IOCPOperationSignal.send = c.operation := (holds.operation c hc).symm
  rw [ho, Memory.write_block hc] at hw
  cases hw
  rfl

theorem resent_sim {worker posted ret : Bool} {effects : List SendEffect} (hw : m.Wired)
    (holds : m.Holds .send pSC pIC) (h : m.resent pSC pIC posted ret effects = .ok (m', new)) :
    m.Sim careful [.thread worker (.resent pSC pIC posted ret effects)] m' new rest := by
  obtain ⟨hm, rfl⟩ := resent_ok h
  cases holds.setOperation hm
  exact .keep hw (.refl _) rfl rfl rfl fun _ => by simpa [Item.Typed, Task.Typed] using holds

theorem postCloseConnection_sim {worker receive : Bool} (hw : m.Wired)
    (care : careful → receive = true → Token.insert pSC ∉ rest.flatMap Item.tokens)
    (h : m.postCloseConnection worker pSC receive = .ok (m', new)) :
    m.Sim careful [.thread worker (.postCloseConnection pSC receive)] m' new rest := by
  cases postCloseConnection_ok h
  case inl h =>
    obtain ⟨rfl, rfl, why⟩ := h
    cases receive
    case false => exact .keep hw (.refl _) rfl rfl rfl fun _ => nofun
    case true  =>
      refine .drop (q := pSC) hw (.refl _) rfl rfl rfl ?_
      cases why
      case inl why => exact .inr ⟨why, (care · rfl)⟩
      case inr why =>
        obtain ⟨sc, hsc, hf⟩ := why
        exact .inl fun sc' hsc' => Option.some.inj (hsc.symm.trans hsc') ▸ hf
  case inr h =>
    obtain ⟨sc, heap, heap', pCloseContext, hmap, hsc, hf, hset, hcreate, rfl, rfl⟩ := h
    have hheap : m.toContextHeap.Keeps heap' := by
      refine .trans (.setSocketContext hset fun sc' hsc' => ?_) (.createIOCPContext hcreate)
      cases hsc.symm.trans hsc'
      exact ⟨rfl, fun _ => rfl⟩
    have hw' : ({ m with toContextHeap := heap' }.done worker).Wired := hw.keeps ⟨hheap, id⟩ rfl
    obtain ⟨sc₁, c₁, hsc₁, _, rfl, hb, hn, hb', _⟩ := ContextHeap.createIOCPContext_ok hcreate
    refine ⟨⟨hheap, id⟩, hw', ?_, ?_⟩
    · unfold PostQueuedCompletionStatus
      split
      case isFalse => exact nofun
      case isTrue  =>
        simp only [List.forall_mem_cons]
        refine ⟨⟨⟨hn ▸ Nat.lt_succ_self _, fun c' hc' => ?_, nofun, nofun, nofun⟩, nofun⟩, nofun⟩
        simp only [done, hb, Function.update_self] at hc'
        cases hc'
        rfl
    · refine .close pSC receive m.portOpen rfl rfl hmap (fun h => ?_) (fun sc' hsc' => ?_)
        (moves fun t => ?_)
      · simp [h sc hsc] at hf
      · simp only [done, hb', Function.update_self] at hsc'
        cases hsc'
        obtain ⟨socketContexts, hw, rfl⟩ := ContextHeap.setSocketContext_ok.mp hset
        cases (Memory.write_self hw).symm.trans hsc₁
        rfl
      · unfold PostQueuedCompletionStatus
        cases receive <;> cases m.portOpen <;>
          simp [Item.tokens, Task.tokens, Kind.tokens, List.count_cons, Nat.add_comm]

theorem doCloseConnection_sim {worker own : Bool} (hw : m.Wired)
    (h : m.doCloseConnection pSC = .ok (m', new)) :
    m.Sim careful [.thread worker (.doCloseConnection pSC own)] m' new rest := by
  obtain ⟨hnew, hclose⟩ := doCloseConnection_ok h
  subst hnew
  have hm {m' : Module} : (m.ledger ([.thread worker (.doCloseConnection pSC own)] ++ rest)).Moves
      [.close pSC own] [] (m'.ledger ([] ++ rest)) :=
    moves fun t => by simp [Item.tokens, Task.tokens]
  cases hclose
  case inl h =>
    obtain ⟨hmap, rfl⟩ := h
    refine ⟨⟨.refl _, id⟩, ⟨hw.listen, hw.lt, hw.socket⟩, nofun, .leave pSC own rfl (fun q => ?_) hm⟩
    refine ⟨fun hq => ⟨hq, fun he => hq ?_⟩, And.left⟩
    exact he ▸ hmap
  case inr h =>
    obtain ⟨heap, socket, hmap, hd, rfl⟩ := h
    have hheap := ContextHeap.Keeps.deleteSocketContext hd
    have hw' : Wired ({ m with
      normallyClosedNum := m.normallyClosedNum + 1
      toContextHeap     := heap
      closed            := socket.toList ++ m.closed
      socketContextMap  := m.socketContextMap.erase pSC }.done true) := hw.keeps ⟨hheap, id⟩ rfl
    refine ⟨⟨hheap, id⟩, hw', nofun, .leave pSC own rfl (fun q => ?_) hm⟩
    simp only [ledger, done, member_iff, Std.TreeMap.mem_erase, Std.compare_eq_iff_eq, ne_eq]
    rw [and_comm, eq_comm]

section SendData

variable {worker : Bool} {data : Bytes}

theorem find_sim (hw : m.Wired)
    (bound : m.socketContextMap[pSC]? ≠ none → (∃ k, m.keys k = some pSC) ∧ pSC ≠ listening)
    (h : m.find pSC data = .ok (m', new)) :
    m.Sim careful [.thread worker (.find pSC data)] m' new rest := by
  obtain ⟨hm, hnew⟩ := find_ok h
  subst hm
  rcases hnew with ⟨_, rfl⟩ | ⟨hmap, rfl⟩
  · exact .keep hw (.refl _) rfl rfl rfl fun _ => by simp [Item.Typed, Task.Typed]
  · exact .keep hw (.refl _) rfl rfl rfl fun _ => by simpa [Item.Typed, Task.Typed] using bound hmap

theorem bindSocket_sim {bound : Bool} (hw : m.Wired)
    (h : m.bindSocket pSC data bound = .ok (m', new)) :
    m.Sim careful [.thread worker (.bind pSC data)] m' new rest := by
  rcases bindSocket_ok h with ⟨rfl, rfl⟩ | ⟨k, sc, heap, pContext, hsc, hk, hkeys, hcreate, rfl, rfl⟩
  · exact .keep hw (.refl _) rfl rfl rfl fun _ => nofun
  · obtain ⟨sc', c, hsc', _, rfl, hb, hn, hb', _⟩ := ContextHeap.createIOCPContext_ok hcreate
    cases hsc.symm.trans hsc'
    have fresh : ∀ k', m.keys k' ≠ some pSC := by
      intro k' h
      cases hk.symm.trans (hw.socket h hsc)
      simp [hkeys] at h
    refine .bind hw (.createIOCPContext hcreate) hkeys fresh rfl rfl
      ((congrFun hb' _).trans (Function.update_self ..)) hk (fun t => ?_) fun _ => ?_
    · simp [Item.tokens, Task.tokens, List.count_cons, Nat.add_comm]
    · have hne : pSC ≠ listening := fun he => fresh listenSocket (he ▸ hw.listen)
      simp only [List.forall_mem_cons]
      refine ⟨⟨⟨hn ▸ Nat.lt_succ_self _, fun c' hc' => ?_, fun _ c' hc' => ?_, nofun, nofun⟩, hne⟩,
        nofun⟩
      · simp only [hb, Function.update_self] at hc'
        cases hc'
        rfl
      · simp only [hb, Function.update_self] at hc'
        cases hc'
        rw [hk, Option.bind_some]
        exact Function.update_self ..

theorem publish_sim {posted : Bool} (hw : m.Wired) (holds : m.Holds .recv pSC pIC)
    (hne : pSC ≠ listening) (care : careful → posted = true) (h : m.publish pSC pIC data posted = .ok (m', new)) :
    m.Sim careful [.thread worker (.publish pSC pIC data)] m' new rest := by
  obtain ⟨c, sc, heap, heap', hc, hset, hheap, hsc, rfl, rfl⟩ := publish_ok h
  have hkey := holds.key (.inl rfl) c hc
  obtain ⟨k, _, hk⟩ := Option.bind_eq_some_iff.mp hkey
  have hheap : m.toContextHeap.Keeps heap' := by
    have hk : m.toContextHeap.Keeps heap := by
      apply ContextHeap.Keeps.setContext hset
      intro c' hc'
      cases hc.symm.trans hc'
      exact ⟨(holds.operation c hc).symm, .inr rfl⟩
    cases hheap
    case inl h => exact h.right ▸ hk
    case inr h => exact hk.trans (.removeIOCPContext h.right)
  have hkeeps : m.Keeps { m with
      toContextHeap    := heap'
      socketContextMap := m.socketContextMap.insertIfNew pSC sc.socket } := ⟨hheap, id⟩
  rw [posted_of_key hkey]
  refine ⟨hkeeps, hw.keeps hkeeps rfl, ?_, .insert pSC (!posted) rfl (fun p => ?_) (moves fun t => ?_)
    fun h => by rw [care h, Bool.not_true]⟩
  · have hcreate : (∃ k, m.keys k = some pSC) ∧ pSC ≠ listening := ⟨⟨k, hk⟩, hne⟩
    cases posted
    case true  => simpa [Item.Typed, Task.Typed, hcreate] using holds.keeps hkeeps
    case false => simpa [Item.Typed, Task.Typed] using hcreate
  · simp only [ledger, member_iff, Std.TreeMap.mem_insertIfNew, Std.compare_eq_iff_eq]
    rw [or_comm, eq_comm]
  · cases posted <;> simp [Item.tokens, Task.tokens, Kind.tokens, List.count_cons]

theorem create_sim (hw : m.Wired) (bound : ∃ k, m.keys k = some pSC)
    (h : m.create pSC data = .ok (m', new)) :
    m.Sim careful [.thread worker (.create pSC data)] m' new rest := by
  obtain ⟨sc, heap, pContext, hsc, hcreate, rfl, rfl⟩ := create_ok h
  obtain ⟨k, hk⟩ := bound
  obtain ⟨_, c, _, _, rfl, hb, hn, _⟩ := ContextHeap.createIOCPContext_ok hcreate
  refine .keep hw (.createIOCPContext hcreate) rfl rfl rfl fun _ => ?_
  simp only [List.forall_mem_cons]
  refine ⟨⟨hn ▸ Nat.lt_succ_self _, fun c' hc' => ?_, fun _ c' hc' => ?_, nofun, nofun⟩, nofun⟩
  · simp only [hb, Function.update_self] at hc'
    cases hc'
    rfl
  · simp only [hb, Function.update_self] at hc'
    cases hc'
    exact Option.bind_eq_some_iff.mpr ⟨k, hw.socket hk hsc, hk⟩

theorem postSend_sim {posted : Bool} (hw : m.Wired) (holds : m.Holds .send pSC pIC)
    (h : m.postSend pSC pIC posted = .ok (m', new)) :
    m.Sim careful [.thread worker (.postSend pSC pIC)] m' new rest := by
  obtain ⟨c, hc, rfl, rfl⟩ := postSend_ok h
  rw [posted_of_key (holds.key (.inr rfl) c hc)]
  refine .keep hw (.refl _) rfl rfl ?_ fun _ => ?_
  · cases posted <;> rfl
  · cases posted
    case true  => simpa [Item.Typed, Task.Typed] using holds
    case false => simpa [Item.Typed, Task.Typed] using holds

theorem sent_sim {worker posted : Bool} (hw : m.Wired) (holds : m.Holds .send pSC pIC)
    (h : m.sent pSC pIC posted = .ok (m', new)) :
    m.Sim careful [.thread worker (.sent pSC pIC posted)] m' new rest := by
  obtain ⟨hm, rfl⟩ := sent_ok h
  cases holds.setOperation hm
  refine .keep hw (.refl _) rfl rfl ?_ fun _ => ?_
  · cases posted <;> rfl
  · cases posted
    case true  => exact List.forall_mem_nil _
    case false => simp [Item.Typed, Task.Typed]

end SendData

-- The steps of the threads.
theorem run_sim {worker first second : Bool} {task : Task} (hw : m.Wired) (ht : task.Typed m)
    (bound : ∀ p, m.socketContextMap[p]? ≠ none → (∃ k, m.keys k = some p) ∧ p ≠ listening)
    (care : careful → match task with
      | .postCloseConnection pSC true => Token.insert pSC ∉ rest.flatMap Item.tokens
      | .publish ..                   => first = true
      | _                             => True)
    (h : m.run worker first second task = .ok (m', new)) :
    m.Sim careful [.thread worker task] m' new rest := by
  cases task
  case dispatch   => exact dispatch_sim hw ht h
  case insert     => exact insert_sim hw ht h
  case process    =>
    obtain ⟨c, hc, rfl, rfl⟩ := process_ok h
    refine .keep hw (.refl _) rfl rfl rfl fun hk => ?_
    simpa [Item.Typed, Task.Typed] using ht.accept rfl ▸ ht.keeps hk
  case postAccept => exact repost_sim hw ht h
  case removeIOCPContext =>
    obtain ⟨c, heap, hc, hr, rfl, rfl⟩ := remove_ok h
    exact .keep hw (.removeIOCPContext hr) rfl rfl rfl fun _ => nofun
  case doRecv     => exact callback_sim hw ht h
  case doSend     => exact perform_sim hw ht h
  case resent     => exact resent_sim hw ht h
  case sendError  =>
    cases h
    exact .keep hw (.refl _) rfl rfl rfl fun _ => by simp [Item.Typed, Task.Typed]
  case postCloseConnection pSC receive =>
    exact postCloseConnection_sim hw (fun hc hr => by subst hr; exact care hc) h
  case doCloseConnection => exact doCloseConnection_sim hw h
  case find pSC data     => exact find_sim hw (bound pSC) h
  case bind              => exact bindSocket_sim hw h
  case publish           => exact publish_sim hw ht.left ht.right care h
  case create            => exact create_sim hw ht.left h
  case postSend          => exact postSend_sim hw ht h
  case sent              => exact sent_sim hw ht h

end Steps

section Control

variable {careful : Prop} {new rest : List Item}

theorem initIOCP_sim {standby : Nat} {created posted : Bool} (hw : m.Wired)
    (h : m.initIOCP standby created posted = .ok (m', new)) : m.Sim careful [] m' new rest := by
  obtain ⟨heap, heap', heap'', pContext, c, c', hcreate, hc, ⟨ho, _⟩, hset, rfl, h⟩ := initIOCP_ok h
  obtain ⟨_, c₀, _, _, rfl, hb, hn, _⟩ := ContextHeap.createIOCPContext_ok hcreate
  have hc₀ : c.operation = .accept := by
    simp only [hb, Function.update_self] at hc
    cases hc
    rfl
  have hheap : m.toContextHeap.Keeps heap' := by
    refine .trans (.createIOCPContext hcreate) (.setContext hset fun c₁ hc₁ => ?_)
    cases hc.symm.trans hc₁
    exact ⟨ho.trans hc₀.symm, .inl hc₀⟩
  rcases h with ⟨_, rfl, rfl⟩ | ⟨_, hr, rfl⟩
  · refine .keep hw hheap rfl rfl rfl fun _ => ?_
    obtain ⟨contexts, hw', he⟩ := ContextHeap.setContext_ok.mp hset
    obtain ⟨hb', hn', _⟩ := Memory.write_eq_some hw'
    simp only [List.forall_mem_cons]
    refine ⟨⟨.inl rfl, ?_, fun c₁ hc₁ => ?_, nofun, fun _ => rfl, nofun⟩, nofun⟩
    · rw [← he]
      exact (hn'.trans hn) ▸ Nat.lt_succ_self _
    · simp only [← he, hb', Function.update_self] at hc₁
      cases hc₁
      exact ho
  · exact .keep hw (hheap.trans (.removeIOCPContext hr)) rfl rfl rfl fun _ => nofun

theorem stopIOCP_sim (hw : m.Wired) (h : m.stopIOCP = .ok (m', new)) :
    m.Sim careful [] m' new rest := by
  unfold stopIOCP at h
  split at h
  case h_1 =>
    cases h
    exact .keep hw (.refl _) rfl rfl rfl fun _ => nofun
  case h_2 left _ =>
    obtain ⟨heap, pIC, hcreate, rfl, rfl⟩ := postExit_ok h
    obtain ⟨sc, c, hsc, _, rfl, hb, hn, hb', hn'⟩ := ContextHeap.createIOCPContext_ok hcreate
    refine .keep hw (.trans (.newSocketContext m.toContextHeap none) (.createIOCPContext hcreate)) rfl rfl ?_
      fun _ => ?_
    · unfold PostQueuedCompletionStatus
      split <;> rfl
    · unfold PostQueuedCompletionStatus
      split
      case isFalse => exact nofun
      case isTrue  =>
        simp only [List.forall_mem_cons]
        refine ⟨⟨⟨hn ▸ Nat.lt_succ_self _, fun c' hc' => ?_, nofun, nofun, fun _ => ?_⟩, nofun⟩, nofun⟩
        · simp only [hb, Function.update_self] at hc'
          cases hc'
          rfl
        · refine ⟨?_, fun sc' hsc' => ?_⟩
          · exact (hn'.trans (Memory.newAddress_alloc ..)) ▸ Nat.lt_succ_self _
          · simp only [hb', Function.update_self] at hsc'
            cases hsc'
            cases (Memory.alloc_self ..).symm.trans hsc
            rfl
  case h_3 =>
    cases h
    exact .keep hw (.refl _) rfl rfl rfl fun _ => nofun
  case h_4 =>
    obtain ⟨sc, contexts, heap, hsc, hd, hset, rfl, rfl⟩ := deleteStandby_ok h
    obtain ⟨hn, hb⟩ := ContextHeap.deleteContexts_eq_some _ hd
    refine .keep hw (.trans  ?_ (.setSocketContext hset ?_)) rfl rfl
      rfl fun _ => nofun
    · refine ⟨⟨Nat.le_of_eq hn.symm, fun _ hy => ?_⟩, (ContextHeap.Keeps.refl _).socketContexts⟩
      rw [hb] at hy
      split at hy
      case isTrue  => cases hy
      case isFalse => exact ⟨_, hy, rfl, .inr rfl⟩
    · intro sc' hsc'
      cases hsc.symm.trans hsc'
      exact ⟨rfl, id⟩
  case h_5 => cases h

end Control

end Module

namespace State

variable {s s' : State} {a : Action} {bufferSize : Int}
  {maxThreadNum threads standby : Nat} {actions : List Action}

abbrev ledger (s : State) : Ledger :=
  s.toModule.ledger s.items

-- The thread with the receive of a connection asks for the close only when the connection is in the
-- map, and no first receive fails.
def keepsReceives (s : State) : Action → Bool
  | .run i first _ =>
    match s.items[i]? with
    | some (.thread _ (.postCloseConnection pSC true)) =>
      s.items.all fun item => Token.insert pSC ∉ item.tokens
    | some (.thread _ (.publish ..)) => first
    | _                              => true
  | _              => true

-- Every item is what it was posted for, and the account of every context is in order.
structure Valid (s : State) : Prop where
  wired : s.Wired
  typed : ∀ item ∈ s.items, item.Typed s.toModule
  ok    : ∀ p, s.ledger.Ok p
  apart : s.ledger.Apart listening

theorem Valid.bound (h : s.Valid) (p : Nat) (hp : s.socketContextMap[p]? ≠ none) :
    (∃ k, s.keys k = some p) ∧ p ≠ listening :=
  ⟨(h.ok p).bound (.inr hp), fun he => h.apart.member (he ▸ hp)⟩

-- A step replaces some of the items, and the account allows what it does.
theorem step_sim (careful : Prop) (hv : s.Valid) (care : careful → s.keepsReceives a)
    (h : s.step a = .ok s') :
    ∃ used new rest, s.items.Perm (used ++ rest) ∧ s'.items = new ++ rest ∧
      s.toModule.Sim careful used s'.toModule new rest := by
  obtain ⟨used, m', new, rest, hs, rfl⟩ := step_ok h
  clear h
  refine ⟨used, new, rest, hs.perm, rfl, ?_⟩
  cases hs
  case initIOCP h    => exact Module.initIOCP_sim hv.wired h
  case initialised   => exact .keep hv.wired (.refl _) rfl rfl rfl fun _ => nofun
  case stopIOCP h    => exact Module.stopIOCP_sim hv.wired h
  case destroy h     =>
    obtain ⟨heap, socket, hd, rfl, rfl⟩ := Module.destroy_ok h
    exact .keep hv.wired (.deleteSocketContext hd) rfl rfl rfl fun _ => nofun
  case connected     => exact .keep hv.wired (.newSocketContext ..) rfl rfl rfl fun _ => nofun
  case unconnected   => exact .keep hv.wired (.refl _) rfl rfl rfl fun _ => nofun
  case sendData      => exact .keep hv.wired (.refl _) rfl rfl rfl fun _ => by simp [Item.Typed, Task.Typed]
  case ignored       => exact .keep hv.wired (.refl _) rfl rfl rfl fun _ => nofun
  case postCloseConnection =>
    exact .keep hv.wired (.refl _) rfl rfl rfl fun _ => by simp [Item.Typed, Task.Typed]
  case complete hi h => exact Module.complete_sim hv.wired (hv.typed _ (List.mem_of_getElem? hi)) h
  case dequeue hi _ _ =>
    refine .keep hv.wired (.refl _) rfl rfl rfl fun hk => ?_
    have ht := hv.typed _ (List.mem_of_getElem? hi)
    simpa [Item.Typed, Task.Typed] using Completion.Typed.keeps ht hk
  case spin          => exact .keep hv.wired (.refl _) rfl rfl rfl fun _ => nofun
  case run worker task hi h =>
    refine Module.run_sim hv.wired (hv.typed _ (List.mem_of_getElem? hi)) hv.bound (fun hc => ?_) h
    have care := care hc
    simp only [State.keepsReceives, hi] at care
    cases task
    case postCloseConnection pSC receive =>
      cases receive
      case false => trivial
      case true  =>
        intro hm
        obtain ⟨item, hmem, hm⟩ := List.mem_flatMap.mp hm
        exact of_decide_eq_true (List.all_eq_true.mp care item (List.mem_of_mem_eraseIdx hmem)) hm
    case publish => exact care
    all_goals trivial

theorem ledger_congr {items items' : List Item} (m : Module) (h : items.Perm items') :
    m.ledger items = m.ledger items' := by
  unfold Module.ledger
  simp only [(h.flatMap_right Item.tokens).count_eq]

-- A step of the module is a step of the account.
theorem Valid.step_ledger (careful : Prop) (hv : s.Valid) (care : careful → s.keepsReceives a)
    (h : s.step a = .ok s') :
    s.ledger.Lasts s'.ledger ∧ s.ledger.Step careful s'.ledger := by
  obtain ⟨used, new, rest, hp, hi, hs⟩ := step_sim careful hv care h
  rw [ledger, ledger_congr _ hp, ledger, hi]
  exact ⟨hv.wired.lasts hs.keeps .., hs.step⟩

theorem Valid.step (hv : s.Valid) (h : s.step a = .ok s') : s'.Valid := by
  have ⟨lasts, hl⟩ := hv.step_ledger False False.elim h
  obtain ⟨used, new, rest, hp, hi, hs⟩ := step_sim False hv False.elim h
  refine ⟨hs.wired, fun item hm => ?_, fun p => (hv.ok p).step lasts hl, hv.apart.step lasts hl⟩
  rw [hi] at hm
  cases List.mem_append.mp hm
  case inl hm => exact hs.typed item hm
  case inr hm => exact (hv.typed item (hp.mem_iff.mpr (List.mem_append_right _ hm))).keeps hs.keeps

theorem start_key {k : Socket} {p : Nat}
    (h : (start bufferSize maxThreadNum threads standby).keys k = some p) :
    k = listenSocket ∧ p = listening := by
  simp only [start, Function.update_apply] at h
  split at h
  case isTrue hk =>
    cases h
    exact ⟨hk, rfl⟩
  case isFalse => cases h

theorem Valid.start : (start bufferSize maxThreadNum threads standby).Valid where
  wired := by
    constructor
    case listen => rfl
    case lt =>
      intro k p h
      obtain ⟨_, rfl⟩ := start_key h
      exact Nat.lt_succ_self _
    case socket =>
      intro k p sc h hsc
      obtain ⟨rfl, rfl⟩ := start_key h
      cases hsc
      rfl
  typed := nofun
  ok p  := ⟨Nat.zero_le _, Nat.zero_le _, Nat.zero_le _, nofun, nofun, nofun, fun h => by
    simp [State.start, Module.ledger] at h⟩
  apart := ⟨⟨listenSocket, rfl⟩, by simp [State.start, Module.ledger], rfl, rfl⟩

theorem Valid.reached
    (h : Runs.run State.step (State.start bufferSize maxThreadNum threads standby) actions = .ok s') :
    s'.Valid :=
  invariant .start along_true (fun _ _ _ hv _ h => hv.step h) h

end State
end Server8
