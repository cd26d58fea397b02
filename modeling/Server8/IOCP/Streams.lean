import Server8.IOCP.Sockets
import Server8.IOCP.Reader

-- The module with all of its threads does for each connection what the handlers do for it alone.

namespace Server8

open Runs

-- The context that a callback gets for bytes from `k`, and where the packet ends.
def Invocation.about (k : Socket) : Invocation → Option (Nat × Int)
  | .recv context socket position => if socket = some k then some (context, position) else none
  | .send _                       => none

-- The oldest call comes first.
def Module.about (m : Module) (k : Socket) : List (Nat × Int) :=
  m.calls.reverse.filterMap (Invocation.about k)

def firstStops (about : List (Nat × Int)) : List Int :=
  (about.filter fun x => x.1 = listening).map Prod.snd

def ownStops (about : List (Nat × Int)) : List Int :=
  (about.filter fun x => x.1 ≠ listening).map Prod.snd

-- What the module knows of one socket, next to what a reader of its stream knows.
structure Stream where
  contexts : Contexts
  key      : Option Nat
  about    : List (Nat × Int)
  reader   : Reader

def Module.stream (m : Module) (k : Socket) (reader : Reader) : Stream where
  contexts := m.contexts
  key      := m.keys k
  about    := m.about k
  reader

theorem received_pos {data : Bytes} (pos : 1 ≤ data.length) : (1 : Int) ≤ data.length := by
  omega

-- The bytes in the buffer of a context after it has received `data`.
def Segment.received (c : IOCPContext) (data : Bytes) (pos : 1 ≤ data.length) : Segment where
  buf        := (c.receive data).wsabuf.buf
  dataLength := data.length
  pos        := received_pos pos
  le         := by simp [IOCPContext.receive]

-- What arrives on `k` in a step: the first bytes, with the accept, or what a receive brings.
def State.arrives (k : Socket) (s : State) : Action → List Arrival
  | .complete i (.received data) =>
    match s.items[i]? with
    | some (.operation kind _ pIC) =>
      match s.contexts.block pIC with
      | some c =>
        if h : c.socket = some k ∧ 1 ≤ data.length then
          [{ accepted := kind = .accept, segment := .received c data h.right }]
        else []
      | none   => []
    | _                            => []
  | _                            => []

namespace Stream

-- All calls that the reader makes are made, and the context at `pIC` is as the reader's.
def Rests (t : Stream) (pIC : Nat) : Prop :=
  ownStops t.about = t.reader.own ∧
    ∀ c, t.contexts.block pIC = some c → c.outstanding = t.reader.context.outstanding

-- The reader is a receive ahead, if the packet brings data.
def Waits (bufferSize : Int) (t : Stream) (q : Completion) : Prop :=
  if q.flag = true ∧ 0 < q.dwBytesTransfered then
    ∃ (r : Reader) (s : Segment), t.reader = r.take bufferSize ⟨false, s⟩ ∧ ownStops t.about = r.own ∧
      (q.base : Int) = r.length ∧ (q.dwBytesTransfered : Int) = s.dataLength ∧
      ∀ c, t.contexts.block q.pIC = some c →
        c.wsabuf.buf = s.buf ∧ c.outstanding = r.context.outstanding
  else ownStops t.about = t.reader.own

-- The calls at `stops` are left to make.
def Calls (t : Stream) (pIC base : Nat) (stops : List Int) : Prop :=
  ownStops t.about ++ stops.map ((base : Int) + ·) = t.reader.own ∧
    ∀ c, t.contexts.block pIC = some c → c.outstanding = t.reader.context.outstanding

-- The socket waits for its connection, or has brought the first bytes of it.
def Accepts (bufferSize : Int) (t : Stream) (q : Completion) (c : IOCPContext) : Prop :=
  q.flag = true ∧ 0 < q.dwBytesTransfered → t.key = none ∧
    ∃ s : Segment, t.reader = ({} : Reader).take bufferSize ⟨true, s⟩ ∧
      (q.dwBytesTransfered : Int) = s.dataLength ∧ c.wsabuf.buf = s.buf

end Stream

-- How far the item that has the receive of the connection is.
def Task.Reads (bufferSize : Int) (t : Stream) : Task → Prop
  | .dispatch q                => t.Waits bufferSize q
  | .doRecv _ pIC base _ stops => t.Calls pIC base stops
  | .publish _ pIC _           => t.Rests pIC
  | _                          => ownStops t.about = t.reader.own

def Item.Reads (bufferSize : Int) (t : Stream) : Item → Prop
  | .operation _ _ pIC => t.Rests pIC
  | .packet q          => t.Waits bufferSize q
  | .thread _ task     => task.Reads bufferSize t

-- How far the item is that waits for the connection on the socket of the context `c`.
def Task.Stands (bufferSize : Int) (t : Stream) (c : IOCPContext) : Task → Prop
  | .dispatch q          => q.kind = .accept → t.Accepts bufferSize q c
  | .insert _ _ _ n flag => t.key ≠ none ∧ firstStops t.about = [] ∧ t.reader.first = if flag then [(n : Int)] else []
  | .process _ _ n       => t.key ≠ none ∧ firstStops t.about = [] ∧ t.reader.first = [(n : Int)]
  | _                    => True

def Item.Stands (bufferSize : Int) (t : Stream) (c : IOCPContext) : Item → Prop
  | .operation .accept _ _ => t.key = none ∧ t.reader = {}
  | .operation ..          => True
  | .packet q              => q.kind = .accept → t.Accepts bufferSize q c
  | .thread _ task         => task.Stands bufferSize t c

-- A thread in `doAccept` that has the first callback to call.
def Item.accepting : Item → Bool
  | .thread _ (.insert _ _ _ _ flag) => flag
  | .thread _ (.process ..)          => true
  | _                                => false

structure Item.Begins (k : Socket) (contexts : Contexts) (item : Item) : Prop where
  accepting : item.accepting = true
  socket    : ∃ a, item.context = some a ∧ ∀ c, contexts.block a = some c → c.socket = some k

structure Item.Follows (bufferSize : Int) (k : Socket) (t : Stream) (item : Item) : Prop where
  reads  : ∀ p, t.key = some p → .receive p ∈ item.tokens → item.Reads bufferSize t
  stands : ∀ a, item.context = some a → ∀ c, t.contexts.block a = some c → c.socket = some k →
    item.Stands bufferSize t c

section Kept

variable {bufferSize : Int} {k : Socket} {t t' : Stream} {item : Item} {c : IOCPContext}

theorem Item.Reads.kept (h : item.Reads bufferSize t) (block : ∀ a, item.context = some a → ∀ c,
      t'.contexts.block a = some c → t.contexts.block a = some c)
    (own : ownStops t'.about = ownStops t.about) (reader : t'.reader = t.reader) :
    item.Reads bufferSize t' := by
  have waits (q : Completion) (block : ∀ c, t'.contexts.block q.pIC = some c → t.contexts.block q.pIC = some c)
      (h : t.Waits bufferSize q) : t'.Waits bufferSize q := by
    unfold Stream.Waits at h ⊢
    rw [own, reader]
    split at h
    case isTrue hd =>
      rw [if_pos hd]
      obtain ⟨r, s, hr, ho, hb, hl, hc⟩ := h
      exact ⟨r, s, hr, ho, hb, hl, fun c h => hc c (block c h)⟩
    case isFalse hd =>
      rw [if_neg hd]
      exact h
  have rests (pIC : Nat) (block : ∀ c, t'.contexts.block pIC = some c → t.contexts.block pIC = some c)
      (h : t.Rests pIC) : t'.Rests pIC :=
    ⟨own.trans (h.left.trans (by rw [reader])), fun c hc => reader ▸ h.right c (block c hc)⟩
  cases item
  case operation pIC => exact rests pIC (block pIC rfl) h
  case packet q      => exact waits q (block q.pIC rfl) h
  case thread task   =>
    cases task
    case dispatch q        => exact waits q (block q.pIC rfl) h
    case doRecv pIC _ _ _  =>
      exact ⟨by rw [own, reader]; exact h.left, fun c hc => reader ▸ h.right c (block pIC rfl c hc)⟩
    case publish pIC _     => exact rests pIC (block pIC rfl) h
    all_goals exact own.trans (h.trans (by rw [reader]))

theorem Item.Stands.kept (h : item.Stands bufferSize t c) (key : t'.key = t.key)
    (first : firstStops t'.about = firstStops t.about) (reader : t'.reader = t.reader) :
    item.Stands bufferSize t' c := by
  unfold Item.Stands Task.Stands Stream.Accepts at *
  rw [key, first, reader]
  exact h

-- Once the socket is bound, later bytes do not matter to what is left of the accept.
theorem Item.Stands.later (h : item.Stands bufferSize t c) (bound : t.key ≠ none) (key : t'.key = t.key)
    (first : firstStops t'.about = firstStops t.about) (reader : t'.reader.first = t.reader.first) :
    item.Stands bufferSize t' c := by
  have accepts (q : Completion) (h : t.Accepts bufferSize q c) : t'.Accepts bufferSize q c :=
    fun hd => absurd (h hd).left bound
  cases item
  case operation kind _ _ =>
    cases kind
    case accept => exact absurd h.left bound
    all_goals trivial
  case packet q    => exact fun hk => accepts q (h hk)
  case thread task =>
    cases task
    case dispatch q => exact fun hk => accepts q (h hk)
    case insert     => exact ⟨key ▸ bound, first.trans h.right.left, reader.trans h.right.right⟩
    case process    => exact ⟨key ▸ bound, first.trans h.right.left, reader.trans h.right.right⟩
    all_goals trivial

theorem Item.Follows.kept (h : item.Follows bufferSize k t) (block : ∀ a, item.context = some a → ∀ c,
      t'.contexts.block a = some c → t.contexts.block a = some c)
    (key : t'.key = t.key) (about : t'.about = t.about) (reader : t'.reader = t.reader) :
    item.Follows bufferSize k t' where
  reads p hp ht    := (h.reads p (key ▸ hp) ht).kept block (by rw [about]) reader
  stands a ha c hc hk := (h.stands a ha c (block a ha c hc) hk).kept key (by rw [about]) reader

theorem Stream.waits_of_empty {q : Completion} (hd : ¬(q.flag = true ∧ 0 < q.dwBytesTransfered))
    (h : ownStops t.about = t.reader.own) : t.Waits bufferSize q :=
  (if_neg hd).mpr h

theorem receive_mem_tokens {kind : Kind} {pSC p : Nat} :
    .receive p ∈ kind.tokens pSC ↔ kind = .recv ∧ pSC = p := by
  cases kind <;> simp [Kind.tokens, eq_comm]

-- A context that does not wait for a connection stands for none.
theorem Item.Typed.stands {m : Module} {a : Nat} (h : item.Typed m) (ha : item.context = some a)
    (hc : m.contexts.block a = some c) (ho : c.operation ≠ .accept) : item.Stands bufferSize t c := by
  have accept {pSC : Nat} (h : m.Holds .accept pSC a) : False := ho (h.operation c hc)
  cases item
  case operation kind pSC pIC =>
    cases ha
    cases kind
    case accept => exact (accept h.right).elim
    all_goals trivial
  case packet q =>
    cases ha
    exact fun hk => (accept (hk ▸ h.holds)).elim
  case thread task =>
    cases task
    case dispatch q =>
      cases ha
      exact fun hk => (accept (hk ▸ Completion.Typed.holds h)).elim
    case insert =>
      cases ha
      exact (accept h).elim
    case process =>
      cases ha
      exact (accept h).elim
    all_goals trivial

end Kept

namespace State

-- What the module did for the socket `k` is what the reader does, as far as it is done.
structure Follows (bufferSize : Int) (k : Socket) (r : Reader) (s : State) : Prop where
  size    : s.bufferSize = bufferSize
  items   : ∀ item ∈ s.items, item.Follows bufferSize k (s.stream k r)
  rest    : ∀ p, s.keys k = some p → (∀ item ∈ s.items, .receive p ∉ item.tokens) →
    ownStops (s.about k) = r.own
  first   : ∃ pending, firstStops (s.about k) ++ pending = r.first
  begun   : s.keys k ≠ none → firstStops (s.about k) = r.first ∨ ∃ item ∈ s.items, item.Begins k s.contexts
  unbound : s.keys k = none → s.about k = []
  context : ∀ x ∈ s.about k, x.1 = listening ∨ s.keys k = some x.1
  read    : (s.read k : Int) = r.length
  fresh   : s.nextSocket ≤ k → r = {}
  has     : ∀ p, s.Has p k → s.keys k = none → r = {}
  inOrder : s.keys k ≠ none → r.InOrder

end State

namespace Module

variable {m m' : Module} {k j : Socket} {p : Nat}

-- The step does nothing for the socket.
structure Quiet (k : Socket) (m m' : Module) : Prop where
  size  : m'.bufferSize = m.bufferSize
  keys  : m'.keys k = m.keys k
  about : m'.about k = m.about k
  read  : m'.read k = m.read k

theorem about_cons (m : Module) (call : Invocation) (k : Socket) :
    { m with calls := call :: m.calls }.about k = m.about k ++ (call.about k).toList := by
  simp only [about, List.reverse_cons, List.filterMap_append]
  cases h : call.about k
  case none   => simp [h]
  case some x => simp [h]

theorem Hands.next_le (h : m.Hands m') : m.nextSocket ≤ m'.nextSocket := by
  cases h
  case keep next    => exact next
  case wait next    => exact next ▸ Nat.le_succ _
  case connect next => exact next ▸ Nat.le_succ _
  case bind next    => exact Nat.le_of_eq next.symm

theorem Hands.has_of_unbound (h : m.Hands m') (hp : m'.Has p k) (hk : m'.keys k = none) :
    m.Has p k ∨ m.nextSocket ≤ k := by
  cases h
  case keep heap _ _    => exact .inl (heap.has hp)
  case wait has _ _     => exact .inl (has hp)
  case connect has _ _  => exact (has hp).imp id fun he => Nat.le_of_eq he.symm
  case bind has keys _ _ _ _ =>
    refine .inl ((has hp).resolve_right fun he => ?_)
    rw [keys, he, Function.update_self] at hk
    exact Option.some_ne_none _ hk

end Module

namespace State

variable {bufferSize : Int} {k : Socket} {r : Reader} {s s' : State} {a : Action} {used new rest : List Item}
  {m' : Module} {item : Item} {p : Nat}

theorem Valid.receive_bound (hv : s.Valid) (hm : item ∈ s.items) (ht : .receive p ∈ item.tokens) :
    ∃ j, s.keys j = some p := by
  have := List.count_pos_iff.mpr (List.mem_flatMap_of_mem hm ht)
  exact (hv.ok p).bound (.inl (Nat.add_pos_left this _))

-- The receive of a connection is in one place.
theorem Stepped.receive_ne (hv : s.Valid) (h : s.Stepped a used m' new rest) (hm : item ∈ rest)
    (ht : .receive p ∈ item.tokens) : ∀ item ∈ used, .receive p ∉ item.tokens := by
  intro item' hm' ht'
  have hrest := List.count_pos_iff.mpr (List.mem_flatMap_of_mem hm ht)
  have hused := List.count_pos_iff.mpr (List.mem_flatMap_of_mem hm' ht')
  have := (hv.ok p).receive
  rw [ledger, ledger_congr _ h.perm] at this
  simp only [Module.ledger, List.flatMap_append, List.count_append] at this
  omega

theorem Follows.rest_item (hf : s.Follows bufferSize k r) (h : s.Stepped a used m' new rest)
    (hm : item ∈ rest) : item.Follows bufferSize k (s.stream k r) :=
  hf.items item (h.perm.mem_iff.mpr (List.mem_append_right _ hm))

theorem Follows.begun_rest (hf : s.Follows bufferSize k r) (hv : s.Valid) (he : s.Exclusive)
    (h : s.Stepped a used m' new rest) (hk : s.keys k ≠ none)
    (begins : ∀ item ∈ used, item.Begins k s.contexts → ∃ item ∈ new, item.Begins k m'.contexts) :
    firstStops (s.about k) = r.first ∨ ∃ item ∈ new ++ rest, item.Begins k m'.contexts := by
  refine (hf.begun hk).imp id fun ⟨item, hi, hb⟩ => ?_
  rcases List.mem_append.mp (h.perm.mem_iff.mp hi) with hi | hi
  · obtain ⟨item, hi, hb⟩ := begins item hi hb
    exact ⟨item, List.mem_append_left _ hi, hb⟩
  · obtain ⟨b, hb', hsocket⟩ := hb.socket
    exact ⟨item, List.mem_append_right _ hi,
      ⟨hb.accepting, b, hb', fun c hc => hsocket c (h.unchanged hv he hi hb' hc)⟩⟩

-- A step that does nothing for the socket: only what becomes of its item is to be looked at.
theorem Follows.still (hf : s.Follows bufferSize k r) (hv : s.Valid) (he : s.Exclusive) (hs : s.Sockets)
    (h : s.Stepped a used m' new rest) (hq : s.toModule.Quiet k m')
    (items : ∀ item ∈ new, item.Follows bufferSize k (m'.stream k r))
    (done : ∀ p, s.keys k = some p → (∃ item ∈ used, .receive p ∈ item.tokens) →
      (∃ item ∈ new, .receive p ∈ item.tokens) ∨ ownStops (s.about k) = r.own)
    (begins : ∀ item ∈ used, item.Begins k s.contexts → ∃ item ∈ new, item.Begins k m'.contexts) :
    Follows bufferSize k r { m' with items := new ++ rest } := by
  have hh := h.hands hv hs
  refine ⟨hq.size.trans hf.size, fun item hm => ?_, fun p hp hn => ?_, hq.about ▸ hf.first,
    fun hk => hq.about ▸ hf.begun_rest hv he h (hq.keys ▸ hk) begins, fun hk => ?_, fun x hx => ?_, hq.read ▸ hf.read,
    fun hk => hf.fresh (Nat.le_trans hh.next_le hk), fun p hp hk => ?_, fun hk => hf.inOrder (hq.keys ▸ hk)⟩
  · rcases List.mem_append.mp hm with hm | hm
    · exact items item hm
    · exact (hf.rest_item h hm).kept (fun _ ha _ hc => h.unchanged hv he hm ha hc) hq.keys hq.about rfl
  · have hp : s.keys k = some p := hq.keys.symm.trans hp
    refine hq.about ▸ ?_
    by_cases hu : ∃ item ∈ used, .receive p ∈ item.tokens
    case pos => exact (done p hp hu).resolve_left fun ⟨item, hm, ht⟩ => hn item (List.mem_append_left _ hm) ht
    case neg =>
      refine hf.rest p hp fun item hm ht => ?_
      rcases List.mem_append.mp (h.perm.mem_iff.mp hm) with hm | hm
      · exact hu ⟨item, hm, ht⟩
      · exact hn item (List.mem_append_right _ hm) ht
  · exact hq.about.trans (hf.unbound (hq.keys ▸ hk))
  · exact (hf.context x (hq.about ▸ hx)).imp id hq.keys.trans
  · rcases hh.has_of_unbound hp hk with hp | hk'
    · exact hf.has p hp (hq.keys ▸ hk)
    · exact hf.fresh hk'

-- The same for a step that is not one of a thread with the first callback to call.
theorem Follows.quiet (hf : s.Follows bufferSize k r) (hv : s.Valid) (he : s.Exclusive) (hs : s.Sockets)
    (h : s.Stepped a used m' new rest) (hq : s.toModule.Quiet k m') (hu : used.any Item.accepting = false)
    (items : ∀ item ∈ new, item.Follows bufferSize k (m'.stream k r))
    (done : ∀ p, s.keys k = some p → (∃ item ∈ used, .receive p ∈ item.tokens) →
      (∃ item ∈ new, .receive p ∈ item.tokens) ∨ ownStops (s.about k) = r.own) :
    Follows bufferSize k r { m' with items := new ++ rest } :=
  hf.still hv he hs h hq items done fun item hi hb => absurd hb.accepting (List.any_eq_false.mp hu item hi)

-- No other item stands for the socket that a context of the step waits for.
theorem Stepped.stands {t : Stream} {u b : Nat} {c : IOCPContext} (hv : s.Valid) (he : s.Exclusive)
    (hs : s.Sockets) (h : s.Stepped a used m' new rest) (hu : userOf used = some u) (hw : s.Waits u k)
    (hm : item ∈ rest) (hb : item.context = some b) (hc : s.contexts.block b = some c)
    (hk : c.socket = some k) : item.Stands bufferSize t c := by
  refine (hv.typed item (h.perm.mem_iff.mpr (List.mem_append_right _ hm))).stands hb hc fun ho => ?_
  have hub := hs.one hw ⟨c, hc, ho, hk⟩
  exact h.context_ne he hm hb (hub ▸ hu)

theorem ne_listening (hv : s.Valid) (hs : s.Sockets) (hl : k ≠ listenSocket) (hp : s.keys k = some p) :
    p ≠ listening := by
  rintro rfl
  exact hl (hs.inj hp hv.wired.listen)

section Calls

variable {position : Int}

theorem ownStops_append (about : List (Nat × Int)) (position : Int) (hp : p ≠ listening) :
    ownStops (about ++ [(p, position)]) = ownStops about ++ [position] ∧
      firstStops (about ++ [(p, position)]) = firstStops about := by
  simp [ownStops, firstStops, hp]

theorem firstStops_append (about : List (Nat × Int)) (position : Int) :
    firstStops (about ++ [(listening, position)]) = firstStops about ++ [position] ∧
      ownStops (about ++ [(listening, position)]) = ownStops about := by
  simp [ownStops, firstStops]

-- A call for the connection itself.
theorem Follows.own (hf : s.Follows bufferSize k r) (hv : s.Valid) (hs : s.Sockets) (hl : k ≠ listenSocket)
    (h : s.Stepped a used m' new rest) (he : s.Exclusive) (hp : s.keys k = some p)
    (ha : used.any Item.accepting = false) (hu : ∃ item ∈ used, .receive p ∈ item.tokens)
    (hn : ∃ item ∈ new, .receive p ∈ item.tokens)
    (hm : { s.toModule with
      callbackInvokedNum := m'.callbackInvokedNum
      calls              := .recv p (some k) position :: s.calls } = m')
    (items : ∀ item ∈ new, item.Follows bufferSize k (m'.stream k r)) :
    Follows bufferSize k r { m' with items := new ++ rest } := by
  have hne := ne_listening hv hs hl hp
  have about : m'.about k = s.about k ++ [(p, position)] := by
    rw [← hm]
    exact (Module.about_cons ..).trans (by simp [Invocation.about])
  have keys : m'.keys = s.keys := by rw [← hm]
  have key {q : Nat} (hq : m'.keys k = some q) : s.keys k = some q := (congrFun keys k).symm.trans hq
  have block {b : Nat} {c : IOCPContext} (hc : m'.contexts.block b = some c) : s.contexts.block b = some c := by
    rw [← hm] at hc
    exact hc
  obtain ⟨_, hfirst⟩ := ownStops_append (s.about k) position hne
  obtain ⟨item, hitem, ht⟩ := hn
  refine ⟨by rw [← hm]; exact hf.size, fun item hi => ?_, fun q hq hno => ?_, by rw [about, hfirst]; exact hf.first,
    fun _ => ?_, fun hk => ?_, fun x hx => ?_, by rw [← hm]; exact hf.read, by rw [← hm]; exact hf.fresh,
    by rw [← hm]; exact hf.has, by rw [← hm]; exact hf.inOrder⟩
  · rcases List.mem_append.mp hi with hi | hi
    · exact items item hi
    · refine ⟨fun q hq ht => ?_, fun b hb c hc hk => ?_⟩
      · cases (key hq).symm.trans hp
        obtain ⟨item', hi', ht'⟩ := hu
        exact absurd ht' (h.receive_ne hv hi ht item' hi')
      · have := (hf.rest_item h hi).stands b hb c (block hc) hk
        exact this.kept (congrFun keys k) (by rw [Module.stream, about]; exact hfirst) rfl
  · cases (key hq).symm.trans hp
    exact absurd ht (hno item (List.mem_append_left _ hitem))
  · rw [about, hfirst]
    exact hf.begun_rest hv he h (hp ▸ Option.some_ne_none _) fun item hi hb =>
      absurd hb.accepting (List.any_eq_false.mp ha item hi)
  · rw [congrFun keys k, hp] at hk
    cases hk
  · rw [about, List.mem_append, List.mem_singleton] at hx
    rw [congrFun keys k]
    rcases hx with hx | rfl
    · exact hf.context x hx
    · exact .inr hp

-- The call for the first bytes, which goes to the listening context.
theorem Follows.called {u n : Nat} (hf : s.Follows bufferSize k r) (hv : s.Valid) (he : s.Exclusive)
    (hs : s.Sockets) (h : s.Stepped a used m' new rest) (hu : userOf used = some u) (hw : s.Waits u k)
    (hno : ∀ item ∈ used, ∀ p, .receive p ∉ item.tokens)
    (hm : { s.toModule with
      callbackInvokedNum := m'.callbackInvokedNum
      calls              := .recv listening (some k) n :: s.calls } = m')
    (hkey : s.keys k ≠ none) (hfirst : firstStops (s.about k) = []) (hr : r.first = [(n : Int)])
    (items : ∀ item ∈ new, item.Follows bufferSize k (m'.stream k r)) :
    Follows bufferSize k r { m' with items := new ++ rest } := by
  have about : m'.about k = s.about k ++ [(listening, (n : Int))] := by
    rw [← hm]
    exact (Module.about_cons ..).trans (by simp [Invocation.about])
  have keys : m'.keys = s.keys := by rw [← hm]
  have key {q : Nat} (hq : m'.keys k = some q) : s.keys k = some q := (congrFun keys k).symm.trans hq
  have block {b : Nat} {c : IOCPContext} (hc : m'.contexts.block b = some c) : s.contexts.block b = some c := by
    rw [← hm] at hc
    exact hc
  obtain ⟨hfirst', hown⟩ := firstStops_append (s.about k) n
  have done : firstStops (m'.about k) = r.first := by
    rw [about, hfirst', hfirst, hr]
    rfl
  refine ⟨by rw [← hm]; exact hf.size, fun item hi => ?_, fun p hp hn => ?_, ⟨[], ?_⟩, fun _ => .inl done,
    fun hk => ?_, fun x hx => ?_, by rw [← hm]; exact hf.read, by rw [← hm]; exact hf.fresh,
    by rw [← hm]; exact hf.has, by rw [← hm]; exact hf.inOrder⟩
  · rcases List.mem_append.mp hi with hi | hi
    · exact items item hi
    · refine ⟨fun p hp ht => ?_, fun b hb c hc hk => ?_⟩
      · have := (hf.rest_item h hi).reads p (key hp) ht
        exact this.kept (fun _ _ _ => block) (by rw [Module.stream, about]; exact hown) rfl
      · exact h.stands hv he hs hu hw hi hb (block hc) hk
  · rw [about, hown]
    refine hf.rest p (key hp) fun item hi ht => ?_
    rcases List.mem_append.mp (h.perm.mem_iff.mp hi) with hi | hi
    · exact hno item hi p ht
    · exact hn item (List.mem_append_right _ hi) ht
  · exact (List.append_nil _).trans done
  · exact absurd (congrFun keys k ▸ hk) hkey
  · rw [about, List.mem_append, List.mem_singleton] at hx
    rw [congrFun keys k]
    rcases hx with hx | rfl
    · exact hf.context x hx
    · exact .inl rfl

end Calls

section Received

variable {pSC pIC : Nat} {c : IOCPContext} {data : Bytes} {heap : ContextHeap}

-- What a receive brings is the reader's next arrival.
theorem Follows.received (hf : s.Follows bufferSize k r) (hv : s.Valid) (he : s.Exclusive) (hs : s.Sockets)
    (h : s.Stepped a [.operation .recv pSC pIC] m'
      [.packet ⟨true, data.length, pSC, pIC, .recv, s.read k⟩] rest)
    (hc : s.contexts.block pIC = some c) (hp : s.keys k = some pSC)
    (hset : s.setContext pIC (c.receive data) = .ok heap)
    (hm : { s.toModule with
      toContextHeap := heap
      read          := Function.update s.read k (s.read k + data.length) } = m') (hd : 1 ≤ data.length) :
    Follows bufferSize k (r.take bufferSize ⟨false, .received c data hd⟩)
      { m' with items := [.packet ⟨true, data.length, pSC, pIC, .recv, s.read k⟩] ++ rest } := by
  have hkey : s.keys k ≠ none := hp ▸ Option.some_ne_none _
  have keys : m'.keys = s.keys := by rw [← hm]
  have about : m'.about k = s.about k := by rw [← hm]; rfl
  have key {q : Nat} (hq : m'.keys k = some q) : q = pSC :=
    Option.some.inj (((congrFun keys k).symm.trans hq).symm.trans hp)
  have next : m'.nextSocket = s.nextSocket := by rw [← hm]
  obtain ⟨hown, hout⟩ := (hf.items _ (h.perm.mem_iff.mpr (List.mem_append_left _ (List.mem_singleton_self _)))).reads
    pSC hp (by simp [Item.tokens, Kind.tokens])
  refine ⟨by rw [← hm]; exact hf.size, fun item hi => ?_, fun q hq hno => ?_, about ▸ hf.first,
    fun _ => about ▸ hf.begun_rest hv he h hkey ?_, fun hk' => ?_, fun x hx => ?_, ?_, fun hle => ?_,
    fun q _ hk' => ?_, fun _ => (hf.inOrder hkey).take rfl⟩
  · rcases List.mem_append.mp hi with hi | hi
    · rw [List.mem_singleton.mp hi]
      refine ⟨fun q _ _ => ?_, fun _ _ _ _ _ hk => absurd hk (by simp)⟩
      refine (if_pos ⟨rfl, hd⟩).mpr ⟨r, _, rfl, (congrArg ownStops about).trans hown, hf.read, rfl, fun c' hc' => ?_⟩
      have hcc : c' = c.receive data := by
        obtain ⟨_, hw, rfl⟩ := ContextHeap.setContext_ok.mp hset
        rw [← hm] at hc'
        exact Option.some.inj (hc'.symm.trans (Memory.write_self hw))
      rw [hcc]
      exact ⟨rfl, hout c hc⟩
    · refine ⟨fun q hq ht => ?_, fun b hb c' hc' hk' => ?_⟩
      · rw [key hq] at ht
        exact absurd (List.mem_singleton_self _) (h.receive_ne hv hi ht _ (List.mem_singleton_self _))
      · have := (hf.rest_item h hi).stands b hb c' (h.unchanged hv he hi hb hc') hk'
        exact this.later hkey (congrFun keys k) (congrArg firstStops about) rfl
  · rw [key hq] at hno
    exact absurd (List.mem_singleton_self _) (hno _ (List.mem_append_left _ (List.mem_singleton_self _)))
  · exact List.forall_mem_singleton.mpr fun hb => absurd hb.accepting Bool.false_ne_true
  · exact absurd ((congrFun keys k).symm.trans hk') hkey
  · rw [congrFun keys k]
    exact hf.context x (about ▸ hx)
  · rw [← hm]
    simp only [Function.update_self, Nat.cast_add, hf.read]
    rfl
  · exact absurd (hs.key hp) (Nat.not_lt.mpr (next ▸ hle))
  · exact absurd ((congrFun keys k).symm.trans hk') hkey

-- The first bytes come with the accept.
theorem Follows.accepted (hf : s.Follows bufferSize k r) (hv : s.Valid) (he : s.Exclusive) (hs : s.Sockets)
    (h : s.Stepped a [.operation .accept pSC pIC] m'
      [.packet ⟨true, data.length, pSC, pIC, .accept, s.read k⟩] rest)
    (hc : s.contexts.block pIC = some c) (hk : c.socket = some k) (ho : c.operation = .accept)
    (hset : s.setContext pIC (c.receive data) = .ok heap)
    (hm : { s.toModule with
      toContextHeap := heap
      read          := Function.update s.read k (s.read k + data.length) } = m') (hd : 1 ≤ data.length) :
    Follows bufferSize k (r.take bufferSize ⟨true, .received c data hd⟩)
      { m' with items := [.packet ⟨true, data.length, pSC, pIC, .accept, s.read k⟩] ++ rest } := by
  have hw : s.Waits pIC k := ⟨c, hc, ho, hk⟩
  obtain ⟨hkey, rfl⟩ := (hf.items _ (h.perm.mem_iff.mpr
    (List.mem_append_left _ (List.mem_singleton_self _)))).stands pIC rfl c hc hk
  have keys : m'.keys k = none := by rw [← hm]; exact hkey
  have about : m'.about k = [] := by rw [← hm]; exact hf.unbound hkey
  have next : m'.nextSocket = s.nextSocket := by rw [← hm]
  refine ⟨by rw [← hm]; exact hf.size, fun item hi => ?_, fun q hq _ => ?_, ⟨_, by rw [about]; rfl⟩,
    fun hk' => absurd keys hk', fun _ => about, fun x hx => ?_, ?_, fun hle => ?_, fun q hq _ => ?_,
    fun hk' => absurd keys hk'⟩
  · rcases List.mem_append.mp hi with hi | hi
    · rw [List.mem_singleton.mp hi]
      refine ⟨fun _ hq _ => ?_, fun b hb c' hc' _ _ _ => ⟨keys, _, rfl, rfl, ?_⟩⟩
      · cases keys.symm.trans hq
      · obtain ⟨_, hw, rfl⟩ := ContextHeap.setContext_ok.mp hset
        cases hb
        rw [← hm] at hc'
        rw [Option.some.inj (hc'.symm.trans (Memory.write_self hw))]
        rfl
    · refine ⟨fun q hq _ => ?_, fun b hb c' hc' hk' => ?_⟩
      · cases keys.symm.trans hq
      · exact h.stands hv he hs rfl hw hi hb (h.unchanged hv he hi hb hc') hk'
  · cases keys.symm.trans hq
  · rw [about] at hx
    cases hx
  · have hread := hf.read
    rw [← hm]
    simp only [Function.update_self, Nat.cast_add, hread]
    rfl
  · exact absurd (hs.waits hw) (Nat.not_lt.mpr (next ▸ hle))
  · rw [← hm] at hq
    obtain ⟨_, _, rfl⟩ := ContextHeap.setContext_ok.mp hset
    exact absurd hkey (hs.apart hw hq)

end Received

section Bind

-- The socket is bound to `p`: from now on the receive of `p` is the reader's.
theorem Follows.bind (hf : s.Follows bufferSize k r) (hv : s.Valid) (he : s.Exclusive)
    (h : s.Stepped a used m' new rest) (hkey : s.keys k = none)
    (keys : m'.keys = Function.update s.keys k (some p)) (about : m'.about k = s.about k)
    (read : m'.read k = s.read k) (size : m'.bufferSize = s.bufferSize) (next : m'.nextSocket = s.nextSocket)
    (fresh : ∀ item ∈ rest, .receive p ∉ item.tokens)
    (stands : ∀ item ∈ rest, ∀ b c, item.context = some b → s.contexts.block b = some c → c.socket = some k →
      item.Stands bufferSize (m'.stream k r) c)
    (items : ∀ item ∈ new, item.Follows bufferSize k (m'.stream k r))
    (hn : ∃ item ∈ new, .receive p ∈ item.tokens) (inOrder : r.InOrder)
    (begun : r.first = [] ∨ ∃ item ∈ new, item.Begins k m'.contexts) :
    Follows bufferSize k r { m' with items := new ++ rest } := by
  have key {q : Nat} (hq : m'.keys k = some q) : q = p := by
    rw [keys, Function.update_self] at hq
    exact (Option.some.inj hq).symm
  have bound : m'.keys k ≠ none := by
    rw [keys, Function.update_self]
    exact Option.some_ne_none _
  have empty : m'.about k = [] := about.trans (hf.unbound hkey)
  obtain ⟨item, hitem, ht⟩ := hn
  refine ⟨size.trans hf.size, fun item hi => ?_, fun q hq hno => ?_, about ▸ hf.first, fun _ => begun.imp ?_ ?_,
    fun hk => absurd hk bound, fun x hx => ?_, read ▸ hf.read, fun hle => hf.fresh (next ▸ hle),
    fun _ _ hk => absurd hk bound, fun _ => inOrder⟩
  · rcases List.mem_append.mp hi with hi | hi
    · exact items item hi
    · refine ⟨fun q hq ht => absurd (key hq ▸ ht) (fresh item hi), fun b hb c hc hk => ?_⟩
      exact stands item hi b c hb (h.unchanged hv he hi hb hc) hk
  · rw [key hq] at hno
    exact absurd ht (hno item (List.mem_append_left _ hitem))
  · exact fun hr => (congrArg firstStops empty).trans hr.symm
  · exact fun ⟨item, hi, hb⟩ => ⟨item, List.mem_append_left _ hi, hb⟩
  · rw [empty] at hx
    cases hx

-- `sendData` binds the socket of a context that it is given.
theorem Follows.bindSocket {worker first second : Bool} {i pSC : Nat} {data : Bytes}
    (hf : s.Follows bufferSize k r) (hv : s.Valid) (he : s.Exclusive) (hs : s.Sockets)
    (h : s.Stepped (.run i first second) [.thread worker (.bind pSC data)] m' new rest)
    (hb : s.toModule.bindSocket pSC data first = .ok (m', new)) :
    Follows bufferSize k r { m' with items := new ++ rest } := by
  rcases Module.bindSocket_ok hb with ⟨rfl, rfl⟩ | ⟨j, sc, heap, pContext, hsc, hj, hn, hcreate, rfl, rfl⟩
  · exact hf.quiet hv he hs h ⟨rfl, rfl, rfl, rfl⟩ rfl (List.forall_mem_nil _) (by simp [Item.tokens, Task.tokens])
  · have unbound {j' : Socket} (hj' : s.keys j' = some pSC) : False := by
      cases (hv.wired.socket hj' hsc).symm.trans hj
      cases hn.symm.trans hj'
    by_cases hk : j = k
    case neg =>
      have keys : Function.update s.keys j (some pSC) k = s.keys k := Function.update_of_ne (Ne.symm hk) ..
      refine hf.quiet hv he hs h ⟨rfl, keys, rfl, rfl⟩ rfl (fun item hi => ?_) (by simp [Item.tokens, Task.tokens])
      rw [List.mem_singleton.mp hi]
      refine ⟨fun p hp ht => ?_, fun _ _ _ _ _ => trivial⟩
      simp only [Item.tokens, Task.tokens, List.mem_cons, List.not_mem_nil, reduceCtorEq, Token.receive.injEq,
        or_false, false_or] at ht
      exact (unbound (ht ▸ keys.symm.trans hp)).elim
    case pos =>
      subst hk
      obtain rfl := hf.has pSC ⟨sc, hsc, hj⟩ hn
      have about := hf.unbound hn
      refine hf.bind hv he h hn rfl rfl rfl rfl rfl (fun item hi ht => ?_) (fun item hi b c hb hc hk => ?_)
        (fun item hi => ?_) ⟨_, List.mem_singleton_self _, by simp [Item.tokens, Task.tokens]⟩ .empty (.inl rfl)
      · obtain ⟨j', hj'⟩ := hv.receive_bound (h.perm.mem_iff.mpr (List.mem_append_right _ hi)) ht
        exact unbound hj'
      · refine (hv.typed item (h.perm.mem_iff.mpr (List.mem_append_right _ hi))).stands hb hc fun ho => ?_
        exact hs.apart ⟨c, hc, ho, hk⟩ ⟨sc, hsc, hj⟩ hn
      · rw [List.mem_singleton.mp hi]
        refine ⟨fun _ _ _ => ⟨congrArg ownStops about, fun c hc => ?_⟩, fun _ _ _ _ _ => trivial⟩
        obtain ⟨_, c₀, _, hblank, rfl, hblock, _⟩ := ContextHeap.createIOCPContext_ok hcreate
        simp only [Module.stream, hblock, Function.update_self, Option.some.injEq] at hc
        subst hc
        simp [IOCPContext.outstanding, hblank.prevFlag, Module.stream]

-- `doAccept` binds the socket that the bytes came with.
theorem Follows.doAccept {worker first second : Bool} {i : Nat} {q : Completion} {c : IOCPContext}
    (hf : s.Follows bufferSize k r) (hv : s.Valid) (he : s.Exclusive) (hs : s.Sockets)
    (h : s.Stepped (.run i first second) [.thread worker (.dispatch q)] m' new rest)
    (hc : s.contexts.block q.pIC = some c) (ho : c.operation = .accept) (hk : q.kind = .accept)
    (hd : q.flag = true ∧ 0 < q.dwBytesTransfered)
    (hr : s.toModule.doAccept q c first second = .ok (m', new)) :
    Follows bufferSize k r { m' with items := new ++ rest } := by
  have hm := h.perm.mem_iff.mpr (List.mem_append_left _ (List.mem_singleton_self _))
  have hlt : q.pIC < s.contexts.newAddress := Memory.lt_newAddress hc
  rcases Module.doAccept_ok hr with ⟨rfl, rfl⟩ |
    ⟨j, heap, c₀, pContext, accepts, ⟨hb, _, _⟩, _, rfl, rfl⟩
  · refine hf.quiet hv he hs h ⟨rfl, rfl, rfl, rfl⟩ rfl (fun item hi => ?_)
      (by simp [Item.tokens, Task.tokens, Kind.tokens, hk])
    rw [List.mem_singleton.mp hi]
    exact ⟨fun _ _ ht => absurd ht List.not_mem_nil, fun _ _ _ _ _ => trivial⟩
  · have newer {p : Nat} {j : Socket} (hp : s.keys j = some p) : p ≠ s.socketContexts.newAddress :=
      Nat.ne_of_lt (hv.wired.lt hp)
    by_cases hj : j = k
    case neg =>
      have keys : Function.update s.keys j (some s.socketContexts.newAddress) k = s.keys k :=
        Function.update_of_ne (Ne.symm hj) ..
      refine hf.quiet hv he hs h ⟨rfl, keys, rfl, rfl⟩ rfl (fun item hi => ?_)
        (by simp [Item.tokens, Task.tokens, Kind.tokens, hk])
      rcases List.mem_cons.mp hi with rfl | hi
      · refine ⟨fun _ _ => by simp [Item.tokens, Task.tokens], fun b hb' c' hc' hk' => ?_⟩
        cases hb'
        simp only [Module.stream, hb, Function.update_of_ne (Nat.ne_of_lt hlt)] at hc'
        cases hc.symm.trans hc'
        exact absurd (Option.some.inj (accepts.socket.symm.trans hk')) hj
      · rw [List.mem_singleton.mp hi]
        refine ⟨fun p hp ht => ?_, fun _ _ _ _ _ => trivial⟩
        simp only [Item.tokens, Kind.tokens, List.mem_singleton, Token.receive.injEq] at ht
        exact absurd ht (newer (keys.symm.trans hp))
    case pos =>
      subst hj
      have hw : s.Waits q.pIC j := ⟨c, hc, ho, accepts.socket⟩
      obtain ⟨_, segment, rfl, hn, hbuf⟩ := (hf.items _ hm).stands q.pIC rfl c hc accepts.socket hk hd
      have about := hf.unbound accepts.key
      have blank : ({ wsabuf := ⟨0, []⟩ } : IOCPContext).outstanding = pContext.outstanding := by
        simp [IOCPContext.outstanding, accepts.blank]
      obtain ⟨hcalls, hout⟩ := IOCPContext.doAccept_congr segment.buf segment.dataLength blank
      have hcopies := accepts.copies
      rw [hn, hbuf] at hcopies
      -- The context of the accept is as it was.
      have same {b : Nat} {c' : IOCPContext} (hb' : some q.pIC = some b) (hc' : heap.contexts.block b = some c') :
          c' = c := by
        cases hb'
        rw [hb, Function.update_of_ne (Nat.ne_of_lt hlt)] at hc'
        exact Option.some.inj (hc'.symm.trans hc)
      refine hf.bind hv he h accepts.key rfl rfl rfl rfl rfl (fun item hi ht => ?_)
        (fun item hi b c' hb' hc' hk' => h.stands hv he hs rfl hw hi hb' hc' hk') (fun item hi => ?_)
        ⟨_, List.mem_cons_of_mem _ (List.mem_singleton_self _), by simp [Item.tokens, Kind.tokens]⟩
        (.accept rfl (firstFits_of_copies hcopies)) ?_
      · obtain ⟨j', hj'⟩ := hv.receive_bound (h.perm.mem_iff.mpr (List.mem_append_right _ hi)) ht
        exact newer hj' rfl
      · rcases List.mem_cons.mp hi with rfl | hi
        · refine ⟨fun _ _ => by simp [Item.tokens, Task.tokens], fun _ _ _ _ _ => ⟨?_, congrArg firstStops about, ?_⟩⟩
          · simp [Module.stream]
          · simp only [Module.stream, Reader.take, IOCPContext.read, if_true, List.nil_append, Int.zero_add, hn,
              hbuf, hcalls, doAccept_calls, decide_eq_true_eq]
        · rw [List.mem_singleton.mp hi]
          refine ⟨fun _ _ _ => ⟨congrArg ownStops about, fun c' hc' => ?_⟩, fun _ _ _ _ _ => trivial⟩
          simp only [Module.stream, hb, Function.update_self, Option.some.injEq] at hc'
          rw [← hc', accepts.context, hn, hbuf]
          exact hout.symm
      · by_cases hcall : (pContext.doAccept c.wsabuf.buf q.dwBytesTransfered).calls = []
        case pos =>
          rw [hn, hbuf] at hcall
          refine .inl ?_
          simp only [Reader.take, IOCPContext.read, if_true, List.nil_append, hcalls, hcall, List.map_nil]
        case neg =>
          refine .inr ⟨_, List.mem_cons_self, by simpa [Item.accepting] using hcall, q.pIC, rfl, fun c' hc' => ?_⟩
          rw [same rfl hc']
          exact accepts.socket

end Bind

end State

-- An item that has nothing to do with what arrives.
def Item.Plain (item : Item) : Prop :=
  (∀ p, .receive p ∉ item.tokens) ∧ ∀ (bufferSize : Int) t c, item.Stands bufferSize t c

section Plain

variable {worker : Bool} {pSC pIC : Nat} {kind : Kind}

theorem plain_operation (h : kind ≠ .accept ∧ kind ≠ .recv) : (Item.operation kind pSC pIC).Plain := by
  cases kind
  case accept => exact absurd rfl h.left
  case recv   => exact absurd rfl h.right
  all_goals exact ⟨fun _ => by simp [Item.tokens, Kind.tokens], fun _ _ _ => trivial⟩

theorem plain_packet {p : Completion} (h : p.kind ≠ .accept ∧ p.kind ≠ .recv) : (Item.packet p).Plain := by
  refine ⟨fun _ => ?_, fun _ _ _ hk => absurd hk h.left⟩
  cases hk : p.kind
  case recv => exact absurd hk h.right
  all_goals simp [Item.tokens, Kind.tokens, hk]

-- What a thread does for a socket that it neither reads from nor waits for.
theorem plain_thread {task : Task} (ht : task.tokens = [])
    (hs : ∀ (bufferSize : Int) t c, task.Stands bufferSize t c) : (Item.thread worker task).Plain :=
  ⟨fun _ => by simp [Item.tokens, ht], hs⟩

end Plain

namespace State

-- Nothing that arrives is in the hands of the step, neither before it nor after it.
theorem Follows.plain {bufferSize : Int} {k : Socket} {r : Reader} {s : State} {a : Action}
    {used new rest : List Item} {m' : Module} (hf : s.Follows bufferSize k r) (hv : s.Valid) (he : s.Exclusive)
    (hs : s.Sockets) (h : s.Stepped a used m' new rest) (hq : s.toModule.Quiet k m')
    (ha : used.any Item.accepting = false)
    (hu : ∀ item ∈ used, ∀ p, .receive p ∉ item.tokens) (hn : ∀ item ∈ new, item.Plain) :
    Follows bufferSize k r { m' with items := new ++ rest } :=
  hf.quiet hv he hs h hq ha
    (fun item hi => ⟨fun p _ ht => absurd ht ((hn item hi).left p), fun _ _ _ _ _ => (hn item hi).right ..⟩)
    fun p _ ⟨item, hi, ht⟩ => absurd ht (hu item hi p)

end State
end Server8
