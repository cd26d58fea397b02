import Server8.IOCP.Streams

-- In every run the callbacks for a connection are those of the handlers for it alone, in their order.

namespace Server8

open Runs

namespace Module

variable {m m' : Module} {new : List Item} {kind : Kind} {pSC pIC : Nat}

theorem complete_received_ok {data : Bytes} (h : m.complete kind pSC pIC (.received data) = .ok (m', new)) :
    ∃ c heap, m.contexts.block pIC = some c ∧ (kind = .accept ∨ kind = .recv) ∧
      m.setContext pIC (c.receive data) = .ok heap ∧
      { m with
        toContextHeap := heap
        read          := Function.update m.read (c.socket.getD 0)
          (m.read (c.socket.getD 0) + data.length) } = m' ∧
      new = [.packet ⟨true, data.length, pSC, pIC, kind, m.read (c.socket.getD 0)⟩] := by
  simp only [complete, bind_ok, ContextHeap.context_ok] at h
  obtain ⟨c, hc, h⟩ := h
  split at h
  case isFalse   => cases h
  case isTrue hk =>
    obtain ⟨heap, hh, h⟩ := bind_ok.mp h
    rw [pure_ok, Prod.mk.injEq] at h
    exact ⟨c, heap, hc, hk.imp And.left And.left, hh, h.left, h.right.symm⟩

end Module

namespace State

variable {bufferSize : Int} {k : Socket} {r : Reader} {s s' : State} {a : Action} {used new rest : List Item}
  {m' : Module} {kind : Kind} {pSC pIC i : Nat} {c : IOCPContext} {worker first second : Bool}

theorem arrives_received {data : Bytes} (hi : s.items[i]? = some (.operation kind pSC pIC))
    (hc : s.contexts.block pIC = some c) :
    s.arrives k (.complete i (.received data)) =
      if h : c.socket = some k ∧ 1 ≤ data.length then
        [{ accepted := kind = .accept, segment := .received c data h.right }]
      else [] := by
  simp only [arrives, hi, hc]

-- The packet of an operation has its tokens.
theorem receive_of_operation {flag : Bool} {n base : Nat} {P : Prop} (p : Nat) :
    (∃ item ∈ [Item.operation kind pSC pIC], .receive p ∈ item.tokens) →
      (∃ item ∈ [Item.packet ⟨flag, n, pSC, pIC, kind, base⟩], .receive p ∈ item.tokens) ∨ P := by
  simp only [List.mem_singleton, exists_eq_left, Item.tokens]
  exact .inl

theorem Follows.receive {data : Bytes} (hf : s.Follows bufferSize k r) (hv : s.Valid) (he : s.Exclusive)
    (hs : s.Sockets) (hl : k ≠ listenSocket) (hi : s.items[i]? = some (.operation kind pSC pIC))
    (h : s.Stepped (.complete i (.received data)) [.operation kind pSC pIC] m' new rest)
    (hr : s.complete kind pSC pIC (.received data) = .ok (m', new)) :
    Follows bufferSize k (r.takes bufferSize (s.arrives k (.complete i (.received data))))
      { m' with items := new ++ rest } := by
  have hm := List.mem_of_getElem? hi
  have ht := (hv.typed _ hm).right
  have hitem := hf.items _ hm
  obtain ⟨c, heap, hc, hkind, hset, hm', rfl⟩ := Module.complete_received_ok hr
  rw [arrives_received hi hc]
  by_cases hk : c.socket = some k
  case neg =>
    rw [dif_neg (hk ∘ And.left)]
    have hne : k ≠ c.socket.getD 0 := by
      cases hcs : c.socket
      case none   => exact hl
      case some j => exact fun he => hk (hcs.trans (congrArg some he.symm))
    subst hm'
    refine hf.quiet hv he hs h ⟨rfl, rfl, rfl, Function.update_of_ne hne ..⟩ rfl (fun item hi => ?_)
      fun p _ => receive_of_operation p
    rw [List.mem_singleton.mp hi]
    refine ⟨fun p hp ht' => ?_, fun b hb c' hc' hk' => ?_⟩
    · obtain ⟨rfl, rfl⟩ := receive_mem_tokens.mp ht'
      obtain ⟨j, hj, hp'⟩ := Option.bind_eq_some_iff.mp (ht.key (.inl rfl) c hc)
      exact absurd (hs.inj hp' hp ▸ hj) hk
    · cases hb
      obtain ⟨_, hw, rfl⟩ := ContextHeap.setContext_ok.mp hset
      cases (Memory.write_self hw).symm.trans hc'
      exact absurd hk' hk
  case pos =>
    simp only [hk, Option.getD_some] at hm' h ⊢
    by_cases hd : 1 ≤ data.length
    case pos =>
      rw [dif_pos ⟨trivial, hd⟩]
      rcases hkind with rfl | rfl
      · exact hf.accepted hv he hs h hc hk (ht.operation c hc) hset hm' hd
      · have hp := ht.key (.inl rfl) c hc
        rw [hk] at hp
        exact hf.received hv he hs h hc hp hset hm' hd
    case neg =>
      rw [dif_neg (hd ∘ And.right)]
      have hd : data.length = 0 := Nat.eq_zero_of_not_pos hd
      have empty : ¬(true = true ∧ 0 < data.length) := fun h => Nat.ne_of_gt h.right hd
      have hread : Function.update s.read k (s.read k + data.length) k = s.read k := by
        rw [Function.update_self, hd, Nat.add_zero]
      subst hm'
      refine hf.quiet hv he hs h ⟨rfl, rfl, rfl, hread⟩ rfl (fun item hi => ?_) fun p _ => receive_of_operation p
      rw [List.mem_singleton.mp hi]
      exact ⟨fun p hp ht => Stream.waits_of_empty empty (hitem.reads p hp ht).left,
        fun _ _ _ _ _ _ hd => absurd hd empty⟩

theorem Follows.complete {result : Module.Completed} (hf : s.Follows bufferSize k r) (hv : s.Valid)
    (he : s.Exclusive) (hs : s.Sockets) (hl : k ≠ listenSocket)
    (hi : s.items[i]? = some (.operation kind pSC pIC))
    (h : s.Stepped (.complete i result) [.operation kind pSC pIC] m' new rest)
    (hr : s.complete kind pSC pIC result = .ok (m', new)) :
    Follows bufferSize k (r.takes bufferSize (s.arrives k (.complete i result)))
      { m' with items := new ++ rest } := by
  have hm := List.mem_of_getElem? hi
  have hitem := hf.items _ hm
  cases result
  case failed =>
    cases hr
    refine hf.quiet hv he hs h ⟨rfl, rfl, rfl, rfl⟩ rfl (fun item hi => ?_) fun p _ => receive_of_operation p
    rw [List.mem_singleton.mp hi]
    have empty : ¬(false = true ∧ 0 < 0) := by simp
    exact ⟨fun p hp ht => Stream.waits_of_empty empty (hitem.reads p hp ht).left,
      fun _ _ _ _ _ _ hd => absurd hd empty⟩
  case sent n =>
    obtain ⟨rfl, rfl, rfl⟩ : kind = .send ∧ s.toModule = m' ∧ new = [.packet ⟨true, n, pSC, pIC, kind, 0⟩] := by
      simp only [Module.complete, bind_ok] at hr
      obtain ⟨c, _, hr⟩ := hr
      split at hr
      case isFalse   => cases hr
      case isTrue hk =>
        rw [pure_ok, Prod.mk.injEq] at hr
        exact ⟨hk.left, hr.left, hr.right.symm⟩
    refine hf.plain hv he hs h ⟨rfl, rfl, rfl, rfl⟩ rfl (by simp [Item.tokens, Kind.tokens]) fun item hi => ?_
    rw [List.mem_singleton.mp hi]
    exact plain_packet (by simp)
  case received data =>
    exact hf.receive hv he hs hl hi h hr

-- The calls that `doRecv` has to make are those of the reader.
theorem Follows.doRecv {q : Completion} (hf : s.Follows bufferSize k r) (hv : s.Valid) (he : s.Exclusive)
    (hs : s.Sockets) (hi : s.items[i]? = some (.thread worker (.dispatch q)))
    (h : s.Stepped (.run i first second) [.thread worker (.dispatch q)] m' new rest)
    (hc : s.contexts.block q.pIC = some c) (hk : q.kind = .recv) (why : q.flag = true ∧ 0 < q.dwBytesTransfered)
    (hr : s.toModule.doRecv q c = .ok (m', new)) :
    Follows bufferSize k r { m' with items := new ++ rest } := by
  have hitem := hf.items _ (List.mem_of_getElem? hi)
  obtain ⟨heap, hset, rfl, rfl⟩ := Module.doRecv_ok hr
  obtain ⟨_, hw, rfl⟩ := ContextHeap.setContext_ok.mp hset
  have tokens : (Item.thread worker (.dispatch q)).tokens = [.receive q.pSC] := by
    simp [Item.tokens, Task.tokens, hk, Kind.tokens]
  refine hf.quiet hv he hs h ⟨rfl, rfl, rfl, rfl⟩ rfl (fun item hi => ?_) fun p _ ht => ?_
  · rw [List.mem_singleton.mp hi]
    refine ⟨fun p hp ht => ?_, fun _ _ _ _ _ => trivial⟩
    have hreads := (if_pos why).mp (hitem.reads p hp (tokens ▸ ht))
    obtain ⟨r₀, segment, hr₀, hown, hbase, hlength, hcontext⟩ := hreads
    obtain ⟨hbuf, hout⟩ := hcontext c hc
    obtain ⟨hcalls, hout'⟩ := IOCPContext.doRecv_congr bufferSize segment.buf segment.dataLength hout
    obtain rfl : r = _ := hr₀
    have hown : ownStops (s.about k) = r₀.own := hown
    refine ⟨?_, fun c' hc' => ?_⟩
    · simp only [Module.stream, Reader.take, IOCPContext.read, Bool.false_eq_true, if_false, hf.size, hbuf,
        hlength, hcalls, hbase, List.map_map]
      exact congrArg (· ++ _) hown
    · cases (Memory.write_self hw).symm.trans hc'
      simp only [Module.stream, Reader.take, IOCPContext.read, Bool.false_eq_true, if_false, hf.size, hbuf,
        hlength, hout']
  · simp only [List.mem_singleton, exists_eq_left, tokens] at ht
    exact .inl ⟨_, List.mem_singleton_self _, by simpa [Item.tokens, Task.tokens] using ht⟩

theorem Follows.dispatch {q : Completion} (hf : s.Follows bufferSize k r) (hv : s.Valid) (he : s.Exclusive)
    (hs : s.Sockets) (hi : s.items[i]? = some (.thread worker (.dispatch q)))
    (h : s.Stepped (.run i first second) [.thread worker (.dispatch q)] m' new rest)
    (hr : s.toModule.dispatch q first second = .ok (m', new)) :
    Follows bufferSize k r { m' with items := new ++ rest } := by
  have hm := List.mem_of_getElem? hi
  have ht : q.Typed s.toModule := hv.typed _ hm
  have hitem := hf.items _ hm
  obtain ⟨c, hc, hd⟩ := Module.dispatch_ok hr
  clear hr
  have ho := ht.holds.operation c hc
  -- Only the packet of a receive has its token.
  have other {o : IOCPOperationSignal} (he : c.operation = o) (hne : Kind.recv.operation ≠ o) :
      ∀ item ∈ [Item.thread worker (.dispatch q)], ∀ p, .receive p ∉ item.tokens := by
    simp only [List.forall_mem_singleton, Item.tokens, Task.tokens]
    intro p hp
    have hk := (receive_mem_tokens.mp hp).left
    exact hne (hk ▸ ho.symm.trans he)
  -- A packet without data tells that all calls are made.
  have own (hd : q.flag = false ∨ q.dwBytesTransfered = 0) (p : Nat) (hp : s.keys k = some p)
      (ht : ∃ item ∈ [Item.thread worker (.dispatch q)], .receive p ∈ item.tokens) :
      ownStops (s.about k) = r.own := by
    have h := hitem.reads p hp (by simpa using ht)
    refine (if_neg fun hd' => ?_).mp h
    rcases hd with hd | hd
    · exact Bool.false_ne_true (hd.symm.trans hd'.left)
    · exact Nat.ne_of_gt hd'.right hd
  cases hd
  case empty operation _ =>
    refine hf.plain hv he hs h ⟨rfl, rfl, rfl, rfl⟩ rfl (other operation (by simp [Kind.operation])) ?_
    exact List.forall_mem_singleton.mpr (plain_thread rfl fun _ _ _ => trivial)
  case sendError operation _ =>
    refine hf.plain hv he hs h ⟨rfl, rfl, rfl, rfl⟩ rfl (other operation (by simp [Kind.operation])) ?_
    exact List.forall_mem_singleton.mpr (plain_thread rfl fun _ _ _ => trivial)
  case close why =>
    refine hf.quiet hv he hs h ⟨rfl, rfl, rfl, rfl⟩ rfl (fun item hi => ?_)
      fun p hp ht => .inr (own (why.imp And.left id) p hp ht)
    rw [List.mem_singleton.mp hi]
    refine ⟨fun p hp ht => own (why.imp And.left id) p hp ⟨_, List.mem_singleton_self _, ?_⟩,
      fun _ _ _ _ _ => trivial⟩
    by_cases hk : q.kind = .recv
    case pos =>
      simpa [Item.tokens, Task.tokens, hk, Kind.tokens] using ht
    case neg =>
      simp [Item.tokens, Task.tokens, hk] at ht
  case closed why _ _ _ =>
    exact hf.quiet hv he hs h ⟨rfl, rfl, rfl, rfl⟩ rfl (List.forall_mem_nil _) fun p hp ht =>
      .inr (own (.inr why) p hp ht)
  case null operation =>
    exact hf.plain hv he hs h ⟨rfl, rfl, rfl, rfl⟩ rfl (other operation (by simp [Kind.operation]))
      (List.forall_mem_nil _)
  case doAccept operation why h' =>
    have hk := ht.holds.kind_eq (k := .accept) hc operation (.inl rfl)
    exact hf.doAccept hv he hs h hc operation hk why h'
  case doRecv operation why h' =>
    have hk := ht.holds.kind_eq (k := .recv) hc operation (.inr (.inl rfl))
    exact hf.doRecv hv he hs hi h hc hk why h'
  case doSend operation _ h' =>
    obtain ⟨_, _, _, _, rfl, rfl⟩ := Module.doSend_ok h'
    refine hf.plain hv he hs h ⟨rfl, rfl, rfl, rfl⟩ rfl (other operation (by simp [Kind.operation])) ?_
    exact List.forall_mem_singleton.mpr (plain_thread rfl fun _ _ _ => trivial)
  case doCloseConnection operation =>
    refine hf.plain hv he hs h ⟨rfl, rfl, rfl, rfl⟩ rfl (other operation (by simp [Kind.operation])) ?_
    exact List.forall_mem_singleton.mpr ⟨fun _ => by simp [Item.tokens, Task.tokens], fun _ _ _ => trivial⟩
  case exit operation h' =>
    obtain ⟨_, _, _, rfl, rfl⟩ := Module.exitThread_ok h'
    exact hf.plain hv he hs h ⟨rfl, rfl, rfl, rfl⟩ rfl (other operation (by simp [Kind.operation]))
      (List.forall_mem_nil _)

theorem Follows.callback {base : Nat} {count : Bool} {stops : List Int} (hf : s.Follows bufferSize k r)
    (hv : s.Valid) (he : s.Exclusive) (hs : s.Sockets) (hl : k ≠ listenSocket)
    (hi : s.items[i]? = some (.thread worker (.doRecv pSC pIC base count stops)))
    (h : s.Stepped (.run i first second) [.thread worker (.doRecv pSC pIC base count stops)] m' new rest)
    (hr : s.toModule.callback pSC pIC base count stops first = .ok (m', new)) :
    Follows bufferSize k r { m' with items := new ++ rest } := by
  have hm := List.mem_of_getElem? hi
  have ht : s.Holds .recv pSC pIC := hv.typed _ hm
  have hitem := hf.items _ hm
  have token : .receive pSC ∈ (Item.thread worker (.doRecv pSC pIC base count stops)).tokens :=
    List.mem_singleton_self _
  have token_eq {p : Nat} (h : .receive p ∈ (Item.thread worker (.doRecv pSC pIC base count stops)).tokens) :
      p = pSC := by
    simpa [Item.tokens, Task.tokens] using h
  obtain ⟨c, hc, ⟨stop, stops', rfl, hm', rfl⟩ | ⟨rfl, heap, hset, rfl, rfl⟩⟩ := Module.callback_ok hr
  · obtain ⟨j, hj, hp⟩ := Option.bind_eq_some_iff.mp (ht.key (.inl rfl) c hc)
    rw [hj] at hm'
    by_cases hk : j = k
    case pos =>
      subst hk
      obtain ⟨hown, hout⟩ := hitem.reads pSC hp token
      refine hf.own hv hs hl h he hp rfl ⟨_, List.mem_singleton_self _, token⟩
        ⟨_, List.mem_singleton_self _, List.mem_singleton_self _⟩ (by rw [← hm']) (fun item hi => ?_)
      rw [List.mem_singleton.mp hi]
      refine ⟨fun _ _ _ => ⟨?_, fun c hc => ?_⟩, fun _ _ _ _ _ => trivial⟩
      · have about : m'.about j = s.about j ++ [(pSC, base + stop)] := by
          rw [← hm']
          exact (Module.about_cons ..).trans (by simp [Invocation.about])
        simp only [Module.stream] at hown ⊢
        rw [about, (ownStops_append _ _ (ne_listening hv hs hl hp)).left, ← hown]
        simp
      · rw [← hm'] at hc
        exact hout c hc
    case neg =>
      subst hm'
      have about : (Invocation.recv pSC (some j) (base + stop)).about k = none := by simp [Invocation.about, hk]
      refine hf.quiet hv he hs h ⟨rfl, rfl, ?_, rfl⟩ rfl (fun item hi => ?_) fun p _ ht => ?_
      · exact (Module.about_cons ..).trans (by rw [about]; exact List.append_nil _)
      · rw [List.mem_singleton.mp hi]
        refine ⟨fun p hp' ht' => ?_, fun _ _ _ _ _ => trivial⟩
        cases token_eq ht'
        exact absurd (hs.inj hp hp') hk
      · simp only [List.mem_singleton, exists_eq_left] at ht
        exact .inl ⟨_, List.mem_singleton_self _, ht⟩
  · obtain ⟨_, hw, rfl⟩ := ContextHeap.setContext_ok.mp hset
    have own {p : Nat} (hp : s.keys k = some p)
        (ht : .receive p ∈ (Item.thread worker (.doRecv pSC pIC base count [])).tokens) :
        ownStops (s.about k) = r.own := by
      simpa [Module.stream] using (hitem.reads p hp ht).left
    refine hf.quiet hv he hs h ⟨rfl, rfl, rfl, rfl⟩ rfl (fun item hi => ?_) fun p hp ht => ?_
    · rw [Module.posted_of_key (ht.key (.inl rfl) c hc)] at hi
      cases first
      case true  =>
        rw [if_pos rfl] at hi
        rw [List.mem_singleton.mp hi]
        refine ⟨fun p hp ht' => ?_, fun _ _ _ _ _ => trivial⟩
        have ht' : .receive p ∈ (Item.thread worker (.doRecv pSC pIC base count [])).tokens := ht'
        refine ⟨own hp ht', fun c' hc' => ?_⟩
        cases (Memory.write_self hw).symm.trans hc'
        exact (hitem.reads p hp ht').right c hc
      case false =>
        rw [if_neg Bool.false_ne_true] at hi
        rw [List.mem_singleton.mp hi]
        exact ⟨fun p hp ht' => own hp ht', fun _ _ _ _ _ => trivial⟩
    · simp only [List.mem_singleton, exists_eq_left] at ht
      exact .inr (own hp ht)

-- The first receive of a connection that `sendData` opens.
theorem Follows.publish {data : Bytes} (hf : s.Follows bufferSize k r) (hv : s.Valid) (he : s.Exclusive)
    (hs : s.Sockets) (hi : s.items[i]? = some (.thread worker (.publish pSC pIC data)))
    (h : s.Stepped (.run i first second) [.thread worker (.publish pSC pIC data)] m' new rest)
    (hr : s.toModule.publish pSC pIC data first = .ok (m', new)) :
    Follows bufferSize k r { m' with items := new ++ rest } := by
  have hm := List.mem_of_getElem? hi
  have ht : s.Holds .recv pSC pIC := (hv.typed _ hm).left
  have hitem := hf.items _ hm
  obtain ⟨c, _, heap, _, hc, hset, hposted, _, rfl, rfl⟩ := Module.publish_ok hr
  obtain ⟨_, hw, rfl⟩ := ContextHeap.setContext_ok.mp hset
  have create : (Item.thread false (.create pSC data)).Plain :=
    ⟨fun _ => by simp [Item.tokens, Task.tokens], fun _ _ _ => trivial⟩
  refine hf.quiet hv he hs h ⟨rfl, rfl, rfl, rfl⟩ rfl (fun item hi => ?_) fun p hp ht => ?_
  · rcases List.mem_cons.mp hi with rfl | hi
    · exact ⟨fun p _ ht => absurd ht (create.left p), fun _ _ _ _ _ => create.right ..⟩
    · rcases hposted with ⟨rfl, rfl⟩ | ⟨rfl, _⟩
      · rw [if_pos rfl, Module.posted_of_key (ht.key (.inl rfl) c hc)] at hi
        rw [List.mem_singleton.mp hi]
        refine ⟨fun p hp ht' => ?_, fun _ _ _ _ _ => trivial⟩
        have hrests := hitem.reads p hp (by simpa [Item.tokens, Kind.tokens, Task.tokens] using ht')
        refine ⟨hrests.left, fun c' hc' => ?_⟩
        cases (Memory.write_self hw).symm.trans hc'
        exact hrests.right c hc
      · cases hi
  · simp only [List.mem_singleton, exists_eq_left] at ht
    exact .inr (hitem.reads p hp ht).left

-- What is left of an accept when its connection is in the map.
theorem Follows.insert {q n : Nat} {flag : Bool} (hf : s.Follows bufferSize k r) (hv : s.Valid)
    (he : s.Exclusive) (hs : s.Sockets) (hi : s.items[i]? = some (.thread worker (.insert pSC pIC q n flag)))
    (h : s.Stepped (.run i first second) [.thread worker (.insert pSC pIC q n flag)] m' new rest)
    (hr : s.toModule.insert pSC pIC q n flag = .ok (m', new)) :
    Follows bufferSize k r { m' with items := new ++ rest } := by
  have hitem := hf.items _ (List.mem_of_getElem? hi)
  obtain ⟨_, _, rfl, rfl⟩ := Module.insert_ok hr
  refine hf.still hv he hs h ⟨rfl, rfl, rfl, rfl⟩ (fun item hi => ?_) (by simp [Item.tokens, Task.tokens])
    fun item hi hb => ?_
  · rw [List.mem_singleton.mp hi]
    cases flag
    case true  => exact ⟨fun _ _ ht => absurd ht List.not_mem_nil, fun a ha c hc hk => hitem.stands a ha c hc hk⟩
    case false => exact ⟨fun _ _ ht => absurd ht List.not_mem_nil, fun _ _ _ _ _ => trivial⟩
  · rw [List.mem_singleton.mp hi] at hb
    cases flag
    case true  => exact ⟨_, List.mem_singleton_self _, rfl, hb.socket⟩
    case false => exact absurd hb.accepting Bool.false_ne_true

theorem Follows.process {n : Nat} (hf : s.Follows bufferSize k r) (hv : s.Valid)
    (he : s.Exclusive) (hs : s.Sockets) (hi : s.items[i]? = some (.thread worker (.process pSC pIC n)))
    (h : s.Stepped (.run i first second) [.thread worker (.process pSC pIC n)] m' new rest)
    (hr : s.toModule.process pSC pIC n = .ok (m', new)) :
    Follows bufferSize k r { m' with items := new ++ rest } := by
  have hm := List.mem_of_getElem? hi
  have ht : s.Holds .accept pSC pIC := hv.typed _ hm
  have hitem := hf.items _ hm
  have hno : ∀ item ∈ [Item.thread worker (.process pSC pIC n)], ∀ p, .receive p ∉ item.tokens := by
    simp [Item.tokens, Task.tokens]
  obtain ⟨c, hc, hm', rfl⟩ := Module.process_ok hr
  by_cases hk : c.socket = some k
  case pos =>
    obtain ⟨hkey, hfirst, hreader⟩ := hitem.stands pIC rfl c hc hk
    rw [hk, ht.accept rfl] at hm'
    refine hf.called hv he hs h rfl ⟨c, hc, ht.operation c hc, hk⟩ hno (by rw [← hm']) hkey hfirst hreader
      fun item hi => ?_
    rw [List.mem_singleton.mp hi]
    exact ⟨fun _ _ ht => absurd ht List.not_mem_nil, fun _ _ _ _ _ => trivial⟩
  case neg =>
    subst hm'
    have about : (Invocation.recv pSC c.socket n).about k = none := by simp [Invocation.about, hk]
    refine hf.still hv he hs h ⟨rfl, rfl, ?_, rfl⟩ (fun item hi => ?_) (by simp [Item.tokens, Task.tokens])
      fun item hi hb => ?_
    · exact (Module.about_cons ..).trans (by rw [about]; exact List.append_nil _)
    · rw [List.mem_singleton.mp hi]
      exact ⟨fun _ _ ht => absurd ht List.not_mem_nil, fun _ _ _ _ _ => trivial⟩
    · rw [List.mem_singleton.mp hi] at hb
      obtain ⟨_, ha, hsocket⟩ := hb.socket
      cases ha
      exact absurd (hsocket c hc) hk

-- A new socket has received nothing.
theorem Follows.unused (hf : s.Follows bufferSize k r) (hs : s.Sockets) {created : Bool}
    (hk : (if created then some s.nextSocket else none) = some k) : s.keys k = none ∧ r = {} := by
  cases created
  case true  =>
    cases hk
    refine ⟨Option.eq_none_iff_forall_ne_some.mpr fun p hp => ?_, hf.fresh (Nat.le_refl _)⟩
    exact absurd (hs.key hp) (Nat.lt_irrefl _)
  case false => cases hk

theorem Follows.repost {reset count : Bool} (hf : s.Follows bufferSize k r) (hv : s.Valid)
    (he : s.Exclusive) (hs : s.Sockets)
    (h : s.Stepped (.run i first second) [.thread worker (.postAccept pIC reset count)] m' new rest)
    (hr : s.toModule.repost pIC reset count first second = .ok (m', new)) :
    Follows bufferSize k r { m' with items := new ++ rest } := by
  obtain ⟨_, c', _, _, hset, ⟨_, _, hsocket⟩, hm', hn⟩ := Module.repost_ok hr
  obtain ⟨_, hw, rfl⟩ := ContextHeap.setContext_ok.mp hset
  have quiet : s.toModule.Quiet k m' := by
    rw [← hm']
    exact ⟨rfl, rfl, rfl, rfl⟩
  refine hf.quiet hv he hs h quiet rfl (fun item hi => ?_) (by simp [Item.tokens, Task.tokens])
  rw [hn] at hi
  split at hi
  case isTrue =>
    rw [List.mem_singleton.mp hi]
    refine ⟨fun _ _ ht => by simp [Item.tokens, Kind.tokens] at ht, fun a ha c hc hk => ?_⟩
    cases ha
    rw [← hm'] at hc
    cases (Memory.write_self hw).symm.trans hc
    obtain ⟨hkey, hr⟩ := hf.unused hs (hsocket.symm.trans hk)
    exact ⟨quiet.keys.trans hkey, hr⟩
  case isFalse =>
    rw [List.mem_singleton.mp hi]
    exact ⟨fun _ _ ht => absurd ht List.not_mem_nil, fun _ _ _ _ _ => trivial⟩

theorem Follows.initIOCP {standby : Nat} (hf : s.Follows bufferSize k r) (hv : s.Valid)
    (he : s.Exclusive) (hs : s.Sockets) (h : s.Stepped a [] m' new rest)
    (hr : s.initIOCP standby first second = .ok (m', new)) :
    Follows bufferSize k r { m' with items := new ++ rest } := by
  obtain ⟨_, _, _, _, _, c', _, _, ⟨_, _, hsocket⟩, hset, rfl, hn⟩ := Module.initIOCP_ok hr
  obtain ⟨_, hw, rfl⟩ := ContextHeap.setContext_ok.mp hset
  refine hf.quiet hv he hs h ⟨rfl, rfl, rfl, rfl⟩ rfl (fun item hi => ?_) fun _ _ h => absurd h (by simp)
  rcases hn with ⟨_, rfl, rfl⟩ | ⟨_, _, rfl⟩
  · rw [List.mem_singleton.mp hi]
    refine ⟨fun _ _ ht => by simp [Item.tokens, Kind.tokens] at ht, fun a ha c hc hk => ?_⟩
    cases ha
    cases (Memory.write_self hw).symm.trans hc
    exact hf.unused hs (hsocket.symm.trans hk)
  · cases hi

theorem Follows.perform {posted ret : Bool} {effects : List SendEffect} (hf : s.Follows bufferSize k r)
    (hv : s.Valid) (he : s.Exclusive) (hs : s.Sockets)
    (hi : s.items[i]? = some (.thread worker (.doSend pSC pIC posted ret effects)))
    (h : s.Stepped (.run i first second) [.thread worker (.doSend pSC pIC posted ret effects)] m' new rest)
    (hr : s.toModule.perform pSC pIC posted ret effects = .ok (m', new)) :
    Follows bufferSize k r { m' with items := new ++ rest } := by
  have ht : s.Holds .send pSC pIC := hv.typed _ (List.mem_of_getElem? hi)
  have hno : ∀ item ∈ [Item.thread worker (.doSend pSC pIC posted ret effects)], ∀ p, .receive p ∉ item.tokens := by
    simp [Item.tokens, Task.tokens]
  have next (effects : List SendEffect) : (Item.thread true (.doSend pSC pIC posted ret effects)).Plain :=
    plain_thread rfl fun _ _ _ => trivial
  have write (effects : List SendEffect) : (Item.thread true (.resent pSC pIC posted ret effects)).Plain :=
    plain_thread rfl fun _ _ _ => trivial
  rcases Module.perform_ok hr with ⟨_, rfl, rfl⟩ | ⟨_, effects', c, _, hc, hr⟩
  · refine hf.plain hv he hs h ⟨rfl, rfl, rfl, rfl⟩ rfl hno ?_
    cases ret
    case true  => exact List.forall_mem_nil _
    case false => exact List.forall_mem_singleton.mpr (plain_thread rfl fun _ _ _ => trivial)
  · rcases hr with ⟨_, _, rfl, rfl⟩ | ⟨_, _, rfl, rfl⟩ | ⟨_, _, _, _, rfl, rfl⟩
    · refine hf.plain hv he hs h ⟨rfl, rfl, ?_, rfl⟩ rfl hno (List.forall_mem_singleton.mpr (next effects'))
      exact (Module.about_cons ..).trans (List.append_nil _)
    · refine hf.plain hv he hs h ⟨rfl, rfl, rfl, rfl⟩ rfl hno (List.forall_mem_cons.mpr ⟨write effects', ?_⟩)
      rw [Module.posted_of_key (ht.key (.inr rfl) c hc)]
      cases posted
      case true  => exact List.forall_mem_singleton.mpr (plain_operation (by simp))
      case false => exact List.forall_mem_nil _
    · exact hf.plain hv he hs h ⟨rfl, rfl, rfl, rfl⟩ rfl hno (List.forall_mem_singleton.mpr (next effects'))

theorem Follows.postCloseConnection {receive : Bool} (hf : s.Follows bufferSize k r) (hv : s.Valid)
    (he : s.Exclusive) (hs : s.Sockets) (hi : s.items[i]? = some (.thread worker (.postCloseConnection pSC receive)))
    (h : s.Stepped (.run i first second) [.thread worker (.postCloseConnection pSC receive)] m' new rest)
    (hr : s.toModule.postCloseConnection worker pSC receive = .ok (m', new)) :
    Follows bufferSize k r { m' with items := new ++ rest } := by
  have hitem := hf.items _ (List.mem_of_getElem? hi)
  have done (p : Nat) (hp : s.keys k = some p)
      (ht : ∃ item ∈ [Item.thread worker (.postCloseConnection pSC receive)], .receive p ∈ item.tokens) :
      (∃ item ∈ new, .receive p ∈ item.tokens) ∨ ownStops (s.about k) = r.own :=
    .inr (hitem.reads p hp (by simpa using ht))
  rcases Module.postCloseConnection_ok hr with ⟨rfl, rfl, _⟩ | ⟨_, _, _, _, _, _, _, _, _, rfl, rfl⟩
  · exact hf.quiet hv he hs h ⟨rfl, rfl, rfl, rfl⟩ rfl (List.forall_mem_nil _) done
  · refine hf.quiet hv he hs h ⟨rfl, rfl, rfl, rfl⟩ rfl (fun item hi => ?_) done
    unfold Module.PostQueuedCompletionStatus at hi
    split at hi
    case isTrue  =>
      rw [List.mem_singleton.mp hi]
      exact ⟨fun _ _ ht => by simp [Item.tokens, Kind.tokens] at ht, fun _ _ _ _ _ hk => absurd hk (by simp)⟩
    case isFalse => cases hi

theorem Follows.run {task : Task} (hf : s.Follows bufferSize k r) (hv : s.Valid) (he : s.Exclusive)
    (hs : s.Sockets) (hl : k ≠ listenSocket) (hi : s.items[i]? = some (.thread worker task))
    (h : s.Stepped (.run i first second) [.thread worker task] m' new rest)
    (hr : s.toModule.run worker first second task = .ok (m', new)) :
    Follows bufferSize k r { m' with items := new ++ rest } := by
  have ht := hv.typed _ (List.mem_of_getElem? hi)
  cases task
  case dispatch   => exact hf.dispatch hv he hs hi h hr
  case insert     => exact hf.insert hv he hs hi h hr
  case process    => exact hf.process hv he hs hi h hr
  case postAccept => exact hf.repost hv he hs h hr
  case doRecv     => exact hf.callback hv he hs hl hi h hr
  case doSend     => exact hf.perform hv he hs hi h hr
  case postCloseConnection => exact hf.postCloseConnection hv he hs hi h hr
  case bind       => exact hf.bindSocket hv he hs h hr
  case publish    => exact hf.publish hv he hs hi h hr
  case removeIOCPContext =>
    obtain ⟨_, _, _, _, rfl, rfl⟩ := Module.remove_ok hr
    exact hf.plain hv he hs h ⟨rfl, rfl, rfl, rfl⟩ rfl (by simp [Item.tokens, Task.tokens]) (List.forall_mem_nil _)
  case resent =>
    obtain ⟨hm, rfl⟩ := Module.resent_ok hr
    cases ht.setOperation hm
    exact hf.plain hv he hs h ⟨rfl, rfl, rfl, rfl⟩ rfl (by simp [Item.tokens, Task.tokens])
      (List.forall_mem_singleton.mpr (plain_thread rfl fun _ _ _ => trivial))
  case sendError =>
    cases hr
    refine hf.plain hv he hs h ⟨rfl, rfl, ?_, rfl⟩ rfl (by simp [Item.tokens, Task.tokens])
      (List.forall_mem_singleton.mpr (plain_thread rfl fun _ _ _ => trivial))
    exact (Module.about_cons ..).trans (List.append_nil _)
  case doCloseConnection =>
    have hd := Module.doCloseConnection_ok hr
    clear hr
    obtain ⟨rfl, ⟨_, rfl⟩ | ⟨_, _, _, _, rfl⟩⟩ := hd
    · exact hf.plain hv he hs h ⟨rfl, rfl, rfl, rfl⟩ rfl (by simp [Item.tokens, Task.tokens]) (List.forall_mem_nil _)
    · exact hf.plain hv he hs h ⟨rfl, rfl, rfl, rfl⟩ rfl (by simp [Item.tokens, Task.tokens]) (List.forall_mem_nil _)
  case find =>
    obtain ⟨rfl, ⟨_, rfl⟩ | ⟨_, rfl⟩⟩ := Module.find_ok hr
    · exact hf.plain hv he hs h ⟨rfl, rfl, rfl, rfl⟩ rfl (by simp [Item.tokens, Task.tokens])
        (List.forall_mem_singleton.mpr (plain_thread rfl fun _ _ _ => trivial))
    · exact hf.plain hv he hs h ⟨rfl, rfl, rfl, rfl⟩ rfl (by simp [Item.tokens, Task.tokens])
        (List.forall_mem_singleton.mpr (plain_thread rfl fun _ _ _ => trivial))
  case create =>
    obtain ⟨_, _, _, _, _, rfl, rfl⟩ := Module.create_ok hr
    exact hf.plain hv he hs h ⟨rfl, rfl, rfl, rfl⟩ rfl (by simp [Item.tokens, Task.tokens])
      (List.forall_mem_singleton.mpr (plain_thread rfl fun _ _ _ => trivial))
  case postSend =>
    obtain ⟨c, hc, rfl, rfl⟩ := Module.postSend_ok hr
    refine hf.plain hv he hs h ⟨rfl, rfl, rfl, rfl⟩ rfl (by simp [Item.tokens, Task.tokens])
      (List.forall_mem_cons.mpr ⟨plain_thread rfl fun _ _ _ => trivial, ?_⟩)
    rw [Module.posted_of_key (ht.key (.inr rfl) c hc)]
    cases first
    case true  => exact List.forall_mem_singleton.mpr (plain_operation (by simp))
    case false => exact List.forall_mem_nil _
  case sent posted =>
    obtain ⟨hm, rfl⟩ := Module.sent_ok hr
    cases ht.setOperation hm
    refine hf.plain hv he hs h ⟨rfl, rfl, rfl, rfl⟩ rfl (by simp [Item.tokens, Task.tokens]) ?_
    cases posted
    case true  => exact List.forall_mem_nil _
    case false => exact List.forall_mem_singleton.mpr (plain_thread rfl fun _ _ _ => trivial)

theorem Follows.stopIOCP (hf : s.Follows bufferSize k r) (hv : s.Valid) (he : s.Exclusive) (hs : s.Sockets)
    (h : s.Stepped a [] m' new rest) (hr : s.toModule.stopIOCP = .ok (m', new)) :
    Follows bufferSize k r { m' with items := new ++ rest } := by
  unfold Module.stopIOCP at hr
  split at hr
  case h_2 =>
    obtain ⟨_, _, _, rfl, rfl⟩ := Module.postExit_ok hr
    refine hf.plain hv he hs h ⟨rfl, rfl, rfl, rfl⟩ rfl (List.forall_mem_nil _) ?_
    unfold Module.PostQueuedCompletionStatus
    split
    case isTrue  => exact List.forall_mem_singleton.mpr (plain_packet (by simp))
    case isFalse => exact List.forall_mem_nil _
  case h_4 =>
    obtain ⟨_, _, _, _, _, _, rfl, rfl⟩ := Module.deleteStandby_ok hr
    exact hf.plain hv he hs h ⟨rfl, rfl, rfl, rfl⟩ rfl (List.forall_mem_nil _) (List.forall_mem_nil _)
  all_goals
    cases hr
    try exact hf.plain hv he hs h ⟨rfl, rfl, rfl, rfl⟩ rfl (List.forall_mem_nil _) (List.forall_mem_nil _)

-- A step takes the reader to where the step's arrivals take it.
theorem Follows.step (hf : s.Follows bufferSize k r) (hv : s.Valid) (he : s.Exclusive) (hs : s.Sockets)
    (hl : k ≠ listenSocket) (h : s.step a = .ok s') :
    s'.Follows bufferSize k (r.takes bufferSize (s.arrives k a)) := by
  obtain ⟨used, m', new, rest, hst, rfl⟩ := step_ok h
  clear h
  have hst' := hst
  cases hst
  case complete hi hr => exact hf.complete hv he hs hl hi hst' hr
  case initIOCP hr    => exact hf.initIOCP hv he hs hst' hr
  case stopIOCP hr    => exact hf.stopIOCP hv he hs hst' hr
  case run hi hr      => exact hf.run hv he hs hl hi hst' hr
  case destroy hr     =>
    obtain ⟨_, _, _, rfl, rfl⟩ := Module.destroy_ok hr
    exact hf.plain hv he hs hst' ⟨rfl, rfl, rfl, rfl⟩ rfl (List.forall_mem_nil _) (List.forall_mem_nil _)
  case sendData       =>
    exact hf.plain hv he hs hst' ⟨rfl, rfl, rfl, rfl⟩ rfl (List.forall_mem_nil _)
      (List.forall_mem_singleton.mpr (plain_thread rfl fun _ _ _ => trivial))
  case postCloseConnection =>
    exact hf.plain hv he hs hst' ⟨rfl, rfl, rfl, rfl⟩ rfl (List.forall_mem_nil _)
      (List.forall_mem_singleton.mpr (plain_thread rfl fun _ _ _ => trivial))
  case dequeue hi _ _ =>
    have hitem := hf.items _ (List.mem_of_getElem? hi)
    refine hf.quiet hv he hs hst' ⟨rfl, rfl, rfl, rfl⟩ rfl (fun item hi => ?_) fun p _ ht => ?_
    · rw [List.mem_singleton.mp hi]
      exact ⟨hitem.reads, hitem.stands⟩
    · simp only [List.mem_singleton, exists_eq_left] at ht
      exact .inl ⟨_, List.mem_singleton_self _, ht⟩
  all_goals exact hf.plain hv he hs hst' ⟨rfl, rfl, rfl, rfl⟩ rfl (List.forall_mem_nil _) (List.forall_mem_nil _)

theorem Follows.start {maxThreadNum threads standby : Nat} :
    (start bufferSize maxThreadNum threads standby).Follows bufferSize k {} where
  size      := rfl
  items     := List.forall_mem_nil _
  rest _ _ _ := rfl
  first     := ⟨[], rfl⟩
  begun _   := .inl rfl
  unbound _ := rfl
  context   := List.forall_mem_nil _
  read      := rfl
  fresh _   := rfl
  has _ _ _ := rfl
  inOrder _ := .empty

end State

-- Bytes of the connection wait for a thread, or one makes the calls for them.
def Item.pends (p : Nat) : Item → Bool
  | .packet q                        => q.kind = .recv ∧ q.pSC = p ∧ q.flag = true ∧ 0 < q.dwBytesTransfered
  | .thread _ (.dispatch q)          => q.kind = .recv ∧ q.pSC = p ∧ q.flag = true ∧ 0 < q.dwBytesTransfered
  | .thread _ (.doRecv pSC _ _ _ _)  => pSC = p
  | _                                => false

-- A thread is in `doRecv` for the connection.
def Item.receiving (p : Nat) : Item → Bool
  | .thread _ (.doRecv pSC _ _ _ _) => pSC = p
  | _                               => false

theorem Item.Reads.progress {bufferSize : Int} {t : Stream} {item : Item} {p : Nat}
    (h : item.Reads bufferSize t) (ht : .receive p ∈ item.tokens) :
    ownStops t.about <+: t.reader.own ∧ (item.pends p = false → ownStops t.about = t.reader.own) := by
  have waits (q : Completion) (hk : q.kind = .recv ∧ q.pSC = p) (h : t.Waits bufferSize q) :
      ownStops t.about <+: t.reader.own ∧
        (decide (q.kind = .recv ∧ q.pSC = p ∧ q.flag = true ∧ 0 < q.dwBytesTransfered) = false →
          ownStops t.about = t.reader.own) := by
    unfold Stream.Waits at h
    split at h
    case isTrue hd =>
      obtain ⟨r, s, hr, ho, _⟩ := h
      refine ⟨?_, fun hn => absurd ⟨hk.left, hk.right, hd⟩ (of_decide_eq_false hn)⟩
      rw [hr, ho]
      exact List.prefix_append ..
    case isFalse => exact ⟨h ▸ List.prefix_refl _, fun _ => h⟩
  cases item
  case operation => exact ⟨h.left ▸ List.prefix_refl _, fun _ => h.left⟩
  case packet q  => exact waits q (receive_mem_tokens.mp ht) h
  case thread worker task =>
    cases task
    case dispatch q => exact waits q (receive_mem_tokens.mp ht) h
    case publish    => exact ⟨h.left ▸ List.prefix_refl _, fun _ => h.left⟩
    case doRecv pSC _ _ _ _ =>
      refine ⟨h.left ▸ List.prefix_append .., fun hn => ?_⟩
      have hp : p = pSC := by simpa [Item.tokens, Task.tokens] using ht
      simp [Item.pends, hp] at hn
    all_goals
      have h : ownStops t.about = t.reader.own := h
      exact ⟨h ▸ List.prefix_refl _, fun _ => h⟩

theorem Item.receiving_mem {p : Nat} (item : Item) (h : item.receiving p = true) : .receive p ∈ item.tokens := by
  cases item
  case thread worker task =>
    cases task
    case doRecv => simpa [Item.receiving, Item.tokens, Task.tokens, eq_comm] using h
    all_goals cases h
  all_goals cases h

namespace State

variable {bufferSize : Int} {k : Socket} {r : Reader} {s s' : State}

-- What the module called the callback for, next to what the handlers alone do with the same arrivals.
structure Delivered (k : Socket) (r : Reader) (s : State) : Prop where
  context : ∀ x ∈ s.about k, x.1 = listening ∨ s.keys k = some x.1
  order   : ∃ n, Ascends 0 n (firstStops (s.about k)) ∧ Ascends n (s.read k) (ownStops (s.about k))
  first   : firstStops (s.about k) <+: r.first
  own     : ownStops (s.about k) <+: r.own
  begun   : s.keys k ≠ none → (∀ item ∈ s.items, item.accepting = false) → firstStops (s.about k) = r.first
  done    : ∀ p, s.keys k = some p → (∀ item ∈ s.items, item.pends p = false) → ownStops (s.about k) = r.own
  alone   : ∀ p, s.items.countP (Item.receiving p) ≤ 1

theorem Follows.progress {p : Nat} (hf : s.Follows bufferSize k r) (hp : s.keys k = some p) :
    ownStops (s.about k) <+: r.own ∧
      ((∀ item ∈ s.items, item.pends p = false) → ownStops (s.about k) = r.own) := by
  by_cases h : ∃ item ∈ s.items, .receive p ∈ item.tokens
  case pos =>
    obtain ⟨item, hi, ht⟩ := h
    have := ((hf.items item hi).reads p hp ht).progress ht
    exact ⟨this.left, fun hn => this.right (hn item hi)⟩
  case neg =>
    have := hf.rest p hp fun item hi ht => h ⟨item, hi, ht⟩
    exact ⟨this ▸ List.prefix_refl _, fun _ => this⟩

theorem Valid.receiving_le (hv : s.Valid) (p : Nat) : s.items.countP (Item.receiving p) ≤ 1 := by
  refine Nat.le_trans ?_ (hv.ok p).receive
  simp only [ledger, Module.ledger]
  generalize s.items = items
  induction items
  case nil => exact Nat.zero_le _
  case cons item items ih =>
    rw [List.countP_cons, List.flatMap_cons, List.count_append, Nat.add_comm]
    refine Nat.add_le_add ?_ ih
    split
    case isTrue h  => exact List.count_pos_iff.mpr (item.receiving_mem h)
    case isFalse h => exact Nat.zero_le _

theorem Follows.calls_delivered (hf : s.Follows bufferSize k r) (hv : s.Valid) : s.Delivered k r := by
  have order : ∃ n, Ascends 0 n (firstStops (s.about k)) ∧ Ascends n (s.read k) (ownStops (s.about k)) := by
    cases hk : s.keys k
    case none   =>
      rw [hf.unbound hk]
      exact ⟨0, .nil, .nil⟩
    case some p =>
      obtain ⟨n, hfirst, hown, _⟩ := (hf.inOrder (hk ▸ Option.some_ne_none _)).first
      obtain ⟨_, hp⟩ := hf.first
      rw [← hf.read] at hown
      exact ⟨n, hfirst.of_prefix (hp ▸ List.prefix_append ..), hown.of_prefix (hf.progress hk).left⟩
  refine ⟨hf.context, order, ?_, ?_, fun hk hn => ?_, fun p hp => (hf.progress hp).right, hv.receiving_le⟩
  · obtain ⟨_, hp⟩ := hf.first
    exact hp ▸ List.prefix_append ..
  · cases hk : s.keys k
    case none   =>
      rw [hf.unbound hk]
      exact List.nil_prefix
    case some p => exact (hf.progress hk).left
  · exact (hf.begun hk).resolve_right fun ⟨item, hi, hb⟩ =>
      Bool.false_ne_true ((hn item hi).symm.trans hb.accepting)

-- What was received on the socket in a run.
def arrivals (k : Socket) (s : State) (actions : List Action) : List Arrival :=
  trace step (arrives k) s actions

theorem tail_arrives (k : Socket) (s : State) (a : Action) : (s.arrives k a).tail = [] := by
  unfold arrives
  split
  case h_1 =>
    split
    case h_1 =>
      split
      case h_1 => split <;> rfl
      case h_2 => rfl
    case h_2 => rfl
  case h_2 => rfl

theorem Follows.accepts_first {a : Action} {x : Arrival} (hf : s.Follows bufferSize k r) (hx : x ∈ s.arrives k a)
    (ha : x.accepted = true) : r = {} := by
  unfold arrives at hx
  split at hx
  case h_1 =>
    split at hx
    case h_1 kind pSC pIC hi =>
      split at hx
      case h_1 c hc =>
        split at hx
        case isTrue h =>
          obtain rfl := List.mem_singleton.mp hx
          obtain rfl := of_decide_eq_true ha
          exact ((hf.items _ (List.mem_of_getElem? hi)).stands pIC rfl c hc h.left).right
        case isFalse => cases hx
      case h_2 => cases hx
    case h_2 => cases hx
  case h_2 => cases hx

theorem follows_reached {maxThreadNum threads standby : Nat} {actions : List Action} (hl : k ≠ listenSocket)
    (h : Runs.run step (start bufferSize maxThreadNum threads standby) actions = .ok s') :
    s'.Valid ∧ s'.Follows bufferSize k
        (({} : Reader).takes bufferSize (arrivals k (start bufferSize maxThreadNum threads standby) actions)) ∧
      ∀ x ∈ (arrivals k (start bufferSize maxThreadNum threads standby) actions).tail, x.accepted = false := by
  have := observed (f := arrives k)
    (I := fun shown s => s.Valid ∧ s.Exclusive ∧ s.Sockets ∧
      s.Follows bufferSize k (({} : Reader).takes bufferSize shown) ∧ ∀ x ∈ shown.tail, x.accepted = false)
    ⟨.start, .start, start_sockets, .start, List.forall_mem_nil _⟩ along_true
    (fun shown s a s' ⟨hv, he, hs, hf, ht⟩ _ h => ?_) h
  · exact ⟨this.left, this.right.right.right⟩
  · have hs' : s'.Sockets := by
      obtain ⟨_, _, _, _, hst, rfl⟩ := step_ok h
      exact hs.step (hst.hands hv hs)
    refine ⟨hv.step h, he.step hv h, hs', ?_, fun x hx => ?_⟩
    · rw [Reader.takes, List.foldl_append]
      exact hf.step hv he hs hl h
    · rcases shown with _ | ⟨y, shown⟩
      · rw [List.nil_append, tail_arrives] at hx
        cases hx
      · rcases List.mem_append.mp hx with hx | hx
        · exact ht x hx
        · refine Bool.eq_false_iff.mpr fun ha => ?_
          have hle : (0 : Int) + (y :: shown).length ≤ (Reader.takes bufferSize {} (y :: shown)).length :=
            Reader.length_takes bufferSize
          rw [hf.accepts_first hx ha, List.length_cons] at hle
          dsimp only at hle
          omega

-- Whatever the threads do at the same time, the callbacks for a connection are those of the handlers
-- alone, in the order of its packets.
theorem delivered {maxThreadNum threads standby : Nat} {actions : List Action} (hl : k ≠ listenSocket)
    (h : Runs.run step (start bufferSize maxThreadNum threads standby) actions = .ok s') :
    s'.Delivered k
      (({} : Reader).takes bufferSize (arrivals k (start bufferSize maxThreadNum threads standby) actions)) := by
  obtain ⟨hv, hf, _⟩ := follows_reached hl h
  exact hf.calls_delivered hv

-- Two packets of a connection: the callback for the second is called before that for the first.
def overtaken : List Action := [
  .initIOCP true true, .initIOCP true true, .initIOCP true true,
  .complete 1 (.received Message.sample.bytes), .getQueuedCompletionStatus (some 0), .run 0 true true,
  .complete 1 (.received Message.sample.bytes), .getQueuedCompletionStatus (some 0), .run 0 true true,
  .run 0 true true, .run 1 true true, .run 0 true true, .run 0 true true]

theorem delivered_overtaken :
    ∃ s', Runs.run step (start 8192 2 2 2) overtaken = .ok s' ∧ s'.about 1 = [(2, 226), (listening, 113)] ∧
      s'.Delivered 1 (({} : Reader).takes 8192 (arrivals 1 (start 8192 2 2 2) overtaken)) := by
  obtain ⟨s', h, ha⟩ : ∃ s', Runs.run step (start 8192 2 2 2) overtaken = .ok s' ∧
      s'.about 1 = [(2, 226), (listening, 113)] := exists_ok (by decide +kernel)
  exact ⟨s', h, ha, delivered (by decide) h⟩

end State
end Server8
