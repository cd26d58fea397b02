import Server8.IOCP.Closing

-- Which context belongs to which: every context is in the map of one socket context.

namespace Server8

open Runs

namespace ContextHeap

variable {h h' : ContextHeap} {pSC pIC p q a : Nat} {k j : Int} {c : IOCPContext} {sc : SocketContext}

def Files (h : ContextHeap) (pSC : Nat) (k : Int) (pIC : Nat) : Prop :=
  ∃ sc, h.socketContexts.block pSC = some sc ∧ sc.iocpContextMap[k]? = some pIC

-- The maps have the contexts that are not deleted, each once. Those of the listening context wait for
-- connections, and no others do.
structure Filed (h : ContextHeap) : Prop where
  live   : ∀ {p k a}, h.Files p k a →
    ∃ c, h.contexts.block a = some c ∧ (c.operation = .accept ↔ p = listening)
  key    : ∀ {p sc k a}, h.socketContexts.block p = some sc → sc.iocpContextMap[k]? = some a →
    k ≤ sc.count
  unique : ∀ {p q k j a}, h.Files p k a → h.Files q j a → p = q ∧ k = j
  filed  : ∀ {a c}, h.contexts.block a = some c → ∃ p k, h.Files p k a

namespace Filed

theorem setContext (hf : h.Filed) (hs : h.setContext pIC c = .ok h')
    (ho : ∀ c', h.contexts.block pIC = some c' → (c.operation = .accept ↔ c'.operation = .accept)) :
    h'.Filed := by
  obtain ⟨contexts, hw, rfl⟩ := setContext_ok.mp hs
  obtain ⟨hb, _, c', hc'⟩ := Memory.write_eq_some hw
  refine ⟨fun {p k a} h => ?_, hf.key, hf.unique, fun {a c₁} ha => ?_⟩
  · obtain ⟨c₁, hc₁, ho₁⟩ := hf.live h
    rw [hb, Function.update_apply]
    split
    case isTrue ha =>
      cases (ha ▸ hc₁).symm.trans hc'
      exact ⟨c, rfl, (ho _ hc').trans ho₁⟩
    case isFalse => exact ⟨c₁, hc₁, ho₁⟩
  · rw [hb, Function.update_apply] at ha
    split at ha
    case isTrue he => exact hf.filed (he ▸ hc')
    case isFalse   => exact hf.filed ha

-- A change of a socket context that leaves its map alone.
theorem setSocketContext {sc' : SocketContext} (hf : h.Filed)
    (hsc : h.socketContexts.block pSC = some sc) (hs : h.setSocketContext pSC sc' = .ok h')
    (map : sc'.iocpContextMap = sc.iocpContextMap) (count : sc'.count = sc.count) : h'.Filed := by
  obtain ⟨socketContexts, hw, rfl⟩ := setSocketContext_ok.mp hs
  obtain ⟨hb, _⟩ := Memory.write_eq_some hw
  have files {p k a} : Files { h with socketContexts } p k a ↔ h.Files p k a := by
    simp only [Files, hb, Function.update_apply]
    split
    case isTrue he => simp [he, hsc, map]
    case isFalse   => rfl
  refine ⟨fun h => hf.live (files.mp h), fun {p sc₁ k a} hp hk => ?_,
    fun h₁ h₂ => hf.unique (files.mp h₁) (files.mp h₂), fun h => ?_⟩
  · rw [hb, Function.update_apply] at hp
    split at hp
    case isTrue =>
      cases hp
      rw [count]
      exact hf.key hsc (map ▸ hk)
    case isFalse => exact hf.key hp hk
  · obtain ⟨p, k, hp⟩ := hf.filed h
    exact ⟨p, k, files.mpr hp⟩

-- A new context is filed behind all the others of its socket context.
theorem files_createIOCPContext {bufSize : Int} {set : IOCPContext → IOCPContext} (hf : h.Filed)
    (hc : h.createIOCPContext pSC bufSize set = .ok (h', pIC)) :
    h'.Files p k a ↔ h.Files p k a ∨
      p = pSC ∧ a = pIC ∧ ∃ sc, h.socketContexts.block pSC = some sc ∧ k = sc.count + 1 := by
  obtain ⟨sc, _, hsc, _, _, _, _, hb, _⟩ := createIOCPContext_ok hc
  have hnone : sc.iocpContextMap[sc.count + 1]? = none := by
    cases hk : sc.iocpContextMap[sc.count + 1]?
    case none   => rfl
    case some a =>
      have := hf.key hsc hk
      omega
  simp only [Files, hb, Function.update_apply]
  split
  case isTrue he =>
    simp only [he, hsc, Option.some.injEq, exists_eq_left', ContextHeap.filed,
      SocketContext.getElem?_insertIfNew, hnone, and_true, true_and]
    split
    case isTrue hk  => simp [← hk, hnone, eq_comm]
    case isFalse hk => simp [Ne.symm hk]
  case isFalse he => simp [he]

theorem createIOCPContext {bufSize : Int} {set : IOCPContext → IOCPContext} (hf : h.Filed)
    (hc : h.createIOCPContext pSC bufSize set = .ok (h', pIC))
    (ho : ∀ c, (set c).operation = .accept ↔ pSC = listening) : h'.Filed := by
  have files {p k a} := files_createIOCPContext (p := p) (k := k) (a := a) hf hc
  obtain ⟨sc, c, hsc, _, rfl, hb, _, hb', _⟩ := createIOCPContext_ok hc
  have fresh {p k} : ¬h.Files p k h.contexts.newAddress := fun hp => by
    obtain ⟨_, hn, _⟩ := hf.live hp
    simp [Memory.block_newAddress] at hn
  refine ⟨fun {p k a} hp => ?_, fun {p sc₁ k a} hp hk => ?_, fun {p q k j a} h₁ h₂ => ?_,
    fun {a c₁} ha => ?_⟩
  · cases files.mp hp
    case inl hp =>
      obtain ⟨c₁, hc₁, ho₁⟩ := hf.live hp
      refine ⟨c₁, ?_, ho₁⟩
      rw [hb, Function.update_of_ne (Memory.newAddress_ne hc₁), hc₁]
    case inr hp =>
      obtain ⟨rfl, rfl, _⟩ := hp
      exact ⟨_, by rw [hb, Function.update_self], ho c⟩
  · rw [hb', Function.update_apply] at hp
    split at hp
    case isTrue =>
      cases hp
      simp only [ContextHeap.filed, SocketContext.getElem?_insertIfNew] at hk ⊢
      split at hk
      case isTrue he => exact Int.le_of_eq he.left.symm
      case isFalse   =>
        have := hf.key hsc hk
        omega
    case isFalse => exact hf.key hp hk
  · rcases files.mp h₁ with h₁ | ⟨rfl, rfl, sc₁, hsc₁, rfl⟩
    · rcases files.mp h₂ with h₂ | ⟨rfl, rfl, _⟩
      · exact hf.unique h₁ h₂
      · exact absurd h₁ fresh
    · rcases files.mp h₂ with h₂ | ⟨rfl, _, sc₂, hsc₂, rfl⟩
      · exact absurd h₂ fresh
      · cases hsc₁.symm.trans hsc₂
        exact ⟨rfl, rfl⟩
  · rw [hb, Function.update_apply] at ha
    split at ha
    case isTrue he => exact ⟨pSC, sc.count + 1, files.mpr (.inr ⟨rfl, he, sc, hsc, rfl⟩)⟩
    case isFalse   =>
      obtain ⟨p, k, hp⟩ := hf.filed ha
      exact ⟨p, k, files.mpr (.inl hp)⟩

-- A removed context is taken out of the map and deleted.
theorem files_removeIOCPContext (hr : h.removeIOCPContext pSC j = .ok h') :
    h'.Files p k a ↔ h.Files p k a ∧ ¬(p = pSC ∧ k = j) := by
  obtain ⟨sc, sc', hsc, _, _, hb, _, _, _, _, hmap⟩ := removeIOCPContext_ok hr
  simp only [Files, hb, Function.update_apply]
  split
  case isTrue he =>
    simp only [he, hsc, Option.some.injEq, exists_eq_left', hmap, true_and]
    split
    case isTrue hk  => simp [hk]
    case isFalse hk => simp [Ne.symm hk]
  case isFalse he => simp [he]

theorem removeIOCPContext (hf : h.Filed) (hr : h.removeIOCPContext pSC j = .ok h') : h'.Filed := by
  have files {p k a} := files_removeIOCPContext (p := p) (k := k) (a := a) hr
  obtain ⟨sc, sc', hsc, hb, _, hb', _, _, _, hcount, hmap⟩ := removeIOCPContext_ok hr
  have hj {a : Nat} : sc.iocpContextMap[j]? = some a ↔ h.Files pSC j a := by
    simp [Files, hsc]
  refine ⟨fun {p k a} hp => ?_, fun {p sc₁ k a} hp hk => ?_, fun h₁ h₂ => ?_, fun {a c₁} ha => ?_⟩
  · obtain ⟨hp, hne⟩ := files.mp hp
    obtain ⟨c₁, hc₁, ho₁⟩ := hf.live hp
    refine ⟨c₁, ?_, ho₁⟩
    rw [hb, if_neg fun he => hne (hf.unique hp (hj.mp he)), hc₁]
  · rw [hb', Function.update_apply] at hp
    split at hp
    case isTrue =>
      cases hp
      rw [hmap] at hk
      split at hk
      case isTrue  => cases hk
      case isFalse => exact hcount ▸ hf.key hsc hk
    case isFalse => exact hf.key hp hk
  · exact hf.unique (files.mp h₁).left (files.mp h₂).left
  · rw [hb] at ha
    split at ha
    case isTrue     => cases ha
    case isFalse hn =>
      obtain ⟨p, k, hp⟩ := hf.filed ha
      exact ⟨p, k, files.mpr ⟨hp, fun ⟨he, hk⟩ => hn (hj.mpr (he ▸ hk ▸ hp))⟩⟩

theorem values_eq (map : Std.TreeMap Int Nat) : map.values = map.toList.map Prod.snd := by
  have h : map.values = map.foldr (fun _ a l => a :: l) [] := rfl
  rw [h, Std.TreeMap.foldr_eq_foldr_toList, List.map_eq_foldr]

theorem mem_values {map : Std.TreeMap Int Nat} :
    a ∈ map.values ↔ ∃ k : Int, map[k]? = some a := by
  rw [values_eq, List.mem_map]
  constructor
  case mp =>
    intro ⟨⟨k, a'⟩, hm, he⟩
    exact ⟨k, he ▸ Std.TreeMap.mem_toList_iff_getElem?_eq_some.mp hm⟩
  case mpr =>
    intro ⟨k, hk⟩
    exact ⟨(k, a), Std.TreeMap.mem_toList_iff_getElem?_eq_some.mpr hk, rfl⟩

-- What is left when all the contexts of `pSC` are deleted, and taken out of its map.
theorem delete (hf : h.Filed) {values : List Nat} (hv : ∀ a, a ∈ values ↔ ∃ k, h.Files pSC k a)
    (hb : ∀ a, h'.contexts.block a = if a ∈ values then none else h.contexts.block a)
    (files : ∀ p k a, h'.Files p k a ↔ h.Files p k a ∧ p ≠ pSC)
    (key : ∀ {p sc k a}, h'.socketContexts.block p = some sc → sc.iocpContextMap[k]? = some a →
      k ≤ sc.count) : h'.Filed := by
  refine ⟨fun {p k a} hp => ?_, key, fun h₁ h₂ => ?_, fun {a c₁} ha => ?_⟩
  · obtain ⟨hp, hne⟩ := (files p k a).mp hp
    obtain ⟨c₁, hc₁, ho₁⟩ := hf.live hp
    refine ⟨c₁, ?_, ho₁⟩
    rw [hb, if_neg, hc₁]
    intro hm
    obtain ⟨j, hj⟩ := (hv a).mp hm
    exact hne (hf.unique hp hj).left
  · exact hf.unique ((files _ _ _).mp h₁).left ((files _ _ _).mp h₂).left
  · rw [hb] at ha
    split at ha
    case isTrue     => cases ha
    case isFalse hn =>
      obtain ⟨p, k, hp⟩ := hf.filed ha
      exact ⟨p, k, (files p k a).mpr ⟨hp, fun he => hn ((hv a).mpr ⟨k, he ▸ hp⟩)⟩⟩

theorem mem_values_iff (hsc : h.socketContexts.block pSC = some sc) (a : Nat) :
    a ∈ sc.iocpContextMap.values ↔ ∃ k, h.Files pSC k a := by
  simp [mem_values, Files, hsc]

theorem files_deleteSocketContext {socket : Option Socket}
    (hd : h.deleteSocketContext pSC = .ok (h', socket)) (p : Nat) (k : Int) (a : Nat) :
    h'.Files p k a ↔ h.Files p k a ∧ p ≠ pSC := by
  obtain ⟨sc, hsc, _, _, _, hb, _⟩ := deleteSocketContext_ok hd
  simp only [Files, hb, Function.update_apply]
  split
  case isTrue he  => simp [he]
  case isFalse he => simp [he]

theorem deleteSocketContext {socket : Option Socket} (hf : h.Filed)
    (hd : h.deleteSocketContext pSC = .ok (h', socket)) : h'.Filed := by
  have files := files_deleteSocketContext hd
  obtain ⟨sc, hsc, _, hb, _, hb', _⟩ := deleteSocketContext_ok hd
  refine hf.delete (mem_values_iff hsc) hb files fun {p sc₁ k a} hp hk => ?_
  rw [hb', Function.update_apply] at hp
  split at hp
  case isTrue  => cases hp
  case isFalse => exact hf.key hp hk

theorem files_newSocketContext (h : ContextHeap) (socket : Option Socket) :
    (h.newSocketContext socket).1.Files p k a ↔ h.Files p k a := by
  simp only [Files, ContextHeap.newSocketContext, Memory.alloc, Function.update_apply]
  split
  case isTrue he  => simp [he, Memory.block_newAddress]
  case isFalse he => rfl

theorem newSocketContext (hf : h.Filed) (socket : Option Socket) :
    (h.newSocketContext socket).1.Filed where
  live h₁        := hf.live ((files_newSocketContext h socket).mp h₁)
  key {p sc k a} := fun hp hk => by
    simp only [ContextHeap.newSocketContext, Memory.alloc, Function.update_apply] at hp
    split at hp
    case isTrue =>
      cases hp
      simp at hk
    case isFalse => exact hf.key hp hk
  unique h₁ h₂   := hf.unique ((files_newSocketContext h socket).mp h₁)
    ((files_newSocketContext h socket).mp h₂)
  filed ha       :=
    have ⟨p, k, hp⟩ := hf.filed ha
    ⟨p, k, (files_newSocketContext h socket).mpr hp⟩

end Filed

end ContextHeap
namespace Module

variable {m m' : Module} {new : List Item} {task : Task} {p : Completion} {c : IOCPContext}
  {worker first second : Bool}

theorem dispatched_filed (hw : m.Wired) (hc : m.contexts.block p.pIC = some c) (hf : m.Filed)
    (h : Dispatched m p c first second m' new) : m'.Filed := by
  cases h
  case doAccept h =>
    rcases doAccept_ok h with ⟨rfl, _⟩ | ⟨_, heap, c₀, _, _, ⟨_, _, ho, _, _, heap₀, hcreate, hset⟩, _, rfl, _⟩
    · exact hf
    · have hne : m.socketContexts.newAddress ≠ listening := Nat.ne_of_gt (hw.lt hw.listen)
      have hf₀ := (hf.newSocketContext c.socket).createIOCPContext hcreate fun _ => by simp [hne]
      refine hf₀.setContext hset fun c' hc' => ?_
      obtain ⟨_, _, _, _, _, hb, _⟩ := ContextHeap.createIOCPContext_ok hcreate
      rw [hb, Function.update_self] at hc'
      cases hc'
      simp [ho]
  case doRecv operation _ h =>
    obtain ⟨heap, hset, rfl, _⟩ := doRecv_ok h
    refine hf.setContext hset fun c' hc' => ?_
    cases hc.symm.trans hc'
    rw [(c.doRecv_frame m.bufferSize c.wsabuf.buf p.dwBytesTransfered).left]
  case doSend operation _ h =>
    obtain ⟨heap, _, hs, hset, rfl, _⟩ := doSend_ok h
    refine hf.setContext hset fun c' hc' => ?_
    cases hc.symm.trans hc'
    rw [hs.left]
  case exit h =>
    obtain ⟨heap, socket, hd, rfl, _⟩ := exitThread_ok h
    exact hf.deleteSocketContext hd
  all_goals exact hf

theorem run_filed (hw : m.Wired) (ht : task.Typed m)
    (bound : ∀ p, m.socketContextMap[p]? ≠ none → (∃ k, m.keys k = some p) ∧ p ≠ listening)
    (hf : m.Filed) (h : m.run worker first second task = .ok (m', new)) : m'.Filed := by
  cases task
  case dispatch q =>
    obtain ⟨c, hc, hd⟩ := dispatch_ok h
    exact dispatched_filed hw hc hf hd
  case insert =>
    obtain ⟨_, _, rfl, _⟩ := insert_ok h
    exact hf
  case process =>
    obtain ⟨_, _, rfl, _⟩ := process_ok h
    exact hf
  case postAccept =>
    obtain ⟨c, c', heap, hc, hset, ⟨ho, _⟩, rfl, _⟩ := repost_ok h
    refine hf.setContext hset fun c₁ hc₁ => ?_
    rw [ho, ht.operation c₁ hc₁]
    rfl
  case removeIOCPContext =>
    obtain ⟨_, heap, _, hr, rfl, _⟩ := remove_ok h
    exact hf.removeIOCPContext hr
  case doRecv =>
    obtain ⟨c, hc, ⟨_, _, _, rfl, _⟩ | ⟨_, heap, hset, rfl, _⟩⟩ := callback_ok h
    · exact hf
    · refine hf.setContext hset fun c₁ hc₁ => ?_
      rw [ht.operation c₁ hc₁]
      rfl
  case doSend =>
    rcases perform_ok h with ⟨_, rfl, _⟩ | ⟨_, _, _, _, _, h⟩
    · exact hf
    · rcases h with ⟨_, _, rfl, _⟩ | ⟨_, _, rfl, _⟩ | ⟨_, heap, _, hr, rfl, _⟩
      · exact hf
      · exact hf
      · exact hf.removeIOCPContext hr
  case resent =>
    obtain ⟨hm, _⟩ := resent_ok h
    cases ht.setOperation hm
    exact hf
  case sendError =>
    cases h
    exact hf
  case postCloseConnection pSC receive =>
    rcases postCloseConnection_ok h with ⟨rfl, _⟩ | ⟨_, _, heap, _, hmap, hsc, _, hset, hcreate, rfl, _⟩
    · exact hf
    · refine (hf.setSocketContext hsc hset rfl rfl).createIOCPContext hcreate fun _ => ?_
      simp [(bound pSC hmap).right]
  case doCloseConnection =>
    obtain ⟨_, ⟨_, rfl⟩ | ⟨heap, socket, _, hdel, rfl⟩⟩ := doCloseConnection_ok h
    · exact hf
    · exact hf.deleteSocketContext hdel
  case find =>
    obtain ⟨rfl, _⟩ := find_ok h
    exact hf
  case bind pSC data =>
    rcases bindSocket_ok h with ⟨rfl, _⟩ | ⟨k, sc, heap, _, hsc, hk, hkeys, hcreate, rfl, _⟩
    · exact hf
    · refine hf.createIOCPContext hcreate fun _ => ?_
      have hne : pSC ≠ listening := fun he => by
        cases hk.symm.trans (hw.socket hw.listen (he ▸ hsc))
        simp [hw.listen] at hkeys
      simp [hne]
  case publish =>
    obtain ⟨c, _, heap, heap', hc, hset, hheap, _, rfl, _⟩ := publish_ok h
    have hf' : heap.Filed := by
      refine hf.setContext hset fun c₁ hc₁ => ?_
      rw [ht.left.operation c₁ hc₁]
      rfl
    rcases hheap with ⟨_, rfl⟩ | ⟨_, hr⟩
    · exact hf'
    · exact hf'.removeIOCPContext hr
  case create pSC data =>
    obtain ⟨_, heap, _, _, hcreate, rfl, _⟩ := create_ok h
    exact hf.createIOCPContext hcreate fun _ => by simp [IOCPContext.setSend, ht.right]
  case postSend =>
    obtain ⟨_, _, rfl, _⟩ := postSend_ok h
    exact hf
  case sent =>
    obtain ⟨hm, _⟩ := sent_ok h
    cases ht.setOperation hm
    exact hf

theorem stopIOCP_filed (hw : m.Wired) (hf : m.Filed) (h : m.stopIOCP = .ok (m', new)) : m'.Filed := by
  unfold stopIOCP at h
  split at h
  case h_1 =>
    cases h
    exact hf
  case h_2 =>
    obtain ⟨heap, pIC, hcreate, rfl, _⟩ := postExit_ok h
    have hne : m.socketContexts.newAddress ≠ listening := Nat.ne_of_gt (hw.lt hw.listen)
    exact (hf.newSocketContext none).createIOCPContext hcreate fun _ => by simp [hne]
  case h_3 =>
    cases h
    exact hf
  case h_4 =>
    obtain ⟨sc, contexts, heap, hsc, hd, hset, rfl, _⟩ := deleteStandby_ok h
    obtain ⟨_, hb⟩ := ContextHeap.deleteContexts_eq_some _ hd
    obtain ⟨socketContexts, hw, rfl⟩ := ContextHeap.setSocketContext_ok.mp hset
    obtain ⟨hb', _⟩ := Memory.write_eq_some hw
    refine hf.delete (ContextHeap.Filed.mem_values_iff hsc) hb (fun p k a => ?_) fun {p sc₁ k a} hp hk => ?_
    · simp only [ContextHeap.Files, hb', Function.update_apply]
      split
      case isTrue he  => simp [he]
      case isFalse he => simp [he]
    · simp only [hb', Function.update_apply] at hp
      split at hp
      case isTrue =>
        cases hp
        simp at hk
      case isFalse => exact hf.key hp hk
  case h_5 => cases h

end Module

namespace State

variable {s s' : State} {a : Action} {bufferSize : Int} {maxThreadNum threads standby : Nat}
  {actions : List Action}

theorem filed_step (hv : s.Valid) (hf : s.Filed) (h : s.step a = .ok s') : s'.Filed := by
  obtain ⟨used, m', new, rest, hs, rfl⟩ := step_ok h
  clear h
  cases hs
  case initIOCP h =>
    obtain ⟨_, heap', heap, pContext, c, c', hcreate, hc, ⟨ho, _⟩, hset, rfl, hi⟩ := Module.initIOCP_ok h
    have hf' : heap'.Filed := by
      refine (hf.createIOCPContext hcreate fun _ => by simp).setContext hset fun c₁ hc₁ => ?_
      obtain ⟨_, _, _, _, _, hb, _⟩ := ContextHeap.createIOCPContext_ok hcreate
      rw [hb, Function.update_self] at hc₁
      cases hc₁
      simp [ho]
    rcases hi with ⟨_, rfl, _⟩ | ⟨_, hr, _⟩
    · exact hf'
    · exact hf'.removeIOCPContext hr
  case stopIOCP h => exact Module.stopIOCP_filed hv.wired hf h
  case destroy h  =>
    obtain ⟨heap, socket, hd, rfl, _⟩ := Module.destroy_ok h
    exact hf.deleteSocketContext hd
  case connected  => exact hf.newSocketContext _
  case complete h =>
    rcases Module.complete_ok h with ⟨rfl, _⟩ | ⟨_, _, _, hc, _, hset, rfl, _⟩ | ⟨_, _, rfl, _⟩
    · exact hf
    · refine hf.setContext hset fun c' hc' => ?_
      cases hc.symm.trans hc'
      rfl
    · exact hf
  case run hi h   =>
    exact Module.run_filed hv.wired (hv.typed _ (List.mem_of_getElem? hi)) hv.bound hf h
  all_goals exact hf

theorem start_unfiled {p : Nat} {k : Int} {a : Nat} :
    ¬(start bufferSize maxThreadNum threads standby).Files p k a := by
  intro ⟨sc, hsc, hk⟩
  simp only [start, Memory.alloc, Function.update_apply] at hsc
  split at hsc
  case isTrue =>
    cases hsc
    simp at hk
  case isFalse => simp [Memory.empty] at hsc

theorem filed_start : (start bufferSize maxThreadNum threads standby).Filed where
  live h      := absurd h start_unfiled
  key hp hk   := absurd ⟨_, hp, hk⟩ start_unfiled
  unique h    := absurd h start_unfiled
  filed       := nofun

end State
end Server8
