import Server8.IOCP.Simulation

-- Who works with a context: an operation that is not completed, its packet, or the thread that handles
-- it.

namespace Server8

open Runs

-- A thread that has nothing left to do for a send has given the context away, and so has one that has
-- posted a send.
def Task.context : Task → Option Nat
  | .dispatch p              => some p.pIC
  | .insert _ pIC _ _ _      => some pIC
  | .process _ pIC _         => some pIC
  | .postAccept pIC _ _      => some pIC
  | .removeIOCPContext _ pIC => some pIC
  | .doRecv _ pIC _ _ _      => some pIC
  | .doSend _ _ _ _ []       => none
  | .doSend _ pIC _ _ _      => some pIC
  | .resent _ pIC posted _ _ => if posted then none else some pIC
  | .publish _ pIC _         => some pIC
  | .postSend _ pIC          => some pIC
  | .sent _ pIC posted       => if posted then none else some pIC
  | _                        => none

-- The context whose `operation` a thread still writes after it posted a send with it.
def Task.writes : Task → Option Nat
  | .resent _ pIC true _ _ => some pIC
  | .sent _ pIC true       => some pIC
  | _                      => none

def Item.context : Item → Option Nat
  | .operation _ _ pIC => some pIC
  | .packet p          => some p.pIC
  | .thread _ task     => task.context

def Item.uses (a : Nat) (item : Item) : Bool :=
  item.context = some a

-- A send that goes out again is the last that the thread does with the context.
def Item.Releases : Item → Prop
  | .thread _ (.doSend _ _ true _ effects) => ∀ d, .post d ∈ effects → effects = [.post d]
  | .thread _ (.resent _ _ true _ effects) => effects = []
  | _                                      => True

section Uses

variable {item : Item} {a : Nat}

theorem uses_iff : item.uses a = true ↔ item.context = some a := by
  simp [Item.uses]

end Uses

namespace ContextHeap

variable {h h₁ h' : ContextHeap} {pSC pIC : Nat} {c : IOCPContext} {sc : SocketContext} {user : Option Nat}

-- Only the context of the user is written to. Others are as they were, or deleted.
structure Touches (h : ContextHeap) (user : Option Nat) (h' : ContextHeap) : Prop where
  le    : h.contexts.newAddress ≤ h'.contexts.newAddress
  block : ∀ {a c}, a < h.contexts.newAddress → h'.contexts.block a = some c →
    h.contexts.block a = some c ∨ user = some a

namespace Touches

theorem refl (h : ContextHeap) : Touches h user h :=
  ⟨Nat.le_refl _, fun _ => .inl⟩

theorem trans (t₁ : Touches h user h₁) (t₂ : Touches h₁ user h') : Touches h user h' where
  le := Nat.le_trans t₁.le t₂.le
  block ha hc := by
    cases t₂.block (Nat.lt_of_lt_of_le ha t₁.le) hc
    case inl hc => exact t₁.block ha hc
    case inr he => exact .inr he

-- What happens to new contexts is not seen.
theorem fresh {b : Nat} (t : Touches h (some b) h') (hb : h.contexts.newAddress ≤ b) : Touches h user h' where
  le := t.le
  block ha hc := by
    cases t.block ha hc
    case inl hc => exact .inl hc
    case inr he => exact absurd ha (Nat.not_lt.mpr (Option.some.inj he ▸ hb))

theorem setContext (hs : h.setContext pIC c = .ok h') : Touches h (some pIC) h' := by
  obtain ⟨contexts, hw, rfl⟩ := setContext_ok.mp hs
  obtain ⟨hb, hn, _⟩ := Memory.write_eq_some hw
  refine ⟨Nat.le_of_eq hn.symm, fun {a c'} _ hc => ?_⟩
  rw [hb, Function.update_apply] at hc
  split at hc
  case isTrue ha => exact .inr (ha ▸ rfl)
  case isFalse   => exact .inl hc

theorem setSocketContext (hs : h.setSocketContext pSC sc = .ok h') : Touches h user h' := by
  obtain ⟨socketContexts, _, rfl⟩ := setSocketContext_ok.mp hs
  exact ⟨Nat.le_refl _, fun _ => .inl⟩

theorem createIOCPContext {bufSize : Int} {set : IOCPContext → IOCPContext}
    (hc : h.createIOCPContext pSC bufSize set = .ok (h', pIC)) : Touches h user h' := by
  obtain ⟨_, _, _, _, rfl, hb, hn, _⟩ := createIOCPContext_ok hc
  refine ⟨hn ▸ Nat.le_succ _, fun ha hc => ?_⟩
  rw [hb, Function.update_of_ne (Nat.ne_of_lt ha)] at hc
  exact .inl hc

theorem of_deleted {deleted : Nat → Prop} [DecidablePred deleted]
    (hn : h'.contexts.newAddress = h.contexts.newAddress)
    (hb : ∀ a, h'.contexts.block a = if deleted a then none else h.contexts.block a) : Touches h user h' := by
  refine ⟨Nat.le_of_eq hn.symm, fun {a c} _ hc => ?_⟩
  rw [hb] at hc
  split at hc
  case isTrue  => cases hc
  case isFalse => exact .inl hc

theorem removeIOCPContext {k : Int} (hr : h.removeIOCPContext pSC k = .ok h') : Touches h user h' := by
  obtain ⟨_, _, _, hb, hn, _⟩ := removeIOCPContext_ok hr
  exact of_deleted hn hb

theorem deleteSocketContext {socket : Option Socket} (hd : h.deleteSocketContext pSC = .ok (h', socket)) :
    Touches h user h' := by
  obtain ⟨_, _, _, hb, hn, _⟩ := deleteSocketContext_ok hd
  exact of_deleted hn hb

theorem newSocketContext (h : ContextHeap) (socket : Option Socket) :
    Touches h user (h.newSocketContext socket).1 :=
  ⟨Nat.le_refl _, fun _ => .inl⟩

end Touches

end ContextHeap

namespace Module

variable {m m' : Module} {used new : List Item} {task : Task} {p : Completion} {c : IOCPContext}
  {kind : Kind} {pSC pIC : Nat} {worker first second : Bool} {user : Option Nat}

-- What a step does with contexts: the items that come of it work with the context that was in use
-- before, or with new ones, each with its own.
structure Uses (m : Module) (user : Option Nat) (m' : Module) (new : List Item) : Prop where
  touches  : m.Touches user m'.toContextHeap
  count    : ∀ a, new.countP (Item.uses a) ≤ (if user = some a then 1 else 0) +
    if m.contexts.newAddress ≤ a ∧ a < m'.contexts.newAddress then 1 else 0
  releases : ∀ item ∈ new, item.Releases

-- No context is new.
theorem Uses.of_count (touches : m.Touches user m'.toContextHeap)
    (count : ∀ a, new.countP (Item.uses a) ≤ if user = some a then 1 else 0)
    (releases : ∀ item ∈ new, item.Releases) : m.Uses user m' new :=
  ⟨touches, fun a => Nat.le_trans (count a) (Nat.le_add_right _ _), releases⟩

-- A step that leaves one item behind, with the same context or none.
theorem Uses.next {item : Item} (touches : m.Touches user m'.toContextHeap)
    (context : ∀ a, item.context = some a → user = some a) (releases : item.Releases) :
    m.Uses user m' [item] := by
  refine .of_count touches (fun a => ?_) (by simpa using releases)
  rw [List.countP_singleton]
  split
  case isTrue h  => rw [if_pos (context a (uses_iff.mp h))]
  case isFalse   => exact Nat.zero_le _

theorem Uses.none (touches : m.Touches user m'.toContextHeap) : m.Uses user m' [] :=
  .of_count touches (fun _ => Nat.zero_le _) nofun

-- A step that leaves one item behind, with a new context.
theorem Uses.fresh {item : Item} (touches : m.Touches user m'.toContextHeap)
    (context : ∀ a, item.context = some a → m.contexts.newAddress ≤ a ∧ a < m'.contexts.newAddress)
    (releases : item.Releases) : m.Uses user m' [item] := by
  refine ⟨touches, fun a => ?_, by simpa using releases⟩
  rw [List.countP_singleton]
  split
  case isTrue h  =>
    rw [if_pos (context a (uses_iff.mp h))]
    exact Nat.le_add_left _ _
  case isFalse   => exact Nat.zero_le _

-- An item without a context beside others.
theorem Uses.beside {item : Item} (h : m.Uses user m' new) (context : item.context = Option.none)
    (releases : item.Releases) : m.Uses user m' (item :: new) := by
  refine ⟨h.touches, fun a => ?_, List.forall_mem_cons.mpr ⟨releases, h.releases⟩⟩
  rw [List.countP_cons_of_neg (by simp [Item.uses, context])]
  exact h.count a

theorem complete_uses {result : Completed} (h : m.complete kind pSC pIC result = .ok (m', new)) :
    m.Uses (some pIC) m' new := by
  rcases complete_ok h with ⟨rfl, rfl⟩ | ⟨_, _, _, _, _, hset, rfl, rfl⟩ | ⟨_, _, rfl, rfl⟩
  · exact .next (.refl _) (fun _ => id) trivial
  · exact .next (.setContext hset) (fun _ => id) trivial
  · exact .next (.refl _) (fun _ => id) trivial

theorem doSend_releases (c : IOCPContext) (posted : Bool) (n : Int) :
    (Item.thread worker (.doSend pSC pIC posted (c.doSend posted n).2.2 (c.doSend posted n).2.1)).Releases := by
  cases posted
  case false => trivial
  case true  =>
    unfold IOCPContext.doSend
    dsimp only
    split
    case isTrue => simp [Item.Releases]
    case isFalse =>
      split
      case isTrue  => simp [Item.Releases, IOCPContext.postSend]
      case isFalse => simp [Item.Releases]

theorem doAccept_uses (h : m.doAccept p c first second = .ok (m', new)) : m.Uses (some p.pIC) m' new := by
  rcases doAccept_ok h with ⟨rfl, rfl⟩ | ⟨_, heap, _, _, _, ⟨hb, hn, _⟩, _, rfl, rfl⟩
  · exact .next (.refl _) (fun _ => id) trivial
  · refine ⟨⟨hn ▸ Nat.le_succ _, fun ha hc => ?_⟩, fun a => ?_, by simp [Item.Releases]⟩
    · rw [hb, Function.update_of_ne (Nat.ne_of_lt ha)] at hc
      exact .inl hc
    · simp only [List.countP_cons, List.countP_nil, uses_iff, Item.context, Task.context, Option.some.injEq,
        hn]
      split <;> split <;> split <;> omega

theorem dispatched_uses (h : Dispatched m p c first second m' new) : m.Uses (some p.pIC) m' new := by
  cases h
  case empty             => exact .next (.refl _) (fun _ => id) trivial
  case sendError         => exact .next (.refl _) nofun trivial
  case close             => exact .next (.refl _) nofun trivial
  case closed            => exact .none (.refl _)
  case null              => exact .none (.refl _)
  case doAccept h        => exact doAccept_uses h
  case doRecv h          =>
    obtain ⟨_, hset, rfl, rfl⟩ := doRecv_ok h
    exact .next (.setContext hset) (fun _ => id) trivial
  case doSend h          =>
    obtain ⟨_, _, _, hset, rfl, rfl⟩ := doSend_ok h
    refine .next (.setContext hset) (fun a ha => ?_) (doSend_releases ..)
    simp only [Item.context] at ha
    unfold Task.context at ha
    split at ha <;> simp_all
  case doCloseConnection => exact .next (.refl _) nofun trivial
  case exit h            =>
    obtain ⟨_, _, hd, rfl, rfl⟩ := exitThread_ok h
    exact .none (.deleteSocketContext hd)

theorem perform_uses {posted ret : Bool} {effects : List SendEffect} (ht : m.Holds .send pSC pIC)
    (hl : (Item.thread worker (.doSend pSC pIC posted ret effects)).Releases)
    (h : m.perform pSC pIC posted ret effects = .ok (m', new)) :
    m.Uses (Task.doSend pSC pIC posted ret effects).context m' new := by
  rcases perform_ok h with ⟨rfl, rfl, rfl⟩ | ⟨effect, effects', c, rfl, hc, h⟩
  · cases ret
    case true  => exact .none (.refl _)
    case false => exact .next (.refl _) nofun trivial
  · have context : ∀ a, (Task.doSend pSC pIC posted ret effects').context = some a → some pIC = some a := by
      cases effects'
      case nil  => exact nofun
      case cons => exact fun _ => id
    have releases : (Item.thread true (.doSend pSC pIC posted ret effects')).Releases := by
      cases posted
      case false => trivial
      case true  =>
        intro d hd
        have := hl d (List.mem_cons_of_mem _ hd)
        simp only [List.cons.injEq] at this
        exact absurd hd (by simp [this.right])
    rcases h with ⟨_, rfl, rfl, rfl⟩ | ⟨_, rfl, rfl, rfl⟩ | ⟨_, _, rfl, hr, rfl, rfl⟩
    · exact .next (.refl _) context releases
    · cases posted
      case false => exact .next (.refl _) (fun _ => id) trivial
      case true  =>
        have := hl _ List.mem_cons_self
        simp only [List.cons.injEq] at this
        obtain ⟨_, rfl⟩ := this
        rw [if_pos rfl, posted_of_key (ht.key (.inr rfl) c hc)]
        exact .beside (.next (.refl _) (fun _ => id) trivial) rfl rfl
    · exact .next (.removeIOCPContext hr) context releases

theorem resent_uses {posted ret : Bool} {effects : List SendEffect} (ht : m.Holds .send pSC pIC)
    (hl : (Item.thread worker (.resent pSC pIC posted ret effects)).Releases)
    (h : m.resent pSC pIC posted ret effects = .ok (m', new)) :
    m.Uses (Task.resent pSC pIC posted ret effects).context m' new := by
  obtain ⟨hm, rfl⟩ := resent_ok h
  cases ht.setOperation hm
  cases posted
  case true  =>
    obtain rfl : effects = [] := hl
    exact .next (.refl _) nofun fun _ hd => absurd hd List.not_mem_nil
  case false =>
    cases effects
    case nil  => exact .next (.refl _) nofun trivial
    case cons => exact .next (.refl _) (fun _ => id) trivial

theorem publish_uses {data : Bytes} {posted : Bool} (ht : m.Holds .recv pSC pIC)
    (h : m.publish pSC pIC data posted = .ok (m', new)) : m.Uses (some pIC) m' new := by
  obtain ⟨c, _, _, _, hc, hset, hr, _, rfl, rfl⟩ := publish_ok h
  rcases hr with ⟨rfl, rfl⟩ | ⟨rfl, hr⟩
  · rw [if_pos rfl, posted_of_key (ht.key (.inl rfl) c hc)]
    exact .beside (.next (.setContext hset) (fun _ => id) trivial) rfl trivial
  · exact .next (.trans (.setContext hset) (.removeIOCPContext hr)) nofun trivial

theorem postCloseConnection_uses {receive : Bool}
    (h : m.postCloseConnection worker pSC receive = .ok (m', new)) : m.Uses none m' new := by
  rcases postCloseConnection_ok h with ⟨rfl, rfl, _⟩ | ⟨_, _, _, _, _, _, _, hset, hcreate, rfl, rfl⟩
  · exact .none (.refl _)
  · have touches : m.Touches none _ := .trans (.setSocketContext hset) (.createIOCPContext hcreate)
    obtain ⟨_, _, _, _, rfl, _, hn, _⟩ := ContextHeap.createIOCPContext_ok hcreate
    obtain ⟨_, _, rfl⟩ := ContextHeap.setSocketContext_ok.mp hset
    unfold PostQueuedCompletionStatus
    split
    case isFalse => exact .none touches
    case isTrue  =>
      refine .fresh touches (fun a ha => ?_) trivial
      cases ha
      exact ⟨Nat.le_refl _, hn ▸ Nat.lt_succ_self _⟩

-- A thread goes on with its context, gives it to an operation, or has a new one.
theorem run_uses (ht : task.Typed m) (hl : (Item.thread worker task).Releases)
    (h : m.run worker first second task = .ok (m', new)) : m.Uses task.context m' new := by
  cases task
  case dispatch p =>
    obtain ⟨_, _, hd⟩ := dispatch_ok h
    exact dispatched_uses hd
  case insert flag =>
    obtain ⟨_, _, rfl, rfl⟩ := insert_ok h
    cases flag
    case true  => exact .next (.refl _) (fun _ => id) trivial
    case false => exact .next (.refl _) (fun _ => id) trivial
  case process =>
    obtain ⟨_, _, rfl, rfl⟩ := process_ok h
    exact .next (.refl _) (fun _ => id) trivial
  case postAccept =>
    obtain ⟨_, _, heap, _, hset, _, hm, rfl⟩ := repost_ok h
    have hheap : heap = m'.toContextHeap := congrArg Module.toContextHeap hm
    have touches := hheap ▸ ContextHeap.Touches.setContext hset
    split
    case isTrue  => exact .next touches (fun _ => id) trivial
    case isFalse => exact .next touches (fun _ => id) trivial
  case removeIOCPContext =>
    obtain ⟨_, _, _, hr, rfl, rfl⟩ := remove_ok h
    exact .none (.removeIOCPContext hr)
  case doRecv =>
    obtain ⟨c, hc, ⟨_, _, _, rfl, rfl⟩ | ⟨_, _, hset, rfl, rfl⟩⟩ := callback_ok h
    · exact .next (.refl _) (fun _ => id) trivial
    · rw [posted_of_key (ht.key (.inl rfl) c hc)]
      cases first
      case true  => exact .next (.setContext hset) (fun _ => id) trivial
      case false => exact .next (.setContext hset) nofun trivial
  case doSend    => exact perform_uses ht hl h
  case resent    => exact resent_uses ht hl h
  case sendError =>
    cases h
    exact .next (.refl _) nofun trivial
  case postCloseConnection => exact postCloseConnection_uses h
  case doCloseConnection =>
    have hd := doCloseConnection_ok h
    clear h
    obtain ⟨rfl, ⟨_, rfl⟩ | ⟨_, _, _, hd, rfl⟩⟩ := hd
    · exact .none (.refl _)
    · exact .none (.deleteSocketContext hd)
  case find =>
    obtain ⟨rfl, ⟨_, rfl⟩ | ⟨_, rfl⟩⟩ := find_ok h
    · exact .next (.refl _) nofun trivial
    · exact .next (.refl _) nofun trivial
  case bind =>
    rcases bindSocket_ok h with ⟨rfl, rfl⟩ | ⟨_, _, _, _, _, _, _, hcreate, rfl, rfl⟩
    · exact .none (.refl _)
    · have touches : m.Touches none _ := .createIOCPContext hcreate
      obtain ⟨_, _, _, _, rfl, _, hn, _⟩ := ContextHeap.createIOCPContext_ok hcreate
      refine .fresh touches (fun a ha => ?_) trivial
      cases ha
      exact ⟨Nat.le_refl _, hn ▸ Nat.lt_succ_self _⟩
  case publish => exact publish_uses ht.left h
  case create  =>
    obtain ⟨_, _, _, _, hcreate, rfl, rfl⟩ := create_ok h
    have touches : m.Touches none _ := .createIOCPContext hcreate
    obtain ⟨_, _, _, _, rfl, _, hn, _⟩ := ContextHeap.createIOCPContext_ok hcreate
    refine .fresh touches (fun a ha => ?_) trivial
    cases ha
    exact ⟨Nat.le_refl _, hn ▸ Nat.lt_succ_self _⟩
  case postSend =>
    obtain ⟨c, hc, rfl, rfl⟩ := postSend_ok h
    rw [posted_of_key (ht.key (.inr rfl) c hc)]
    cases first
    case true  => exact .beside (.next (.refl _) (fun _ => id) trivial) rfl trivial
    case false => exact .next (.refl _) (fun _ => id) trivial
  case sent posted =>
    obtain ⟨hm, rfl⟩ := sent_ok h
    cases ht.setOperation hm
    cases posted
    case true  => exact .none (.refl _)
    case false => exact .next (.refl _) (fun _ => id) trivial

theorem initIOCP_uses {standby : Nat} (h : m.initIOCP standby first second = .ok (m', new)) :
    m.Uses none m' new := by
  obtain ⟨_, _, _, _, _, _, hcreate, _, _, hset, rfl, h⟩ := initIOCP_ok h
  have touches := ContextHeap.Touches.trans (.createIOCPContext hcreate) (.setContext hset)
  obtain ⟨_, _, _, _, rfl, _, hn, _⟩ := ContextHeap.createIOCPContext_ok hcreate
  have touches : m.Touches none _ := touches.fresh (Nat.le_refl _)
  rcases h with ⟨_, rfl, rfl⟩ | ⟨_, hr, rfl⟩
  · refine .fresh touches (fun a ha => ?_) trivial
    cases ha
    exact ⟨Nat.le_refl _, Nat.lt_of_lt_of_le (hn ▸ Nat.lt_succ_self _) (ContextHeap.Touches.setContext hset).le⟩
  · exact .none (touches.trans (.removeIOCPContext hr))

theorem stopIOCP_uses (h : m.stopIOCP = .ok (m', new)) : m.Uses none m' new := by
  unfold stopIOCP at h
  split at h
  case h_1 =>
    cases h
    exact .none (.refl _)
  case h_2 =>
    obtain ⟨_, _, hcreate, rfl, rfl⟩ := postExit_ok h
    have touches : m.Touches none _ := .trans (.newSocketContext m.toContextHeap none) (.createIOCPContext hcreate)
    obtain ⟨_, _, _, _, rfl, _, hn, _⟩ := ContextHeap.createIOCPContext_ok hcreate
    unfold PostQueuedCompletionStatus
    split
    case isFalse => exact .none touches
    case isTrue  =>
      refine .fresh touches (fun a ha => ?_) trivial
      cases ha
      exact ⟨Nat.le_refl _, hn ▸ Nat.lt_succ_self _⟩
  case h_3 =>
    cases h
    exact .none (.refl _)
  case h_4 =>
    obtain ⟨_, _, _, _, hd, hset, rfl, rfl⟩ := deleteStandby_ok h
    obtain ⟨hn, hb⟩ := ContextHeap.deleteContexts_eq_some _ hd
    exact .none ((ContextHeap.Touches.of_deleted hn hb).trans (.setSocketContext hset))
  case h_5 => cases h

end Module

namespace State

variable {s s' : State} {a : Action} {used new rest : List Item} {m' : Module} {bufferSize : Int}
  {maxThreadNum threads standby : Nat} {actions : List Action}

-- The context that the items used by a step work with.
def userOf (used : List Item) : Option Nat :=
  used.head?.bind Item.context

-- Every context has at most one user.
structure Exclusive (s : State) : Prop where
  count    : ∀ a, s.items.countP (Item.uses a) ≤ 1
  lt       : ∀ item ∈ s.items, ∀ a, item.context = some a → a < s.contexts.newAddress
  releases : ∀ item ∈ s.items, item.Releases

theorem Stepped.uses (hv : s.Valid) (he : s.Exclusive) (h : s.Stepped a used m' new rest) :
    s.toModule.Uses (userOf used) m' new := by
  cases h
  case initIOCP h          => exact Module.initIOCP_uses h
  case initialised         => exact .none (.refl _)
  case stopIOCP h          => exact Module.stopIOCP_uses h
  case destroy h           =>
    obtain ⟨_, _, hd, rfl, rfl⟩ := Module.destroy_ok h
    exact .none (.deleteSocketContext hd)
  case connected           => exact .none (.newSocketContext ..)
  case unconnected         => exact .none (.refl _)
  case sendData            => exact .next (.refl _) nofun trivial
  case ignored             => exact .none (.refl _)
  case postCloseConnection => exact .next (.refl _) nofun trivial
  case complete h          => exact Module.complete_uses h
  case dequeue             => exact .next (.refl _) (fun _ => id) trivial
  case spin                => exact .none (.refl _)
  case run hi h            =>
    have hm := List.mem_of_getElem? hi
    exact Module.run_uses (hv.typed _ hm) (he.releases _ hm) h

theorem Stepped.countP_used (h : s.Stepped a used m' new rest) (b : Nat) :
    used.countP (Item.uses b) = if userOf used = some b then 1 else 0 := by
  cases h <;> simp [userOf, List.countP_singleton, uses_iff] <;> rfl

-- An item that a step does not take shares its context with none that the step takes.
theorem Stepped.context_ne {item : Item} {b : Nat} (he : s.Exclusive) (h : s.Stepped a used m' new rest)
    (hm : item ∈ rest) (hb : item.context = some b) : userOf used ≠ some b := by
  intro hu
  have hused := h.countP_used b
  have hrest := List.countP_pos_iff.mpr ⟨item, hm, uses_iff.mpr hb⟩
  have hcount := he.count b
  rw [h.perm.countP_eq, List.countP_append, hused, if_pos hu] at hcount
  omega

theorem Stepped.unchanged {item : Item} {b : Nat} {c : IOCPContext} (hv : s.Valid) (he : s.Exclusive)
    (h : s.Stepped a used m' new rest) (hm : item ∈ rest) (hb : item.context = some b)
    (hc : m'.contexts.block b = some c) : s.contexts.block b = some c := by
  have hlt := he.lt item (h.perm.mem_iff.mpr (List.mem_append_right _ hm)) b hb
  exact ((h.uses hv he).touches.block hlt hc).resolve_right (h.context_ne he hm hb)

theorem Exclusive.start : (start bufferSize maxThreadNum threads standby).Exclusive where
  count _  := Nat.zero_le _
  lt       := nofun
  releases := nofun

theorem Exclusive.step (he : s.Exclusive) (hv : s.Valid) (h : s.step a = .ok s') : s'.Exclusive := by
  obtain ⟨used, m', new, rest, hs, rfl⟩ := step_ok h
  have hu := hs.uses hv he
  have hp := hs.perm
  have sum b : used.countP (Item.uses b) + rest.countP (Item.uses b) = s.items.countP (Item.uses b) := by
    rw [hp.countP_eq, List.countP_append]
  have old b (hb : 0 < s.items.countP (Item.uses b)) : b < s.contexts.newAddress := by
    obtain ⟨item, hm, hb⟩ := List.countP_pos_iff.mp hb
    exact he.lt item hm b (uses_iff.mp hb)
  have count b := hu.count b
  simp only [← hs.countP_used] at count
  refine ⟨fun b => ?_, fun item hm b hb => ?_, fun item hm => ?_⟩
  · have := he.count b
    have := sum b
    have := old b
    have hc := count b
    rw [List.countP_append]
    split at hc
    case isTrue  => omega
    case isFalse => omega
  · cases List.mem_append.mp hm
    case inl hm =>
      have hpos := List.countP_pos_iff.mpr ⟨item, hm, uses_iff.mpr hb⟩
      have := sum b
      have := old b
      have := hu.touches.le
      have hc := count b
      change b < m'.contexts.newAddress
      split at hc
      case isTrue  => omega
      case isFalse => omega
    case inr hm =>
      have := he.lt item (hp.mem_iff.mpr (List.mem_append_right _ hm)) b hb
      exact Nat.lt_of_lt_of_le this hu.touches.le
  · cases List.mem_append.mp hm
    case inl hm => exact hu.releases item hm
    case inr hm => exact he.releases item (hp.mem_iff.mpr (List.mem_append_right _ hm))

end State
end Server8
