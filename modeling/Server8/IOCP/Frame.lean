import Server8.IOCP.System
import Server8.Lib.Runs

-- What the steps of the module do to its heap.

namespace Server8

open Runs

section Need

variable {α : Type} {stop : Stop} {o : Option α} {a : α}

theorem need_ok : need stop o = .ok a ↔ o = some a := by
  cases o
  case none   => simp [need]
  case some b => simp [need]

end Need

namespace ContextHeap

variable {h h' : ContextHeap} {pSC pIC p : Nat} {c : IOCPContext} {sc : SocketContext}

section Primitives

theorem context_ok : h.context pIC = .ok c ↔ h.contexts.block pIC = some c :=
  need_ok

theorem socketContext_ok : h.socketContext pSC = .ok sc ↔ h.socketContexts.block pSC = some sc :=
  need_ok

theorem setContext_ok : h.setContext pIC c = .ok h' ↔
    ∃ contexts, h.contexts.write pIC c = some contexts ∧ { h with contexts } = h' := by
  simp only [setContext, bind_ok, need_ok, pure_ok]

theorem setContext_setContext {c' : IOCPContext} (hs : h.setContext pIC c = .ok h') :
    h'.setContext pIC c' = h.setContext pIC c' := by
  obtain ⟨contexts, hw, rfl⟩ := setContext_ok.mp hs
  simp only [setContext, Memory.write_write hw]

theorem setSocketContext_ok : h.setSocketContext pSC sc = .ok h' ↔
    ∃ socketContexts, h.socketContexts.write pSC sc = some socketContexts ∧
      { h with socketContexts } = h' := by
  simp only [setSocketContext, bind_ok, need_ok, pure_ok]

-- A context as it comes from `new`, with its number.
structure Blank (c : IOCPContext) (contextIndex : Int) : Prop where
  contextIndex : c.contextIndex = contextIndex
  socket       : c.socket = none
  prevFlag     : c.prevFlag = false

-- What a new context is filed under.
def filed (sc : SocketContext) (pIC : Nat) : SocketContext :=
  { sc with
    count          := sc.count + 1
    iocpContextMap := sc.iocpContextMap.insertIfNew (sc.count + 1) pIC }

theorem createIOCPContext_ok {bufSize : Int} {set : IOCPContext → IOCPContext}
    (hc : h.createIOCPContext pSC bufSize set = .ok (h', pIC)) :
    ∃ sc c, h.socketContexts.block pSC = some sc ∧ Blank c sc.count ∧
      pIC = h.contexts.newAddress ∧
      h'.contexts.block = Function.update h.contexts.block pIC (some (set c)) ∧
      h'.contexts.newAddress = h.contexts.newAddress + 1 ∧
      h'.socketContexts.block =
        Function.update h.socketContexts.block pSC (some (filed sc pIC)) ∧
      h'.socketContexts.newAddress = h.socketContexts.newAddress := by
  simp only [createIOCPContext, bind_ok, socketContext_ok, context_ok, setContext_ok, need_ok,
    setSocketContext_ok, pure_ok, Prod.mk.injEq] at hc
  obtain ⟨sc, hsc, ⟨contexts, sc', a⟩, hcreate, h₁, ⟨socketContexts, hw, rfl⟩, c, hc, h₂,
    ⟨contexts', hw', rfl⟩, rfl, rfl⟩ := hc
  by_cases hpos : 0 < bufSize
  case neg =>
    simp [SocketContext.createIOCPContext, IOCPContext.new, hpos] at hcreate
  case pos =>
    obtain ⟨c', hnew, he⟩ := SocketContext.createIOCPContext_eq (m := h.contexts) hpos
    have hblank : Blank { c' with contextIndex := sc.count } sc.count := by
      rw [IOCPContext.new, if_pos hpos, Option.some.injEq] at hnew
      exact hnew ▸ ⟨rfl, rfl, rfl⟩
    rw [he, Option.some.injEq, Prod.mk.injEq, Prod.mk.injEq] at hcreate
    obtain ⟨rfl, rfl, rfl⟩ := hcreate
    rw [Memory.alloc_self, Option.some.injEq] at hc
    subst hc
    obtain ⟨hb, hn, _⟩ := Memory.write_eq_some hw'
    obtain ⟨hb', hn', _⟩ := Memory.write_eq_some hw
    refine ⟨sc, { c' with contextIndex := sc.count }, hsc, hblank, rfl, ?_, ?_, hb', hn'⟩
    · funext a
      rw [hb]
      by_cases ha : a = h.contexts.newAddress
      case pos => simp [ha]
      case neg => simp [ha, Memory.alloc_ne]
    · rw [hn, Memory.newAddress_alloc]

theorem removeIOCPContext_ok {k : Int} (hr : h.removeIOCPContext pSC k = .ok h') :
    ∃ sc sc', h.socketContexts.block pSC = some sc ∧
      (∀ a, h'.contexts.block a =
        if sc.iocpContextMap[k]? = some a then none else h.contexts.block a) ∧
      h'.contexts.newAddress = h.contexts.newAddress ∧
      h'.socketContexts.block = Function.update h.socketContexts.block pSC (some sc') ∧
      h'.socketContexts.newAddress = h.socketContexts.newAddress ∧
      sc'.socket = sc.socket ∧ sc'.closeFlag = sc.closeFlag ∧ sc'.count = sc.count ∧
      ∀ j : Int, sc'.iocpContextMap[j]? = if k = j then none else sc.iocpContextMap[j]? := by
  simp only [removeIOCPContext, bind_ok, socketContext_ok, need_ok, setSocketContext_ok] at hr
  obtain ⟨sc, hsc, ⟨contexts, sc', removed⟩, hr, socketContexts, hw, rfl⟩ := hr
  obtain ⟨hb, hn, _⟩ := Memory.write_eq_some hw
  refine ⟨sc, sc', hsc, ?_⟩
  cases hk : sc.iocpContextMap[k]?
  case none =>
    rw [SocketContext.removeIOCPContext_absent hk, Option.some.injEq, Prod.mk.injEq,
      Prod.mk.injEq] at hr
    obtain ⟨rfl, rfl, _⟩ := hr
    refine ⟨fun a => by simp, rfl, hb, hn, rfl, rfl, rfl, fun j => ?_⟩
    split
    case isTrue hj => rw [← hj, hk]
    case isFalse   => rfl
  case some p =>
    cases hf : h.contexts.free p
    case none =>
      simp [SocketContext.removeIOCPContext, hk, hf] at hr
    case some contexts₁ =>
      rw [SocketContext.removeIOCPContext_present hk hf, Option.some.injEq, Prod.mk.injEq,
        Prod.mk.injEq] at hr
      obtain ⟨rfl, rfl, _⟩ := hr
      refine ⟨fun a => ?_, Memory.newAddress_free hf, hb, hn, rfl, rfl, rfl, fun j => ?_⟩
      · rw [Memory.free_eq_some hf, Function.update_apply]
        simp only [Option.some.injEq, eq_comm]
      · rw [SocketContext.getElem?_erase]

-- What `delete` on all the contexts of a map leaves.
theorem deleteContexts_eq_some {contexts contexts' : Contexts} (values : List Nat)
    (h : values.foldlM Memory.free contexts = some contexts') :
    contexts'.newAddress = contexts.newAddress ∧
      ∀ a, contexts'.block a = if a ∈ values then none else contexts.block a := by
  induction values generalizing contexts
  case nil =>
    cases h
    exact ⟨rfl, fun a => by simp⟩
  case cons v values ih =>
    obtain ⟨contexts₁, hf, h⟩ := Option.bind_eq_some_iff.mp h
    obtain ⟨hn, hb⟩ := ih h
    refine ⟨hn.trans (Memory.newAddress_free hf), fun a => ?_⟩
    rw [hb, Memory.free_eq_some hf, Function.update_apply]
    by_cases ha : a ∈ values
    case pos => simp [ha]
    case neg => simp [ha]

theorem deleteSocketContext_ok {socket : Option Socket}
    (hd : h.deleteSocketContext pSC = .ok (h', socket)) :
    ∃ sc, h.socketContexts.block pSC = some sc ∧ socket = sc.socket ∧
      (∀ a, h'.contexts.block a =
        if a ∈ sc.iocpContextMap.values then none else h.contexts.block a) ∧
      h'.contexts.newAddress = h.contexts.newAddress ∧
      h'.socketContexts.block = Function.update h.socketContexts.block pSC none ∧
      h'.socketContexts.newAddress = h.socketContexts.newAddress := by
  simp only [deleteSocketContext, bind_ok, socketContext_ok, need_ok, pure_ok, Prod.mk.injEq] at hd
  obtain ⟨sc, hsc, contexts, hd, socketContexts, hf, rfl, rfl⟩ := hd
  obtain ⟨hn, hb⟩ := deleteContexts_eq_some _ hd
  exact ⟨sc, hsc, rfl, hb, hn, Memory.free_eq_some hf, Memory.newAddress_free hf⟩

end Primitives

section Keeps

-- A context keeps what it is for, and unless it waits for a connection its socket. A socket context
-- keeps its socket, and stays closed.
structure Keeps (h h' : ContextHeap) : Prop where
  contexts : h.contexts.Keeps
    (fun c c' => c'.operation = c.operation ∧ (c.operation = .accept ∨ c'.socket = c.socket))
    h'.contexts
  socketContexts : h.socketContexts.Keeps
    (fun sc sc' => sc'.socket = sc.socket ∧ (sc.closeFlag = true → sc'.closeFlag = true))
    h'.socketContexts

namespace Keeps

variable {h₁ h₂ : ContextHeap}

theorem refl (h : ContextHeap) : Keeps h h where
  contexts       := .refl (fun _ => ⟨rfl, .inr rfl⟩) _
  socketContexts := .refl (fun _ => ⟨rfl, id⟩) _

theorem trans (k₁ : Keeps h h₁) (k₂ : Keeps h₁ h₂) : Keeps h h₂ where
  contexts := .trans (fun ⟨ho, hs⟩ ⟨ho', hs'⟩ => ⟨ho'.trans ho, by
    cases hs
    case inl hs => exact .inl hs
    case inr hs =>
      rw [ho] at hs'
      exact hs'.imp id (·.trans hs)⟩) k₁.contexts k₂.contexts
  socketContexts :=
    .trans (fun ⟨hs, hc⟩ ⟨hs', hc'⟩ => ⟨hs'.trans hs, hc' ∘ hc⟩) k₁.socketContexts k₂.socketContexts

theorem setContext (hs : h.setContext pIC c = .ok h')
    (hc : ∀ c', h.contexts.block pIC = some c' →
      c.operation = c'.operation ∧ (c'.operation = .accept ∨ c.socket = c'.socket)) :
    Keeps h h' := by
  obtain ⟨contexts, hw, rfl⟩ := setContext_ok.mp hs
  exact ⟨.write (fun _ => ⟨rfl, .inr rfl⟩) hw hc, (refl h).socketContexts⟩

theorem setSocketContext (hs : h.setSocketContext pSC sc = .ok h')
    (hc : ∀ sc', h.socketContexts.block pSC = some sc' →
      sc.socket = sc'.socket ∧ (sc'.closeFlag = true → sc.closeFlag = true)) : Keeps h h' := by
  obtain ⟨socketContexts, hw, rfl⟩ := setSocketContext_ok.mp hs
  exact ⟨(refl h).contexts, .write (fun _ => ⟨rfl, id⟩) hw hc⟩

theorem createIOCPContext {bufSize : Int} {set : IOCPContext → IOCPContext}
    (hc : h.createIOCPContext pSC bufSize set = .ok (h', pIC)) : Keeps h h' := by
  obtain ⟨sc, c, hsc, _, rfl, hb, hn, hb', hn'⟩ := createIOCPContext_ok hc
  refine ⟨⟨by rw [hn]; exact Nat.le_succ _, fun ha hy => ?_⟩, ⟨Nat.le_of_eq hn'.symm, fun _ hy => ?_⟩⟩
  · rw [hb, Function.update_of_ne (Nat.ne_of_lt ha)] at hy
    exact ⟨_, hy, rfl, .inr rfl⟩
  · rw [hb', Function.update_apply] at hy
    split at hy
    case isTrue ha =>
      cases hy
      exact ⟨sc, ha ▸ hsc, rfl, id⟩
    case isFalse => exact ⟨_, hy, rfl, id⟩

theorem removeIOCPContext {k : Int} (hr : h.removeIOCPContext pSC k = .ok h') : Keeps h h' := by
  obtain ⟨sc, sc', hsc, hb, hn, hb', hn', hs, hf, _⟩ := removeIOCPContext_ok hr
  refine ⟨⟨Nat.le_of_eq hn.symm, fun _ hy => ?_⟩, ⟨Nat.le_of_eq hn'.symm, fun _ hy => ?_⟩⟩
  · rw [hb] at hy
    split at hy
    case isTrue  => cases hy
    case isFalse => exact ⟨_, hy, rfl, .inr rfl⟩
  · rw [hb', Function.update_apply] at hy
    split at hy
    case isTrue ha =>
      cases hy
      exact ⟨sc, ha ▸ hsc, hs, fun h => hf ▸ h⟩
    case isFalse => exact ⟨_, hy, rfl, id⟩

theorem deleteSocketContext {socket : Option Socket}
    (hd : h.deleteSocketContext pSC = .ok (h', socket)) : Keeps h h' := by
  obtain ⟨sc, hsc, _, hb, hn, hb', hn'⟩ := deleteSocketContext_ok hd
  refine ⟨⟨Nat.le_of_eq hn.symm, fun _ hy => ?_⟩, ⟨Nat.le_of_eq hn'.symm, fun _ hy => ?_⟩⟩
  · rw [hb] at hy
    split at hy
    case isTrue  => cases hy
    case isFalse => exact ⟨_, hy, rfl, .inr rfl⟩
  · rw [hb', Function.update_apply] at hy
    split at hy
    case isTrue  => cases hy
    case isFalse => exact ⟨_, hy, rfl, id⟩

theorem newSocketContext (h : ContextHeap) (socket : Option Socket) : Keeps h (h.newSocketContext socket).1 :=
  ⟨(refl h).contexts, .alloc (fun _ => ⟨rfl, id⟩) _ _⟩

end Keeps

end Keeps

section Alive

-- No socket context is deleted.
def Alive (h h' : ContextHeap) : Prop :=
  ∀ p, h.socketContexts.block p ≠ none → h'.socketContexts.block p ≠ none

namespace Alive

variable {h₁ h₂ : ContextHeap}

theorem refl (h : ContextHeap) : Alive h h :=
  fun _ => id

theorem trans (k₁ : Alive h h₁) (k₂ : Alive h₁ h₂) : Alive h h₂ :=
  fun p => k₂ p ∘ k₁ p

theorem of_update (he : h'.socketContexts.block = Function.update h.socketContexts.block pSC (some sc)) :
    Alive h h' := by
  intro p hp
  rw [he, Function.update_apply]
  split
  case isTrue  => simp
  case isFalse => exact hp

theorem setContext (hs : h.setContext pIC c = .ok h') : Alive h h' := by
  obtain ⟨contexts, _, rfl⟩ := setContext_ok.mp hs
  exact refl h

theorem setSocketContext (hs : h.setSocketContext pSC sc = .ok h') : Alive h h' := by
  obtain ⟨socketContexts, hw, rfl⟩ := setSocketContext_ok.mp hs
  exact of_update (Memory.write_eq_some hw).left

theorem createIOCPContext {bufSize : Int} {set : IOCPContext → IOCPContext}
    (hc : h.createIOCPContext pSC bufSize set = .ok (h', pIC)) : Alive h h' := by
  obtain ⟨_, _, _, _, _, _, _, hb, _⟩ := createIOCPContext_ok hc
  exact of_update hb

theorem removeIOCPContext {k : Int} (hr : h.removeIOCPContext pSC k = .ok h') : Alive h h' := by
  obtain ⟨_, _, _, _, _, hb, _⟩ := removeIOCPContext_ok hr
  exact of_update hb

theorem newSocketContext (h : ContextHeap) (socket : Option Socket) : Alive h (h.newSocketContext socket).1 :=
  of_update rfl

end Alive

end Alive

end ContextHeap

namespace Module

variable {m : Module} {pSC : Nat}

theorem unlocked_ok {u : Unit} : m.unlocked = .ok u ↔ m.lock = .free := by
  unfold unlocked
  split
  case isTrue h  => simp [h, pure_ok]
  case isFalse h => simp [h, throw_ok]

theorem bind_eq_some {socket : Option Socket} {keys : Socket → Option Nat}
    (h : m.bind socket pSC = some keys) :
    ∃ k, socket = some k ∧ m.portOpen = true ∧ m.keys k = none ∧ k ∉ m.closed ∧
      Function.update m.keys k (some pSC) = keys := by
  obtain ⟨k, hk, h⟩ := Option.bind_eq_some_iff.mp h
  split at h
  case isFalse   => cases h
  case isTrue hc => exact ⟨k, hk, hc.left, hc.right.left, hc.right.right, Option.some.inj h⟩

-- The sockets stay bound.
structure Keeps (m m' : Module) : Prop where
  heap : m.toContextHeap.Keeps m'.toContextHeap
  keys : ∀ {k : Socket} {p : Nat}, m.keys k = some p → m'.keys k = some p

end Module
end Server8
