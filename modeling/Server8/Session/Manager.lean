import Std.Data.TreeMap
import Mathlib.Data.Finset.Card
import Server8.Session.Session

namespace Server8

-- The arrays of the events, and the sessions.
structure Store where
  events   : Heap
  sessions : Memory Session

namespace Store

def deleteSession (st : Store) (p : Nat) : Option Store := do
  let s ← st.sessions.block p
  let events ← s.destroy st.events
  let sessions ← st.sessions.free p
  some { events, sessions }

end Store

structure SessionManager where
  status     : Status := .ready
  sessionMap : Std.TreeMap String Nat := ∅

namespace SessionManager

-- What a caller's handler does to the session it gets.
abbrev Handler := Heap → Session → Option (Heap × Session)

-- The parameter `status` hides the manager's own.
def addSession (st : Store) (sm : SessionManager) (key : String) (maxSize : Int) (status : Status)
    (level : Level) (pri : Priority) : Store × SessionManager × Bool :=
  let it := sm.sessionMap[key]?
  if .halt = status ∨ .suspend = status then (st, sm, false)
  else if it ≠ none then
    let (pSession, sessions) := st.sessions.alloc (.new key maxSize status level pri)
    let (present, sessionMap) := sm.sessionMap.containsThenInsertIfNew key pSession
    ({ st with sessions }, { sm with sessionMap }, !present)
  else (st, sm, false)

def runSessionHandler (st : Store) (sm : SessionManager) (key : String) (run : Handler) :
    Option (Store × Bool) :=
  match sm.sessionMap[key]? with
  | none   => some (st, false)
  | some p =>
    if .halt ≠ sm.status then do
      let s ← st.sessions.block p
      let (events, s) ← run st.events s
      let sessions ← st.sessions.write p s
      some ({ events, sessions }, true)
    else some (st, false)

def isSessionExsist (sm : SessionManager) (key : String) : Bool :=
  sm.sessionMap[key]? ≠ none

def removeSession (st : Store) (sm : SessionManager) (key : String) :
    Option (Store × SessionManager × Bool) :=
  match sm.sessionMap[key]? with
  | none   => some (st, sm, false)
  | some p => do
    let st ← st.deleteSession p
    some (st, { sm with sessionMap := sm.sessionMap.erase key }, true)

def removeAll (st : Store) (sm : SessionManager) : Option (Store × SessionManager) := do
  let st ← sm.sessionMap.values.foldlM Store.deleteSession st
  some (st, { sm with sessionMap := ∅ })

def getSessionCount (sm : SessionManager) : Nat :=
  sm.sessionMap.size

def getStatus (sm : SessionManager) : Status :=
  sm.status

def setStatus (sm : SessionManager) (status : Status) : SessionManager :=
  { sm with status }

inductive Op
  | addSession (key : String) (maxSize : Int) (status : Status) (level : Level) (pri : Priority)
  | removeSession (key : String)
  | removeAll
  | isSessionExsist (key : String)
  | getSessionCount
  | runSessionHandler (key : String) (run : Handler)
  | setStatus (status : Status)

inductive Result
  | done
  | bool (b : Bool)
  | count (n : Nat)
  deriving DecidableEq, Repr

def apply (st : Store) (sm : SessionManager) : Op → Option (Store × SessionManager × Result)
  | .addSession key maxSize status level pri =>
    let (st, sm, b) := sm.addSession st key maxSize status level pri
    some (st, sm, .bool b)
  | .removeSession key   => (sm.removeSession st key).map fun (st, sm, b) => (st, sm, .bool b)
  | .removeAll           => (sm.removeAll st).map fun (st, sm) => (st, sm, .done)
  | .isSessionExsist key => some (st, sm, .bool (sm.isSessionExsist key))
  | .getSessionCount     => some (st, sm, .count sm.getSessionCount)
  | .runSessionHandler key run =>
    (sm.runSessionHandler st key run).map fun (st, b) => (st, sm, .bool b)
  | .setStatus status    => some (st, sm.setStatus status, .done)

-- The states after the operations, with their results.
def run (st : Store) (sm : SessionManager) :
    List Op → Option (List (Store × SessionManager × Result))
  | []        => some []
  | op :: ops => do
    let (st, sm, r) ← sm.apply st op
    let rest ← run st sm ops
    some ((st, sm, r) :: rest)

-- A session manager as its callers see it: a set of keys, guarded by a status.
structure Spec where
  status : Status := .ready
  keys   : Finset String := ∅

namespace Spec

def apply (a : Spec) : Op → Spec × Result
  | .addSession key .. =>
    if key ∉ a.keys ∧ a.status ≠ .halt ∧ a.status ≠ .suspend
    then ({ a with keys := insert key a.keys }, .bool true) else (a, .bool false)
  | .removeSession key =>
    if key ∈ a.keys then ({ a with keys := a.keys.erase key }, .bool true) else (a, .bool false)
  | .removeAll               => ({ a with keys := ∅ }, .done)
  | .isSessionExsist key     => (a, .bool (key ∈ a.keys))
  | .getSessionCount         => (a, .count a.keys.card)
  | .runSessionHandler key _ => (a, .bool (key ∈ a.keys ∧ a.status ≠ .halt))
  | .setStatus status        => ({ a with status }, .done)

def run (a : Spec) : List Op → List Result
  | []        => []
  | op :: ops => (a.apply op).2 :: (a.apply op).1.run ops

end Spec

-- Every session allocated since `st₀` is deleted or in the map.
def Owned (st₀ st : Store) (sm : SessionManager) : Prop :=
  ∀ p : Nat, st.sessions.block p ≠ none →
    st₀.sessions.block p ≠ none ∨ ∃ key : String, sm.sessionMap[key]? = some p

-- A run on a new manager returns what the set of keys returns, and loses no session on the way.
def Meets (st₀ : Store) (ops : List Op) : Prop :=
  ∃ trace, run st₀ {} ops = some trace ∧ trace.map (fun x => x.2.2) = Spec.run {} ops ∧
    ∀ x ∈ trace, Owned st₀ x.1 x.2.1

def Op.status (status : Status) : Op → Status
  | .setStatus status => status
  | _                 => status

-- `addSession` is only called while the manager is halted or suspended.
def Op.Guarded (status : Status) : Op → Prop
  | .addSession .. => status = .halt ∨ status = .suspend
  | _              => True

def Guarded (status : Status) : List Op → Prop
  | []        => True
  | op :: ops => op.Guarded status ∧ Guarded (op.status status) ops

-- What an operation returns if there is no session.
def Op.emptyResult : Op → Result
  | .removeAll | .setStatus _ => .done
  | .getSessionCount          => .count 0
  | _                         => .bool false

theorem addSession_absent {sm : SessionManager} {key : String} (h : sm.sessionMap[key]? = none)
    (st : Store) (maxSize : Int) (status : Status) (level : Level) (pri : Priority) :
    sm.addSession st key maxSize status level pri = (st, sm, false) := by
  simp [addSession, h]

-- A manager without sessions stays without: no operation adds the first one.
theorem apply_empty (st : Store) (status : Status) (op : Op) :
    apply st { status } op = some (st, { status := op.status status }, op.emptyResult) := by
  cases op
  case addSession key maxSize _ level pri =>
    have h : ({ status } : SessionManager).sessionMap[key]? = none := by simp
    simp only [apply, addSession_absent h]
    rfl
  case removeSession key => simp [apply, removeSession, Op.status, Op.emptyResult]
  case removeAll         => rfl
  case isSessionExsist   => simp [apply, isSessionExsist, Op.status, Op.emptyResult]
  case getSessionCount   => rfl
  case runSessionHandler => simp [apply, runSessionHandler, Op.status, Op.emptyResult]
  case setStatus         => rfl

theorem run_empty (st : Store) (status : Status) (ops : List Op) :
    ∃ trace, run st { status } ops = some trace ∧
      trace.map (fun x => x.2.2) = ops.map Op.emptyResult ∧ ∀ x ∈ trace, x.1 = st := by
  induction ops generalizing status
  case nil => exact ⟨[], rfl, rfl, by simp⟩
  case cons op ops ih =>
    have ⟨trace, hr, hm, hs⟩ := ih (op.status status)
    refine ⟨(st, { status := op.status status }, op.emptyResult) :: trace, ?_, ?_, ?_⟩
    · simp only [run, apply_empty, hr, Option.bind_eq_bind, Option.bind_some]
    · rw [List.map_cons, List.map_cons, hm]
    · simpa using hs

theorem Spec.apply_empty {status : Status} {op : Op} (h : op.Guarded status) :
    Spec.apply { status } op = ({ status := op.status status }, op.emptyResult) := by
  cases op
  case addSession =>
    cases h
    case inl h => simp [Spec.apply, h, Op.status, Op.emptyResult]
    case inr h => simp [Spec.apply, h, Op.status, Op.emptyResult]
  all_goals simp [Spec.apply, Op.status, Op.emptyResult]

theorem Spec.guarded_of_apply_empty {status : Status} {op : Op}
    (h : (Spec.apply { status } op).2 = op.emptyResult) : op.Guarded status := by
  cases op
  case addSession =>
    by_contra hg
    have ⟨hh, hs⟩ := not_or.mp hg
    simp [Spec.apply, Op.emptyResult, hh, hs] at h
  all_goals exact trivial

theorem Spec.run_empty_iff {status : Status} {ops : List Op} :
    Spec.run { status } ops = ops.map Op.emptyResult ↔ Guarded status ops := by
  induction ops generalizing status
  case nil => simp [Spec.run, Guarded]
  case cons op ops ih =>
    constructor
    case mp =>
      intro h
      have ⟨hh, ht⟩ := List.cons.inj h
      have hg := Spec.guarded_of_apply_empty hh
      rw [Spec.apply_empty hg] at ht
      exact ⟨hg, ih.mp ht⟩
    case mpr =>
      intro h
      rw [Spec.run, Spec.apply_empty h.left, ih.mpr h.right, List.map_cons]

theorem meets_iff_guarded (st : Store) (ops : List Op) : Meets st ops ↔ Guarded .ready ops := by
  have ⟨trace, hr, hm, hs⟩ := run_empty st .ready ops
  rw [← Spec.run_empty_iff]
  constructor
  case mp =>
    intro ⟨trace', hr', hm', _⟩
    have : trace' = trace := Option.some.inj (hr'.symm.trans hr)
    rw [← hm', this, hm]
  case mpr =>
    intro h
    refine ⟨trace, hr, hm.trans h.symm, fun x hx p hp => .inl ?_⟩
    rwa [hs x hx] at hp

-- The first session that a new manager is asked for.
theorem addSession_not_meets :
    ¬Meets ⟨.empty, .empty⟩ [.addSession "a" 0 .ready .user .medium] := by
  intro ⟨trace, hr, hm, _⟩
  cases hr
  exact absurd hm (by decide)

end SessionManager
end Server8
