import Server8.Dispatcher.Custody
import Server8.Lib.Ownership
import Server8.Protocol.Packet

-- Indexer3.cpp: the set-up of `deployIndexer` and the callback of its workers. A step is one access to
-- what the threads share.

namespace Server8

namespace Indexer3

structure ArgItem where
  currentURL : Bytes := []
  deriving DecidableEq, Repr

def videoURL (id : Int) : Bytes :=
  ascii "http://api.bilibili.com/archive_stat/stat?aid=" ++ decimal id ++ ascii "&type=jsonp"

-- Where `run` is: at `getData`, at the test of `count`, at `new ArgItem`, and at the accesses of the
-- section that `pIndexer->lock` guards and behind it.
inductive Pc
  | getData
  | branch
  | parse
  | acquire
  | test
  | increment
  | submit
  | release
  | delete
  deriving DecidableEq, Repr

-- `run` with its local variables.
structure Frame where
  pc    : Pc
  parg  : Nat
  count : Int
  pItem : Nat
  deriving DecidableEq, Repr

-- The object of `IndexerCallback`.
structure Callback where
  deriving DecidableEq, Repr

instance : EventDispatcher.Callback Callback Nat Frame where
  run _ parg := { pc := .getData, parg, count := 0, pItem := 0 }

-- `lock` is the worker that holds it.
structure Indexer where
  currentID : Int
  endID     : Int
  lock      : Option Nat
  deriving DecidableEq, Repr

-- Where `deployIndexer` is.
inductive Main
  | setStatus
  | addCallback
  | seed (i : Int)
  | assign
  | start
  | done
  deriving DecidableEq, Repr

-- `submitted` is the history: the URLs of the items that were submitted.
structure State where
  dispatcher : EventDispatcher Nat Callback Frame
  indexer    : Indexer
  main       : Main
  threadNum  : Int
  heap       : Memory ArgItem
  submitted  : List Bytes

-- Why there is no next state: the step cannot happen now, it uses an item that is deleted, or the
-- dispatcher uses an iterator that is not valid.
inductive Stop
  | disabled
  | deleted
  | dispatcher (stop : EventDispatcher.Stop)
  deriving DecidableEq, Repr

namespace State

def new (threadNum endID : Int) : State where
  dispatcher := .new threadNum
  indexer    := { currentID := 1, endID, lock := none }
  main       := .setStatus
  threadNum  := threadNum
  heap       := .empty
  submitted  := []

def read (s : State) (p : Nat) : Except Stop ArgItem :=
  match s.heap.block p with
  | some item => .ok item
  | none      => .error .deleted

def goto (s : State) (i : Nat) (f : Frame) : State :=
  { s with dispatcher := s.dispatcher.setFrame i f }

def returned (s : State) (i : Nat) : Except Stop State :=
  match s.dispatcher.returned i with
  | .ok dispatcher => .ok { s with dispatcher }
  | .error stop    => .error (.dispatcher stop)

def submitEvent (s : State) (p : Nat) : State :=
  { s with
    dispatcher := (s.dispatcher.submitEvent "func" p).2
    submitted  := s.submitted ++ (s.heap.block p).toList.map ArgItem.currentURL }

-- The next step of the callback that worker `i` is in. `count` is what `getData` returns.
def run (s : State) (i : Nat) (count : Int) : Except Stop State :=
  match s.dispatcher.frame i with
  | none   => .error .disabled
  | some f =>
    match f.pc with
    | .getData   => do
      let _ ← s.read f.parg
      return s.goto i { f with pc := .branch, count }
    | .branch    =>
      if f.count = -1 then return (s.submitEvent f.parg).goto i { f with pc := .parse }
      else if f.count = 0 then do
        let _ ← s.read f.parg
        (s.submitEvent f.parg).returned i
      else return s.goto i { f with pc := .parse }
    | .parse     => do
      let _ ← s.read f.parg
      let (pItem, heap) := s.heap.alloc {}
      return { s with heap }.goto i { f with pc := .acquire, pItem }
    | .acquire   =>
      if s.indexer.lock = none then
        return { s with indexer := { s.indexer with lock := some i } }.goto i { f with pc := .test }
      else throw .disabled
    | .test      =>
      return s.goto i { f with pc := if s.indexer.currentID < s.indexer.endID then .increment else .release }
    | .increment =>
      return { s with indexer := { s.indexer with currentID := s.indexer.currentID + 1 } }.goto i
        { f with pc := .submit }
    | .submit    =>
      match s.heap.write f.pItem { currentURL := videoURL s.indexer.currentID } with
      | some heap => return ({ s with heap }.submitEvent f.pItem).goto i { f with pc := .release }
      | none      => throw .deleted
    | .release   => do
      let _ ← s.read f.parg
      return { s with indexer := { s.indexer with lock := none } }.goto i { f with pc := .delete }
    | .delete    =>
      match s.heap.free f.parg with
      | some heap => { s with heap }.returned i
      | none      => throw .deleted

-- The next step of `deployIndexer`, which has nothing more to do than to write logs in the end.
def deployIndexer (s : State) : Except Stop State :=
  match s.main with
  | .setStatus   =>
    return { s with dispatcher := (s.dispatcher.setStatus .halt).2, main := .addCallback }
  | .addCallback =>
    return { s with dispatcher := (s.dispatcher.addCallback "func" (some ⟨⟩)).2, main := .seed 1 }
  | .seed i      =>
    if i ≤ s.threadNum then
      let (ptr, heap) := s.heap.alloc { currentURL := videoURL i }
      return { { s with heap }.submitEvent ptr with main := .seed (i + 1) }
    else return { s with main := .assign }
  | .assign      =>
    return { s with indexer := { s.indexer with currentID := s.threadNum }, main := .start }
  | .start       =>
    return { s with dispatcher := (s.dispatcher.setStatus .running).2, main := .done }
  | .done        => throw .disabled

def workThread (s : State) (i : Nat) : Except Stop State :=
  match s.dispatcher.workThread i with
  | .ok dispatcher => .ok { s with dispatcher }
  | .error stop    => .error (.dispatcher stop)

section Steps

variable {s s' : State} {i : Nat} {f : Frame} {count : Int}

-- What one step of a callback can do.
inductive Ran (s : State) (i : Nat) (f : Frame) (count : Int) : State → Prop
  | getData   : f.pc = .getData → Ran s i f count (s.goto i { f with pc := .branch, count })
  | retry     : f.pc = .branch → f.count = -1 →
      Ran s i f count ((s.submitEvent f.parg).goto i { f with pc := .parse })
  | empty {s' : State} : f.pc = .branch → f.count = 0 → (s.submitEvent f.parg).returned i = .ok s' →
      Ran s i f count s'
  | branch    : f.pc = .branch → f.count ≠ -1 → f.count ≠ 0 → Ran s i f count (s.goto i { f with pc := .parse })
  | parse     : f.pc = .parse →
      Ran s i f count ({ s with heap := (s.heap.alloc {}).2 }.goto i
        { f with pc := .acquire, pItem := s.heap.newAddress })
  | acquire   : f.pc = .acquire → s.indexer.lock = none →
      Ran s i f count ({ s with indexer := { s.indexer with lock := some i } }.goto i { f with pc := .test })
  | next      : f.pc = .test → s.indexer.currentID < s.indexer.endID →
      Ran s i f count (s.goto i { f with pc := .increment })
  | last      : f.pc = .test → ¬s.indexer.currentID < s.indexer.endID →
      Ran s i f count (s.goto i { f with pc := .release })
  | increment : f.pc = .increment →
      Ran s i f count ({ s with indexer := { s.indexer with currentID := s.indexer.currentID + 1 } }.goto i
        { f with pc := .submit })
  | submit {heap : Memory ArgItem} : f.pc = .submit →
      s.heap.write f.pItem { currentURL := videoURL s.indexer.currentID } = some heap →
      Ran s i f count (({ s with heap }.submitEvent f.pItem).goto i { f with pc := .release })
  | release   : f.pc = .release →
      Ran s i f count ({ s with indexer := { s.indexer with lock := none } }.goto i { f with pc := .delete })
  | delete {heap : Memory ArgItem} {s' : State} : f.pc = .delete → s.heap.free f.parg = some heap →
      { s with heap }.returned i = .ok s' → Ran s i f count s'

theorem run_ok (h : s.run i count = .ok s') : ∃ f, s.dispatcher.frame i = some f ∧ s.Ran i f count s' := by
  unfold run at h
  split at h
  case h_1      => cases h
  case h_2 f hf =>
    refine ⟨f, hf, ?_⟩
    split at h
    case h_1 hpc =>
      obtain ⟨_, _, h⟩ := Runs.bind_ok.mp h
      cases h
      exact .getData hpc
    case h_2 hpc =>
      split_ifs at h
      case pos hc  =>
        cases h
        exact .retry hpc hc
      case pos hc  =>
        obtain ⟨_, _, h⟩ := Runs.bind_ok.mp h
        exact .empty hpc hc h
      case neg hn hz =>
        cases h
        exact .branch hpc hn hz
    case h_3 hpc =>
      obtain ⟨_, _, h⟩ := Runs.bind_ok.mp h
      cases h
      exact .parse hpc
    case h_4 hpc =>
      split_ifs at h
      case pos hl =>
        cases h
        exact .acquire hpc hl
    case h_5 hpc =>
      cases h
      split_ifs
      case pos hlt => exact .next hpc hlt
      case neg hge => exact .last hpc hge
    case h_6 hpc =>
      cases h
      exact .increment hpc
    case h_7 hpc =>
      split at h
      case h_1 hw =>
        cases h
        exact .submit hpc hw
      case h_2    => cases h
    case h_8 hpc =>
      obtain ⟨_, _, h⟩ := Runs.bind_ok.mp h
      cases h
      exact .release hpc
    case h_9 hpc =>
      split at h
      case h_1 hw => exact .delete hpc hw h
      case h_2    => cases h

theorem returned_ok (h : s.returned i = .ok s') :
    ∃ dispatcher, s.dispatcher.returned i = .ok dispatcher ∧ { s with dispatcher } = s' := by
  unfold returned at h
  split at h
  case h_1 d hd =>
    cases h
    exact ⟨d, hd, rfl⟩
  case h_2      => cases h

theorem workThread_ok (h : s.workThread i = .ok s') :
    ∃ dispatcher, s.dispatcher.workThread i = .ok dispatcher ∧ { s with dispatcher } = s' := by
  unfold workThread at h
  split at h
  case h_1 d hd =>
    cases h
    exact ⟨d, hd, rfl⟩
  case h_2      => cases h

end Steps

end State

inductive Action
  | deployIndexer
  | workThread (i : Nat)
  | run (i : Nat) (count : Int)
  deriving DecidableEq, Repr

def step (s : State) : Action → Except Stop State
  | .deployIndexer => s.deployIndexer
  | .workThread i  => s.workThread i
  | .run i count   => s.run i count

end Indexer3

end Server8
