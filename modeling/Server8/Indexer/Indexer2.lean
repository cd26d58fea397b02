import Mathlib.Data.Finset.Basic
import Server8.Dispatcher.Custody
import Server8.Indexer.IndexerCallback
import Server8.Lib.Ownership

-- Indexer2.cpp: `run` of the callback, step by step, and the workers that are in it. What a lock delimits
-- is one step.

namespace Server8

namespace Indexer2

open IndexerCallback Regex

section Records

-- What is written to the files of the bangumis, the seasons and the videos, and the statements that are
-- executed.
inductive Record
  | bangumi (fields : List Bytes)
  | season (fields : List Bytes)
  | seasonDetail (fields : List Bytes)
  | video (fields : List Bytes)
  | statement (sql : Bytes)
  deriving DecidableEq, Repr

def groups (results : Pos UInt8) (n : Nat) : List Bytes :=
  (List.range n).map fun i => str results (i + 1)

def bangumiList (s : Bytes) : List Record :=
  (findAll bangumiIndexPattern s).map fun results => .bangumi (groups results 12)

def seasonList (arg : ArgItem) (s : Bytes) : List Record :=
  match find currentSeasonPattern s with
  | none         => []
  | some results =>
    .season (arg.bangumiID :: groups results 9) ::
      (findAll seasonIndexPattern s).map fun results => .season (arg.bangumiID :: groups results 9)

def seasonDetail (arg : ArgItem) (s : Bytes) : List Record :=
  if arg.seasonID.length = 0 then []
  else match find seasonParsePattern s with
    | none         => [.seasonDetail [arg.bangumiID, arg.seasonID, s]]
    | some results => [.seasonDetail (arg.bangumiID :: arg.seasonID :: groups results 5 ++ [s])]

def videoDetail (arg : ArgItem) (s : Bytes) : List Record :=
  match find videoDetailPattern s with
  | none         => []
  | some results => [.video (arg.bangumiID :: arg.seasonID :: arg.videoID :: groups results 8)]

-- What `run` writes to the files for an item. `getSeasonDetail` gets the item that `getSeasonList` leaves.
def written (arg : ArgItem) (data : Bytes) : List Record :=
  match GetData.cString data with
  | none   => []
  | some s =>
    match arg.operation with
    | .getBangumiList  => bangumiList s
    | .getSeasonList   =>
      seasonList arg s ++ seasonDetail (((getSeasonList arg data).map Prod.fst).getD arg) s
    | .getSeasonDetail => seasonDetail arg s
    | .getVideoID      => []
    | .getVideoDetail  => videoDetail arg s

def executed (calls : List (ArgItem × Output)) : List Record :=
  calls.filterMap fun call => call.2.sql.map .statement

def submitted (calls : List (ArgItem × Output)) : List ArgItem :=
  calls.flatMap fun call => call.2.submitted

end Records

-- Where `run` is: at the section that marks the URL, at `getData`, at the section that takes the mark
-- away, at `submitEvent` and the logs behind it, at the switch, in a loop that submits items, or at
-- `loc_exit`.
inductive Pc
  | mark
  | getData
  | unmark
  | resubmit
  | log
  | switch
  | submit
  | exit
  deriving DecidableEq, Repr

-- `run` with its local variables. `list` is what a loop has left to submit.
structure Frame where
  pc     : Pc
  pArg   : Nat
  output : Bytes
  list   : List ArgItem
  deriving DecidableEq, Repr

-- The object of `IndexerCallback`.
structure Callback where
  deriving DecidableEq, Repr

instance : EventDispatcher.Callback Callback Nat Frame where
  run _ pArg := { pc := .mark, pArg, output := [], list := [] }

-- What `getData` returns, and what it leaves in the buffer.
structure Fetched where
  length : Int
  output : Bytes
  deriving DecidableEq, Repr

-- The last four fields are the history: the items whose URL was marked, the fetches, the items that need no
-- fetch any more, and what was written.
structure State where
  dispatcher : EventDispatcher Nat Callback Frame
  heap       : Memory ArgItem
  visitedURL : Finset Bytes
  visits     : List ArgItem
  fetches    : List (Bytes × Int)
  processed  : List ArgItem
  records    : List Record

-- Why there is no next state: the step cannot happen now, it uses an item that is deleted, it reads past
-- the end of a response, or the dispatcher uses an iterator that is not valid.
inductive Stop
  | disabled
  | deleted
  | unterminated
  | dispatcher (stop : EventDispatcher.Stop)
  deriving DecidableEq, Repr

namespace State

-- After `addCallback`. The workers have not got anything to do before it.
def new (max : Int) : State where
  dispatcher := ((EventDispatcher.new max).addCallback "callback" (some ⟨⟩)).2
  heap       := .empty
  visitedURL := ∅
  visits     := []
  fetches    := []
  processed  := []
  records    := []

def read (s : State) (p : Nat) : Except Stop ArgItem :=
  match s.heap.block p with
  | some item => .ok item
  | none      => .error .deleted

def goto (s : State) (i : Nat) (f : Frame) : State :=
  { s with dispatcher := s.dispatcher.setFrame i f }

def returned (s : State) (i : Nat) : Except Stop State :=
  match s.dispatcher.returned i with
  | .ok dispatcher => .ok { s with dispatcher }
  | .error stop    => .error (.dispatcher stop)

def submitEvent (s : State) (p : Nat) : State :=
  { s with dispatcher := (s.dispatcher.submitEvent "callback" p).2 }

-- A new item is submitted.
def submitNew (s : State) (arg : ArgItem) : State :=
  { s with heap := (s.heap.alloc arg).2 }.submitEvent s.heap.newAddress

-- The functions that the switch calls leave the item as the last of them got it.
def switch (s : State) (i : Nat) (f : Frame) (item : ArgItem) : Except Stop State :=
  match process item f.output with
  | none       => throw .unterminated
  | some calls =>
    match s.heap.write f.pArg ((calls.getLast?.map Prod.fst).getD item) with
    | none      => throw .deleted
    | some heap =>
      return { s with
        heap
        processed := s.processed ++ [item]
        records   := s.records ++ written item f.output ++ executed calls }.goto i
        { f with pc := .submit, list := submitted calls }

-- The next step of the callback that worker `i` is in. `fetched` is what `getData` gives.
def run (s : State) (i : Nat) (fetched : Fetched) : Except Stop State :=
  match s.dispatcher.frame i with
  | none   => .error .disabled
  | some f =>
    match f.pc with
    | .mark     => do
      let item ← s.read f.pArg
      if item.currentURL ∈ s.visitedURL then s.returned i
      else
        return { s with visitedURL := insert item.currentURL s.visitedURL, visits := s.visits ++ [item] }.goto i
          { f with pc := .getData }
    | .getData  => do
      let item ← s.read f.pArg
      if item.currentURL.length = 0 then
        return { s with processed := s.processed ++ [item] }.goto i { f with pc := .exit }
      else
        let s := { s with fetches := s.fetches ++ [(item.currentURL, fetched.length)] }
        if fetched.length ≤ 0 then return s.goto i { f with pc := .unmark }
        else return s.goto i { f with pc := .switch, output := fetched.output.take fetched.length.toNat ++ [0] }
    | .unmark   => do
      let item ← s.read f.pArg
      return { s with visitedURL := s.visitedURL.erase item.currentURL }.goto i { f with pc := .resubmit }
    | .resubmit => return (s.submitEvent f.pArg).goto i { f with pc := .log }
    -- The item is read again, and by now another worker may have deleted it.
    | .log      => do
      let _ ← s.read f.pArg
      s.returned i
    | .switch   => do
      let item ← s.read f.pArg
      s.switch i f item
    | .submit   =>
      match f.list with
      | []          => return s.goto i { f with pc := .exit }
      | arg :: list => return (s.submitNew arg).goto i { f with list }
    | .exit     =>
      match s.heap.free f.pArg with
      | some heap => { s with heap }.returned i
      | none      => throw .deleted

def workThread (s : State) (i : Nat) : Except Stop State :=
  match s.dispatcher.workThread i with
  | .ok dispatcher => .ok { s with dispatcher }
  | .error stop    => .error (.dispatcher stop)

section Steps

variable {s s' : State} {i : Nat} {f : Frame} {fetched : Fetched} {p : Nat} {item : ArgItem}

-- What one step of a callback can do.
inductive Ran (s : State) (i : Nat) (f : Frame) (fetched : Fetched) : State → Prop
  | visited {item : ArgItem} {s' : State} : f.pc = .mark → s.heap.block f.pArg = some item →
      item.currentURL ∈ s.visitedURL → s.returned i = .ok s' → Ran s i f fetched s'
  | mark {item : ArgItem} : f.pc = .mark → s.heap.block f.pArg = some item → item.currentURL ∉ s.visitedURL →
      Ran s i f fetched ({ s with
        visitedURL := insert item.currentURL s.visitedURL
        visits     := s.visits ++ [item] }.goto i { f with pc := .getData })
  | empty {item : ArgItem} : f.pc = .getData → s.heap.block f.pArg = some item → item.currentURL = [] →
      Ran s i f fetched ({ s with processed := s.processed ++ [item] }.goto i { f with pc := .exit })
  | failed {item : ArgItem} : f.pc = .getData → s.heap.block f.pArg = some item → item.currentURL ≠ [] →
      fetched.length ≤ 0 →
      Ran s i f fetched ({ s with fetches := s.fetches ++ [(item.currentURL, fetched.length)] }.goto i
        { f with pc := .unmark })
  | fetched {item : ArgItem} : f.pc = .getData → s.heap.block f.pArg = some item → item.currentURL ≠ [] →
      0 < fetched.length →
      Ran s i f fetched ({ s with fetches := s.fetches ++ [(item.currentURL, fetched.length)] }.goto i
        { f with pc := .switch, output := fetched.output.take fetched.length.toNat ++ [0] })
  | unmark {item : ArgItem} : f.pc = .unmark → s.heap.block f.pArg = some item →
      Ran s i f fetched ({ s with visitedURL := s.visitedURL.erase item.currentURL }.goto i
        { f with pc := .resubmit })
  | resubmit : f.pc = .resubmit → Ran s i f fetched ((s.submitEvent f.pArg).goto i { f with pc := .log })
  | log {item : ArgItem} {s' : State} : f.pc = .log → s.heap.block f.pArg = some item →
      s.returned i = .ok s' → Ran s i f fetched s'
  | switch {item : ArgItem} {calls : List (ArgItem × Output)} {heap : Memory ArgItem} : f.pc = .switch →
      s.heap.block f.pArg = some item → process item f.output = some calls →
      s.heap.write f.pArg ((calls.getLast?.map Prod.fst).getD item) = some heap →
      Ran s i f fetched ({ s with
        heap
        processed := s.processed ++ [item]
        records   := s.records ++ written item f.output ++ executed calls }.goto i
        { f with pc := .submit, list := submitted calls })
  | submitted : f.pc = .submit → f.list = [] → Ran s i f fetched (s.goto i { f with pc := .exit })
  | submit {arg : ArgItem} {list : List ArgItem} : f.pc = .submit → f.list = arg :: list →
      Ran s i f fetched ((s.submitNew arg).goto i { f with list })
  | exit {heap : Memory ArgItem} {s' : State} : f.pc = .exit → s.heap.free f.pArg = some heap →
      { s with heap }.returned i = .ok s' → Ran s i f fetched s'

theorem read_ok : s.read p = .ok item ↔ s.heap.block p = some item := by
  unfold read
  split
  case h_1 h => simp [h]
  case h_2 h => simp [h]

theorem run_ok (h : s.run i fetched = .ok s') : ∃ f, s.dispatcher.frame i = some f ∧ s.Ran i f fetched s' := by
  unfold run at h
  split at h
  case h_1      => cases h
  case h_2 f hf =>
    refine ⟨f, hf, ?_⟩
    split at h
    case h_1 hpc =>
      obtain ⟨item, hi, h⟩ := Runs.bind_ok.mp h
      split_ifs at h
      case pos hv => exact .visited hpc (read_ok.mp hi) hv h
      case neg hv =>
        cases h
        exact .mark hpc (read_ok.mp hi) hv
    case h_2 hpc =>
      obtain ⟨item, hi, h⟩ := Runs.bind_ok.mp h
      split_ifs at h
      case pos hu =>
        cases h
        exact .empty hpc (read_ok.mp hi) (List.length_eq_zero_iff.mp hu)
      case pos hu hl =>
        cases h
        exact .failed hpc (read_ok.mp hi) (mt List.length_eq_zero_iff.mpr hu) hl
      case neg hu hl =>
        cases h
        exact .fetched hpc (read_ok.mp hi) (mt List.length_eq_zero_iff.mpr hu) (Int.not_le.mp hl)
    case h_3 hpc =>
      obtain ⟨item, hi, h⟩ := Runs.bind_ok.mp h
      cases h
      exact .unmark hpc (read_ok.mp hi)
    case h_4 hpc =>
      cases h
      exact .resubmit hpc
    case h_5 hpc =>
      obtain ⟨item, hi, h⟩ := Runs.bind_ok.mp h
      exact .log hpc (read_ok.mp hi) h
    case h_6 hpc =>
      obtain ⟨item, hi, h⟩ := Runs.bind_ok.mp h
      unfold State.switch at h
      split at h
      case h_1          => cases h
      case h_2 calls hc =>
        split at h
        case h_1         => cases h
        case h_2 heap hw =>
          cases h
          exact .switch hpc (read_ok.mp hi) hc hw
    case h_7 hpc =>
      split at h
      case h_1 hl =>
        cases h
        exact .submitted hpc hl
      case h_2 hl =>
        cases h
        exact .submit hpc hl
    case h_8 hpc =>
      split at h
      case h_1 hw => exact .exit hpc hw h
      case h_2    => cases h

theorem returned_ok (h : s.returned i = .ok s') :
    ∃ dispatcher, s.dispatcher.returned i = .ok dispatcher ∧ { s with dispatcher } = s' := by
  unfold returned at h
  split at h
  case h_1 d hd =>
    cases h
    exact ⟨d, hd, rfl⟩
  case h_2      => cases h

theorem workThread_ok (h : s.workThread i = .ok s') :
    ∃ dispatcher, s.dispatcher.workThread i = .ok dispatcher ∧ { s with dispatcher } = s' := by
  unfold workThread at h
  split at h
  case h_1 d hd =>
    cases h
    exact ⟨d, hd, rfl⟩
  case h_2      => cases h

end Steps

end State

-- Another thread submits a new item or calls `setStatus`, as `deployIndexer` does.
inductive Action
  | submitNew (arg : ArgItem)
  | setStatus (st : EventDispatcher.Status)
  | workThread (i : Nat)
  | run (i : Nat) (fetched : Fetched)
  deriving DecidableEq, Repr

def step (s : State) : Action → Except Stop State
  | .submitNew arg => .ok (s.submitNew arg)
  | .setStatus st  => .ok { s with dispatcher := (s.dispatcher.setStatus st).2 }
  | .workThread i  => s.workThread i
  | .run i fetched => s.run i fetched

end Indexer2

end Server8
