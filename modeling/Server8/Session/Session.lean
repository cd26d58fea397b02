import Server8.Session.Event
import Server8.Lib.Ring

namespace Server8

def defaultQueueSize : Nat := 0xAA

-- The ring of events inside a session, `Session::m_queue`.
structure EventQueue where
  size     : Nat
  maxSize  : Nat
  head     : Nat
  tail     : Nat
  eventArr : List Event
  deriving DecidableEq, Repr

namespace EventQueue

def isFull (q : EventQueue) : Bool :=
  q.size = q.maxSize

def isEmpty (q : EventQueue) : Bool :=
  q.size = 0

-- `eventArr[i] = event`, undefined outside of the array.
def assign (m : Heap) (q : EventQueue) (i : Nat) (event : Event) : Option (Heap × EventQueue) := do
  let e ← q.eventArr[i]?
  let (m, e) ← e.assign m event
  some (m, { q with eventArr := q.eventArr.set i e })

-- `eventArr[i].release()`.
def release (m : Heap) (q : EventQueue) (i : Nat) : Option (Heap × EventQueue) := do
  let e ← q.eventArr[i]?
  let (m, e) ← e.release m
  some (m, { q with eventArr := q.eventArr.set i e })

end EventQueue

structure Session where
  eventQueue : EventQueue
  key        : String
  level      : Level
  status     : Status
  priority   : Priority
  deriving DecidableEq, Repr

namespace Session

def new (key : String) (maxSize : Int) (status : Status) (level : Level) (pri : Priority) :
    Session :=
  let maxSize := if maxSize ≤ 0 then defaultQueueSize else maxSize.toNat
  let eventQueue := {
    size     := 0
    maxSize
    head     := maxSize / 2
    tail     := maxSize / 2
    eventArr := List.replicate maxSize {} }
  { eventQueue, key, level, status, priority := pri }

def getEventCount (s : Session) : Nat :=
  s.eventQueue.size

def getStatus (s : Session) : Status :=
  s.status

def setStatus (s : Session) (status : Status) : Session :=
  { s with status }

-- The operations on the ring return `none` where the source has undefined behaviour.

def pushBack (m : Heap) (s : Session) (event : Event) : Option (Heap × Session × Bool) :=
  if s.status ≠ .halt ∧ ¬s.eventQueue.isFull then do
    let q := s.eventQueue
    let tail := if q.tail ≠ q.maxSize - 1 then q.tail + 1 else 0
    let (m, q) ← { q with tail }.assign m tail event
    let q := if q.size ≠ 0 then { q with size := q.size + 1 }
      else { q with size := q.size + 1, head := q.tail }
    some (m, { s with eventQueue := q }, true)
  else some (m, s, false)

def pushFront (m : Heap) (s : Session) (event : Event) : Option (Heap × Session × Bool) :=
  if s.status ≠ .halt ∧ ¬s.eventQueue.isFull then do
    let q := s.eventQueue
    let head := if q.head ≠ 0 then q.head - 1 else q.maxSize - 1
    let (m, q) ← { q with head }.assign m head event
    let q := if q.size ≠ 0 then { q with size := q.size + 1 }
      else { q with size := q.size + 1, tail := q.head }
    some (m, { s with eventQueue := q }, true)
  else some (m, s, false)

def popFront (m : Heap) (s : Session) : Option (Heap × Session × Bool) :=
  if s.status ≠ .halt ∧ ¬s.eventQueue.isEmpty then do
    let (m, q) ← s.eventQueue.release m s.eventQueue.head
    let q := { q with head := if q.head ≠ q.maxSize - 1 then q.head + 1 else 0 }
    let q := if q.size > 1 then { q with size := q.size - 1 }
      else { q with size := q.size - 1, tail := q.head }
    some (m, { s with eventQueue := q }, true)
  else some (m, s, false)

def popBack (m : Heap) (s : Session) : Option (Heap × Session × Bool) :=
  if s.status ≠ .halt ∧ ¬s.eventQueue.isEmpty then do
    let (m, q) ← s.eventQueue.release m s.eventQueue.tail
    let q := { q with tail := if q.tail = 0 then q.maxSize - 1 else q.tail - 1 }
    let q := if q.size > 1 then { q with size := q.size - 1 }
      else { q with size := q.size - 1, head := q.tail }
    some (m, { s with eventQueue := q }, true)
  else some (m, s, false)

-- The event at `*pEvent`, with the result `true`, or `some none` for the null pointer and `false`.

def getFirst (s : Session) : Option (Option Event) :=
  if s.status ≠ .halt ∧ ¬s.eventQueue.isEmpty
  then (s.eventQueue.eventArr[s.eventQueue.head]?).map some else some none

def getLast (s : Session) : Option (Option Event) :=
  if s.status ≠ .halt ∧ ¬s.eventQueue.isEmpty
  then (s.eventQueue.eventArr[s.eventQueue.tail]?).map some else some none

-- The loop of `clearEventQueue`: `n` more slots to release, from `index` on.
def clearLoop : Nat → Nat → Heap → EventQueue → Option (Heap × EventQueue)
  | 0, _, m, q         => some (m, q)
  | n + 1, index, m, q => do
    let (m, q) ← q.release m index
    clearLoop n (if index = q.maxSize - 1 then 0 else index + 1) m q

def clearEventQueue (m : Heap) (s : Session) : Option (Heap × Session) := do
  let (m, q) ← clearLoop s.eventQueue.size s.eventQueue.head m s.eventQueue
  let q := { q with size := 0, head := q.maxSize / 2, tail := q.maxSize / 2 }
  some (m, { s with eventQueue := q })

-- The destructor: `delete[]` destroys the slots from the last to the first.
def destroy (m : Heap) (s : Session) : Option Heap := do
  let (m, s) ← s.clearEventQueue m
  s.eventQueue.eventArr.reverse.foldlM Event.delete m

end Session
end Server8
