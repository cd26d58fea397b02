import Server8.Lib.Runs

-- `EventDispatcher` of svrutil.h with its worker threads. A step of a worker is one access to what
-- the threads share, and what a lock delimits is one step.

namespace Server8

namespace EventDispatcher

inductive Status
  | running | suspend | halt
  deriving DecidableEq, Repr

-- Why there is no next state: the step cannot happen now, or it uses an iterator that is not valid.
inductive Stop
  | disabled | erased
  deriving DecidableEq, Repr

-- `run` of a callback, of which only the state that it begins in matters here.
class Callback (κ : Type) (α φ : outParam Type) where
  run : κ → α → φ

-- A pair of `eventList`. The source has no `ticket`: it counts the pairs that were appended, so that
-- equal ones are told apart.
structure Event (α : Type) where
  ticket : Nat
  name   : String
  pArg   : α
  deriving DecidableEq, Repr

-- A node of `callbackMap`, whose address an iterator holds.
structure Entry (κ : Type) where
  node     : Nat
  name     : String
  callback : κ
  deriving DecidableEq, Repr

-- Where a worker is: at the two tests of `status`, at the two critical sections, at `if (runFlag)`,
-- in a callback, or at the end of the thread.
inductive Pc (φ : Type)
  | loop
  | status
  | getEvent
  | processEvent
  | call
  | run (frame : φ)
  | exit
  deriving DecidableEq, Repr

-- A thread in `workThread` with its local variables. `ticket` is that of the pair it took last.
structure Worker (α φ : Type) where
  pc       : Pc φ
  name     : String
  pArgType : α
  it       : Option Nat
  runFlag  : Bool
  ticket   : Nat
  deriving DecidableEq, Repr

end EventDispatcher

open EventDispatcher in
-- `nodes` counts the entries that `callbackMap` has had. The last four fields are the history: the
-- pairs that were appended and taken, and those that were delivered and dropped.
structure EventDispatcher (α κ φ : Type) where
  status      : Status
  threadList  : List (Worker α φ)
  eventList   : List (Event α)
  callbackMap : List (Entry κ)
  nodes       : Nat
  appended    : List (Event α)
  taken       : List (Event α)
  delivered   : List (Event α)
  dropped     : List (Event α)
  deriving DecidableEq, Repr

namespace EventDispatcher

variable {α κ φ : Type} [Inhabited α] [Callback κ α φ]

-- The null pointer is the default of `α`.
def Worker.new : Worker α φ where
  pc       := .loop
  name     := ""
  pArgType := default
  it       := none
  runFlag  := false
  ticket   := 0

def new (max : Int) : EventDispatcher α κ φ where
  status      := .running
  threadList  := List.replicate (if max < 1 then 1 else max.toNat) .new
  eventList   := []
  callbackMap := []
  nodes       := 0
  appended    := []
  taken       := []
  delivered   := []
  dropped     := []

def find (d : EventDispatcher α κ φ) (name : String) : Option (Entry κ) :=
  d.callbackMap.find? (·.name = name)

-- What `it->second` is.
def second (d : EventDispatcher α κ φ) (it : Option Nat) : Option κ :=
  (it.bind fun node => d.callbackMap.find? (·.node = node)).map Entry.callback

def addCallback (d : EventDispatcher α κ φ) (name : String) (pCallback : Option κ) :
    Bool × EventDispatcher α κ φ :=
  match pCallback with
  | none          => (false, d)
  | some callback =>
    if name = "" then (false, d)
    else match d.find name with
      | none   =>
        (true, { d with
          callbackMap := d.callbackMap ++ [⟨d.nodes, name, callback⟩]
          nodes       := d.nodes + 1 })
      | some _ => (true, d)

def removeCallback (d : EventDispatcher α κ φ) (name : String) : Bool × EventDispatcher α κ φ :=
  if name = "" then (false, d)
  else match d.find name with
    | some entry => (true, { d with callbackMap := d.callbackMap.filter (·.node ≠ entry.node) })
    | none       => (true, d)

def submitEvent (d : EventDispatcher α κ φ) (name : String) (pArg : α) :
    Bool × EventDispatcher α κ φ :=
  match d.find name with
  | some _ =>
    (true, { d with
      eventList := d.eventList ++ [⟨d.appended.length, name, pArg⟩]
      appended  := d.appended ++ [⟨d.appended.length, name, pArg⟩] })
  | none   => (true, d)

def setStatus (d : EventDispatcher α κ φ) (st : Status) : Bool × EventDispatcher α κ φ :=
  if st = .running ∨ st = .suspend then (true, { d with status := st }) else (false, d)

def setThread (d : EventDispatcher α κ φ) (i : Nat) (w : Worker α φ) : EventDispatcher α κ φ :=
  { d with threadList := d.threadList.set i w }

def Worker.event (w : Worker α φ) : Event α :=
  ⟨w.ticket, w.name, w.pArgType⟩

-- `Sleep` takes time only, so the worker tests `status` again.
def Worker.getEvent (w : Worker α φ) (i : Nat) (d : EventDispatcher α κ φ) :
    EventDispatcher α κ φ :=
  match d.eventList with
  | []        => d.setThread i { w with pc := .loop }
  | e :: rest =>
    { d.setThread i { w with
        pc       := .processEvent
        name     := e.name
        pArgType := e.pArg
        ticket   := e.ticket } with
      eventList := rest
      taken     := d.taken ++ [e] }

def Worker.processEvent (w : Worker α φ) (i : Nat) (d : EventDispatcher α κ φ) :
    EventDispatcher α κ φ :=
  match d.find w.name with
  | some entry => d.setThread i { w with pc := .call, it := some entry.node, runFlag := true }
  | none       =>
    { d.setThread i { w with pc := .call, it := none } with
      dropped := d.dropped ++ [w.event] }

def Worker.call (w : Worker α φ) (i : Nat) (d : EventDispatcher α κ φ) :
    Except Stop (EventDispatcher α κ φ) :=
  if w.runFlag then
    match d.second w.it with
    | none          => .error .erased
    | some callback =>
      .ok { d.setThread i { w with pc := .run (Callback.run callback w.pArgType) } with
        delivered := d.delivered ++ [w.event] }
  else .ok (d.setThread i { w with pc := .loop })

-- The next step of worker `i` that is its own.
def workThread (d : EventDispatcher α κ φ) (i : Nat) : Except Stop (EventDispatcher α κ φ) :=
  match d.threadList[i]? with
  | none   => .error .disabled
  | some w =>
    match w.pc with
    | .loop         => .ok (d.setThread i { w with pc := if d.status = .halt then .exit else .status })
    | .status       =>
      .ok (d.setThread i { w with pc := if d.status = .suspend then .loop else .getEvent })
    | .getEvent     => .ok (w.getEvent i d)
    | .processEvent => .ok (w.processEvent i d)
    | .call         => w.call i d
    | .run _        => .error .disabled
    | .exit         => .error .disabled

def Worker.frame (w : Worker α φ) : Option φ :=
  match w.pc with
  | .run frame => some frame
  | _          => none

-- What the callback that worker `i` is in has left to do.
def frame (d : EventDispatcher α κ φ) (i : Nat) : Option φ :=
  d.threadList[i]?.bind Worker.frame

def setFrame (d : EventDispatcher α κ φ) (i : Nat) (frame : φ) : EventDispatcher α κ φ :=
  match d.threadList[i]? with
  | some w => d.setThread i { w with pc := .run frame }
  | none   => d

-- The callback that worker `i` is in returns.
def returned (d : EventDispatcher α κ φ) (i : Nat) : Except Stop (EventDispatcher α κ φ) :=
  match d.threadList[i]? with
  | none   => .error .disabled
  | some w =>
    match w.pc with
    | .run _ => .ok (d.setThread i { w with pc := .loop, runFlag := false })
    | _      => .error .disabled

-- A callback may call the public functions as any other thread does, so its calls are steps of their
-- own.
inductive Action (α κ : Type)
  | submitEvent (name : String) (pArg : α)
  | addCallback (name : String) (pCallback : Option κ)
  | removeCallback (name : String)
  | setStatus (st : Status)
  | workThread (i : Nat)
  | returned (i : Nat)
  deriving DecidableEq, Repr

def step (d : EventDispatcher α κ φ) : Action α κ → Except Stop (EventDispatcher α κ φ)
  | .submitEvent name pArg      => .ok (d.submitEvent name pArg).2
  | .addCallback name pCallback => .ok (d.addCallback name pCallback).2
  | .removeCallback name        => .ok (d.removeCallback name).2
  | .setStatus st               => .ok (d.setStatus st).2
  | .workThread i               => d.workThread i
  | .returned i                 => d.returned i

end EventDispatcher

end Server8
