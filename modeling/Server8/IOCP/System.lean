import Server8.IOCP.Receive

-- The module with everything that runs in it at once: the operations that the system has not
-- completed, the completion packets that no worker has taken, and the threads.

namespace Server8

-- Why there is no next state: the step cannot happen now, the program ends, it uses what was
-- deleted, or it copies out of bounds.
inductive Stop
  | disabled | exit | deleted | overrun
  deriving DecidableEq, Repr

def need {α : Type} (stop : Stop) : Option α → Except Stop α
  | some a => .ok a
  | none   => .error stop

-- What an operation was posted for. A close packet tells whether the thread with the receive of the
-- connection asked for it.
inductive Kind
  | accept
  | recv
  | send
  | close (receive : Bool)
  | exit
  deriving DecidableEq, Repr

-- The received bytes begin at `base` in what the client sends.
structure Completion where
  flag               : Bool
  dwBytesTransfered  : Nat
  pSC                : Nat
  pIC                : Nat
  kind               : Kind
  base               : Nat := 0
  deriving DecidableEq, Repr

-- What is left to do of a function. The steps of the worker loop come first, then those of `sendData`.
-- `resent` and `sent` are what is left of `postSend` after `WSASend`, in `doSend` and in `sendData`.
inductive Task
  | dispatch (packet : Completion)
  | insert (pSC pIC pSocketContext : Nat) (dataLength : Nat) (processFlag : Bool)
  | process (pSC pIC : Nat) (dataLength : Nat)
  | postAccept (pIC : Nat) (reset count : Bool)
  | removeIOCPContext (pSC pIC : Nat)
  | doRecv (pSC pIC : Nat) (base : Nat) (count : Bool) (stops : List Int)
  | doSend (pSC pIC : Nat) (posted ret : Bool) (effects : List SendEffect)
  | resent (pSC pIC : Nat) (posted ret : Bool) (effects : List SendEffect)
  | sendError (pSC : Nat)
  | postCloseConnection (pSC : Nat) (receive : Bool)
  | doCloseConnection (pSC : Nat) (receive : Bool)
  | find (pSC : Nat) (data : Bytes)
  | bind (pSC : Nat) (data : Bytes)
  | publish (pSC pIC : Nat) (data : Bytes)
  | create (pSC : Nat) (data : Bytes)
  | postSend (pSC pIC : Nat)
  | sent (pSC pIC : Nat) (posted : Bool)
  deriving DecidableEq, Repr

-- A thread of the pool goes back to the queue when it has nothing left to do.
inductive Item
  | operation (kind : Kind) (pSC pIC : Nat)
  | packet (packet : Completion)
  | thread (worker : Bool) (task : Task)
  deriving DecidableEq, Repr

-- Who holds the exclusive lock from one step to the next: `initIOCP` with contexts left to post, or
-- `stopIOCP` with exit packets left to post, or with the port closed.
inductive Lock
  | free
  | init (standby : Nat)
  | exits (left : Nat)
  | closed
  deriving DecidableEq, Repr

-- A call of a callback. Those for received bytes tell which socket these came from and where in its
-- stream the packet ends.
inductive Invocation
  | recv (context : Nat) (socket : Option Socket) (position : Int)
  | send (context : Nat)
  deriving DecidableEq, Repr

-- The addresses of `listenSocketContext` and of its socket.
def listening : Nat := 1

def listenSocket : Socket := 0

structure ContextHeap where
  contexts       : Contexts
  socketContexts : Memory SocketContext

-- What the threads share. `keys` is what `CreateIoCompletionPort` bound the sockets to, `read` how much
-- of a stream was received, `idle` how many workers wait at the queue. The last call is in front. The four
-- numbers are the increments that threads have come to; what these leave in memory is another matter.
structure Module extends ContextHeap where
  bufferSize         : Int
  maxThreadNum       : Nat
  socketContextMap   : Std.TreeMap Nat (Option Socket)
  lock               : Lock
  keys               : Socket → Option Nat
  nextSocket         : Socket
  closed             : List Socket
  read               : Socket → Nat
  portOpen           : Bool
  idle               : Nat
  connectNum         : Int
  normallyClosedNum  : Int
  errorNum           : Int
  callbackInvokedNum : Int
  calls              : List Invocation

namespace IOCPContext

def resetBuffer (pIC : IOCPContext) : IOCPContext :=
  { pIC with wsabuf := { pIC.wsabuf with buf := List.replicate pIC.wsabuf.len 0 } }

-- What the system does to the buffer of an operation.
def receive (pIC : IOCPContext) (data : Bytes) : IOCPContext :=
  { pIC with wsabuf := { pIC.wsabuf with buf := data ++ pIC.wsabuf.buf.drop data.length } }

end IOCPContext

namespace ContextHeap

def context (h : ContextHeap) (pIC : Nat) : Except Stop IOCPContext :=
  need .deleted (h.contexts.block pIC)

def socketContext (h : ContextHeap) (pSC : Nat) : Except Stop SocketContext :=
  need .deleted (h.socketContexts.block pSC)

def setContext (h : ContextHeap) (pIC : Nat) (c : IOCPContext) : Except Stop ContextHeap := do
  let contexts ← need .deleted (h.contexts.write pIC c)
  return { h with contexts }

def setSocketContext (h : ContextHeap) (pSC : Nat) (sc : SocketContext) : Except Stop ContextHeap := do
  let socketContexts ← need .deleted (h.socketContexts.write pSC sc)
  return { h with socketContexts }

def newSocketContext (h : ContextHeap) (socket : Option Socket) : ContextHeap × Nat :=
  let (pSC, socketContexts) := h.socketContexts.alloc { socket }
  ({ h with socketContexts }, pSC)

-- `createIOCPContext`, and what its callers set in the new context.
def createIOCPContext (h : ContextHeap) (pSC : Nat) (bufSize : Int) (set : IOCPContext → IOCPContext) :
    Except Stop (ContextHeap × Nat) := do
  let sc ← h.socketContext pSC
  let (contexts, sc, pIC) ← need .exit (sc.createIOCPContext h.contexts bufSize)
  let h ← { h with contexts }.setSocketContext pSC sc
  let c ← h.context pIC
  let h ← h.setContext pIC (set c)
  return (h, pIC)

def removeIOCPContext (h : ContextHeap) (pSC : Nat) (contextIndex : Int) : Except Stop ContextHeap := do
  let sc ← h.socketContext pSC
  let (contexts, sc, _) ← need .deleted (sc.removeIOCPContext h.contexts contextIndex)
  { h with contexts }.setSocketContext pSC sc

-- `delete pSC`, up to the socket that the destructor closes.
def deleteSocketContext (h : ContextHeap) (pSC : Nat) : Except Stop (ContextHeap × Option Socket) := do
  let sc ← h.socketContext pSC
  let contexts ← need .deleted (sc.deleteContexts h.contexts)
  let socketContexts ← need .deleted (h.socketContexts.free pSC)
  return ({ contexts, socketContexts }, sc.socket)

end ContextHeap

namespace Module

abbrev Result := Except Stop (Module × List Item)

section Calls

def closesocket (m : Module) (socket : Option Socket) : Module :=
  { m with closed := socket.toList ++ m.closed }

-- The keys after `CreateIoCompletionPort`. A socket that belongs to a port already is not bound again.
def bind (m : Module) (socket : Option Socket) (pSC : Nat) : Option (Socket → Option Nat) := do
  let k ← socket
  if m.portOpen ∧ m.keys k = none ∧ k ∉ m.closed then
    some (Function.update m.keys k (some pSC))
  else none

-- An operation reports to what its socket is bound to.
def posted (keys : Socket → Option Nat) (socket : Option Socket) (kind : Kind) (pIC : Nat) :
    List Item :=
  match socket.bind keys with
  | none     => []
  | some pSC => [.operation kind pSC pIC]

def PostQueuedCompletionStatus (m : Module) (kind : Kind) (pSC pIC : Nat) : List Item :=
  if m.portOpen then
    [.packet { flag := true, dwBytesTransfered := 1, pSC, pIC, kind }]
  else []

-- The end of a handler, and of a call from outside.
def done (m : Module) (worker : Bool) : Module :=
  { m with idle := m.idle + worker.toNat }

def unlocked (m : Module) : Except Stop Unit :=
  if m.lock = .free then return else throw .disabled

end Calls

section Handlers

-- The new context is filled, matched against the bytes and given its first receive before any other
-- thread can know of it. Where the function fails, what it made is deleted again.
def doAccept (m : Module) (p : Completion) (pIC : IOCPContext) (bound posted : Bool) : Result := do
  let failed := (m.closesocket pIC.socket, [Item.thread true (.postAccept p.pIC false true)])
  let (heap, pSocketContext) := m.newSocketContext pIC.socket
  let (heap, pContext) ← heap.createIOCPContext pSocketContext defaultBufSize fun c =>
    { c with socket := pIC.socket, operation := .recv }
  match if bound then m.bind pIC.socket pSocketContext else none with
  | none      => return failed
  | some keys =>
    let c ← heap.context pContext
    let r := c.doAccept pIC.wsabuf.buf p.dwBytesTransfered
    if ∀ copy ∈ r.copies, copy.InBounds pIC.wsabuf.buf.length then
      if posted then
        let heap ← heap.setContext pContext r.context.resetBuffer
        return ({ m with toContextHeap := heap, keys },
          .thread true (.insert p.pSC p.pIC pSocketContext p.dwBytesTransfered (r.calls ≠ [])) ::
            Module.posted keys pIC.socket .recv pContext)
      else return failed
    else throw .overrun

def doRecv (m : Module) (p : Completion) (pIC : IOCPContext) : Result := do
  let r := pIC.doRecv m.bufferSize pIC.wsabuf.buf p.dwBytesTransfered
  if ∀ copy ∈ r.copies, copy.InBounds pIC.wsabuf.buf.length then
    let heap ← m.setContext p.pIC r.context
    return ({ m with toContextHeap := heap },
      [.thread true (.doRecv p.pSC p.pIC p.base pIC.prevFlag (r.calls.map Prod.fst))])
  else throw .overrun

-- A send that goes out again has `operation` written after it was posted.
def doSend (m : Module) (p : Completion) (pIC : IOCPContext) (posted : Bool) : Result := do
  let (pIC', effects, ret) := pIC.doSend posted p.dwBytesTransfered
  let heap ← m.setContext p.pIC { pIC' with operation := pIC.operation }
  return ({ m with toContextHeap := heap }, [.thread true (.doSend p.pSC p.pIC posted ret effects)])

def emptyConnection (m : Module) (p : Completion) (pIC : IOCPContext) : Module × List Item :=
  ({ m with
      closed            := pIC.socket.toList ++ m.closed
      connectNum        := m.connectNum + 1
      normallyClosedNum := m.normallyClosedNum + 1 },
    [.thread true (.postAccept p.pIC false false)])

def exitThread (m : Module) (p : Completion) : Result := do
  let (heap, socket) ← m.deleteSocketContext p.pSC
  return ({ m with toContextHeap := heap, closed := socket.toList ++ m.closed }, [])

-- The branch of the worker loop for a failed operation.
def dispatchError (m : Module) (p : Completion) : Result := do
  let m := { m with errorNum := m.errorNum + 1 }
  let pIC ← m.context p.pIC
  match pIC.operation with
  | .accept => return m.emptyConnection p pIC
  | .send   => return (m, [.thread true (.sendError p.pSC)])
  | _       => return (m, [.thread true (.postCloseConnection p.pSC (p.kind = .recv))])

-- The branch for a completion with data.
def dispatchData (m : Module) (p : Completion) (pIC : IOCPContext) (first second : Bool) : Result :=
  match pIC.operation with
  | .accept          => m.doAccept p pIC first second
  | .recv            => m.doRecv p pIC
  | .send            => m.doSend p pIC first
  | .closeConnection => return (m, [.thread true (.doCloseConnection p.pSC (p.kind = .close true))])
  | .null            => return (m.done true, [])
  | .exit            => m.exitThread p

def dispatchEmpty (m : Module) (p : Completion) (pSC : SocketContext) (pIC : IOCPContext) :
    Module × List Item :=
  match pIC.operation with
  | .accept => m.emptyConnection p pIC
  | _       =>
    if !pSC.closeFlag then (m, [.thread true (.postCloseConnection p.pSC (p.kind = .recv))])
    else (m.done true, [])

-- The body of the loop of `IOCPWorkThread`. The choices are the results of the system calls.
def dispatch (m : Module) (p : Completion) (first second : Bool) : Result := do
  if !p.flag then m.dispatchError p
  else
    let pSC ← m.socketContext p.pSC
    let pIC ← m.context p.pIC
    if p.dwBytesTransfered > 0 then m.dispatchData p pIC first second
    else return m.dispatchEmpty p pSC pIC

def insert (m : Module) (pSC pIC pSocketContext dataLength : Nat) (processFlag : Bool) : Result := do
  m.unlocked
  let sc ← m.socketContext pSocketContext
  let next := if processFlag then Task.process pSC pIC dataLength else .postAccept pIC true true
  return ({ m with socketContextMap := m.socketContextMap.insertIfNew pSocketContext sc.socket },
    [.thread true next])

def process (m : Module) (pSC pIC dataLength : Nat) : Result := do
  let c ← m.context pIC
  return ({ m with
      callbackInvokedNum := m.callbackInvokedNum + 1
      calls              := .recv pSC c.socket dataLength :: m.calls },
    [.thread true (.postAccept pIC true true)])

-- `created` is the result of `WSASocket`, `posted` that of `AcceptEx`.
def postAccept (m : Module) (pIC : Nat) (created posted : Bool) :
    Except Stop (Module × List Item) := do
  let c ← m.context pIC
  let socket := if created then some m.nextSocket else none
  let heap ← m.setContext pIC { c with operation := .accept, socket }
  return ({ m with toContextHeap := heap, nextSocket := m.nextSocket + created.toNat },
    if created && posted then [.operation .accept listening pIC] else [])

def repost (m : Module) (pIC : Nat) (reset count created posted : Bool) : Result := do
  let c ← m.context pIC
  let heap ← m.setContext pIC (if reset then c.resetBuffer else c)
  let (m, items) ← { m with toContextHeap := heap }.postAccept pIC created posted
  if created && posted then
    return ({ m with connectNum := m.connectNum + if count then 1 else 0 }.done true, items)
  else return (m, [.thread true (.removeIOCPContext listening pIC)])

def remove (m : Module) (worker : Bool) (pSC pIC : Nat) : Result := do
  let c ← m.context pIC
  let heap ← m.removeIOCPContext pSC c.contextIndex
  return ({ m with toContextHeap := heap }.done worker, [])

-- What is left of `doRecv` when the bytes are taken apart: the calls, and the next receive.
def callback (m : Module) (pSC pIC base : Nat) (count : Bool) (stops : List Int) (posted : Bool) :
    Result := do
  let c ← m.context pIC
  match stops with
  | stop :: stops =>
    return ({ m with
        callbackInvokedNum := m.callbackInvokedNum + if count then 1 else 0
        calls              := .recv pSC c.socket (base + stop) :: m.calls },
      [.thread true (.doRecv pSC pIC base count stops)])
  | [] =>
    let heap ← m.setContext pIC { c.resetBuffer with operation := .recv }
    let m := { m with toContextHeap := heap }
    if posted then return (m.done true, Module.posted m.keys c.socket .recv pIC)
    else return (m, [.thread true (.postCloseConnection pSC true)])

-- What is left of `doSend` when the numbers are compared.
def perform (m : Module) (pSC pIC : Nat) (posted ret : Bool) (effects : List SendEffect) : Result := do
  match effects with
  | [] =>
    if ret then return (m.done true, []) else return (m, [.thread true (.postCloseConnection pSC false)])
  | effect :: effects =>
    let c ← m.context pIC
    let next := Item.thread true (.doSend pSC pIC posted ret effects)
    match effect with
    | .callback _ =>
      return ({ m with
        callbackInvokedNum := m.callbackInvokedNum + 1
        calls              := .send pSC :: m.calls }, [next])
    | .post _ =>
      return (m, .thread true (.resent pSC pIC posted ret effects) ::
        if posted then Module.posted m.keys c.socket .send pIC else [])
    | .remove contextIndex =>
      let heap ← m.removeIOCPContext pSC contextIndex
      return ({ m with toContextHeap := heap }, [next])

-- The end of `postSend`. A send that was posted may be completed by now, and its context deleted.
def setOperation (m : Module) (pIC : Nat) : Except Stop Module := do
  let c ← m.context pIC
  let heap ← m.setContext pIC { c with operation := .send }
  return { m with toContextHeap := heap }

def resent (m : Module) (pSC pIC : Nat) (posted ret : Bool) (effects : List SendEffect) : Result := do
  let m ← m.setOperation pIC
  return (m, [.thread true (.doSend pSC pIC posted ret effects)])

def postCloseConnection (m : Module) (worker : Bool) (pSC : Nat) (receive : Bool) : Result := do
  m.unlocked
  match m.socketContextMap[pSC]? with
  | none   => return (m.done worker, [])
  | some _ =>
    let sc ← m.socketContext pSC
    if !sc.closeFlag then
      let heap ← m.setSocketContext pSC { sc with closeFlag := true }
      let (heap, pCloseContext) ← heap.createIOCPContext pSC 4096 fun c =>
        { c with operation := .closeConnection }
      return ({ m with toContextHeap := heap }.done worker,
        m.PostQueuedCompletionStatus (.close receive) pSC pCloseContext)
    else return (m.done worker, [])

def doCloseConnection (m : Module) (pSC : Nat) : Result := do
  m.unlocked
  let m := { m with normallyClosedNum := m.normallyClosedNum + 1 }
  match m.socketContextMap[pSC]? with
  | none   => return (m.done true, [])
  | some _ =>
    let (heap, socket) ← m.deleteSocketContext pSC
    return ({ m with
      toContextHeap    := heap
      closed           := socket.toList ++ m.closed
      socketContextMap := m.socketContextMap.erase pSC }.done true, [])

end Handlers

section SendData

def find (m : Module) (pSC : Nat) (data : Bytes) : Result := do
  m.unlocked
  match m.socketContextMap[pSC]? with
  | none   => return (m, [.thread false (.bind pSC data)])
  | some _ => return (m, [.thread false (.create pSC data)])

def bindSocket (m : Module) (pSC : Nat) (data : Bytes) (bound : Bool) : Result := do
  let sc ← m.socketContext pSC
  match if bound then m.bind sc.socket pSC else none with
  | none      => return (m, [])
  | some keys =>
    let (heap, pContext) ← m.createIOCPContext pSC m.bufferSize fun c =>
      { c with socket := sc.socket, operation := .recv }
    return ({ m with toContextHeap := heap, keys }, [.thread false (.publish pSC pContext data)])

def publish (m : Module) (pSC pIC : Nat) (data : Bytes) (posted : Bool) : Result := do
  m.unlocked
  let c ← m.context pIC
  let heap ← m.setContext pIC { c.resetBuffer with operation := .recv }
  let heap ← if posted then pure heap else heap.removeIOCPContext pSC c.contextIndex
  let sc ← heap.socketContext pSC
  return ({ m with
      toContextHeap    := heap
      socketContextMap := m.socketContextMap.insertIfNew pSC sc.socket },
    .thread false (.create pSC data) ::
      if posted then Module.posted m.keys c.socket .recv pIC else [])

def create (m : Module) (pSC : Nat) (data : Bytes) : Result := do
  let sc ← m.socketContext pSC
  let (heap, pContext) ← m.createIOCPContext pSC data.length fun c => c.setSend sc.socket data
  return ({ m with toContextHeap := heap }, [.thread false (.postSend pSC pContext)])

def postSend (m : Module) (pSC pIC : Nat) (posted : Bool) : Result := do
  let c ← m.context pIC
  return (m, .thread false (.sent pSC pIC posted) ::
    if posted then Module.posted m.keys c.socket .send pIC else [])

def sent (m : Module) (pSC pIC : Nat) (posted : Bool) : Result := do
  let m ← m.setOperation pIC
  return (m, if posted then [] else [.thread false (.removeIOCPContext pSC pIC)])

end SendData

def sendError (m : Module) (pSC : Nat) : Module × List Item :=
  ({ m with calls := .send pSC :: m.calls }, [.thread true (.postCloseConnection pSC false)])

-- The next step of a thread. The choices are the results of the system calls in it.
def run (m : Module) (worker first second : Bool) : Task → Result
  | .dispatch p                                    => m.dispatch p first second
  | .insert pSC pIC pSocketContext dataLength flag => m.insert pSC pIC pSocketContext dataLength flag
  | .process pSC pIC dataLength                    => m.process pSC pIC dataLength
  | .postAccept pIC reset count                    => m.repost pIC reset count first second
  | .removeIOCPContext pSC pIC                     => m.remove worker pSC pIC
  | .doRecv pSC pIC base count stops               => m.callback pSC pIC base count stops first
  | .doSend pSC pIC posted ret effects             => m.perform pSC pIC posted ret effects
  | .resent pSC pIC posted ret effects             => m.resent pSC pIC posted ret effects
  | .sendError pSC                                 => return m.sendError pSC
  | .postCloseConnection pSC receive               => m.postCloseConnection worker pSC receive
  | .doCloseConnection pSC _                       => m.doCloseConnection pSC
  | .find pSC data                                 => m.find pSC data
  | .bind pSC data                                 => m.bindSocket pSC data first
  | .publish pSC pIC data                          => m.publish pSC pIC data first
  | .create pSC data                               => m.create pSC data
  | .postSend pSC pIC                              => m.postSend pSC pIC first
  | .sent pSC pIC posted                           => m.sent pSC pIC posted

-- A turn of the loop in `initIOCP`.
def initIOCP (m : Module) (standby : Nat) (created posted : Bool) : Result := do
  let (heap, pContext) ← m.createIOCPContext listening defaultBufSize fun c =>
    { c with operation := .accept }
  let (m, items) ← { m with toContextHeap := heap, lock := .init standby }.postAccept pContext created posted
  if created && posted then return (m, items)
  else
    let c ← m.context pContext
    let heap ← m.removeIOCPContext listening c.contextIndex
    return ({ m with toContextHeap := heap }, [])

-- A turn of the loop in `stopIOCP`.
def postExit (m : Module) (left : Nat) : Result := do
  let (heap, pSC) := m.newSocketContext none
  let (heap, pIC) ← heap.createIOCPContext pSC defaultBufSize fun c => { c with operation := .exit }
  return ({ m with toContextHeap := heap, lock := .exits left },
    m.PostQueuedCompletionStatus .exit pSC pIC)

-- The end of `stopIOCP`: the sockets of the standby contexts are closed and the contexts deleted.
def deleteStandby (m : Module) : Result := do
  let sc ← m.socketContext listening
  let contexts ← need .deleted (sc.deleteContexts m.contexts)
  let sockets := sc.iocpContextMap.values.filterMap fun pIC =>
    (m.contexts.block pIC).bind IOCPContext.socket
  let heap ← { m.toContextHeap with contexts }.setSocketContext listening { sc with iocpContextMap := ∅ }
  return ({ m with toContextHeap := heap, closed := sockets ++ m.closed, lock := .free }, [])

def stopIOCP (m : Module) : Result :=
  match m.lock with
  | .free             =>
    return ({ m with closed := listenSocket :: m.closed, lock := .exits m.maxThreadNum }, [])
  | .exits (left + 1) => m.postExit left
  | .exits 0          => return ({ m with portOpen := false, lock := .closed }, [])
  | .closed           => m.deleteStandby
  | .init _           => throw .disabled

-- What the destructor of the module does to `listenSocketContext`.
def destroy (m : Module) : Result := do
  let (heap, socket) ← m.deleteSocketContext listening
  return ({ m with toContextHeap := heap, closed := socket.toList ++ m.closed }, [])

def createConnectContext (m : Module) (connected : Bool) : Module :=
  let socket := some m.nextSocket
  if connected then
    { m with toContextHeap := (m.newSocketContext socket).1, nextSocket := m.nextSocket + 1 }
  else { m with nextSocket := m.nextSocket + 1, closed := m.nextSocket :: m.closed }

-- What the system makes of an operation.
inductive Completed
  | failed
  | received (data : Bytes)
  | sent (n : Nat)
  deriving DecidableEq, Repr

-- Nothing is received on a closed socket, and no more than the buffer has room for; the addresses take
-- 64 bytes of the buffer of an accept.
def Receivable (m : Module) (kind : Kind) (c : IOCPContext) (data : Bytes) : Prop :=
  (kind = .accept ∧ data.length ≤ c.wsabuf.len - 64 ∧ listenSocket ∉ m.closed) ∨
  (kind = .recv ∧ data.length ≤ c.wsabuf.len ∧ ∀ k ∈ c.socket, k ∉ m.closed)

instance (m : Module) (kind : Kind) (c : IOCPContext) (data : Bytes) :
    Decidable (m.Receivable kind c data) :=
  inferInstanceAs (Decidable (_ ∨ _))

def complete (m : Module) (kind : Kind) (pSC pIC : Nat) : Completed → Result
  | .failed        =>
    return (m, [.packet { flag := false, dwBytesTransfered := 0, pSC, pIC, kind }])
  | .received data => do
    let c ← m.context pIC
    if m.Receivable kind c data then
      let k := c.socket.getD 0
      let heap ← m.setContext pIC (c.receive data)
      let packet := {
        flag              := true
        dwBytesTransfered := data.length
        pSC, pIC, kind
        base              := m.read k }
      return ({ m with
          toContextHeap := heap
          read   := Function.update m.read k (m.read k + data.length) },
        [.packet packet])
    else throw .disabled
  | .sent n        => do
    let c ← m.context pIC
    if kind = .send ∧ ∀ k ∈ c.socket, k ∉ m.closed then
      return (m, [.packet { flag := true, dwBytesTransfered := n, pSC, pIC, kind }])
    else throw .disabled

end Module

inductive Action
  | initIOCP (created posted : Bool)
  | stopIOCP
  | destroy
  | createConnectContext (connected : Bool)
  | sendData (pSC : Nat) (data : Bytes)
  | postCloseConnection (pSC : Nat)
  | complete (i : Nat) (result : Module.Completed)
  | getQueuedCompletionStatus (i : Option Nat)
  | run (i : Nat) (first second : Bool)

structure State extends Module where
  items : List Item

namespace State

def start (bufferSize : Int) (maxThreadNum threads standby : Nat) : State where
  bufferSize
  maxThreadNum
  contexts           := .empty
  socketContexts     := (Memory.empty.alloc { socket := some listenSocket }).2
  socketContextMap   := ∅
  lock               := .init standby
  keys               := Function.update (fun _ => none) listenSocket (some listening)
  nextSocket         := listenSocket + 1
  closed             := []
  read               := fun _ => 0
  portOpen           := true
  idle               := threads
  connectNum         := 0
  normallyClosedNum  := 0
  errorNum           := 0
  callbackInvokedNum := 0
  calls              := []
  items              := []

-- The item at `i` gives way to what comes of it.
def consume (s : State) (i : Nat) (f : Item → Module.Result) : Except Stop State :=
  match s.items[i]? with
  | none      => throw .disabled
  | some item => do
    let (m, items) ← f item
    return { m with items := items ++ s.items.eraseIdx i }

def produce (s : State) (result : Module.Result) : Except Stop State := do
  let (m, items) ← result
  return { m with items := items ++ s.items }

-- The callers know no context without a socket, and use none that was deleted.
def sendData (s : State) (pSC : Nat) (data : Bytes) : Module.Result :=
  match s.socketContexts.block pSC with
  | none    => throw .disabled
  | some sc =>
    if sc.socket.isSome then
      if 0 < data.length ∧ data.length ≤ 0x800100 then
        return (s.toModule, [.thread false (.find pSC data)])
      else return (s.toModule, [])
    else throw .disabled

def step (s : State) : Action → Except Stop State
  | .initIOCP created posted             =>
    match s.lock with
    | .init (standby + 1) => s.produce (s.initIOCP standby created posted)
    | .init 0             => return { s with lock := .free }
    | _                   => throw .disabled
  | .stopIOCP                            => s.produce s.stopIOCP
  | .destroy                             => s.produce s.destroy
  | .createConnectContext connected      => s.produce (return (s.createConnectContext connected, []))
  | .sendData pSC data                   => s.produce (s.sendData pSC data)
  | .postCloseConnection pSC             =>
    s.produce (return (s.toModule, [.thread false (.postCloseConnection pSC false)]))
  | .complete i result                   =>
    s.consume i fun
      | .operation kind pSC pIC => s.complete kind pSC pIC result
      | _                       => throw .disabled
  | .getQueuedCompletionStatus (some i)  =>
    s.consume i fun
      | .packet packet =>
        if s.portOpen ∧ 0 < s.idle then
          return ({ s.toModule with idle := s.idle - 1 }, [.thread true (.dispatch packet)])
        else throw .disabled
      | _              => throw .disabled
  | .getQueuedCompletionStatus none      =>
    if ¬s.portOpen ∧ 0 < s.idle then return { s with errorNum := s.errorNum + 1 } else throw .disabled
  | .run i first second                  =>
    s.consume i fun
      | .thread worker task => s.toModule.run worker first second task
      | _                   => throw .disabled

end State
end Server8
