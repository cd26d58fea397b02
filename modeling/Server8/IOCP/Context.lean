import Std.Data.TreeMap
import Server8.Protocol.Packet
import Server8.Lib.Memory

namespace Server8

inductive IOCPOperationSignal
  | null | accept | recv | send | closeConnection | exit
  deriving DecidableEq, Repr

abbrev Socket := Nat

structure WSABUF where
  len : Nat
  buf : Bytes
  deriving DecidableEq, Repr

-- The bytes that a descriptor offers to a socket.
def WSABUF.bytes (w : WSABUF) : Bytes :=
  w.buf.take w.len

def defaultBufSize : Int := 0x2000

-- The program never reads the array at `prevData`, so only its size matters. `none` stands for the
-- pointer without an array: the one that was never set, and the one that was deleted.
structure IOCPContext where
  socket       : Option Socket       := none
  wsabuf       : WSABUF
  operation    : IOCPOperationSignal := .null
  contextIndex : Int                 := 0
  prevFlag     : Bool                := false
  bytesToRecv  : Int                 := 0
  prevData     : Option Int          := none
  packet       : Packet              := {}
  deriving DecidableEq, Repr

-- A buffer size that is not positive ends the program.
def IOCPContext.new (bufSize : Int) : Option IOCPContext :=
  if bufSize > 0 then
    some { wsabuf := { len := bufSize.toNat, buf := List.replicate bufSize.toNat 0 } }
  else none

abbrev Contexts := Memory IOCPContext

-- The map goes from an index to the address of a context. `count` is an `int` in the code, which
-- overflows after 2147483647 contexts of one connection; this is left out.
structure SocketContext where
  socket         : Option Socket        := none
  iocpContextMap : Std.TreeMap Int Nat  := ∅
  count          : Int                  := 0
  closeFlag      : Bool                 := false

namespace SocketContext

-- The context is numbered before the increment and filed under the number after it.
def createIOCPContext (m : Contexts) (sc : SocketContext) (bufSize : Int) :
    Option (Contexts × SocketContext × Nat) := do
  let context ← IOCPContext.new bufSize
  let (pIC, m) := m.alloc { context with contextIndex := sc.count }
  let count := sc.count + 1
  some (m, { sc with count, iocpContextMap := sc.iocpContextMap.insertIfNew count pIC }, pIC)

def removeIOCPContext (m : Contexts) (sc : SocketContext) (contextIndex : Int) :
    Option (Contexts × SocketContext × Bool) :=
  match sc.iocpContextMap[contextIndex]? with
  | none     => some (m, sc, false)
  | some pIC => do
    let m ← m.free pIC
    some (m, { sc with iocpContextMap := sc.iocpContextMap.erase contextIndex }, true)

-- What the destructor does to the contexts.
def deleteContexts (m : Contexts) (sc : SocketContext) : Option Contexts :=
  sc.iocpContextMap.values.foldlM Memory.free m

section Map

variable {m m' : Contexts} {sc sc' : SocketContext} {bufSize k : Int} {p : Nat}

theorem createIOCPContext_eq (h : 0 < bufSize) :
    ∃ context : IOCPContext, IOCPContext.new bufSize = some context ∧
      sc.createIOCPContext m bufSize =
        some ((m.alloc { context with contextIndex := sc.count }).2,
          { sc with
            count          := sc.count + 1
            iocpContextMap := sc.iocpContextMap.insertIfNew (sc.count + 1) m.newAddress },
          m.newAddress) := by
  refine ⟨_, if_pos h, ?_⟩
  simp [createIOCPContext, IOCPContext.new, h, Memory.alloc]

theorem removeIOCPContext_absent (h : sc.iocpContextMap[k]? = none) :
    sc.removeIOCPContext m k = some (m, sc, false) := by
  simp [removeIOCPContext, h]

theorem removeIOCPContext_present (h : sc.iocpContextMap[k]? = some p) (hm : m.free p = some m') :
    sc.removeIOCPContext m k =
      some (m', { sc with iocpContextMap := sc.iocpContextMap.erase k }, true) := by
  simp [removeIOCPContext, h, hm]

theorem getElem?_insertIfNew (sc : SocketContext) (k j : Int) (p : Nat) :
    (sc.iocpContextMap.insertIfNew k p)[j]? =
      if k = j ∧ sc.iocpContextMap[k]? = none then some p else sc.iocpContextMap[j]? := by
  have hm : k ∉ sc.iocpContextMap ↔ sc.iocpContextMap[k]? = none := by
    rw [Std.TreeMap.mem_iff_isSome_getElem?, Bool.not_eq_true, Option.isSome_eq_false_iff,
      Option.isNone_iff_eq_none]
  simp only [Std.TreeMap.getElem?_insertIfNew, Std.compare_eq_iff_eq, hm]

theorem getElem?_erase (sc : SocketContext) (k j : Int) :
    (sc.iocpContextMap.erase k)[j]? = if k = j then none else sc.iocpContextMap[j]? := by
  simp only [Std.TreeMap.getElem?_erase, Std.compare_eq_iff_eq]

end Map

end SocketContext
end Server8
