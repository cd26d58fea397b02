import Server8.Protocol.Packet
import Server8.Lib.Memory

namespace Server8

inductive Status
  | running | ready | suspend | halt
  deriving DecidableEq, Repr

inductive Level
  | server | user
  deriving DecidableEq, Repr

inductive Priority
  | low | medium | high
  deriving DecidableEq, Repr

-- The arrays of `char`.
abbrev Heap := Memory Bytes

-- `pData` is the address of an array of the event's own if `length > 0`, and else whatever pointer
-- the caller gave.
structure Event where
  pData    : Nat      := 0
  length   : Int      := 0
  status   : Status   := .ready
  level    : Level    := .user
  priority : Priority := .medium
  deriving DecidableEq, Repr

namespace Event

-- `new char[length + 1]`, filled with `length` bytes from `src` and a closing zero. It is undefined
-- if `src` does not hold that many bytes.
def copyData (m : Heap) (src : Nat) (length : Int) : Option (Nat × Heap) :=
  (m.block src).bind fun w =>
    if length ≤ w.length then some (m.alloc (w.take length.toNat ++ [0])) else none

-- `if (pData != NULL && length > 0) delete[] pData`, which is also the destructor.
def delete (m : Heap) (e : Event) : Option Heap :=
  if e.pData ≠ 0 ∧ e.length > 0 then m.free e.pData else some m

-- The constructor `Event(src, length, status, level, pri)`.
def new (m : Heap) (src : Nat) (length : Int) (status : Status) (level : Level) (pri : Priority) :
    Option (Heap × Event) :=
  if src ≠ 0 ∧ length > 0 then
    (copyData m src length).map fun (a, m) => (m, ⟨a, length, status, level, pri⟩)
  else if length = 0 then some (m, ⟨src, 0, status, level, pri⟩)
  else some (m, ⟨0, 0, status, level, pri⟩)

-- `operator=`.
def assign (m : Heap) (e event : Event) : Option (Heap × Event) :=
  (e.delete m).bind fun m =>
    if event.length > 0 then
      (copyData m event.pData event.length).map fun (a, m) => (m, { event with pData := a })
    else some (m, event)

def release (m : Heap) (e : Event) : Option (Heap × Event) :=
  (e.delete m).map fun m => (m, { e with pData := 0, length := 0 })

-- What `getData` and `getLength` expose: a pointer, or the bytes of the event's own array.
inductive Payload
  | pointer (p : Nat)
  | bytes (w : Bytes)
  deriving DecidableEq, Repr

-- An event by value.
structure Value where
  payload  : Payload
  status   : Status
  level    : Level
  priority : Priority
  deriving DecidableEq, Repr

def payload (m : Heap) (e : Event) : Payload :=
  if e.length > 0 then .bytes (((m.block e.pData).getD []).take e.length.toNat) else .pointer e.pData

def value (m : Heap) (e : Event) : Value :=
  ⟨e.payload m, e.status, e.level, e.priority⟩

def Value.length (v : Value) : Int :=
  match v.payload with
  | .pointer _ => 0
  | .bytes w   => w.length

-- An event whose own array, if it has one, is allocated and large enough.
structure Valid (m : Heap) (e : Event) : Prop where
  nonneg : 0 ≤ e.length
  block  : e.length > 0 → ∃ w, m.block e.pData = some w ∧ e.length ≤ w.length

def Empty (e : Event) : Prop :=
  e.pData = 0 ∧ e.length = 0

-- Two events do not share an array.
def Separate (e e' : Event) : Prop :=
  e.length > 0 → e'.length > 0 → e.pData ≠ e'.pData

variable {m m' : Heap} {e e' : Event}

theorem Separate.symm (h : e.Separate e') : e'.Separate e :=
  fun h' h'' => (h h'' h').symm

theorem Valid.pData_ne (h : e.Valid m) (hl : e.length > 0) : e.pData ≠ 0 := by
  have ⟨w, hw, _⟩ := h.block hl
  intro hn
  simp [hn, m.null] at hw

-- The exposed length is the length of the exposed value.
theorem Valid.length_value (h : e.Valid m) : (e.value m).length = e.length := by
  unfold value payload Value.length
  split
  case _ p hp =>
    by_cases hl : e.length > 0
    · simp [hl] at hp
    · exact Int.le_antisymm h.nonneg (Int.not_lt.mp hl)
  case _ w hw =>
    by_cases hl : e.length > 0
    · have ⟨w', hw', hle⟩ := h.block hl
      simp only [hl, if_true, hw', Option.getD_some, Payload.bytes.injEq] at hw
      simp [← hw]
      omega
    · simp [hl] at hw

-- A change of the heap that leaves the event's own array alone.
def Keeps (m m' : Heap) (e : Event) : Prop :=
  e.length > 0 → m'.block e.pData = m.block e.pData

theorem Valid.keep (h : e.Valid m) (hk : e.Keeps m m') : e.Valid m' where
  nonneg := h.nonneg
  block hl := hk hl ▸ h.block hl

theorem Keeps.value_eq (hk : e.Keeps m m') : e.value m' = e.value m := by
  unfold value payload
  split
  case isTrue hl => rw [hk hl]
  case isFalse   => rfl

theorem Keeps.trans {m'' : Heap} (h : e.Keeps m m') (h' : e.Keeps m' m'') : e.Keeps m m'' :=
  fun hl => (h' hl).trans (h hl)

theorem Valid.keeps_alloc (h : e.Valid m) (w : Bytes) : e.Keeps m (m.alloc w).2 := by
  intro hl
  have ⟨w', hw, _⟩ := h.block hl
  exact m.alloc_ne w (Memory.newAddress_ne hw)

theorem keeps_free {a : Nat} (h : m.free a = some m') (hne : e.length > 0 → e.pData ≠ a) :
    e.Keeps m m' := by
  intro hl
  rw [Memory.free_eq_some h, Function.update_of_ne (hne hl)]

theorem Empty.valid (h : e.Empty) : e.Valid m where
  nonneg := Int.le_of_eq h.right.symm
  block hl := absurd h.right (Int.ne_of_gt hl)

theorem Empty.separate (h : e.Empty) : e.Separate e' :=
  fun hl => absurd h.right (Int.ne_of_gt hl)

theorem Empty.delete_eq (h : e.Empty) (m : Heap) : e.delete m = some m := by
  simp [delete, h.left]

theorem Valid.delete_spec (h : e.Valid m) :
    ∃ m', e.delete m = some m' ∧ ∀ x : Event, x.Separate e → x.Keeps m m' := by
  by_cases hl : e.length > 0
  case neg => exact ⟨m, by simp [delete, hl], fun _ _ _ => rfl⟩
  case pos =>
    have ⟨w, hw, _⟩ := h.block hl
    have ⟨m', hm'⟩ := Memory.free_of_block hw
    refine ⟨m', by simp [delete, h.pData_ne hl, hl, hm'], fun x hx => ?_⟩
    exact keeps_free hm' fun hl' => hx hl' hl

theorem Valid.release_spec (h : e.Valid m) :
    ∃ m', e.release m = some (m', { e with pData := 0, length := 0 }) ∧
      ∀ x : Event, x.Separate e → x.Keeps m m' := by
  have ⟨m', hm', hk⟩ := h.delete_spec
  exact ⟨m', by simp [release, hm'], hk⟩

-- The copy that `operator=` makes in an empty slot: a new array with the same bytes, shared with no
-- event that was there before.
theorem Empty.assign_spec {event : Event} (he : e.Empty) (hv : event.Valid m) :
    ∃ m' e', e.assign m event = some (m', e') ∧ e'.Valid m' ∧ e'.value m' = event.value m ∧
      ∀ x : Event, x.Valid m → x.Keeps m m' ∧ x.Separate e' := by
  by_cases hl : event.length > 0
  case neg =>
    have hz : event.length = 0 := Int.le_antisymm (Int.not_lt.mp hl) hv.nonneg
    refine ⟨m, event, by simp [assign, he.delete_eq, hl], hv, rfl, fun x _ => ⟨fun _ => rfl, ?_⟩⟩
    exact fun _ hl' => absurd hl' (by simp [hz])
  case pos =>
    have ⟨w, hw, hle⟩ := hv.block hl
    have hlen : (w.take event.length.toNat).length = event.length.toNat := by
      simp only [List.length_take]
      omega
    refine ⟨(m.alloc (w.take event.length.toNat ++ [0])).2, { event with pData := m.newAddress },
      ?_, ⟨hv.nonneg, fun _ => ⟨_, Memory.alloc_self .., ?_⟩⟩, ?_, fun x hx => ⟨hx.keeps_alloc _, ?_⟩⟩
    · simp [assign, he.delete_eq, hl, copyData, hw, hle]
    · simp only [List.length_append, hlen, List.length_singleton]
      omega
    · have ht : (w.take event.length.toNat ++ [0]).take event.length.toNat =
          w.take event.length.toNat := by
        rw [List.take_append_of_le_length (Nat.le_of_eq hlen.symm), List.take_take, Nat.min_self]
      simp only [value, payload, hl, if_true, hw, Option.getD_some, Memory.alloc_self, ht]
    · intro hlx _
      have ⟨w', hw', _⟩ := hx.block hlx
      exact Memory.newAddress_ne hw'

-- The event that a caller builds for a value, with an array of its own as the source.
def ofValue (m : Heap) (v : Value) : Option (Heap × Event) :=
  match v.payload with
  | .pointer p => new m p 0 v.status v.level v.priority
  | .bytes w   => do
    let (src, m) := m.alloc w
    let (m, e) ← new m src w.length v.status v.level v.priority
    let m ← m.free src
    some (m, e)

theorem ofValue_spec (m : Heap) {v : Value} (hv : v.payload ≠ .bytes []) :
    ∃ m' e', ofValue m v = some (m', e') ∧ e'.Valid m' ∧ e'.value m' = v ∧
      ∀ x : Event, x.Valid m → x.Keeps m m' ∧ x.Separate e' := by
  obtain ⟨payload, status, level, priority⟩ := v
  cases payload
  case pointer p =>
    refine ⟨m, ⟨p, 0, status, level, priority⟩, by simp [ofValue, new], ⟨Int.le_refl 0, ?_⟩, ?_, ?_⟩
    · exact fun h => absurd h (Int.lt_irrefl 0)
    · simp [value, Event.payload]
    · exact fun x _ => ⟨fun _ => rfl, fun _ h => absurd h (Int.lt_irrefl 0)⟩
  case bytes w =>
    have hne : w ≠ [] := fun h => hv (by rw [h])
    have hw : (w.length : Int) > 0 := by
      have := List.length_pos_of_ne_nil hne
      omega
    let m₁ := (m.alloc w).2
    let m₂ := (m₁.alloc (w ++ [0])).2
    have h₁ : m₁.block m.newAddress = some w := m.alloc_self w
    have hnew : m.newAddress ≠ m₁.newAddress := Memory.newAddress_ne h₁
    have hn : m.newAddress ≠ 0 := by simp only [Memory.newAddress]; omega
    have h₂ : m₂.block m.newAddress = some w := by rw [Memory.alloc_ne _ _ hnew, h₁]
    obtain ⟨m₃, h₃⟩ := Memory.free_of_block h₂
    have he : m₃.block m₁.newAddress = some (w ++ [0]) := by
      rw [Memory.free_eq_some h₃, Function.update_of_ne hnew.symm, Memory.alloc_self]
    refine ⟨m₃, ⟨m₁.newAddress, w.length, status, level, priority⟩, ?_, ⟨?_, ?_⟩, ?_, fun x hx => ?_⟩
    · have hc : copyData m₁ m.newAddress w.length = some (m₁.newAddress, m₂) := by
        simp [copyData, h₁, m₂, Memory.alloc]
      have he : new m₁ m.newAddress w.length status level priority =
          some (m₂, ⟨m₁.newAddress, w.length, status, level, priority⟩) := by
        simp only [new, hn, hw, ne_eq, not_false_eq_true, and_self, if_true, hc, Option.map_some]
      change ((new m₁ m.newAddress w.length status level priority).bind _) = _
      rw [he, Option.bind_some]
      change ((m₂.free m.newAddress).bind _) = _
      rw [h₃, Option.bind_some]
    · exact Int.le_of_lt hw
    · refine fun _ => ⟨_, he, ?_⟩
      rw [List.length_append]
      exact Int.ofNat_le.mpr (Nat.le_add_right ..)
    · simp [value, Event.payload, hne, he]
    · have hx₁ := hx.keeps_alloc w
      have hx₂ := (hx.keep hx₁).keeps_alloc (w ++ [0])
      have hx₃ : x.Keeps m₂ m₃ := keeps_free h₃ fun hl => by
        obtain ⟨_, hb, _⟩ := hx.block hl
        exact Memory.newAddress_ne hb
      refine ⟨(hx₁.trans hx₂).trans hx₃, fun hl _ => ?_⟩
      obtain ⟨_, hb, _⟩ := (hx.keep hx₁).block hl
      exact Memory.newAddress_ne hb

end Event
end Server8
