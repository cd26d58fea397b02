import Server8.Session.Event

-- A family of events, and the values that its members stand for.

namespace Server8

namespace Event

-- The copy constructor.
def copy (m : Heap) (event : Event) : Option (Heap × Event) :=
  if event.length > 0 then
    (copyData m event.pData event.length).map fun (a, m) => (m, { event with pData := a })
  else some (m, event)

-- `operator=` with the event itself: when the bytes are copied, `event.pData` is the new array, so that
-- this keeps what it had in it, `raw`.
def assignSelf (raw : Nat → UInt8) (m : Heap) (e : Event) : Option (Heap × Event) :=
  (e.delete m).bind fun m =>
    if e.length > 0 then
      let (a, m) := m.alloc ((List.range e.length.toNat).map raw ++ [0])
      some (m, { e with pData := a })
    else some (m, e)

def allocate (m : Heap) (e : Event) (src : Nat) (length : Int) : Option (Heap × Event × Int) :=
  if e.status ≠ .ready then some (m, e, -1)
  else if src ≠ 0 ∧ length > 0 then
    (e.delete m).bind fun m =>
      (copyData m src length).map fun (a, m) => (m, { e with pData := a, length }, length)
  else if length = 0 then (e.delete m).map fun m => (m, { e with pData := src, length := 0 }, 0)
  else some (m, e, -1)

end Event

structure Family where
  heap   : Heap
  events : List Event

namespace Family

-- The sources are pointers: to arrays of the callers, or to what `getData` gave.
inductive Op
  | construct (src : Nat) (length : Int) (status : Status) (level : Level) (pri : Priority)
  | copy (j : Nat)
  | assign (i j : Nat)
  | allocate (i : Nat) (src : Nat) (length : Int)
  | release (i : Nat)
  deriving DecidableEq

-- Only `allocate` has a result.
def step (raw : Nat → UInt8) (f : Family) : Op → Option (Family × Option Int)
  | .construct src length status level pri => do
    let (heap, e) ← Event.new f.heap src length status level pri
    some (⟨heap, f.events ++ [e]⟩, none)
  | .copy j => do
    let event ← f.events[j]?
    let (heap, e) ← event.copy f.heap
    some (⟨heap, f.events ++ [e]⟩, none)
  | .assign i j => do
    let e ← f.events[i]?
    let event ← f.events[j]?
    let (heap, e) ← if i = j then e.assignSelf raw f.heap else e.assign f.heap event
    some (⟨heap, f.events.set i e⟩, none)
  | .allocate i src length => do
    let e ← f.events[i]?
    let (heap, e, ret) ← e.allocate f.heap src length
    some (⟨heap, f.events.set i e⟩, some ret)
  | .release i => do
    let e ← f.events[i]?
    let (heap, e) ← e.release f.heap
    some (⟨heap, f.events.set i e⟩, none)

def values (f : Family) : List Event.Value :=
  f.events.map (Event.value f.heap)

-- What the getters show of each event.
def exposed (f : Family) : List (Int × Event.Value) :=
  f.events.map fun e => (e.length, e.value f.heap)

-- The bytes that a caller gives with a source.
def given (f : Family) : Op → Bytes
  | .construct src length _ _ _ => ((f.heap.block src).getD []).take length.toNat
  | .allocate _ src length      => ((f.heap.block src).getD []).take length.toNat
  | _                           => []

def Readable (f : Family) (src : Nat) (length : Int) : Prop :=
  src ≠ 0 → length > 0 → ∃ w, f.heap.block src = some w ∧ length ≤ w.length

-- What the callers see to: the events are there, and so are the bytes that are to be copied.
def Called (f : Family) : Op → Prop
  | .construct src length _ _ _ => f.Readable src length
  | .copy j                     => ∃ e, f.events[j]? = some e
  | .assign i j                 => (∃ e, f.events[i]? = some e) ∧ ∃ e, f.events[j]? = some e
  | .allocate i src length      =>
    ∃ e, f.events[i]? = some e ∧ (e.status = .ready → f.Readable src length)
  | .release i                  => ∃ e, f.events[i]? = some e

-- No event that has bytes is assigned to itself, or is to copy from the array that it deletes.
def Apart (f : Family) : Op → Prop
  | .assign i j            => i = j → ∀ e, f.events[i]? = some e → e.length = 0
  | .allocate i src length => ∀ e, f.events[i]? = some e → e.status = .ready → length > 0 →
    e.length > 0 → src ≠ e.pData
  | _                      => True

end Family

namespace Event.Value

-- What an event is made to hold.
def contents (src : Nat) (length : Int) (given : Bytes) : Payload :=
  if src ≠ 0 ∧ length > 0 then .bytes given
  else if length = 0 then .pointer src
  else .pointer 0

-- When `allocate` changes nothing.
abbrev Refused (status : Status) (src : Nat) (length : Int) : Prop :=
  status ≠ .ready ∨ length < 0 ∨ (length > 0 ∧ src = 0)

-- The operations on values, given the bytes at their source.
def step (given : Bytes) (vs : List Value) : Family.Op → Option (List Value × Option Int)
  | .construct src length status level pri =>
    some (vs ++ [⟨contents src length given, status, level, pri⟩], none)
  | .copy j                => do
    let v ← vs[j]?
    some (vs ++ [v], none)
  | .assign i j            => do
    let v ← vs[j]?
    some (vs.set i v, none)
  | .allocate i src length => do
    let v ← vs[i]?
    if Refused v.status src length then some (vs, some (-1))
    else some (vs.set i { v with payload := contents src length given }, some length)
  | .release i             => do
    let v ← vs[i]?
    some (vs.set i { v with payload := .pointer 0 }, none)

end Event.Value

namespace Family

-- The events show the values, and after each operation again the values that it makes, with the same
-- result, whatever new arrays have in them.
def Agrees (f : Family) (vs : List Event.Value) : List Op → Prop
  | []        => f.exposed = vs.map fun v => (v.length, v)
  | op :: ops => (f.exposed = vs.map fun v => (v.length, v)) ∧ ∀ raw, ∃ f' vs' r,
    f.step raw op = some (f', r) ∧ Event.Value.step (f.given op) vs op = some (vs', r) ∧
      f'.Agrees vs' ops

-- Every operation of the sequence meets a condition when its turn comes.
def Along (G : Family → Op → Prop) (f : Family) : List Op → Prop
  | []        => True
  | op :: ops => G f op ∧ ∀ raw f' r, f.step raw op = some (f', r) → f'.Along G ops

end Family

namespace Event

variable {m m' : Heap} {e e' event : Event} {src a : Nat} {length : Int} {w : Bytes} {status : Status}
  {level : Level} {priority : Priority}

-- What comes of an event: it is valid, has a certain value, and shares its array with no event that did
-- not share one with what it was.
structure Becomes (m m' : Heap) (e e' : Event) (v : Value) : Prop where
  valid  : e'.Valid m'
  value  : e'.value m' = v
  others : ∀ x : Event, x.Valid m → x.Separate e → x.Keeps m m' ∧ x.Separate e'

-- An event that borrows a pointer has no array.
theorem Becomes.borrow (hd : ∀ x : Event, x.Separate e → x.Keeps m m') (p : Nat) (status : Status)
    (level : Level) (priority : Priority) :
    Becomes m m' e ⟨p, 0, status, level, priority⟩ ⟨.pointer p, status, level, priority⟩ where
  valid  := ⟨Int.le_refl 0, fun h => absurd h (Int.lt_irrefl 0)⟩
  value  := by simp [Event.value, payload]
  others := fun x _ hx => ⟨hd x hx, fun _ h => absurd h (Int.lt_irrefl 0)⟩

-- A new array, made after the old one is deleted.
theorem Valid.becomes (h : e.Valid m) (hw : (w.length : Int) = length) (hpos : 0 < length)
    (status : Status) (level : Level) (priority : Priority) :
    ∃ m₁, e.delete m = some m₁ ∧ (∀ x : Event, x.Separate e → x.Keeps m m₁) ∧
      Becomes m (m₁.alloc (w ++ [0])).2 e ⟨m₁.newAddress, length, status, level, priority⟩
        ⟨.bytes w, status, level, priority⟩ := by
  obtain ⟨m₁, hm₁, hk₁⟩ := h.delete_spec
  have hb := m₁.alloc_self (w ++ [0])
  refine ⟨m₁, hm₁, hk₁, ?_⟩
  constructor
  case valid  =>
    refine ⟨Int.le_of_lt hpos, fun _ => ⟨_, hb, ?_⟩⟩
    rw [List.length_append, ← hw]
    exact Int.ofNat_le.mpr (Nat.le_add_right ..)
  case value  =>
    have ht : (w ++ [0]).take length.toNat = w := by rw [← hw, Int.toNat_natCast, List.take_left]
    simp only [Event.value, payload, hpos, if_true, hb, Option.getD_some, ht]
  case others =>
    intro x hx hs
    have hx₁ := hx.keep (hk₁ x hs)
    refine ⟨(hk₁ x hs).trans (hx₁.keeps_alloc _), fun hl _ => ?_⟩
    obtain ⟨_, hb, _⟩ := hx₁.block hl
    exact Memory.newAddress_ne hb

-- The array is filled from `src`, which must not be the array that is deleted.
theorem Valid.copy_becomes (h : e.Valid m) (hb : m.block src = some w) (hpos : 0 < length)
    (hl : length ≤ w.length) (hs : e.length > 0 → src ≠ e.pData) (status : Status) (level : Level)
    (priority : Priority) :
    ∃ a m', (e.delete m).bind (fun m => copyData m src length) = some (a, m') ∧
      Becomes m m' e ⟨a, length, status, level, priority⟩
        ⟨.bytes (w.take length.toNat), status, level, priority⟩ := by
  have hw : ((w.take length.toNat).length : Int) = length := by
    rw [List.length_take]
    omega
  obtain ⟨m₁, hm₁, hk₁, hbecomes⟩ := h.becomes hw hpos status level priority
  have hsrc : m₁.block src = some w := by
    have hk := hk₁ ⟨src, length, status, level, priority⟩ (fun _ hl => hs hl) hpos
    exact hk.trans hb
  refine ⟨_, _, ?_, hbecomes⟩
  rw [hm₁, Option.bind_some, copyData, hsrc, Option.bind_some, if_pos hl]
  rfl

theorem default_valid : Valid m {} :=
  Empty.valid ⟨rfl, rfl⟩

theorem default_borrow (m : Heap) (p : Nat) (status : Status) (level : Level) (pri : Priority) :
    Becomes m m {} ⟨p, 0, status, level, pri⟩ ⟨.pointer p, status, level, pri⟩ :=
  .borrow (fun _ _ _ => rfl) p status level pri

theorem new_becomes (hr : src ≠ 0 → length > 0 → ∃ w, m.block src = some w ∧ length ≤ w.length)
    (status : Status) (level : Level) (pri : Priority) :
    ∃ m' e', new m src length status level pri = some (m', e') ∧ Becomes m m' {} e'
      ⟨Value.contents src length (((m.block src).getD []).take length.toNat), status, level, pri⟩ := by
  unfold new Value.contents
  split
  case isTrue hc =>
    obtain ⟨w, hb, hl⟩ := hr hc.left hc.right
    obtain ⟨a, m', hcopy, hbecomes⟩ := default_valid.copy_becomes hb hc.right hl
      (fun h => absurd h (Int.lt_irrefl 0)) status level pri
    rw [hb]
    exact ⟨m', _, Option.map_eq_some_iff.mpr ⟨(a, m'), hcopy, rfl⟩, hbecomes⟩
  case isFalse =>
    split
    case isTrue  => exact ⟨m, _, rfl, default_borrow m src status level pri⟩
    case isFalse => exact ⟨m, _, rfl, default_borrow m 0 status level pri⟩

-- Copies have the value of the event, which is not the one that is assigned to.
theorem Valid.assign_becomes (h : e.Valid m) (hv : event.Valid m) (hs : event.Separate e) :
    ∃ m' e', e.assign m event = some (m', e') ∧ Becomes m m' e e' (event.value m) := by
  unfold assign
  by_cases hl : event.length > 0
  case pos =>
    obtain ⟨w, hb, hle⟩ := hv.block hl
    obtain ⟨a, m', hcopy, hbecomes⟩ := h.copy_becomes hb hl hle (fun he => hs hl he) event.status
      event.level event.priority
    simp only [hl, if_true]
    obtain ⟨m₁, hm₁, hcopy⟩ := Option.bind_eq_some_iff.mp hcopy
    refine ⟨m', _, Option.bind_eq_some_iff.mpr ⟨m₁, hm₁, Option.map_eq_some_iff.mpr ⟨_, hcopy, rfl⟩⟩, ?_⟩
    have hvalue : event.value m = ⟨.bytes (w.take event.length.toNat), event.status, event.level,
        event.priority⟩ := by
      simp only [Event.value, payload, hl, if_true, hb, Option.getD_some]
    rw [hvalue]
    exact hbecomes
  case neg =>
    obtain ⟨m₁, hm₁, hk₁⟩ := h.delete_spec
    have hz : event.length = 0 := Int.le_antisymm (Int.not_lt.mp hl) hv.nonneg
    refine ⟨m₁, event, by rw [hm₁, Option.bind_some, if_neg hl], ?_⟩
    have hvalue : event.value m = ⟨.pointer event.pData, event.status, event.level, event.priority⟩ := by
      simp only [Event.value, payload, hl, if_false]
    have he : event = ⟨event.pData, 0, event.status, event.level, event.priority⟩ := by rw [← hz]
    rw [hvalue, he]
    exact .borrow hk₁ ..

theorem copy_becomes (hv : event.Valid m) :
    ∃ m' e', event.copy m = some (m', e') ∧ Becomes m m' {} e' (event.value m) :=
  default_valid.assign_becomes hv fun _ h => absurd h (Int.lt_irrefl 0)

theorem Valid.release_becomes (h : e.Valid m) :
    ∃ m' e', e.release m = some (m', e') ∧
      Becomes m m' e e' { e.value m with payload := .pointer 0 } := by
  obtain ⟨m₁, hm₁, hk₁⟩ := h.delete_spec
  exact ⟨m₁, ⟨0, 0, e.status, e.level, e.priority⟩, by rw [release, hm₁]; rfl, .borrow hk₁ ..⟩

theorem Valid.assignSelf_becomes (h : e.Valid m) (hl : e.length = 0) (raw : Nat → UInt8) :
    e.assignSelf raw m = some (m, e) ∧ Becomes m m e e (e.value m) := by
  have hn : ¬e.length > 0 := by omega
  refine ⟨by simp [assignSelf, delete, hn], ⟨h, rfl, fun x _ hs => ⟨fun _ => rfl, hs⟩⟩⟩

theorem Valid.allocate_becomes (h : e.Valid m)
    (hr : e.status = .ready → src ≠ 0 → length > 0 → ∃ w, m.block src = some w ∧ length ≤ w.length)
    (hs : e.status = .ready → length > 0 → e.length > 0 → src ≠ e.pData) :
    let refused := Value.Refused e.status src length
    ∃ m' e', e.allocate m src length = some (m', e', if refused then -1 else length) ∧
      Becomes m m' e e' (if refused then e.value m else { e.value m with
        payload := Value.contents src length (((m.block src).getD []).take length.toNat) }) := by
  intro refused
  by_cases hst : e.status = .ready
  case neg =>
    have hf : refused := .inl hst
    rw [if_pos hf, if_pos hf, allocate, if_pos hst]
    exact ⟨m, e, rfl, h, rfl, fun x _ hs => ⟨fun _ => rfl, hs⟩⟩
  case pos =>
    rw [allocate, if_neg (not_not.mpr hst), Value.contents]
    by_cases hc : src ≠ 0 ∧ length > 0
    case pos =>
      have hf : ¬refused := by
        rintro (h | h | h)
        · exact h hst
        · omega
        · exact hc.left h.right
      obtain ⟨w, hb, hl⟩ := hr hst hc.left hc.right
      obtain ⟨a, m', hcopy, hbecomes⟩ := h.copy_becomes hb hc.right hl (hs hst hc.right) e.status
        e.level e.priority
      obtain ⟨m₁, hm₁, hcopy⟩ := Option.bind_eq_some_iff.mp hcopy
      rw [if_neg hf, if_neg hf, if_pos hc, if_pos hc, hb]
      exact ⟨m', _, by rw [hm₁, Option.bind_some, hcopy]; rfl, hbecomes⟩
    case neg =>
      rw [if_neg hc, if_neg hc]
      by_cases hz : length = 0
      case pos =>
        have hf : ¬refused := by
          rintro (h | h | h)
          · exact h hst
          · omega
          · omega
        obtain ⟨m₁, hm₁, hk₁⟩ := h.delete_spec
        rw [if_neg hf, if_neg hf, if_pos hz, if_pos hz, hm₁, hz]
        exact ⟨m₁, _, rfl, .borrow hk₁ ..⟩
      case neg =>
        have hf : refused := by
          simp only [refused]
          omega
        rw [if_pos hf, if_pos hf, if_neg hz]
        exact ⟨m, e, rfl, h, rfl, fun x _ hs => ⟨fun _ => rfl, hs⟩⟩

-- Otherwise the new array may well have other bytes in it than the old one.
theorem Valid.assignSelf_breaks (h : e.Valid m) (hl : e.length ≠ 0) :
    ∃ raw m' e', e.assignSelf raw m = some (m', e') ∧
      ∃ v, Becomes m m' e e' v ∧ v ≠ e.value m := by
  have hpos : e.length > 0 := by
    have := h.nonneg
    omega
  obtain ⟨w, hw, hle⟩ := h.block hpos
  let raw : Nat → UInt8 := fun _ => w.headD 0 + 1
  have hlen : (((List.range e.length.toNat).map raw).length : Int) = e.length := by
    rw [List.length_map, List.length_range]
    omega
  obtain ⟨m₁, hm₁, _, hb⟩ := h.becomes hlen hpos e.status e.level e.priority
  refine ⟨raw, _, _, by rw [assignSelf, hm₁, Option.bind_some, if_pos hpos]; rfl, _, hb, fun he => ?_⟩
  have hp := congrArg Value.payload he
  simp only [Event.value, payload, hpos, if_true, hw, Option.getD_some, Payload.bytes.injEq] at hp
  obtain ⟨n, hn⟩ : ∃ n, e.length.toNat = n + 1 := ⟨e.length.toNat - 1, by omega⟩
  cases w
  case nil      => simp at hle; omega
  case cons b w =>
    rw [hn, List.range_succ_eq_map, List.map_cons, List.take_succ_cons] at hp
    have := (List.cons.inj hp).left
    simp [raw] at this

-- What `src` points to is gone when it is copied.
theorem Valid.allocate_breaks (h : e.Valid m) (hst : e.status = .ready) (hl : length > 0)
    (he : e.length > 0) : e.allocate m e.pData length = none := by
  have hne := h.pData_ne he
  obtain ⟨w, hw, _⟩ := h.block he
  obtain ⟨m₁, hm₁⟩ := Memory.free_of_block hw
  have hd : e.delete m = some m₁ := by rw [delete, if_pos ⟨hne, he⟩, hm₁]
  have hb : m₁.block e.pData = none := by rw [Memory.free_eq_some hm₁, Function.update_self]
  rw [allocate, if_neg (not_not.mpr hst), if_pos ⟨hne, hl⟩, hd, Option.bind_some, copyData, hb]
  rfl

end Event

namespace Family

variable {f f' : Family}

-- Every event is valid, and no two of them share an array.
structure Owned (f : Family) : Prop where
  valid    : ∀ {i : Nat} {e : Event}, f.events[i]? = some e → e.Valid f.heap
  separate : ∀ {i j : Nat} {e e' : Event}, i ≠ j → f.events[i]? = some e → f.events[j]? = some e' →
    e.Separate e'

variable {i : Nat} {e e' : Event} {v : Event.Value} {heap : Heap}

theorem Owned.set (h : f.Owned) (hi : f.events[i]? = some e) (hb : Event.Becomes f.heap heap e e' v) :
    Owned ⟨heap, f.events.set i e'⟩ ∧ values ⟨heap, f.events.set i e'⟩ = f.values.set i v := by
  have hlt := (List.getElem?_eq_some_iff.mp hi).choose
  have hself : (f.events.set i e')[i]? = some e' := List.getElem?_set_self hlt
  have hother {j : Nat} {x : Event} (hj : j ≠ i) (hx : (f.events.set i e')[j]? = some x) :
      f.events[j]? = some x ∧ x.Keeps f.heap heap ∧ x.Separate e' := by
    rw [List.getElem?_set_ne (Ne.symm hj)] at hx
    exact ⟨hx, hb.others x (h.valid hx) (h.separate hj hx hi)⟩
  refine ⟨⟨fun {j x} hx => ?_, fun {j k x y} hjk hx hy => ?_⟩, ?_⟩
  · by_cases hj : j = i
    case pos =>
      cases hself.symm.trans (hj ▸ hx)
      exact hb.valid
    case neg =>
      obtain ⟨hx, hk, _⟩ := hother hj hx
      exact (h.valid hx).keep hk
  · by_cases hj : j = i
    case pos =>
      cases hself.symm.trans (hj ▸ hx)
      exact (hother (fun hk => hjk (hj.trans hk.symm)) hy).right.right.symm
    case neg =>
      by_cases hk : k = i
      case pos =>
        cases hself.symm.trans (hk ▸ hy)
        exact (hother hj hx).right.right
      case neg => exact h.separate hjk (hother hj hx).left (hother hk hy).left
  · refine List.ext_getElem? fun j => ?_
    by_cases hj : j = i
    case pos =>
      have hlt' : i < f.values.length := by rwa [values, List.length_map]
      rw [hj, values, List.getElem?_map, hself, List.getElem?_set_self hlt', Option.map_some, hb.value]
    case neg =>
      rw [List.getElem?_set_ne (Ne.symm hj), values, values, List.getElem?_map, List.getElem?_map,
        List.getElem?_set_ne (Ne.symm hj)]
      cases hx : f.events[j]?
      case none   => rfl
      case some x =>
        have hk := (hb.others x (h.valid hx) (h.separate hj hx hi)).left
        rw [Option.map_some, Option.map_some, hk.value_eq]

theorem Owned.append (h : f.Owned) (hb : Event.Becomes f.heap heap {} e' v) :
    Owned ⟨heap, f.events ++ [e']⟩ ∧ values ⟨heap, f.events ++ [e']⟩ = f.values ++ [v] := by
  have hempty : Event.Empty {} := ⟨rfl, rfl⟩
  have hother {j : Nat} {x : Event} (hx : f.events[j]? = some x) :
      x.Keeps f.heap heap ∧ x.Separate e' :=
    hb.others x (h.valid hx) hempty.separate.symm
  have hsplit {j : Nat} {x : Event} (hx : (f.events ++ [e'])[j]? = some x) :
      f.events[j]? = some x ∨ j = f.events.length ∧ x = e' := by
    rw [List.getElem?_append] at hx
    split at hx
    case isTrue      => exact .inl hx
    case isFalse hlt =>
      have hl := (List.getElem?_eq_some_iff.mp hx).choose
      rw [List.length_singleton] at hl
      have hj : j = f.events.length := by omega
      rw [hj, Nat.sub_self] at hx
      exact .inr ⟨hj, (Option.some.inj hx).symm⟩
  refine ⟨⟨fun {j x} hx => ?_, fun {j k x y} hjk hx hy => ?_⟩, ?_⟩
  · cases hsplit hx
    case inl hx => exact (h.valid hx).keep (hother hx).left
    case inr hx => exact hx.right ▸ hb.valid
  · cases hsplit hx
    case inl hx =>
      cases hsplit hy
      case inl hy => exact h.separate hjk hx hy
      case inr hy => exact hy.right ▸ (hother hx).right
    case inr hx =>
      cases hsplit hy
      case inl hy => exact hx.right ▸ (hother hy).right.symm
      case inr hy => exact absurd (hx.left.trans hy.left.symm) hjk
  · rw [values, List.map_append, List.map_singleton, hb.value, values]
    congr 1
    refine List.map_congr_left fun x hx => ?_
    obtain ⟨j, hj⟩ := List.mem_iff_getElem?.mp hx
    exact (hother hj).left.value_eq

theorem value_eq (hi : f.events[i]? = some e) : f.values[i]? = some (e.value f.heap) := by
  rw [values, List.getElem?_map, hi, Option.map_some]

theorem set_value_eq (hi : f.events[i]? = some e) : f.values.set i (e.value f.heap) = f.values := by
  have hlt := (List.getElem?_eq_some_iff.mp (value_eq hi)).choose
  have he := (List.getElem?_eq_some_iff.mp (value_eq hi)).choose_spec
  rw [← he, List.set_getElem_self]

-- An operation that neither frees what it reads nor loses its own array acts on the values.
theorem step_values (h : f.Owned) {op : Op} (hc : f.Called op) (ha : f.Apart op) (raw : Nat → UInt8) :
    ∃ f' r, f.step raw op = some (f', r) ∧ f'.Owned ∧
      Event.Value.step (f.given op) f.values op = some (f'.values, r) := by
  cases op
  case construct src length status level pri =>
    obtain ⟨heap, e, he, hb⟩ := Event.new_becomes (hc : f.Readable src length) status level pri
    obtain ⟨ho, hv⟩ := h.append hb
    refine ⟨_, none, ?_, ho, ?_⟩
    · rw [step, he]
      rfl
    · rw [hv]
      rfl
  case copy j =>
    obtain ⟨event, hj⟩ := hc
    obtain ⟨heap, e, he, hb⟩ := Event.copy_becomes (h.valid hj)
    obtain ⟨ho, hv⟩ := h.append hb
    refine ⟨⟨heap, f.events ++ [e]⟩, none, ?_, ho, ?_⟩
    · simp only [step, hj, Option.bind_eq_bind, Option.bind_some, he]
    · simp only [Event.Value.step, value_eq hj, Option.bind_eq_bind, Option.bind_some, hv]
  case assign i j =>
    obtain ⟨⟨e, hi⟩, event, hj⟩ := hc
    have hstep : ∃ heap e', (if i = j then e.assignSelf raw f.heap else e.assign f.heap event) =
        some (heap, e') ∧ Event.Becomes f.heap heap e e' (event.value f.heap) := by
      by_cases hij : i = j
      case pos =>
        subst hij
        cases hi.symm.trans hj
        obtain ⟨he, hb⟩ := (h.valid hi).assignSelf_becomes (ha rfl _ hi) raw
        exact ⟨_, _, by rw [if_pos rfl, he], hb⟩
      case neg =>
        obtain ⟨heap, e', he, hb⟩ := (h.valid hi).assign_becomes (h.valid hj)
          (h.separate (Ne.symm hij) hj hi)
        exact ⟨heap, e', by rw [if_neg hij, he], hb⟩
    obtain ⟨heap, e', he, hb⟩ := hstep
    obtain ⟨ho, hv⟩ := h.set hi hb
    refine ⟨⟨heap, f.events.set i e'⟩, none, ?_, ho, ?_⟩
    · simp only [step, hi, hj, Option.bind_eq_bind, Option.bind_some]
      split at he
      case isTrue hij  => rw [if_pos hij, he, Option.bind_some]
      case isFalse hij => rw [if_neg hij, he, Option.bind_some]
    · simp only [Event.Value.step, value_eq hj, Option.bind_eq_bind, Option.bind_some, hv]
  case allocate i src length =>
    obtain ⟨e, hi, hr⟩ := hc
    obtain ⟨heap, e', he, hb⟩ := (h.valid hi).allocate_becomes hr (ha e hi)
    obtain ⟨ho, hv⟩ := h.set hi hb
    refine ⟨⟨heap, f.events.set i e'⟩,
      some (if Event.Value.Refused e.status src length then -1 else length), ?_, ho, ?_⟩
    · simp only [step, hi, Option.bind_eq_bind, Option.bind_some, he]
    · rw [hv, Event.Value.step, value_eq hi, Option.bind_eq_bind, Option.bind_some]
      have hstatus : (e.value f.heap).status = e.status := rfl
      rw [hstatus]
      split
      case isTrue  => rw [set_value_eq hi]
      case isFalse => rfl
  case release i =>
    obtain ⟨e, hi⟩ := hc
    obtain ⟨heap, e', he, hb⟩ := (h.valid hi).release_becomes
    obtain ⟨ho, hv⟩ := h.set hi hb
    refine ⟨⟨heap, f.events.set i e'⟩, none, ?_, ho, ?_⟩
    · simp only [step, hi, Option.bind_eq_bind, Option.bind_some, he]
    · simp only [Event.Value.step, value_eq hi, Option.bind_eq_bind, Option.bind_some, hv]

-- Any other loses the bytes of an event, or copies from an array that is deleted.
theorem step_breaks (h : f.Owned) {op : Op} (hc : f.Called op) (ha : ¬f.Apart op) :
    ∃ raw, ∀ f' r, f.step raw op = some (f', r) →
      Event.Value.step (f.given op) f.values op ≠ some (f'.values, r) := by
  cases op
  case assign i j =>
    simp only [Apart, not_forall] at ha
    obtain ⟨hij, e, hi, hl⟩ := ha
    subst hij
    obtain ⟨raw, heap, e', he, v, hb, hv⟩ := (h.valid hi).assignSelf_breaks hl
    obtain ⟨_, hvalues⟩ := h.set hi hb
    refine ⟨raw, fun f' r hs hspec => hv ?_⟩
    simp only [step, hi, Option.bind_eq_bind, Option.bind_some, if_true, he, Option.some.injEq,
      Prod.mk.injEq] at hs
    simp only [Event.Value.step, value_eq hi, Option.bind_eq_bind, Option.bind_some, set_value_eq hi,
      Option.some.injEq, Prod.mk.injEq, ← hs.left, hvalues] at hspec
    have hlt := (List.getElem?_eq_some_iff.mp (value_eq hi)).choose
    have hv := value_eq hi
    rw [hspec.left, List.getElem?_set_self hlt] at hv
    exact Option.some.inj hv
  case allocate i src length =>
    simp only [Apart, not_forall, not_not] at ha
    obtain ⟨e, hi, hst, hl, hl', rfl⟩ := ha
    refine ⟨fun _ => 0, fun f' r hs => ?_⟩
    simp only [step, hi, Option.bind_eq_bind, Option.bind_some, (h.valid hi).allocate_breaks hst hl hl',
      Option.bind_none, reduceCtorEq] at hs
  case construct => exact absurd trivial ha
  case copy      => exact absurd trivial ha
  case release   => exact absurd trivial ha

theorem Owned.exposed_eq (h : f.Owned) : f.exposed = f.values.map fun v => (v.length, v) := by
  rw [exposed, values, List.map_map]
  refine List.map_congr_left fun e he => ?_
  obtain ⟨i, hi⟩ := List.mem_iff_getElem?.mp he
  simp only [Function.comp_apply, (h.valid hi).length_value]

theorem eq_of_exposed {vs : List Event.Value} (h : f.exposed = vs.map fun v => (v.length, v)) :
    f.values = vs := by
  have h := congrArg (List.map Prod.snd) h
  rw [exposed, List.map_map, List.map_map] at h
  exact h.trans (List.map_id vs)

theorem Agrees.exposed {vs : List Event.Value} {ops : List Op} (h : f.Agrees vs ops) :
    f.exposed = vs.map fun v => (v.length, v) := by
  cases ops
  case nil  => exact h
  case cons => exact h.left

theorem Owned.agrees_iff (h : f.Owned) {ops : List Op} (hc : f.Along Called ops) :
    f.Agrees f.values ops ↔ f.Along Apart ops := by
  induction ops generalizing f
  case nil => exact iff_of_true h.exposed_eq trivial
  case cons op ops ih =>
    obtain ⟨hop, hc⟩ := hc
    constructor
    case mp =>
      intro ⟨_, ha⟩
      have hapart : f.Apart op := by
        by_contra hn
        obtain ⟨raw, hbreaks⟩ := step_breaks h hop hn
        obtain ⟨f', vs', r, hs, hspec, ha⟩ := ha raw
        exact hbreaks f' r hs (eq_of_exposed ha.exposed ▸ hspec)
      refine ⟨hapart, fun raw f' r hs => ?_⟩
      obtain ⟨f₁, r₁, hs₁, ho₁, hspec₁⟩ := step_values h hop hapart raw
      obtain ⟨f₂, vs', r₂, hs₂, hspec₂, ha⟩ := ha raw
      cases hs.symm.trans hs₁
      cases hs.symm.trans hs₂
      cases hspec₁.symm.trans hspec₂
      exact (ih ho₁ (hc raw f' r hs)).mp ha
    case mpr =>
      intro ⟨hapart, ha⟩
      refine ⟨h.exposed_eq, fun raw => ?_⟩
      obtain ⟨f', r, hs, ho, hspec⟩ := step_values h hop hapart raw
      exact ⟨f', f'.values, r, hs, hspec, (ih ho (hc raw f' r hs)).mpr (ha raw f' r hs)⟩

def new (heap : Heap) : Family where
  heap   := heap
  events := []

theorem Owned.new (heap : Heap) : Owned (new heap) where
  valid h      := by simp [Family.new] at h
  separate _ h := by simp [Family.new] at h

-- Events that are built up one after the other behave like their values just in case no event with
-- bytes is assigned to itself or allocated from its own array.
theorem agrees_iff_apart (heap : Heap) {ops : List Op} (hc : (new heap).Along Called ops) :
    (new heap).Agrees [] ops ↔ (new heap).Along Apart ops :=
  (Owned.new heap).agrees_iff hc

-- An event with the byte at address 1, and a copy of it.
def source : Heap :=
  (Memory.empty.alloc [97]).2

theorem source_readable (events : List Event) : Readable ⟨source, events⟩ 1 1 :=
  fun _ _ => ⟨[97], Memory.empty.alloc_self [97], by decide⟩

theorem agrees_copy :
    (new source).Agrees [] [.construct 1 1 .ready .user .medium, .copy 0] := by
  refine (agrees_iff_apart source ?_).mpr ?_
  · refine ⟨source_readable [], fun raw f' r hs => ⟨?_, fun _ _ _ _ => trivial⟩⟩
    cases hs
    exact ⟨_, rfl⟩
  · exact ⟨trivial, fun _ _ _ _ => ⟨trivial, fun _ _ _ _ => trivial⟩⟩

-- The event is assigned to itself.
theorem assignSelf_not_agrees : ¬∀ (heap : Heap) (ops : List Op), (new heap).Along Called ops →
    (new heap).Agrees [] ops := by
  intro hall
  have hc : (new source).Along Called [.construct 1 1 .ready .user .medium, .assign 0 0] := by
    refine ⟨source_readable [], fun raw f' r hs => ⟨?_, fun _ _ _ _ => trivial⟩⟩
    cases hs
    exact ⟨⟨_, rfl⟩, ⟨_, rfl⟩⟩
  have ha := ((Owned.new source).agrees_iff hc).mp (hall _ _ hc)
  have hn := (ha.right (fun _ => 0) _ none rfl).left rfl _ rfl
  exact absurd hn (by decide)

end Family
end Server8
