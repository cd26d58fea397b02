import Std.Data.TreeMap
import Mathlib.Data.List.Induction

-- The key-value maps of a session, of a session manager and of a server.

namespace Server8

inductive KvCall
  | put (key : String) (value : Nat)
  | get (key : String)
  | remove (key : String)
  deriving DecidableEq, Repr

-- The values are pointers.
abbrev KvMap := Std.TreeMap String Nat

def null : Nat := 0

namespace KvMap

def put (kv_map : KvMap) (key : String) (value : Nat) : KvMap × Bool :=
  (kv_map.insert key value, true)

-- What is written to `*pValue`, and the result.
def get (kv_map : KvMap) (key : String) : Nat × Bool :=
  match kv_map[key]? with
  | none       => (null, false)
  | some value => (value, true)

-- The result is false whether or not the key is found.
def remove (kv_map : KvMap) (key : String) : KvMap × Bool :=
  match kv_map[key]? with
  | none   => (kv_map, false)
  | some _ => (kv_map.erase key, false)

theorem get_eq (m : KvMap) (key : String) : m.get key = (m[key]?.getD null, m[key]?.isSome) := by
  unfold get
  cases m[key]?
  case none       => rfl
  case some value => rfl

theorem remove_false (m : KvMap) (key : String) : (m.remove key).2 = false := by
  unfold remove
  cases m[key]?
  case none       => rfl
  case some value => rfl

theorem getElem?_remove (m : KvMap) (k key : String) :
    (m.remove k).1[key]? = if k = key then none else m[key]? := by
  unfold remove
  split
  case h_2   => simp only [Std.TreeMap.getElem?_erase, Std.compare_eq_iff_eq]
  case h_1 h =>
    split
    case isTrue he => rw [← he, h]
    case isFalse   => rfl

end KvMap

-- The methods of a class that has such a map.
structure KeyValue where
  put    : KvMap → String → Nat → KvMap × Bool
  get    : KvMap → String → Nat × Bool
  remove : KvMap → String → KvMap × Bool

def Session.keyValue : KeyValue where
  put    := KvMap.put
  get    := KvMap.get
  remove := KvMap.remove

def SessionManager.keyValue : KeyValue where
  put    := KvMap.put
  get    := KvMap.get
  remove := KvMap.remove

def Server.keyValue : KeyValue where
  put    := KvMap.put
  get    := KvMap.get
  remove := KvMap.remove

-- The map after some calls, how many of them put a key that was not there, and how many said that they
-- removed one.
structure Tally where
  kv_map  : KvMap := ∅
  added   : Nat   := 0
  removed : Nat   := 0

namespace KeyValue

variable {kv : KeyValue} {calls before rest : List KvCall} {c : KvCall} {key k : String} {value : Nat}

def stores : List KeyValue :=
  [Session.keyValue, SessionManager.keyValue, Server.keyValue]

def call (kv : KeyValue) (t : Tally) : KvCall → Tally
  | .put key value =>
    { t with
      kv_map := (kv.put t.kv_map key value).1
      added  := t.added + if t.kv_map[key]? = none then 1 else 0 }
  | .get _         => t
  | .remove key    =>
    { t with
      kv_map  := (kv.remove t.kv_map key).1
      removed := t.removed + (kv.remove t.kv_map key).2.toNat }

def run (kv : KeyValue) (calls : List KvCall) : Tally :=
  calls.foldl kv.call {}

-- The value of the latest put of the key, if no remove of it follows.
def latest (key : String) (calls : List KvCall) : Option Nat :=
  calls.foldl (fun value call =>
    match call with
    | .put k v  => if k = key then some v else value
    | .get _    => value
    | .remove k => if k = key then none else value) none

-- What the results say, and how they add up.
structure Truthful (kv : KeyValue) (calls : List KvCall) : Prop where
  get : ∀ before key rest, calls = before ++ .get key :: rest →
    kv.get (kv.run before).kv_map key = ((latest key before).getD null, (latest key before).isSome)
  remove : ∀ before key rest, calls = before ++ .remove key :: rest →
    (kv.remove (kv.run before).kv_map key).2 = (latest key before).isSome
  count : ∀ before rest, calls = before ++ rest →
    ((kv.run before).added : Int) - (kv.run before).removed = (kv.run before).kv_map.size

-- Nothing is removed that is there.
def RemovesAbsent (calls : List KvCall) : Prop :=
  ∀ before key rest, calls = before ++ .remove key :: rest → latest key before = none

theorem eq_of_mem_stores (h : kv ∈ stores) : kv = ⟨KvMap.put, KvMap.get, KvMap.remove⟩ := by
  simp only [stores, List.mem_cons, List.not_mem_nil, or_false] at h
  obtain rfl | rfl | rfl := h
  · rfl
  · rfl
  · rfl

section Latest

theorem latest_nil : latest key [] = none :=
  rfl

theorem latest_put : latest key (calls ++ [.put k value]) = if k = key then some value else latest key calls  := by
  simp only [latest, List.foldl_append, List.foldl_cons, List.foldl_nil]

theorem latest_get : latest key (calls ++ [.get k]) = latest key calls  := by
  simp only [latest, List.foldl_append, List.foldl_cons, List.foldl_nil]

theorem latest_remove : latest key (calls ++ [.remove k]) = if k = key then none else latest key calls  := by
  simp only [latest, List.foldl_append, List.foldl_cons, List.foldl_nil]

end Latest

theorem run_concat : kv.run (calls ++ [c]) = kv.call (kv.run calls) c := by
  simp only [run, List.foldl_append, List.foldl_cons, List.foldl_nil]

section Stores

theorem remove_false (h : kv ∈ stores) (m : KvMap) : (kv.remove m key).2 = false := by
  obtain rfl := eq_of_mem_stores h
  exact KvMap.remove_false m key

-- The map holds the latest values.
theorem run_getElem? (h : kv ∈ stores) (key : String) (calls : List KvCall) :
    (kv.run calls).kv_map[key]? = latest key calls := by
  induction calls using List.reverseRecOn
  case nil => exact Std.TreeMap.getElem?_emptyc
  case append_singleton calls c ih =>
    rw [run_concat]
    cases c
    case put k value =>
      rw [latest_put, ← ih]
      obtain rfl := eq_of_mem_stores h
      simp only [KeyValue.call, KvMap.put, Std.TreeMap.getElem?_insert, Std.compare_eq_iff_eq]
    case get => rw [latest_get, ← ih, KeyValue.call]
    case remove k =>
      rw [latest_remove, ← ih]
      obtain rfl := eq_of_mem_stores h
      exact KvMap.getElem?_remove ..

theorem run_get (h : kv ∈ stores) (key : String) (calls : List KvCall) :
    kv.get (kv.run calls).kv_map key = ((latest key calls).getD null, (latest key calls).isSome) := by
  rw [← run_getElem? h]
  obtain rfl := eq_of_mem_stores h
  exact KvMap.get_eq ..

theorem run_removed (h : kv ∈ stores) (calls : List KvCall) : (kv.run calls).removed = 0 := by
  induction calls using List.reverseRecOn
  case nil => rfl
  case append_singleton calls c ih =>
    rw [run_concat]
    cases c
    case put    => exact ih
    case get    => exact ih
    case remove => simp only [KeyValue.call, ih, remove_false h, Bool.toNat_false]

end Stores

theorem RemovesAbsent.of_append (h : RemovesAbsent (before ++ rest)) : RemovesAbsent before := by
  rintro before' key rest' rfl
  exact h before' key (rest' ++ rest) (by simp)

-- As long as nothing is removed that is there, every put of a new key makes the map larger by one.
theorem run_size (h : kv ∈ stores) (ha : RemovesAbsent calls) :
    (kv.run calls).kv_map.size = (kv.run calls).added := by
  induction calls using List.reverseRecOn
  case nil => rfl
  case append_singleton calls c ih =>
    have ih := ih ha.of_append
    rw [run_concat]
    cases c
    case put k value =>
      obtain rfl := eq_of_mem_stores h
      simp only [KeyValue.call, KvMap.put, Std.TreeMap.size_insert, ih, Std.TreeMap.contains_eq_isSome_getElem?]
      cases (run _ calls).kv_map[k]?
      case none   => rfl
      case some v => rfl
    case get => exact ih
    case remove k =>
      have hk := run_getElem? h k calls
      rw [ha calls k [] rfl] at hk
      obtain rfl := eq_of_mem_stores h
      simp only [KeyValue.call, KvMap.remove, hk, ih]

theorem truthful_of_mem (h : kv ∈ stores) : Truthful kv calls ↔ RemovesAbsent calls := by
  constructor
  case mp =>
    intro ht before key rest hc
    have hr := ht.remove before key rest hc
    rw [remove_false h] at hr
    exact Option.isNone_iff_eq_none.mp (Option.isSome_eq_false_iff.mp hr.symm)
  case mpr =>
    intro ha
    constructor
    case get    => exact fun before key _ _ => run_get h key before
    case remove =>
      intro before key rest hc
      rw [remove_false h, ha before key rest hc]
      rfl
    case count =>
      intro before rest hc
      rw [run_size h (hc ▸ ha).of_append, run_removed h, Int.natCast_zero, Int.sub_zero]

-- The results of each store are true if and only if nothing is removed that is there.
theorem truthful_iff (calls : List KvCall) :
    (Truthful Session.keyValue calls ↔ RemovesAbsent calls) ∧
    (Truthful SessionManager.keyValue calls ↔ RemovesAbsent calls) ∧
    (Truthful Server.keyValue calls ↔ RemovesAbsent calls) :=
  ⟨truthful_of_mem (by simp [stores]), truthful_of_mem (by simp [stores]), truthful_of_mem (by simp [stores])⟩

-- A key that is put is removed, and the store says that it was not there.
theorem not_truthful : ¬Truthful Session.keyValue [.put "key" 1, .remove "key"] :=
  fun h => Bool.noConfusion ((remove_false List.mem_cons_self _).symm.trans (h.remove [.put "key" 1] "key" [] rfl))

end KeyValue
end Server8
