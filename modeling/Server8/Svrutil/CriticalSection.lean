import Mathlib.Algebra.Ring.Nat
import Server8.Lib.Runs

-- The critical section of svrutil.h, and the count that it keeps of its own.

namespace Server8

open Runs

abbrev Thread := Nat

-- What Windows knows of a critical section: who holds it, and how many times over.
structure CRITICAL_SECTION where
  holder : Option Thread
  depth  : Nat
  free   : holder = none ↔ depth = 0

namespace CRITICAL_SECTION

def unheld : CRITICAL_SECTION where
  holder := none
  depth  := 0
  free   := iff_of_true rfl rfl

def held (t : Thread) (n : Nat) : CRITICAL_SECTION where
  holder := some t
  depth  := n + 1
  free   := iff_of_false nofun (Nat.succ_ne_zero n)

-- A thread gets in when nobody else is.
def enter (lock : CRITICAL_SECTION) (t : Thread) : Option CRITICAL_SECTION :=
  if lock.holder = none ∨ lock.holder = some t then some (held t lock.depth) else none

-- What is left when the holder leaves.
def leave (lock : CRITICAL_SECTION) (t : Thread) : CRITICAL_SECTION :=
  match lock.depth with
  | 0 | 1 => unheld
  | n + 2 => held t n

end CRITICAL_SECTION

structure CriticalSection where
  lock     : CRITICAL_SECTION
  refCount : Int32
  lockFlag : Bool

namespace CriticalSection

-- What a call leaves and returns, and whether it called `LeaveCriticalSection`.
structure Outcome where
  next     : CriticalSection
  ret      : Bool
  released : Bool

inductive Action
  | enter (t : Thread)
  | tryEnter (t : Thread)
  | leave (t : Thread)
  deriving DecidableEq, Repr

def init (cs : CriticalSection) (initialized : Bool) : CriticalSection × Bool :=
  if initialized then ({ cs with lockFlag := true }, true) else ({ cs with lockFlag := false }, false)

-- The constructor sets nothing: the count is what was in the memory before.
def create (memory : Int32) (initialized : Bool) : Option CriticalSection :=
  let (pcs, ret) := init { lock := .unheld, refCount := memory, lockFlag := false } initialized
  if ret then some pcs else none

def getRefCount (cs : CriticalSection) : Int32 :=
  cs.refCount

def enter (cs : CriticalSection) (t : Thread) : Option Outcome := do
  let lock ← cs.lock.enter t
  some ⟨{ cs with lock, refCount := cs.refCount + 1 }, true, false⟩

def tryEnter (cs : CriticalSection) (t : Thread) : Outcome :=
  match cs.lock.enter t with
  | none      => ⟨cs, false, false⟩
  | some lock => ⟨{ cs with lock, refCount := cs.refCount + 1 }, true, false⟩

-- Windows does not say what becomes of the lock when a thread leaves that does not hold it: `stray`.
def leave (stray : CRITICAL_SECTION → Thread → CRITICAL_SECTION) (cs : CriticalSection) (t : Thread) :
    Outcome :=
  if 0 < cs.refCount then
    let lock := if cs.lock.holder = some t then cs.lock.leave t else stray cs.lock t
    ⟨{ cs with lock, refCount := cs.refCount - 1 }, true, true⟩
  else ⟨cs, false, false⟩

-- A thread that cannot enter waits.
def step (stray : CRITICAL_SECTION → Thread → CRITICAL_SECTION) (cs : CriticalSection) :
    Action → Except Unit CriticalSection
  | .enter t    =>
    match cs.enter t with
    | none         => throw ()
    | some outcome => return outcome.next
  | .tryEnter t => return (cs.tryEnter t).next
  | .leave t    => return (cs.leave stray t).next

variable {stray : CRITICAL_SECTION → Thread → CRITICAL_SECTION} {cs : CriticalSection} {a : Action}
  {t : Thread} {actions : List Action} {memory : Int32}

def Counted (cs : CriticalSection) : Prop :=
  cs.getRefCount.toInt = cs.lock.depth

-- The holder leaves, and nobody else does.
def Leaves (stray : CRITICAL_SECTION → Thread → CRITICAL_SECTION) (cs : CriticalSection) : Action → Prop
  | .enter _    => True
  | .tryEnter _ => True
  | .leave t    =>
    (cs.leave stray t).ret = decide (cs.lock.holder = some t) ∧
    (cs.leave stray t).released = decide (cs.lock.holder = some t) ∧
    (cs.lock.holder ≠ some t → (cs.leave stray t).next = cs)

-- The count is right before and after each call, and so is each call of `leave`.
def Meets (stray : CRITICAL_SECTION → Thread → CRITICAL_SECTION) (cs : CriticalSection)
    (actions : List Action) : Prop :=
  Along (step stray) (fun cs a => cs.Counted ∧ cs.Leaves stray a) cs actions ∧
    ∀ cs', Runs.run (step stray) cs actions = .ok cs' → cs'.Counted

-- No thread leaves a section that another one holds, and none enters more often than an `int` can count.
def Fair (cs : CriticalSection) : Action → Prop
  | .enter t    => cs.lock.holder = some t → cs.lock.depth < 2 ^ 31 - 1
  | .tryEnter t => cs.lock.holder = some t → cs.lock.depth < 2 ^ 31 - 1
  | .leave t    => cs.lock.holder = none ∨ cs.lock.holder = some t

instance (cs : CriticalSection) : (a : Action) → Decidable (cs.Fair a)
  | .enter _    => inferInstanceAs (Decidable (_ → _))
  | .tryEnter _ => inferInstanceAs (Decidable (_ → _))
  | .leave _    => inferInstanceAs (Decidable (_ ∨ _))

section Count

variable {n : Int32} {d : Nat}

theorem pos_iff (h : n.toInt = d) : 0 < n ↔ 0 < d := by
  rw [Int32.lt_iff_toInt_lt, Int32.toInt_zero, h, Int.natCast_pos]

theorem toInt_succ (h : n.toInt = d) : (n + 1).toInt = (d + 1 : Nat) ↔ d < 2 ^ 31 - 1 := by
  have hn := n.toInt_lt
  rw [Int32.toInt_add, h, Int32.toInt_one, Int.natCast_add, Int.natCast_one]
  constructor
  case mp =>
    intro he
    have hl := Int.bmod_lt (x := (d : Int) + 1) (m := 2 ^ 32) (by decide)
    rw [he] at hl
    omega
  case mpr =>
    intro hd
    exact Int.bmod_eq_of_le (by omega) (by omega)

theorem toInt_pred (h : n.toInt = d) (hd : 0 < d) : (n - 1).toInt = (d - 1 : Nat) := by
  have hn := n.toInt_lt
  rw [Int32.toInt_sub, h, Int32.toInt_one, Int.natCast_sub hd, Int.natCast_one]
  exact Int.bmod_eq_of_le (by omega) (by omega)

end Count

section Steps

variable {cs' : CriticalSection} {lock : CRITICAL_SECTION}

theorem CRITICAL_SECTION.enter_eq_some :
    cs.lock.enter t = some lock ↔
      (cs.lock.holder = none ∨ cs.lock.holder = some t) ∧ CRITICAL_SECTION.held t cs.lock.depth = lock := by
  unfold CRITICAL_SECTION.enter
  split
  case isTrue h  => simp [h]
  case isFalse h => simp [h]

-- A thread that gets in counts right unless the count is at its limit.
theorem counted_enter (hc : cs.Counted) (he : cs.lock.enter t = some lock) :
    Counted { cs with lock, refCount := cs.refCount + 1 } ↔
      (cs.lock.holder = some t → cs.lock.depth < 2 ^ 31 - 1) := by
  obtain ⟨hh, rfl⟩ := CRITICAL_SECTION.enter_eq_some.mp he
  have hs : Counted { cs with lock := .held t cs.lock.depth, refCount := cs.refCount + 1 } ↔ _ := toInt_succ hc
  rw [hs]
  constructor
  case mp  => exact fun h _ => h
  case mpr =>
    intro h
    cases hh
    case inl hh => simp [cs.lock.free.mp hh]
    case inr hh => exact h hh

theorem fair_of_blocked (he : cs.lock.enter t = none) :
    cs.lock.holder = some t → cs.lock.depth < 2 ^ 31 - 1 := by
  intro hh
  simp [CRITICAL_SECTION.enter, hh] at he

theorem CRITICAL_SECTION.depth_leave (lock : CRITICAL_SECTION) (t : Thread) :
    (lock.leave t).depth = lock.depth - 1 := by
  unfold CRITICAL_SECTION.leave
  split
  case h_1 h => rw [h]; rfl
  case h_2 h => rw [h]; rfl
  case h_3 h => rw [h]; rfl

-- While the count is right, `leave` takes the lock from whoever holds it.
theorem leaves_iff (hc : cs.Counted) :
    (cs.Leaves stray (.leave t) ∧ (cs.leave stray t).next.Counted) ↔
      cs.lock.holder = none ∨ cs.lock.holder = some t := by
  have hpos : 0 < cs.refCount ↔ 0 < cs.lock.depth := pos_iff hc
  cases hh : cs.lock.holder
  case none =>
    have hl : cs.leave stray t = ⟨cs, false, false⟩ :=
      if_neg fun h => Nat.ne_of_gt (hpos.mp h) (cs.lock.free.mp hh)
    simp only [Leaves, hl]
    simp [hh, hc]
  case some u =>
    have hd : 0 < cs.lock.depth := Nat.pos_of_ne_zero fun h => by simp [cs.lock.free.mpr h] at hh
    have hl : cs.leave stray t = ⟨{ cs with
        lock     := if cs.lock.holder = some t then cs.lock.leave t else stray cs.lock t
        refCount := cs.refCount - 1 }, true, true⟩ := if_pos (hpos.mpr hd)
    simp only [Leaves, hl, hh]
    by_cases hu : u = t
    case neg => simp [hu]
    case pos =>
      subst hu
      have hp : Counted { cs with lock := cs.lock.leave u, refCount := cs.refCount - 1 } := by
        rw [Counted, CRITICAL_SECTION.depth_leave]
        exact toInt_pred hc hd
      simpa using hp

-- From a right count a call goes right, and leaves a right count, if and only if it is fair.
theorem step_iff (hc : cs.Counted) :
    (cs.Leaves stray a ∧ ∀ cs', step stray cs a = .ok cs' → cs'.Counted) ↔ cs.Fair a := by
  cases a
  case enter t =>
    rw [Fair, Leaves, true_and, step, enter]
    cases he : cs.lock.enter t
    case none      => simpa [throw_ok] using fair_of_blocked he
    case some lock => simpa [pure_ok] using counted_enter hc he
  case tryEnter t =>
    rw [Fair, Leaves, true_and, step, tryEnter]
    cases he : cs.lock.enter t
    case none      => simpa [pure_ok, hc] using fair_of_blocked he
    case some lock => simpa [pure_ok] using counted_enter hc he
  case leave t =>
    have hl : (cs.Leaves stray (.leave t) ∧ (cs.leave stray t).next.Counted) ↔ cs.Fair (.leave t) :=
      leaves_iff hc
    rw [← hl]
    simp only [step, pure_ok, forall_eq']

end Steps

theorem meets_of_counted (hc : cs.Counted) :
    Meets stray cs actions ↔ Along (step stray) Fair cs actions := by
  induction actions generalizing cs
  case nil =>
    refine iff_of_true ⟨trivial, fun cs' h => ?_⟩ trivial
    cases h
    exact hc
  case cons a actions ih =>
    have hs : (cs.Leaves stray a ∧ ∀ cs', step stray cs a = .ok cs' → cs'.Counted) ↔ cs.Fair a := step_iff hc
    constructor
    case mp =>
      rintro ⟨⟨⟨_, hl⟩, ha⟩, hr⟩
      have hnext : ∀ cs', step stray cs a = .ok cs' → cs'.Counted ∧ Meets stray cs' actions := by
        intro cs' h
        have hm : Meets stray cs' actions := by
          refine ⟨ha cs' h, fun cs'' h' => hr cs'' ?_⟩
          rw [run_cons, h]
          exact h'
        refine ⟨?_, hm⟩
        cases actions
        case nil      => exact hm.right cs' rfl
        case cons a _ => exact hm.left.left.left
      exact ⟨hs.mp ⟨hl, fun cs' h => (hnext cs' h).left⟩,
        fun cs' h => (ih (hnext cs' h).left).mp (hnext cs' h).right⟩
    case mpr =>
      rintro ⟨hf, ha⟩
      obtain ⟨hl, hn⟩ := hs.mpr hf
      have hm : ∀ cs', step stray cs a = .ok cs' → Meets stray cs' actions :=
        fun cs' h => (ih (hn cs' h)).mpr (ha cs' h)
      refine ⟨⟨⟨hc, hl⟩, fun cs' h => (hm cs' h).left⟩, fun cs'' h => ?_⟩
      obtain ⟨cs', h, h'⟩ := bind_ok.mp h
      exact (hm cs' h).right cs'' h'

theorem counted_create {initialized : Bool} (h : create memory initialized = some cs) :
    cs.Counted ↔ memory = 0 := by
  cases initialized
  case false => cases h
  case true  =>
    cases h
    rw [← Int32.toInt_inj]
    rfl

-- The count is right from the start and stays so if and only if the memory happened to be zero and the
-- threads are fair.
theorem meets_iff {initialized : Bool} (h : create memory initialized = some cs) :
    Meets stray cs actions ↔ memory = 0 ∧ Along (step stray) Fair cs actions := by
  rw [← counted_create h]
  constructor
  case mp =>
    intro hm
    have hc : cs.Counted := by
      cases actions
      case nil      => exact hm.right cs rfl
      case cons a _ => exact hm.left.left.left
    exact ⟨hc, (meets_of_counted hc).mp hm⟩
  case mpr => exact fun ⟨hc, ha⟩ => (meets_of_counted hc).mpr ha

-- A section of which the memory was zero, in which two threads take turns.
theorem meets_turns :
    ∃ cs, create 0 true = some cs ∧
      Meets (fun lock _ => lock) cs [.enter 1, .enter 1, .tryEnter 2, .leave 1, .leave 1, .enter 2, .leave 2] :=
  ⟨_, rfl, (meets_iff (show create 0 true = some _ from rfl)).mpr ⟨rfl, by decide +kernel⟩⟩

-- A thread leaves the section that another one holds.
theorem not_meets :
    ∃ cs, create 0 true = some cs ∧ ¬Meets (fun lock _ => lock) cs [.enter 1, .leave 2] := by
  refine ⟨_, rfl, fun h => absurd ((meets_of_counted ?_).mp h) (by decide +kernel)⟩
  rfl

end CriticalSection
end Server8
