import Server8.Dispatcher.EventDispatcher
import Server8.Lib.Threads
import Server8.Lib.WorkQueue

-- Every step of the dispatcher does with the pairs what the steps of a work queue do, so none is
-- lost, delivered twice or overtaken.

namespace Server8

namespace EventDispatcher

variable {α κ φ : Type} {d d' : EventDispatcher α κ φ} {w : Worker α φ} {i : Nat}

-- The pair that a worker has taken and neither delivered nor found without a callback.
def Worker.held (w : Worker α φ) : List (Event α) :=
  match w.pc with
  | .processEvent => [w.event]
  | .call         => if w.it.isSome then [w.event] else []
  | _             => []

def held (d : EventDispatcher α κ φ) : List (Event α) :=
  d.threadList.flatMap Worker.held

-- What is left in the local variables from one iteration to the next does no harm.
def Worker.Ready (w : Worker α φ) : Prop :=
  match w.pc with
  | .call  => w.runFlag = w.it.isSome
  | .run _ => True
  | _      => w.runFlag = false

structure Counted (d : EventDispatcher α κ φ) : Prop where
  ready  : ∀ w ∈ d.threadList, w.Ready
  ticket : ∀ e ∈ d.appended, e.ticket < d.appended.length

def workQueue (d : EventDispatcher α κ φ) : WorkQueue (Event α) where
  appended  := d.appended
  taken     := d.taken
  queue     := d.eventList
  held      := d.held
  delivered := d.delivered
  dropped   := d.dropped

theorem Counted.fresh (h : d.Counted) (name : String) (pArg : α) :
    ⟨d.appended.length, name, pArg⟩ ∉ d.appended :=
  fun hm => Nat.lt_irrefl _ (h.ticket _ hm)

theorem Counted.setThread (h : d.Counted) (hw : w.Ready) : (d.setThread i w).Counted where
  ready  := Threads.forall_set h.ready hw
  ticket := h.ticket

theorem held_setThread (h : d.threadList[i]? = some w) (w' : Worker α φ) :
    ((d.setThread i w').held : Multiset (Event α)) + w.held = d.held + w'.held :=
  Threads.flatMap_set _ h w'

theorem held_setThread_eq {w' : Worker α φ} (h : d.threadList[i]? = some w) (hw : w.held = w'.held) :
    ((d.setThread i w').held : Multiset (Event α)) = d.held := by
  have := held_setThread h w'
  rwa [hw, Multiset.add_left_inj] at this

theorem held_take {w' : Worker α φ} {e : Event α} (h : d.threadList[i]? = some w)
    (hw : w.held = []) (hw' : w'.held = [e]) :
    ((d.setThread i w').held : Multiset (Event α)) = e ::ₘ d.held := by
  have := held_setThread h w'
  rwa [hw, hw', Multiset.coe_nil, add_zero, Multiset.coe_singleton, Multiset.add_comm,
    Multiset.singleton_add] at this

theorem held_give {w' : Worker α φ} {e : Event α} (h : d.threadList[i]? = some w)
    (hw : w.held = [e]) (hw' : w'.held = []) :
    (d.held : Multiset (Event α)) = e ::ₘ (d.setThread i w').held := by
  have := held_setThread h w'
  rw [hw, hw', Multiset.coe_nil, add_zero, Multiset.coe_singleton, Multiset.add_comm,
    Multiset.singleton_add] at this
  exact this.symm

theorem setThread_step {w' : Worker α φ} (h : d.threadList[i]? = some w) (hw : w.held = w'.held) :
    d.workQueue.Step (d.setThread i w').workQueue := by
  have : (d.setThread i w').workQueue = d.workQueue := by
    simp only [workQueue, held_setThread_eq h hw]
    rfl
  exact this ▸ .keep

theorem submitEvent_step (h : d.Counted) (name : String) (pArg : α) :
    d.workQueue.Step (d.submitEvent name pArg).2.workQueue ∧ (d.submitEvent name pArg).2.Counted := by
  unfold submitEvent
  split
  case h_1 =>
    refine ⟨.append (h.fresh name pArg), h.ready, ?_⟩
    intro e he
    simp only [List.length_append, List.length_singleton]
    cases List.mem_append.mp he
    case inl he => exact Nat.lt_succ_of_lt (h.ticket e he)
    case inr he => exact List.mem_singleton.mp he ▸ Nat.lt_succ_self _
  case h_2 => exact ⟨.keep, h⟩

theorem addCallback_step (h : d.Counted) (name : String) (pCallback : Option κ) :
    d.workQueue.Step (d.addCallback name pCallback).2.workQueue ∧
      (d.addCallback name pCallback).2.Counted := by
  unfold addCallback
  split
  case h_1 => exact ⟨.keep, h⟩
  case h_2 =>
    split
    case isTrue  => exact ⟨.keep, h⟩
    case isFalse =>
      split
      case h_1 => exact ⟨.keep, h.ready, h.ticket⟩
      case h_2 => exact ⟨.keep, h⟩

theorem removeCallback_step (h : d.Counted) (name : String) :
    d.workQueue.Step (d.removeCallback name).2.workQueue ∧ (d.removeCallback name).2.Counted := by
  unfold removeCallback
  split
  case isTrue  => exact ⟨.keep, h⟩
  case isFalse =>
    split
    case h_1 => exact ⟨.keep, h.ready, h.ticket⟩
    case h_2 => exact ⟨.keep, h⟩

theorem setStatus_step (h : d.Counted) (st : Status) :
    d.workQueue.Step (d.setStatus st).2.workQueue ∧ (d.setStatus st).2.Counted := by
  unfold setStatus
  split
  case isTrue  => exact ⟨.keep, h.ready, h.ticket⟩
  case isFalse => exact ⟨.keep, h⟩

theorem coe_append_singleton (es : List (Event α)) (e : Event α) :
    ((es ++ [e] : List (Event α)) : Multiset (Event α)) = e ::ₘ es :=
  Multiset.coe_eq_coe.mpr (List.perm_append_singleton e es)

theorem getEvent_step (h : d.Counted) (hi : d.threadList[i]? = some w) (hpc : w.pc = .getEvent) :
    d.workQueue.Step (w.getEvent i d).workQueue ∧ (w.getEvent i d).Counted := by
  have hr : w.runFlag = false := by
    simpa only [Worker.Ready, hpc] using h.ready w (List.mem_of_getElem? hi)
  have hw : w.held = [] := by simp only [Worker.held, hpc]
  unfold Worker.getEvent
  split
  case h_1           => exact ⟨setThread_step hi hw, h.setThread hr⟩
  case h_2 e rest he =>
    refine ⟨.take he (held_take hi hw ?_), Threads.forall_set h.ready ?_, h.ticket⟩
    · rfl
    · exact hr

theorem processEvent_step (h : d.Counted) (hi : d.threadList[i]? = some w)
    (hpc : w.pc = .processEvent) :
    d.workQueue.Step (w.processEvent i d).workQueue ∧ (w.processEvent i d).Counted := by
  have hr : w.runFlag = false := by
    simpa only [Worker.Ready, hpc] using h.ready w (List.mem_of_getElem? hi)
  have hw : w.held = [w.event] := by simp only [Worker.held, hpc]
  unfold Worker.processEvent
  split
  case h_1 entry _ => exact ⟨setThread_step hi hw, h.setThread rfl⟩
  case h_2         =>
    refine ⟨.drop (held_give hi hw ?_) (coe_append_singleton ..), Threads.forall_set h.ready ?_, h.ticket⟩
    · rfl
    · exact hr

theorem returned_step (h : d.Counted) (hs : d.returned i = .ok d') :
    d.workQueue.Step d'.workQueue ∧ d'.Counted := by
  unfold returned at hs
  split at hs
  case h_1      => cases hs
  case h_2 w hi =>
    split at hs
    case h_1 hpc =>
      cases hs
      exact ⟨setThread_step hi (by simp only [Worker.held, hpc]), h.setThread rfl⟩
    case h_2     => cases hs

section New

variable [Inhabited α]

theorem Counted.new (max : Int) : (new max : EventDispatcher α κ φ).Counted where
  ready w hw := by
    rw [List.eq_of_mem_replicate hw]
    rfl
  ticket := nofun

theorem workQueue_new (max : Int) : (new max : EventDispatcher α κ φ).workQueue = .empty := by
  have : (new max : EventDispatcher α κ φ).held = [] :=
    List.flatMap_eq_nil_iff.mpr fun w hw => by rw [List.eq_of_mem_replicate hw]; rfl
  simp only [workQueue, this]
  rfl

end New

variable [Callback κ α φ]

theorem call_step (h : d.Counted) (hi : d.threadList[i]? = some w) (hpc : w.pc = .call)
    (hc : w.call i d = .ok d') : d.workQueue.Step d'.workQueue ∧ d'.Counted := by
  have hr : w.runFlag = w.it.isSome := by
    simpa only [Worker.Ready, hpc] using h.ready w (List.mem_of_getElem? hi)
  unfold Worker.call at hc
  split at hc
  case isTrue hf  =>
    have hw : w.held = [w.event] := by simp only [Worker.held, hpc, ← hr, hf, if_true]
    split at hc
    case h_1          => cases hc
    case h_2 callback =>
      cases hc
      exact ⟨.deliver (held_give hi hw rfl) (coe_append_singleton ..),
        Threads.forall_set h.ready trivial, h.ticket⟩
  case isFalse hf =>
    have hf := Bool.eq_false_of_not_eq_true hf
    have hw : w.held = [] := by simp [Worker.held, hpc, ← hr, hf]
    cases hc
    exact ⟨setThread_step hi hw, h.setThread hf⟩

theorem workThread_step (h : d.Counted) (hs : d.workThread i = .ok d') :
    d.workQueue.Step d'.workQueue ∧ d'.Counted := by
  unfold workThread at hs
  split at hs
  case h_1     => cases hs
  case h_2 w hi =>
    have hr := h.ready w (List.mem_of_getElem? hi)
    split at hs
    case h_1 hpc =>
      cases hs
      simp only [Worker.Ready, hpc] at hr
      by_cases hst : d.status = .halt
      case pos =>
        exact ⟨setThread_step hi (by simp [Worker.held, hpc, hst]), h.setThread (by simpa [Worker.Ready, hst])⟩
      case neg =>
        exact ⟨setThread_step hi (by simp [Worker.held, hpc, hst]), h.setThread (by simpa [Worker.Ready, hst])⟩
    case h_2 hpc =>
      cases hs
      simp only [Worker.Ready, hpc] at hr
      by_cases hst : d.status = .suspend
      case pos =>
        exact ⟨setThread_step hi (by simp [Worker.held, hpc, hst]), h.setThread (by simpa [Worker.Ready, hst])⟩
      case neg =>
        exact ⟨setThread_step hi (by simp [Worker.held, hpc, hst]), h.setThread (by simpa [Worker.Ready, hst])⟩
    case h_3 hpc =>
      cases hs
      exact getEvent_step h hi hpc
    case h_4 hpc =>
      cases hs
      exact processEvent_step h hi hpc
    case h_5 hpc => exact call_step h hi hpc hs
    case h_6     => cases hs
    case h_7     => cases hs

theorem step_workQueue {a : Action α κ} (h : d.Counted) (hs : d.step a = .ok d') :
    d.workQueue.Step d'.workQueue ∧ d'.Counted := by
  cases a
  case submitEvent name pArg =>
    cases hs
    exact submitEvent_step h name pArg
  case addCallback name pCallback =>
    cases hs
    exact addCallback_step h name pCallback
  case removeCallback name =>
    cases hs
    exact removeCallback_step h name
  case setStatus st =>
    cases hs
    exact setStatus_step h st
  case workThread => exact workThread_step h hs
  case returned   => exact returned_step h hs

variable [Inhabited α]

-- Every pair that was ever appended is in `eventList`, with one worker, delivered or dropped, in one
-- of these places and once, and the pairs leave `eventList` in the order in which they came.
theorem conserved {max : Int} {actions : List (Action α κ)}
    (h : Runs.run step (new max : EventDispatcher α κ φ) actions = .ok d) :
    (d.appended : Multiset (Event α)) = d.eventList + d.held + d.delivered + d.dropped ∧
      (d.eventList ++ d.held ++ d.delivered ++ d.dropped).Nodup ∧
      d.appended = d.taken ++ d.eventList := by
  have hi : d.workQueue.Conserved ∧ d.Counted := by
    refine Runs.invariant (I := fun d : EventDispatcher α κ φ => d.workQueue.Conserved ∧ d.Counted) ?_ Runs.along_true
      (fun d a d' hi _ hs => ?_) h
    · exact ⟨(workQueue_new max : (new max : EventDispatcher α κ φ).workQueue = _) ▸ .empty, .new max⟩
    · obtain ⟨hq, hc⟩ := step_workQueue hi.right hs
      exact ⟨hi.left.step hq, hc⟩
  exact ⟨hi.left.conserved, Multiset.coe_nodup.mp hi.left.nodup, hi.left.order⟩

-- A callback that only gets its argument.
instance : Callback Unit Nat Unit where
  run _ _ := ()

-- The callback is removed after one worker has called it and before the other one looks it up.
def removed : List (Action Nat Unit) := [
  .addCallback "callback" (some ()), .submitEvent "callback" 1, .submitEvent "callback" 2,
  .workThread 0, .workThread 0, .workThread 0, .workThread 1, .workThread 1, .workThread 1,
  .workThread 0, .workThread 0, .removeCallback "callback", .workThread 1]

theorem conserved_removed :
    ∃ d, Runs.run step (new 2) removed = .ok d ∧ d.eventList = [] ∧ d.held = [] ∧
      d.delivered = [⟨0, "callback", 1⟩] ∧ d.dropped = [⟨1, "callback", 2⟩] ∧
      d.appended = d.taken ++ d.eventList := by
  obtain ⟨d, h, hlist, hheld, hdelivered, hdropped⟩ : ∃ d, Runs.run step (new 2) removed = .ok d ∧
      d.eventList = [] ∧ d.held = [] ∧ d.delivered = [⟨0, "callback", 1⟩] ∧
      d.dropped = [⟨1, "callback", 2⟩] := Runs.exists_ok (by decide +kernel)
  exact ⟨d, h, hlist, hheld, hdelivered, hdropped, (conserved h).right.right⟩

end EventDispatcher

end Server8
