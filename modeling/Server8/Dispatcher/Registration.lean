import Server8.Dispatcher.Steps
import Server8.Lib.Threads

-- What `callbackMap` is for those who register callbacks, submit pairs and call through it.

namespace Server8

namespace EventDispatcher

variable {α κ φ : Type} {d d' : EventDispatcher α κ φ} {w : Worker α φ} {i : Nat} {name : String}
  {entry : Entry κ}

structure Mapped (d : EventDispatcher α κ φ) : Prop where
  named : ∀ entry ∈ d.callbackMap, entry.name ≠ ""
  old   : ∀ entry ∈ d.callbackMap, entry.node < d.nodes
  name  : (d.callbackMap.map Entry.name).Nodup
  node  : (d.callbackMap.map Entry.node).Nodup

theorem find_mem (h : d.find name = some entry) : entry ∈ d.callbackMap :=
  List.mem_of_find?_eq_some h

theorem find_name (h : d.find name = some entry) : entry.name = name := by
  simpa using List.find?_some h

theorem find_eq_none : d.find name = none ↔ ∀ entry ∈ d.callbackMap, entry.name ≠ name := by
  simp [find, List.find?_eq_none]

theorem Mapped.find_eq (h : d.Mapped) (he : entry ∈ d.callbackMap) : d.find entry.name = some entry := by
  cases hf : d.find entry.name
  case none       => exact absurd rfl (find_eq_none.mp hf entry he)
  case some found =>
    rw [List.inj_on_of_nodup_map h.name (find_mem hf) he (find_name hf)]

theorem Mapped.second_eq (h : d.Mapped) (he : entry ∈ d.callbackMap) :
    d.second (some entry.node) = some entry.callback := by
  have hf : d.callbackMap.find? (·.node = entry.node) = some entry := by
    cases hf : d.callbackMap.find? (·.node = entry.node)
    case none       => simpa using List.find?_eq_none.mp hf entry he
    case some found =>
      have hn : found.node = entry.node := by simpa using List.find?_some hf
      rw [List.inj_on_of_nodup_map h.node (List.mem_of_find?_eq_some hf) he hn]
  rw [second, Option.bind_some, hf, Option.map_some]

theorem Mapped.new [Inhabited α] (max : Int) : (new max : EventDispatcher α κ φ).Mapped where
  named := nofun
  old   := nofun
  name  := List.nodup_nil
  node  := List.nodup_nil

theorem addCallback_mapped (h : d.Mapped) (name : String) (pCallback : Option κ) :
    (d.addCallback name pCallback).2.Mapped := by
  unfold addCallback
  split
  case h_1          => exact h
  case h_2 callback =>
    split
    case isTrue     => exact h
    case isFalse hn =>
      split
      case h_2    => exact h
      case h_1 hf =>
        constructor
        case named => exact List.forall_mem_append.mpr ⟨h.named, List.forall_mem_singleton.mpr hn⟩
        case old =>
          exact List.forall_mem_append.mpr
            ⟨fun e he => Nat.lt_succ_of_lt (h.old e he), List.forall_mem_singleton.mpr (Nat.lt_succ_self _)⟩
        case name =>
          rw [List.map_append, List.nodup_append]
          refine ⟨h.name, List.nodup_singleton _, fun n hn m hm => ?_⟩
          obtain ⟨e, he, rfl⟩ := List.mem_map.mp hn
          exact List.mem_singleton.mp hm ▸ find_eq_none.mp hf e he
        case node =>
          rw [List.map_append, List.nodup_append]
          refine ⟨h.node, List.nodup_singleton _, fun n hn m hm => ?_⟩
          obtain ⟨e, he, rfl⟩ := List.mem_map.mp hn
          exact List.mem_singleton.mp hm ▸ Nat.ne_of_lt (h.old e he)

theorem removeCallback_mapped (h : d.Mapped) (name : String) : (d.removeCallback name).2.Mapped := by
  unfold removeCallback
  split
  case isTrue  => exact h
  case isFalse =>
    split
    case h_2   => exact h
    case h_1 e _ =>
      have hs : (d.callbackMap.filter (·.node ≠ e.node)).Sublist d.callbackMap := List.filter_sublist
      exact {
        named := fun x hx => h.named x (hs.subset hx)
        old   := fun x hx => h.old x (hs.subset hx)
        name  := (hs.map _).nodup h.name
        node  := (hs.map _).nodup h.node }

theorem Mapped.keep (h : d.Mapped) (hm : d'.callbackMap = d.callbackMap) (hn : d'.nodes = d.nodes) :
    d'.Mapped where
  named := hm ▸ h.named
  old   := hm ▸ hn ▸ h.old
  name  := hm ▸ h.name
  node  := hm ▸ h.node

theorem workThread_map [Callback κ α φ] (h : d.workThread i = .ok d') :
    d'.callbackMap = d.callbackMap ∧ d'.nodes = d.nodes := by
  obtain ⟨w, _, hw⟩ := workThread_ok h
  cases hw <;> exact ⟨rfl, rfl⟩

theorem returned_map (h : d.returned i = .ok d') :
    d'.callbackMap = d.callbackMap ∧ d'.nodes = d.nodes := by
  obtain ⟨w, frame, _, _, rfl⟩ := returned_ok h
  exact ⟨rfl, rfl⟩

theorem submitEvent_map (d : EventDispatcher α κ φ) (name : String) (pArg : α) :
    (d.submitEvent name pArg).2.callbackMap = d.callbackMap ∧ (d.submitEvent name pArg).2.nodes = d.nodes := by
  unfold submitEvent
  split <;> exact ⟨rfl, rfl⟩

theorem setStatus_map (d : EventDispatcher α κ φ) (st : Status) :
    (d.setStatus st).2.callbackMap = d.callbackMap ∧ (d.setStatus st).2.nodes = d.nodes := by
  unfold setStatus
  split <;> exact ⟨rfl, rfl⟩

theorem step_mapped [Callback κ α φ] {a : Action α κ} (h : d.Mapped) (hs : d.step a = .ok d') : d'.Mapped := by
  cases a
  case addCallback name pCallback =>
    cases hs
    exact addCallback_mapped h name pCallback
  case removeCallback name =>
    cases hs
    exact removeCallback_mapped h name
  case submitEvent name pArg =>
    cases hs
    exact h.keep (d.submitEvent_map name pArg).left (d.submitEvent_map name pArg).right
  case setStatus st =>
    cases hs
    exact h.keep (d.setStatus_map st).left (d.setStatus_map st).right
  case workThread => exact h.keep (workThread_map hs).left (workThread_map hs).right
  case returned   => exact h.keep (returned_map hs).left (returned_map hs).right

section Results

-- What the caller of the action is told is what happened.
def Truthful (d : EventDispatcher α κ φ) : Action α κ → Prop
  | .submitEvent name pArg      =>
    (d.submitEvent name pArg).1 = true ↔
      (d.submitEvent name pArg).2.eventList = d.eventList ++ [⟨d.appended.length, name, pArg⟩]
  | .addCallback name pCallback =>
    (d.addCallback name pCallback).1 = true ↔
      ∃ entry, (d.addCallback name pCallback).2.find name = some entry ∧ pCallback = some entry.callback
  | _                           => True

-- Pairs are submitted to callbacks that are there, and a name is registered once or again with the
-- same callback.
def Informed (d : EventDispatcher α κ φ) : Action α κ → Prop
  | .submitEvent name _             => d.find name ≠ none
  | .addCallback name (some callback) =>
    name = "" ∨ ∀ entry, d.find name = some entry → entry.callback = callback
  | _                               => True

theorem submitEvent_truthful_iff (d : EventDispatcher α κ φ) (name : String) (pArg : α) :
    d.Truthful (.submitEvent name pArg) ↔ d.Informed (.submitEvent name pArg) := by
  unfold Truthful Informed submitEvent
  cases hf : d.find name
  case none   => simp [hf]
  case some _ => simp [hf]

theorem addCallback_truthful_iff (h : d.Mapped) (name : String) (pCallback : Option κ) :
    d.Truthful (.addCallback name pCallback) ↔ d.Informed (.addCallback name pCallback) := by
  cases pCallback
  case none          => simp [Truthful, Informed, addCallback]
  case some callback =>
    unfold Truthful Informed addCallback
    by_cases hn : name = ""
    case pos =>
      have hf : d.find "" = none := find_eq_none.mpr h.named
      simp [hn, hf]
    case neg =>
      cases hf : d.find name
      case none       =>
        have hf' : d.callbackMap.find? (·.name = name) = none := hf
        simp [hn, find, hf', List.find?_append]
      case some entry => simp [hn, hf, eq_comm]

theorem truthful_iff_informed (h : d.Mapped) (a : Action α κ) : d.Truthful a ↔ d.Informed a := by
  cases a
  case submitEvent name pArg      => exact submitEvent_truthful_iff d name pArg
  case addCallback name pCallback => exact addCallback_truthful_iff h name pCallback
  case removeCallback             => rfl
  case setStatus                  => rfl
  case workThread                 => rfl
  case returned                   => rfl

variable [Callback κ α φ]

theorem Mapped.along_iff (h : d.Mapped) (actions : List (Action α κ)) :
    Runs.Along step Truthful d actions ↔ Runs.Along step Informed d actions := by
  induction actions generalizing d
  case nil => rfl
  case cons a actions ih =>
    apply and_congr (truthful_iff_informed h a)
    exact forall_congr' fun d' => imp_congr_right fun hs => ih (step_mapped h hs)

-- The results along a history are all true if and only if the callers know what is registered.
theorem along_truthful_iff [Inhabited α] (max : Int) (actions : List (Action α κ)) :
    Runs.Along step Truthful (new max : EventDispatcher α κ φ) actions ↔
      Runs.Along step Informed (new max : EventDispatcher α κ φ) actions :=
  (Mapped.new max).along_iff actions

end Results

section Calls

-- The worker has left the look-up with an entry and is about to call through it.
def Worker.calls (w : Worker α φ) : Bool :=
  match w.pc with
  | .call => w.runFlag
  | _     => false

-- No callback is removed while a worker is about to call it.
def keepsCalled (d : EventDispatcher α κ φ) : Action α κ → Bool
  | .removeCallback name => d.threadList.all fun w => !(w.calls && w.name = name)
  | _                    => true

-- A worker that is about to call has an entry of the map, and only then has `runFlag` set.
def Worker.Holds (w : Worker α φ) (map : List (Entry κ)) : Prop :=
  match w.pc with
  | .call  => w.runFlag = true → ∃ entry ∈ map, w.it = some entry.node ∧ entry.name = w.name
  | .run _ => True
  | _      => w.runFlag = false

structure Held (d : EventDispatcher α κ φ) : Prop where
  mapped : d.Mapped
  holds  : ∀ w ∈ d.threadList, w.Holds d.callbackMap

theorem Worker.Holds.of_calls {map : List (Entry κ)} (h : w.Holds map) (hc : w.calls = true) :
    ∃ entry ∈ map, w.it = some entry.node ∧ entry.name = w.name := by
  unfold Worker.calls at hc
  unfold Worker.Holds at h
  split at hc
  case h_1 hpc =>
    simp only [hpc] at h
    exact h hc
  case h_2     => cases hc

theorem Worker.Holds.mono {map map' : List (Entry κ)} (h : w.Holds map)
    (hm : w.calls = true → ∀ entry ∈ map, entry.name = w.name → entry ∈ map') : w.Holds map' := by
  unfold Worker.Holds at h ⊢
  unfold Worker.calls at hm
  cases hpc : w.pc
  case call =>
    simp only [hpc] at h hm ⊢
    intro hf
    obtain ⟨entry, he, hit, hn⟩ := h hf
    exact ⟨entry, hm hf entry he hn, hit, hn⟩
  case run          => trivial
  case loop         => simpa only [hpc] using h
  case status       => simpa only [hpc] using h
  case getEvent     => simpa only [hpc] using h
  case processEvent => simpa only [hpc] using h
  case exit         => simpa only [hpc] using h

theorem Pc.Idle.runFlag_eq {map : List (Entry κ)} (hi : w.pc.Idle) (h : w.Holds map) :
    w.runFlag = false := by
  unfold Worker.Holds at h
  unfold Pc.Idle at hi
  cases hpc : w.pc <;> simp_all

theorem Pc.Idle.holds {map : List (Entry κ)} {pc : Pc φ} (hi : pc.Idle) (hf : w.runFlag = false) :
    { w with pc }.Holds map := by
  cases pc <;> first | exact hf | exact hi.elim

theorem Held.keep (h : d.Held) (hm : d'.Mapped) (ht : d'.threadList = d.threadList)
    (he : ∀ w ∈ d.threadList, w.calls = true → ∀ entry ∈ d.callbackMap, entry.name = w.name →
      entry ∈ d'.callbackMap) : d'.Held where
  mapped    := hm
  holds w hw := (h.holds w (ht ▸ hw)).mono (he w (ht ▸ hw))

theorem addCallback_frame (d : EventDispatcher α κ φ) (name : String) (pCallback : Option κ) :
    (d.addCallback name pCallback).2.threadList = d.threadList ∧
      ∀ entry ∈ d.callbackMap, entry ∈ (d.addCallback name pCallback).2.callbackMap := by
  unfold addCallback
  split
  case h_1 => exact ⟨rfl, fun _ he => he⟩
  case h_2 =>
    split
    case isTrue  => exact ⟨rfl, fun _ he => he⟩
    case isFalse =>
      split
      case h_1 => exact ⟨rfl, fun _ he => List.mem_append_left _ he⟩
      case h_2 => exact ⟨rfl, fun _ he => he⟩

theorem removeCallback_threadList (d : EventDispatcher α κ φ) (name : String) :
    (d.removeCallback name).2.threadList = d.threadList := by
  unfold removeCallback
  split
  case isTrue  => rfl
  case isFalse => split <;> rfl

-- The entries with another name are left, and no other.
theorem Mapped.mem_removeCallback (h : d.Mapped) (name : String) :
    entry ∈ (d.removeCallback name).2.callbackMap ↔ entry ∈ d.callbackMap ∧ entry.name ≠ name := by
  unfold removeCallback
  split
  case isTrue hn  => exact ⟨fun he => ⟨he, hn ▸ h.named entry he⟩, And.left⟩
  case isFalse hn =>
    split
    case h_2 hf   => exact ⟨fun he => ⟨he, find_eq_none.mp hf entry he⟩, And.left⟩
    case h_1 e hf =>
      simp only [List.mem_filter, decide_eq_true_eq]
      apply and_congr_right
      intro he
      apply not_congr
      constructor
      case mp  => exact fun hne => List.inj_on_of_nodup_map h.node he (find_mem hf) hne ▸ find_name hf
      case mpr => exact fun hne => by rw [Option.some.inj ((h.find_eq he).symm.trans (hne ▸ hf))]

theorem removeCallback_held (h : d.Held) (hg : d.keepsCalled (.removeCallback name) = true) :
    (d.removeCallback name).2.Held := by
  refine h.keep (removeCallback_mapped h.mapped name) (removeCallback_threadList d name) ?_
  intro w hw hc entry he hn
  have hne : w.name ≠ name := by simpa [hc] using List.all_eq_true.mp hg w hw
  exact (h.mapped.mem_removeCallback name).mpr ⟨he, hn ▸ hne⟩

theorem Held.new [Inhabited α] (max : Int) : (new max : EventDispatcher α κ φ).Held where
  mapped     := .new max
  holds w hw := by
    rw [List.eq_of_mem_replicate hw]
    rfl

theorem returned_held (h : d.Held) (hs : d.returned i = .ok d') : d'.Held := by
  have hm := h.mapped.keep (returned_map hs).left (returned_map hs).right
  obtain ⟨w, frame, _, _, rfl⟩ := returned_ok hs
  exact ⟨hm, Threads.forall_set h.holds rfl⟩

theorem Held.second_eq (h : d.Held) (hw : w ∈ d.threadList) (hc : w.calls = true) :
    ∃ entry ∈ d.callbackMap, w.it = some entry.node ∧ entry.name = w.name ∧
      d.second w.it = some entry.callback := by
  obtain ⟨entry, he, hit, hn⟩ := (h.holds w hw).of_calls hc
  exact ⟨entry, he, hit, hn, hit ▸ h.mapped.second_eq he⟩

theorem returned_ne (d : EventDispatcher α κ φ) (i : Nat) : d.returned i ≠ .error .erased := by
  intro he
  unfold returned at he
  split at he
  case h_1 => cases he
  case h_2 => split at he <;> cases he

variable [Callback κ α φ]

theorem workThread_held (h : d.Held) (hs : d.workThread i = .ok d') : d'.Held := by
  have hm := h.mapped.keep (workThread_map hs).left (workThread_map hs).right
  obtain ⟨w, hi, hw⟩ := workThread_ok hs
  have hh := h.holds w (List.mem_of_getElem? hi)
  cases hw
  case idle pc hpc hpc' => exact ⟨hm, Threads.forall_set h.holds (hpc'.holds (hpc.runFlag_eq hh))⟩
  case take hpc he =>
    simp only [Worker.Holds, hpc] at hh
    exact ⟨hm, Threads.forall_set h.holds hh⟩
  case found entry hpc hf =>
    exact ⟨hm, Threads.forall_set h.holds fun _ => ⟨entry, find_mem hf, rfl, find_name hf⟩⟩
  case absent hpc hf =>
    simp only [Worker.Holds, hpc] at hh
    exact ⟨hm, Threads.forall_set h.holds fun ht => Bool.noConfusion (hh.symm.trans ht)⟩
  case call => exact ⟨hm, Threads.forall_set h.holds trivial⟩
  case skip hpc hf => exact ⟨hm, Threads.forall_set h.holds hf⟩

theorem step_held {a : Action α κ} (h : d.Held) (hg : d.keepsCalled a = true) (hs : d.step a = .ok d') :
    d'.Held := by
  have hm := step_mapped h.mapped hs
  cases a
  case submitEvent name pArg =>
    cases hs
    refine h.keep hm ?_ fun _ _ _ _ he _ => (d.submitEvent_map name pArg).left ▸ he
    unfold submitEvent
    split <;> rfl
  case addCallback name pCallback =>
    cases hs
    obtain ⟨ht, he⟩ := d.addCallback_frame name pCallback
    exact h.keep hm ht fun _ _ _ entry hx _ => he entry hx
  case removeCallback name =>
    cases hs
    exact removeCallback_held h hg
  case setStatus st =>
    cases hs
    refine h.keep hm ?_ fun _ _ _ _ he _ => (d.setStatus_map st).left ▸ he
    unfold setStatus
    split <;> rfl
  case workThread => exact workThread_held h hs
  case returned   => exact returned_held h hs

theorem workThread_erased (hi : d.threadList[i]? = some w) (hc : w.calls = true) (hs : d.second w.it = none) :
    d.workThread i = .error .erased := by
  unfold Worker.calls at hc
  split at hc
  case h_1 hpc => simp only [workThread, hi, hpc, Worker.call, hc, if_true, hs]
  case h_2     => cases hc

theorem Held.not_erased (h : d.Held) (i : Nat) : d.workThread i ≠ .error .erased := by
  intro he
  unfold workThread at he
  split at he
  case h_1 => cases he
  case h_2 w hi =>
    split at he
    case h_5 hpc =>
      unfold Worker.call at he
      split at he
      case isTrue hf =>
        have hc : w.calls = true := by simpa only [Worker.calls, hpc] using hf
        obtain ⟨entry, _, _, _, hs⟩ := h.second_eq (List.mem_of_getElem? hi) hc
        simp only [hs] at he
        cases he
      case isFalse => cases he
    all_goals cases he

-- A removal that does not spare the callback leaves a worker that calls through an erased entry.
theorem Held.keepsCalled_iff (h : d.Held) (a : Action α κ) :
    d.keepsCalled a = true ↔ ∀ d', d.step a = .ok d' → ∀ i, d'.workThread i ≠ .error .erased := by
  constructor
  case mp  => exact fun hg d' hs => (step_held h hg hs).not_erased
  case mpr =>
    intro hne
    cases a
    case removeCallback name =>
      apply List.all_eq_true.mpr
      intro w hw
      by_contra hn
      obtain ⟨hc, hname⟩ : w.calls = true ∧ w.name = name := by simpa using hn
      obtain ⟨i, hi⟩ := List.mem_iff_getElem?.mp hw
      obtain ⟨entry, he, hit, hen, _⟩ := h.second_eq hw hc
      have hs : (d.removeCallback name).2.second w.it = none := by
        simp only [second, hit, Option.bind_some, Option.map_eq_none_iff, List.find?_eq_none,
          decide_eq_true_eq]
        intro x hx hxn
        obtain ⟨hx, hxname⟩ := (h.mapped.mem_removeCallback name).mp hx
        exact hxname (List.inj_on_of_nodup_map h.mapped.node hx he hxn ▸ hen.trans hname)
      exact hne _ rfl i (workThread_erased (removeCallback_threadList d name ▸ hi) hc hs)
    case submitEvent => rfl
    case addCallback => rfl
    case setStatus   => rfl
    case workThread  => rfl
    case returned    => rfl

theorem Held.step_ne (h : d.Held) (a : Action α κ) : d.step a ≠ .error .erased := by
  cases a
  case workThread i   => exact h.not_erased i
  case returned i     => exact d.returned_ne i
  case submitEvent    => exact nofun
  case addCallback    => exact nofun
  case removeCallback => exact nofun
  case setStatus      => exact nofun

-- Every worker that is about to call has an entry that is in `callbackMap` under the name of its pair.
def Present (d : EventDispatcher α κ φ) : Prop :=
  ∀ w ∈ d.threadList, w.calls = true → ∃ entry ∈ d.callbackMap,
    w.it = some entry.node ∧ entry.name = w.name ∧ d.second w.it = some entry.callback

-- As long as no callback is removed while a worker is about to call it, no call goes through an
-- erased entry, and the first removal that does not wait makes such a call possible.
theorem present_along [Inhabited α] {max : Int} {actions : List (Action α κ)}
    (hg : Runs.Along step (keepsCalled · ·) (new max : EventDispatcher α κ φ) actions) :
    Runs.run step (new max : EventDispatcher α κ φ) actions ≠ .error .erased ∧
      ∀ d, Runs.run step (new max : EventDispatcher α κ φ) actions = .ok d → d.Present ∧
        ∀ a, d.keepsCalled a = true ↔ ∀ d', d.step a = .ok d' → ∀ i, d'.workThread i ≠ .error .erased := by
  have keep : ∀ (d : EventDispatcher α κ φ) (a : Action α κ) (d' : EventDispatcher α κ φ), d.Held →
      d.keepsCalled a = true → d.step a = .ok d' → d'.Held := fun _ _ _ => step_held
  constructor
  case left  => exact Runs.ne_error (.new max) hg keep fun _ a h _ => h.step_ne a
  case right =>
    intro d hr
    have h : d.Held := Runs.invariant (.new max) hg keep hr
    exact ⟨fun w hw hc => h.second_eq hw hc, h.keepsCalled_iff⟩

end Calls

section Histories

-- A callback that only gets its argument.
instance : Callback Bool Nat Unit where
  run _ _ := ()

theorem not_registered :
    ¬∀ (max : Int) (actions : List (Action Nat Bool)),
      Runs.Along step Truthful (new max : EventDispatcher Nat Bool Unit) actions :=
  fun h => by simpa [Truthful, submitEvent, find, new] using (h 1 [.submitEvent "callback" 1]).left

-- One worker is between the look-up and the call.
def lookedUp : List (Action Nat Bool) :=
  [.addCallback "callback" (some true), .submitEvent "callback" 1,
    .workThread 0, .workThread 0, .workThread 0, .workThread 0]

theorem present_lookedUp :
    ∃ d, Runs.run step (new 1 : EventDispatcher Nat Bool Unit) lookedUp = .ok d ∧
      (d.threadList.map Worker.calls = [true]) ∧ d.Present ∧
      (d.keepsCalled (.removeCallback "callback") = false) ∧
      ¬∀ d', d.step (.removeCallback "callback") = .ok d' → ∀ i, d'.workThread i ≠ .error .erased := by
  have hg : Runs.Along step (keepsCalled · ·) (new 1 : EventDispatcher Nat Bool Unit) lookedUp := by
    decide +kernel
  obtain ⟨d, h, hcalls, hkeeps⟩ : ∃ d, Runs.run step (new 1 : EventDispatcher Nat Bool Unit) lookedUp = .ok d ∧
      d.threadList.map Worker.calls = [true] ∧ d.keepsCalled (.removeCallback "callback") = false :=
    Runs.exists_ok (by decide +kernel)
  obtain ⟨hpresent, hiff⟩ := (present_along hg).right d h
  refine ⟨d, h, hcalls, hpresent, hkeeps, fun hn => ?_⟩
  exact absurd ((hiff _).mpr hn) (Bool.eq_false_iff.mp hkeeps)

-- The removal returns before the call.
theorem removed_not_present :
    ¬∀ (max : Int) (actions : List (Action Nat Bool)),
      Runs.run step (new max : EventDispatcher Nat Bool Unit) actions ≠ .error .erased :=
  fun h => h 1 (lookedUp ++ [.removeCallback "callback", .workThread 0]) (by decide +kernel)

end Histories
end EventDispatcher

end Server8
