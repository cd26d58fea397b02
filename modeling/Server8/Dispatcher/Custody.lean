import Mathlib.Data.List.Flatten
import Server8.Dispatcher.Steps
import Server8.Lib.Threads

-- A dispatcher with one callback, and where the arguments of its events are: in `eventList`, with a
-- worker that has not called the callback yet, or in what the callback has left to do.

namespace Server8

namespace EventDispatcher

variable {α κ φ β : Type} {d d' : EventDispatcher α κ φ} {w w' : Worker α φ} {i j : Nat} {name : String}
  {callback : κ} {weigh : α → List β} {own : φ → List β} {f f' : φ} {pArg : α}

-- What a worker has in its hands. An argument counts for what `weigh` gives, and a callback for what
-- `own` gives.
def Worker.hands (weigh : α → List β) (own : φ → List β) (w : Worker α φ) : List β :=
  match w.pc with
  | .processEvent => weigh w.pArgType
  | .call         => weigh w.pArgType
  | .run frame    => own frame
  | _             => []

def custody (weigh : α → List β) (own : φ → List β) (d : EventDispatcher α κ φ) : Multiset β :=
  (d.eventList.flatMap fun e => weigh e.pArg : List β) + (d.threadList.flatMap (Worker.hands weigh own) : List β)

-- Before `addCallback`.
structure Quiet (d : EventDispatcher α κ φ) : Prop where
  map     : d.callbackMap = []
  nodes   : d.nodes = 0
  events  : d.eventList = []
  workers : ∀ w ∈ d.threadList, w.pc.Idle ∧ w.runFlag = false

instance : (pc : Pc φ) → Decidable pc.Idle
  | .loop | .status | .getEvent | .exit   => .isTrue trivial
  | .processEvent | .call | .run _        => .isFalse id

-- What a worker has in its local variables when all pairs have this name.
def Worker.Serves (name : String) (w : Worker α φ) : Prop :=
  match w.pc with
  | .processEvent => w.name = name ∧ w.runFlag = false
  | .call         => w.it = some 0 ∧ w.runFlag = true
  | .run _        => True
  | _             => w.runFlag = false

-- After `addCallback`.
structure Serves (name : String) (callback : κ) (d : EventDispatcher α κ φ) : Prop where
  map     : d.callbackMap = [⟨0, name, callback⟩]
  events  : ∀ e ∈ d.eventList, e.name = name
  workers : ∀ w ∈ d.threadList, w.Serves name

theorem hands_setThread (weigh : α → List β) (own : φ → List β) (h : d.threadList[i]? = some w)
    (w' : Worker α φ) :
    (d.setThread i w').custody weigh own + w.hands weigh own = d.custody weigh own + w'.hands weigh own := by
  rw [custody, custody, add_assoc, add_assoc]
  exact congrArg _ (Threads.flatMap_set _ h w')

theorem custody_setThread (h : d.threadList[i]? = some w) (hw : w.hands weigh own = w'.hands weigh own) :
    (d.setThread i w').custody weigh own = d.custody weigh own := by
  have := hands_setThread weigh own h w'
  rwa [hw, add_left_inj] at this

theorem Worker.hands_idle (h : w.pc.Idle) : w.hands weigh own = [] := by
  unfold Worker.hands
  split
  case h_1 hpc => simp [hpc, Pc.Idle] at h
  case h_2 hpc => simp [hpc, Pc.Idle] at h
  case h_3 hpc => simp [hpc, Pc.Idle] at h
  case h_4     => rfl

theorem Worker.serves_idle (h : w.pc.Idle) : w.Serves name ↔ w.runFlag = false := by
  unfold Worker.Serves
  split
  case h_1 hpc => simp [hpc, Pc.Idle] at h
  case h_2 hpc => simp [hpc, Pc.Idle] at h
  case h_3 hpc => simp [hpc, Pc.Idle] at h
  case h_4     => rfl

namespace Quiet

theorem new [Inhabited α] (max : Int) : (new max : EventDispatcher α κ φ).Quiet where
  map       := rfl
  nodes     := rfl
  events    := rfl
  workers w hw := by
    rw [List.eq_of_mem_replicate hw]
    exact ⟨trivial, rfl⟩

theorem workThread [Callback κ α φ] (h : d.Quiet) (hs : d.workThread i = .ok d') : d'.Quiet := by
  obtain ⟨w, hi, hw⟩ := workThread_ok hs
  have hidle := h.workers w (List.mem_of_getElem? hi)
  cases hw
  case idle pc _ hpc  => exact ⟨h.map, h.nodes, h.events, Threads.forall_set h.workers ⟨hpc, hidle.right⟩⟩
  case take hpc he    => simp [h.events] at he
  case found hpc _    => simp [hpc, Pc.Idle] at hidle
  case absent hpc _   => simp [hpc, Pc.Idle] at hidle
  case call hpc _ _   => simp [hpc, Pc.Idle] at hidle
  case skip hpc _     => simp [hpc, Pc.Idle] at hidle

theorem workThread_ne_erased [Callback κ α φ] (h : d.Quiet) : d.workThread i ≠ .error .erased := by
  unfold EventDispatcher.workThread
  split
  case h_1      => simp
  case h_2 w hi =>
    have hidle := (h.workers w (List.mem_of_getElem? hi)).left
    split
    case h_5 hpc => simp [hpc, Pc.Idle] at hidle
    all_goals simp

theorem setStatus (h : d.Quiet) (st : Status) : (d.setStatus st).2.Quiet := by
  unfold EventDispatcher.setStatus
  split
  case isTrue  => exact ⟨h.map, h.nodes, h.events, h.workers⟩
  case isFalse => exact h

theorem addCallback_eq (h : d.Quiet) (hn : name ≠ "") (callback : κ) :
    (d.addCallback name (some callback)).2 = { d with callbackMap := [⟨0, name, callback⟩], nodes := 1 } := by
  have hf : d.find name = none := by
    rw [find, h.map]
    rfl
  simp only [EventDispatcher.addCallback, if_neg hn, hf, h.map, h.nodes, List.nil_append]

theorem addCallback (h : d.Quiet) (hn : name ≠ "") (callback : κ) :
    (d.addCallback name (some callback)).2.Serves name callback := by
  rw [h.addCallback_eq hn]
  constructor
  case map     => rfl
  case events  => simp [h.events]
  case workers => exact fun w hw => (Worker.serves_idle (h.workers w hw).left).mpr (h.workers w hw).right

theorem custody (h : d.Quiet) : d.custody weigh own = 0 := by
  have hw : d.threadList.flatMap (Worker.hands weigh own) = [] :=
    List.flatMap_eq_nil_iff.mpr fun w hw => Worker.hands_idle (h.workers w hw).left
  rw [EventDispatcher.custody, h.events, hw]
  rfl

theorem custody_addCallback (h : d.Quiet) (hn : name ≠ "") (callback : κ) :
    (d.addCallback name (some callback)).2.custody weigh own = 0 :=
  h.addCallback_eq hn callback ▸ h.custody

theorem frame (h : d.Quiet) (i : Nat) : d.frame i = none := by
  cases hf : d.frame i
  case none   => rfl
  case some f =>
    obtain ⟨w, hi, hpc⟩ := frame_eq_some hf
    have := (h.workers w (List.mem_of_getElem? hi)).left
    simp [hpc, Pc.Idle] at this

theorem frame_addCallback (h : d.Quiet) (hn : name ≠ "") (callback : κ) (i : Nat) :
    (d.addCallback name (some callback)).2.frame i = none :=
  h.addCallback_eq hn callback ▸ h.frame i

end Quiet

theorem Worker.frame_idle (h : w.pc.Idle) : w.frame = none := by
  unfold Worker.frame
  split
  case h_1 hpc => simp [hpc, Pc.Idle] at h
  case h_2     => rfl

theorem frame_eq (h : d.threadList[i]? = some w) : d.frame i = w.frame := by
  rw [frame, h]
  rfl

theorem frame_setThread_eq (h : d.threadList[i]? = some w) (hw' : w'.frame = none) (hw : w.frame = none)
    (j : Nat) : (d.setThread i w').frame j = d.frame j := by
  rw [frame_setThread h, hw']
  split
  case isTrue he => rw [← he, frame_eq h, hw]
  case isFalse   => rfl

theorem frame_setStatus (d : EventDispatcher α κ φ) (st : Status) (i : Nat) :
    (d.setStatus st).2.frame i = d.frame i := by
  unfold setStatus
  split <;> rfl

theorem custody_setStatus (weigh : α → List β) (own : φ → List β) (d : EventDispatcher α κ φ) (st : Status) :
    (d.setStatus st).2.custody weigh own = d.custody weigh own := by
  unfold setStatus
  split <;> rfl

theorem frame_setFrame (h : d.frame i = some f) (f' : φ) (j : Nat) :
    (d.setFrame i f').frame j = if i = j then some f' else d.frame j := by
  obtain ⟨w, hi, _⟩ := frame_eq_some h
  rw [setFrame, hi]
  exact frame_setThread hi _ j

theorem custody_setFrame (weigh : α → List β) (own : φ → List β) (hf : d.frame i = some f) (f' : φ) :
    (d.setFrame i f').custody weigh own + own f = d.custody weigh own + own f' := by
  obtain ⟨w, hi, hpc⟩ := frame_eq_some hf
  rw [setFrame, hi]
  have := hands_setThread weigh own hi { w with pc := .run f' }
  simpa only [Worker.hands, hpc] using this

theorem custody_returned (weigh : α → List β) (own : φ → List β) (hf : d.frame i = some f)
    (hs : d.returned i = .ok d') : d'.custody weigh own + own f = d.custody weigh own := by
  obtain ⟨w, frame, hi, hpc, rfl⟩ := returned_ok hs
  have hw : f = frame := by
    simpa only [frame_eq hi, Worker.frame, hpc, Option.some_inj, eq_comm] using hf
  have := hands_setThread weigh own hi { w with pc := .loop, runFlag := false }
  simpa only [Worker.hands, hpc, hw, Multiset.coe_nil, add_zero] using this

theorem hands_of_frame (weigh : α → List β) (own : φ → List β) (hf : d.frame i = some f) :
    ∃ w, d.threadList[i]? = some w ∧ w.hands weigh own = own f := by
  obtain ⟨w, hi, hpc⟩ := frame_eq_some hf
  exact ⟨w, hi, by simp only [Worker.hands, hpc]⟩

theorem mem_custody {b : β} (weigh : α → List β) (hf : d.frame i = some f) (hb : b ∈ own f) :
    b ∈ d.custody weigh own := by
  obtain ⟨w, hi, hw⟩ := hands_of_frame weigh own hf
  exact Multiset.mem_add.mpr (.inr (List.mem_flatMap.mpr ⟨w, List.mem_of_getElem? hi, hw ▸ hb⟩))

theorem Worker.hands_sublist {weigh' : α → List β} {own' : φ → List β} (hw : ∀ a, (weigh a).Sublist (weigh' a))
    (ho : ∀ f, (own f).Sublist (own' f)) (w : Worker α φ) :
    (w.hands weigh own).Sublist (w.hands weigh' own') := by
  unfold Worker.hands
  split
  case h_1 => exact hw _
  case h_2 => exact hw _
  case h_3 => exact ho _
  case h_4 => exact .refl _

theorem custody_mono {weigh' : α → List β} {own' : φ → List β} (hw : ∀ a, (weigh a).Sublist (weigh' a))
    (ho : ∀ f, (own f).Sublist (own' f)) (d : EventDispatcher α κ φ) :
    d.custody weigh own ≤ d.custody weigh' own' :=
  add_le_add (Multiset.coe_le.mpr (List.Sublist.flatMap_right _ fun e _ => hw e.pArg).subperm)
    (Multiset.coe_le.mpr (List.Sublist.flatMap_right _ fun w _ => Worker.hands_sublist hw ho w).subperm)

-- The part of the custody that `g` selects.
theorem custody_filterMap {γ : Type} (g : β → Option γ) (weigh : α → List β) (own : φ → List β)
    (d : EventDispatcher α κ φ) :
    (d.custody weigh own).filterMap g =
      d.custody (fun a => (weigh a).filterMap g) (fun f => (own f).filterMap g) := by
  have hhands : ∀ w : Worker α φ, (w.hands weigh own).filterMap g =
      w.hands (fun a => (weigh a).filterMap g) (fun f => (own f).filterMap g) := by
    intro w
    unfold Worker.hands
    split <;> rfl
  simp only [custody, Multiset.filterMap_add, Multiset.filterMap_coe, List.filterMap_flatMap, hhands]

-- Where nothing is in custody twice, two callbacks have nothing in common.
theorem own_disjoint (h : (d.custody weigh own).Nodup) (hf : d.frame i = some f) (hf' : d.frame j = some f')
    (hij : i ≠ j) : (own f).Disjoint (own f') := by
  obtain ⟨w, hi, hw⟩ := hands_of_frame weigh own hf
  obtain ⟨w', hj, hw'⟩ := hands_of_frame weigh own hf'
  have hnodup : (d.threadList.flatMap (Worker.hands weigh own)).Nodup :=
    Multiset.coe_nodup.mp (Multiset.nodup_add.mp h).right.left
  have hpairs := List.pairwise_iff_getElem.mp (List.nodup_flatMap.mp hnodup).right
  obtain ⟨hilt, rfl⟩ := List.getElem?_eq_some_iff.mp hi
  obtain ⟨hjlt, rfl⟩ := List.getElem?_eq_some_iff.mp hj
  rw [← hw, ← hw']
  cases Nat.lt_or_gt_of_ne hij
  case inl hlt => exact hpairs i j hilt hjlt hlt
  case inr hgt => exact (hpairs j i hjlt hilt hgt).symm

-- What a callback has is not in the queue.
theorem own_disjoint_events (h : (d.custody weigh own).Nodup) (hf : d.frame i = some f) :
    (own f).Disjoint (d.eventList.flatMap fun e => weigh e.pArg) := by
  obtain ⟨w, hi, hw⟩ := hands_of_frame weigh own hf
  intro b hb he
  have hthreads : b ∈ d.threadList.flatMap (Worker.hands weigh own) :=
    List.mem_flatMap.mpr ⟨w, List.mem_of_getElem? hi, hw ▸ hb⟩
  exact Multiset.disjoint_left.mp (Multiset.nodup_add.mp h).right.right he hthreads

theorem returned_of_frame (h : d.frame i = some f) : ∃ d', d.returned i = .ok d' := by
  obtain ⟨w, hi, hpc⟩ := frame_eq_some h
  simp [EventDispatcher.returned, hi, hpc]

theorem frame_returned (hs : d.returned i = .ok d') (j : Nat) :
    d'.frame j = if i = j then none else d.frame j := by
  obtain ⟨w, frame, hi, _, rfl⟩ := returned_ok hs
  exact frame_setThread hi _ j

namespace Serves

theorem second (h : d.Serves name callback) : d.second (some 0) = some callback := by
  simp [EventDispatcher.second, h.map]

theorem find (h : d.Serves name callback) : d.find name = some ⟨0, name, callback⟩ := by
  simp [EventDispatcher.find, h.map]

section Steps

variable [Callback κ α φ]

-- A worker passes on what it has, and its callback begins with the argument.
theorem workThread (h : d.Serves name callback) (weigh : α → List β) (own : φ → List β)
    (hown : ∀ pArg, own (Callback.run callback pArg) = weigh pArg) (hs : d.workThread i = .ok d') :
    d'.Serves name callback ∧ d'.custody weigh own = d.custody weigh own := by
  obtain ⟨w, hi, hw⟩ := workThread_ok hs
  have hserves := h.workers w (List.mem_of_getElem? hi)
  cases hw
  case idle pc hidle hpc =>
    rw [Worker.serves_idle hidle] at hserves
    refine ⟨⟨h.map, h.events, Threads.forall_set h.workers ((Worker.serves_idle hpc).mpr hserves)⟩, ?_⟩
    exact custody_setThread hi (Worker.hands_idle hidle ▸ (Worker.hands_idle hpc).symm)
  case take e rest hpc he =>
    have hflag : w.runFlag = false := by simpa only [Worker.Serves, hpc] using hserves
    have hname := List.forall_mem_cons.mp (he ▸ h.events)
    refine ⟨⟨h.map, hname.right, Threads.forall_set h.workers ⟨hname.left, hflag⟩⟩, ?_⟩
    have ht := Threads.flatMap_set (Worker.hands weigh own) hi
      { w with pc := .processEvent, name := e.name, pArgType := e.pArg, ticket := e.ticket }
    rw [Worker.hands_idle (by simp [hpc, Pc.Idle]), Multiset.coe_nil, add_zero] at ht
    simp only [EventDispatcher.custody, setThread, he, List.flatMap_cons, ← Multiset.coe_add, ht, Worker.hands]
    abel
  case found entry hpc hf =>
    have hname : w.name = name ∧ w.runFlag = false := by simpa only [Worker.Serves, hpc] using hserves
    rw [hname.left, h.find, Option.some_inj] at hf
    refine ⟨⟨h.map, h.events, Threads.forall_set h.workers ⟨hf ▸ rfl, rfl⟩⟩, ?_⟩
    exact custody_setThread hi (by simp only [Worker.hands, hpc])
  case absent hpc hf =>
    have hname : w.name = name ∧ w.runFlag = false := by simpa only [Worker.Serves, hpc] using hserves
    rw [hname.left, h.find] at hf
    cases hf
  case call callback' hpc _ hc =>
    have hit : w.it = some 0 ∧ w.runFlag = true := by simpa only [Worker.Serves, hpc] using hserves
    rw [hit.left, h.second, Option.some_inj] at hc
    cases hc
    refine ⟨⟨h.map, h.events, Threads.forall_set h.workers trivial⟩, ?_⟩
    exact custody_setThread hi (by simp only [Worker.hands, hpc, hown])
  case skip hpc hflag =>
    have hit : w.it = some 0 ∧ w.runFlag = true := by simpa only [Worker.Serves, hpc] using hserves
    simp [hit.right] at hflag

-- The iterator of a worker is valid.
theorem workThread_ne_erased (h : d.Serves name callback) : d.workThread i ≠ .error .erased := by
  unfold EventDispatcher.workThread
  split
  case h_1      => nofun
  case h_2 w hi =>
    have hserves := h.workers w (List.mem_of_getElem? hi)
    split
    case h_5 hpc =>
      have hit : w.it = some 0 ∧ w.runFlag = true := by simpa only [Worker.Serves, hpc] using hserves
      simp only [Worker.call, hit.left, hit.right, h.second, if_true]
      nofun
    all_goals nofun

-- Only a worker that calls the callback gets a frame.
theorem frame_workThread (h : d.Serves name callback) (hs : d.workThread i = .ok d') (j : Nat) :
    d'.frame j = d.frame j ∨ i = j ∧ d.frame j = none ∧ ∃ pArg, d'.frame j = some (Callback.run callback pArg) := by
  obtain ⟨w, hi, hw⟩ := workThread_ok hs
  have hserves := h.workers w (List.mem_of_getElem? hi)
  cases hw
  case idle pc hidle hpc => exact .inl (frame_setThread_eq hi (Worker.frame_idle hpc) (Worker.frame_idle hidle) j)
  case take hpc _        =>
    exact .inl (frame_setThread_eq hi (by simp only [Worker.frame]) (by simp only [Worker.frame, hpc]) j)
  case found hpc _       =>
    exact .inl (frame_setThread_eq hi (by simp only [Worker.frame]) (by simp only [Worker.frame, hpc]) j)
  case absent hpc _      =>
    exact .inl (frame_setThread_eq hi (by simp only [Worker.frame]) (by simp only [Worker.frame, hpc]) j)
  case skip hpc _        =>
    exact .inl (frame_setThread_eq hi (by simp only [Worker.frame]) (by simp only [Worker.frame, hpc]) j)
  case call callback' hpc _ hc =>
    have hit : w.it = some 0 ∧ w.runFlag = true := by simpa only [Worker.Serves, hpc] using hserves
    rw [hit.left, h.second, Option.some_inj] at hc
    cases hc
    by_cases hij : i = j
    case neg => exact .inl ((frame_setThread hi _ j).trans (if_neg hij))
    case pos =>
      refine .inr ⟨hij, ?_, w.pArgType, (frame_setThread hi _ j).trans (if_pos hij)⟩
      rw [← hij, frame_eq hi]
      simp only [Worker.frame, hpc]

end Steps

theorem submitEvent_eq (h : d.Serves name callback) (pArg : α) :
    (d.submitEvent name pArg).2 = { d with
      eventList := d.eventList ++ [⟨d.appended.length, name, pArg⟩]
      appended  := d.appended ++ [⟨d.appended.length, name, pArg⟩] } := by
  simp only [EventDispatcher.submitEvent, h.find]

theorem submitEvent (h : d.Serves name callback) (pArg : α) : (d.submitEvent name pArg).2.Serves name callback := by
  rw [h.submitEvent_eq]
  refine ⟨h.map, ?_, h.workers⟩
  intro e he
  cases List.mem_append.mp he
  case inl he => exact h.events e he
  case inr he =>
    cases List.mem_singleton.mp he
    rfl

theorem custody_submitEvent (h : d.Serves name callback) (weigh : α → List β) (own : φ → List β) (pArg : α) :
    (d.submitEvent name pArg).2.custody weigh own = d.custody weigh own + weigh pArg := by
  rw [h.submitEvent_eq]
  simp only [EventDispatcher.custody, List.flatMap_append, List.flatMap_singleton, ← Multiset.coe_add]
  exact add_right_comm ..

theorem setStatus (h : d.Serves name callback) (st : Status) : (d.setStatus st).2.Serves name callback := by
  unfold EventDispatcher.setStatus
  split
  case isTrue  => exact ⟨h.map, h.events, h.workers⟩
  case isFalse => exact h

theorem setFrame (h : d.Serves name callback) (i : Nat) (f' : φ) : (d.setFrame i f').Serves name callback := by
  unfold EventDispatcher.setFrame
  split
  case h_1 => exact ⟨h.map, h.events, Threads.forall_set h.workers trivial⟩
  case h_2 => exact h

theorem returned (h : d.Serves name callback) (hs : d.returned i = .ok d') : d'.Serves name callback := by
  obtain ⟨w, frame, _, _, rfl⟩ := returned_ok hs
  exact ⟨h.map, h.events, Threads.forall_set h.workers rfl⟩

end Serves

end EventDispatcher

end Server8
