import Server8.Dispatcher.EventDispatcher

-- What a step of a worker can do, and what is left of the other workers.

namespace Server8

namespace EventDispatcher

variable {α κ φ : Type} {d d' : EventDispatcher α κ φ} {w w' : Worker α φ} {i j : Nat}

-- A worker that has no pair.
def Pc.Idle : Pc φ → Prop
  | .loop | .status | .getEvent | .exit => True
  | _                                   => False

inductive Worked [Callback κ α φ] (d : EventDispatcher α κ φ) (i : Nat) (w : Worker α φ) :
    EventDispatcher α κ φ → Prop
  | idle {pc : Pc φ} : w.pc.Idle → pc.Idle → Worked d i w (d.setThread i { w with pc })
  | take {e : Event α} {rest : List (Event α)} : w.pc = .getEvent → d.eventList = e :: rest →
      Worked d i w { d.setThread i { w with
          pc       := .processEvent
          name     := e.name
          pArgType := e.pArg
          ticket   := e.ticket } with
        eventList := rest
        taken     := d.taken ++ [e] }
  | found {entry : Entry κ} : w.pc = .processEvent → d.find w.name = some entry →
      Worked d i w (d.setThread i { w with pc := .call, it := some entry.node, runFlag := true })
  | absent : w.pc = .processEvent → d.find w.name = none →
      Worked d i w { d.setThread i { w with pc := .call, it := none } with
        dropped := d.dropped ++ [w.event] }
  | call {callback : κ} : w.pc = .call → w.runFlag = true → d.second w.it = some callback →
      Worked d i w { d.setThread i { w with pc := .run (Callback.run callback w.pArgType) } with
        delivered := d.delivered ++ [w.event] }
  | skip : w.pc = .call → w.runFlag = false → Worked d i w (d.setThread i { w with pc := .loop })

theorem workThread_ok [Callback κ α φ] (h : d.workThread i = .ok d') :
    ∃ w, d.threadList[i]? = some w ∧ d.Worked i w d' := by
  unfold workThread at h
  split at h
  case h_1      => cases h
  case h_2 w hi =>
    refine ⟨w, hi, ?_⟩
    split at h
    case h_1 hpc =>
      cases h
      exact .idle (by simp [hpc, Pc.Idle]) (by split <;> trivial)
    case h_2 hpc =>
      cases h
      exact .idle (by simp [hpc, Pc.Idle]) (by split <;> trivial)
    case h_3 hpc =>
      cases h
      unfold Worker.getEvent
      split
      case h_1    => exact .idle (by simp [hpc, Pc.Idle]) trivial
      case h_2 he => exact .take hpc he
    case h_4 hpc =>
      cases h
      unfold Worker.processEvent
      split
      case h_1 hf => exact .found hpc hf
      case h_2 hf => exact .absent hpc hf
    case h_5 hpc =>
      unfold Worker.call at h
      split at h
      case isTrue hf  =>
        split at h
        case h_1    => cases h
        case h_2 hc =>
          cases h
          exact .call hpc hf hc
      case isFalse hf =>
        cases h
        exact .skip hpc ((Bool.not_eq_true _).mp hf)
    case h_6 => cases h
    case h_7 => cases h

theorem returned_ok (h : d.returned i = .ok d') :
    ∃ w frame, d.threadList[i]? = some w ∧ w.pc = .run frame ∧
      d.setThread i { w with pc := .loop, runFlag := false } = d' := by
  unfold returned at h
  split at h
  case h_1      => cases h
  case h_2 w hi =>
    split at h
    case h_1 frame hpc =>
      cases h
      exact ⟨w, frame, hi, hpc, rfl⟩
    case h_2           => cases h

theorem frame_eq_some {frame : φ} (h : d.frame i = some frame) :
    ∃ w, d.threadList[i]? = some w ∧ w.pc = .run frame := by
  obtain ⟨w, hi, hf⟩ := Option.bind_eq_some_iff.mp h
  refine ⟨w, hi, ?_⟩
  unfold Worker.frame at hf
  split at hf
  case h_1 hpc =>
    cases hf
    exact hpc
  case h_2     => cases hf

theorem frame_setThread (h : d.threadList[i]? = some w) (w' : Worker α φ) (j : Nat) :
    (d.setThread i w').frame j = if i = j then w'.frame else d.frame j := by
  have hi := (List.getElem?_eq_some_iff.mp h).choose
  simp only [frame, setThread, List.getElem?_set]
  split
  case isTrue  => rfl
  case isFalse => rfl

end EventDispatcher

end Server8
