import Mathlib.Logic.Basic

-- Runs of a system whose steps may be refused, and the rules that carry facts along them.

namespace Runs

variable {σ τ α ε : Type} {step : σ → α → Except ε σ} {s s' : σ} {actions : List α}

def run (step : σ → α → Except ε σ) (s : σ) (actions : List α) : Except ε σ :=
  actions.foldlM step s

-- Every step of the run meets a condition on the state before it.
def Along (step : σ → α → Except ε σ) (G : σ → α → Prop) : σ → List α → Prop
  | _, []           => True
  | s, a :: actions => G s a ∧ ∀ s', step s a = .ok s' → Along step G s' actions

theorem bind_ok {α β : Type} {x : Except ε α} {f : α → Except ε β} {b : β} :
    x >>= f = .ok b ↔ ∃ a, x = .ok a ∧ f a = .ok b := by
  cases x
  case error => simp [bind, Except.bind]
  case ok    => simp [bind, Except.bind]

theorem pure_ok {β : Type} {a b : β} : (pure a : Except ε β) = .ok b ↔ a = b :=
  Except.ok.injEq a b ▸ Iff.rfl

theorem throw_ok {β : Type} {e : ε} {b : β} : (throw e : Except ε β) = .ok b ↔ False :=
  iff_false_intro nofun

@[simp]
theorem run_nil : run step s [] = .ok s :=
  rfl

theorem run_cons {a : α} : run step s (a :: actions) = step s a >>= (run step · actions) :=
  rfl

-- A result that is there, found by evaluation.
theorem exists_ok {α : Type} {x : Except ε α} {P : α → Prop} [DecidablePred P]
    (h : (match x with | .ok a => decide (P a) | .error _ => false) = true) : ∃ a, x = .ok a ∧ P a := by
  cases x
  case error => simp at h
  case ok a  => exact ⟨a, rfl, of_decide_eq_true h⟩

-- What holds at first and is kept by every step that meets its condition holds after the run.
theorem invariant {G : σ → α → Prop} {I : σ → Prop} (h : I s) (hg : Along step G s actions)
    (keep : ∀ s a s', I s → G s a → step s a = .ok s' → I s') (hr : run step s actions = .ok s') :
    I s' := by
  induction actions generalizing s
  case nil =>
    cases hr
    exact h
  case cons a actions ih =>
    have ⟨s₁, hs, hr⟩ := bind_ok.mp hr
    exact ih (keep s a s₁ h hg.left hs) (hg.right s₁ hs) hr

-- An error that no step gives while the invariant holds is not the end of the run.
theorem ne_error {G : σ → α → Prop} {I : σ → Prop} {e : ε} (h : I s) (hg : Along step G s actions)
    (keep : ∀ s a s', I s → G s a → step s a = .ok s' → I s')
    (ne : ∀ s a, I s → G s a → step s a ≠ .error e) : run step s actions ≠ .error e := by
  induction actions generalizing s
  case nil => exact nofun
  case cons a actions ih =>
    rw [run_cons]
    cases hs : step s a
    case error e' => exact fun he => ne s a h hg.left (hs.trans he)
    case ok s₁    => exact ih (keep s a s₁ h hg.left hs) (hg.right s₁ hs)

theorem along_true : Along step (fun _ _ => True) s actions := by
  induction actions generalizing s
  case nil       => trivial
  case cons _ ih => exact ⟨trivial, fun _ _ => ih⟩

theorem Along.and {G G' : σ → α → Prop} (h : Along step G s actions) (h' : Along step G' s actions) :
    Along step (fun s a => G s a ∧ G' s a) s actions := by
  induction actions generalizing s
  case nil       => trivial
  case cons _ ih => exact ⟨⟨h.left, h'.left⟩, fun s' hs => ih (h.right s' hs) (h'.right s' hs)⟩

-- What the steps of a run show of themselves.
def trace {β : Type} (step : σ → α → Except ε σ) (f : σ → α → List β) : σ → List α → List β
  | _, []           => []
  | s, a :: actions =>
    match step s a with
    | .ok s'   => f s a ++ trace step f s' actions
    | .error _ => []

-- The same for a fact about what was shown so far.
theorem observed {β : Type} {f : σ → α → List β} {G : σ → α → Prop} {I : List β → σ → Prop} (h : I [] s)
    (hg : Along step G s actions)
    (keep : ∀ shown s a s', I shown s → G s a → step s a = .ok s' → I (shown ++ f s a) s')
    (hr : run step s actions = .ok s') : I (trace step f s actions) s' := by
  suffices ∀ shown, I shown s → I (shown ++ trace step f s actions) s' from this [] h
  clear h
  induction actions generalizing s
  case nil =>
    cases hr
    exact fun shown h => (List.append_nil shown).symm ▸ h
  case cons a actions ih =>
    obtain ⟨s₁, hs, hr⟩ := bind_ok.mp hr
    intro shown h
    have := ih (hg.right s₁ hs) hr (shown ++ f s a) (keep shown s a s₁ h hg.left hs)
    rw [List.append_assoc] at this
    simpa only [trace, hs] using this

instance decidableAlong {G : σ → α → Prop} [∀ s a, Decidable (G s a)] :
    (s : σ) → (actions : List α) → Decidable (Along step G s actions)
  | _, []           => .isTrue trivial
  | s, a :: actions =>
    match h : step s a with
    | .ok s'   =>
      have : Decidable (Along step G s' actions) := decidableAlong s' actions
      decidable_of_iff (G s a ∧ Along step G s' actions)
        (and_congr_right fun _ => ⟨fun hg _ he => Except.ok.inj (h.symm.trans he) ▸ hg, fun hg => hg s' h⟩)
    | .error _ =>
      decidable_of_iff (G s a)
        ⟨fun hg => ⟨hg, fun _ he => nomatch h.symm.trans he⟩, And.left⟩

section Total

variable {f : σ → α → σ → Nat} {I : σ → Prop}

-- How much the steps of a run count for.
def total (step : σ → α → Except ε σ) (f : σ → α → σ → Nat) : σ → List α → Nat
  | _, []           => 0
  | s, a :: actions =>
    match step s a with
    | .ok s'   => f s a s' + total step f s' actions
    | .error _ => 0

-- What every step draws from a stock, all of them together do.
theorem total_le {φ : σ → Nat} (h : I s)
    (keep : ∀ s a s', I s → step s a = .ok s' → I s' ∧ f s a s' + φ s' ≤ φ s) :
    total step f s actions ≤ φ s := by
  induction actions generalizing s
  case nil => exact Nat.zero_le _
  case cons a actions ih =>
    unfold total
    split
    case h_1 s' hs =>
      have ⟨h', hle⟩ := keep s a s' h hs
      exact Nat.le_trans (Nat.add_le_add_left (ih h') _) hle
    case h_2 => exact Nat.zero_le _

-- What every step takes from a stock, or leaves in it, all of them together do.
theorem total_add {φ : σ → Nat} {G : σ → α → Prop} (h : I s) (hg : Along step G s actions)
    (keep : ∀ s a s', I s → G s a → step s a = .ok s' → I s' ∧ f s a s' + φ s' = φ s)
    (hr : run step s actions = .ok s') : total step f s actions + φ s' = φ s := by
  induction actions generalizing s
  case nil =>
    cases hr
    exact Nat.zero_add _
  case cons a actions ih =>
    have ⟨s₁, hs, hr⟩ := bind_ok.mp hr
    have ⟨h', he⟩ := keep s a s₁ h hg.left hs
    simp only [total, hs]
    rw [Nat.add_assoc, ih h' (hg.right s₁ hs) hr, he]

end Total

end Runs
