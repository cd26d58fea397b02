import Mathlib.Data.Finset.Basic
import Mathlib.Logic.Function.Basic

-- Parties that mark a key before they try something with it, and take the mark away when they fail.

inductive Phase
  | trying
  | failed
  | done
  deriving DecidableEq, Repr

-- Where each party is and with which key, the keys that are marked, and what came of all attempts.
structure Marks (ι κ : Type) where
  party   : ι → Option (Phase × κ)
  marked  : Finset κ
  results : List (κ × Bool)

namespace Marks

variable {ι κ : Type} {exempt : κ → Prop} {m m' : Marks ι κ} {i j : ι} {k : κ} {b : Bool}

section Steps

variable [DecidableEq ι] [DecidableEq κ]

def set (m : Marks ι κ) (i : ι) (x : Option (Phase × κ)) : Marks ι κ :=
  { m with party := Function.update m.party i x }

-- A key that is `exempt` is done without an attempt.
inductive Step (exempt : κ → Prop) (m : Marks ι κ) : Marks ι κ → Prop
  | keep             : Step exempt m m
  | mark {i : ι} {k : κ} : m.party i = none → k ∉ m.marked →
      Step exempt m { m.set i (some (.trying, k)) with marked := insert k m.marked }
  | skip {i : ι} {k : κ} : m.party i = some (.trying, k) → exempt k → Step exempt m (m.set i (some (.done, k)))
  | fail {i : ι} {k : κ} : m.party i = some (.trying, k) →
      Step exempt m { m.set i (some (.failed, k)) with results := m.results ++ [(k, false)] }
  | succeed {i : ι} {k : κ} : m.party i = some (.trying, k) →
      Step exempt m { m.set i (some (.done, k)) with results := m.results ++ [(k, true)] }
  | unmark {i : ι} {k : κ} : m.party i = some (.failed, k) →
      Step exempt m { m.set i none with marked := m.marked.erase k }
  | finish {i : ι} {k : κ} : m.party i = some (.done, k) → Step exempt m (m.set i none)

end Steps

-- A mark is that of one party, or of an attempt that succeeded.
structure Sound (exempt : κ → Prop) (m : Marks ι κ) : Prop where
  marked    : ∀ {i ph k}, m.party i = some (ph, k) → k ∈ m.marked
  alone     : ∀ {i j ph ph' k}, m.party i = some (ph, k) → m.party j = some (ph', k) → i = j
  cause     : ∀ k ∈ m.marked, (∃ i ph, m.party i = some (ph, k)) ∨ (k, true) ∈ m.results ∨ exempt k
  succeeded : ∀ k, (k, true) ∈ m.results → k ∈ m.marked
  pending   : ∀ {i ph k}, m.party i = some (ph, k) → ph ≠ .done → (k, true) ∉ m.results
  done      : ∀ {i k}, m.party i = some (.done, k) → (k, true) ∈ m.results ∨ exempt k
  once      : m.results.Pairwise fun a b => a.1 = b.1 → a.2 = false

@[simp]
theorem set_party [DecidableEq ι] (m : Marks ι κ) (i j : ι) (x : Option (Phase × κ)) :
    (m.set i x).party j = if j = i then x else m.party j := by
  simp only [set, Function.update_apply]

@[simp]
theorem set_marked [DecidableEq ι] (m : Marks ι κ) (i : ι) (x : Option (Phase × κ)) : (m.set i x).marked = m.marked :=
  rfl

@[simp]
theorem set_results [DecidableEq ι] (m : Marks ι κ) (i : ι) (x : Option (Phase × κ)) :
    (m.set i x).results = m.results :=
  rfl

-- A party with the key `k` is still there, or it was `i`.
theorem exists_set [DecidableEq ι] {i : ι} {x : Option (Phase × κ)} (h : ∃ j ph, m.party j = some (ph, k))
    (hi : ∀ ph, m.party i = some (ph, k) → ∃ ph', x = some (ph', k)) :
    ∃ j ph, (m.set i x).party j = some (ph, k) := by
  obtain ⟨j, ph, hj⟩ := h
  by_cases hij : j = i
  case pos =>
    obtain ⟨ph', hx⟩ := hi ph (hij ▸ hj)
    exact ⟨i, ph', by simp [hx]⟩
  case neg => exact ⟨j, ph, by simp [hij, hj]⟩

theorem once_append {results : List (κ × Bool)} (h : results.Pairwise fun a b => a.1 = b.1 → a.2 = false)
    (hk : (k, true) ∉ results) : (results ++ [(k, b)]).Pairwise fun a b => a.1 = b.1 → a.2 = false := by
  refine List.pairwise_append.mpr ⟨h, List.pairwise_singleton _ _, ?_⟩
  intro a ha c hc he
  cases List.mem_singleton.mp hc
  cases hb : a.2
  case false => rfl
  case true  =>
    have : a = (k, true) := Prod.ext he hb
    exact absurd (this ▸ ha) hk

namespace Sound

theorem empty : Sound exempt ({ party := fun _ => none, marked := ∅, results := [] } : Marks ι κ) where
  marked    := nofun
  alone     := nofun
  cause     := nofun
  succeeded := nofun
  pending   := nofun
  done      := nofun
  once      := .nil

variable [DecidableEq ι]

theorem skip (h : m.Sound exempt) (hi : m.party i = some (.trying, k)) (hk : exempt k) :
    (m.set i (some (.done, k))).Sound exempt := by
  obtain ⟨hmarked, halone, hcause, hsucceeded, hpending, hdone, honce⟩ := h
  constructor
  case marked    => grind [set_party, set_marked]
  case alone     => grind [set_party]
  case cause     =>
    intro k' hk'
    refine (hcause k' hk').imp_left fun he => exists_set he fun ph hp => ?_
    cases hi.symm.trans hp
    exact ⟨_, rfl⟩
  case succeeded => exact hsucceeded
  case pending   => grind [set_party, set_results]
  case done      => grind [set_party, set_results]
  case once      => exact honce

-- An attempt ends, with the result `b`.
theorem attempt (h : m.Sound exempt) (hi : m.party i = some (.trying, k)) (b : Bool) :
    Sound exempt { m.set i (some (if b then .done else .failed, k)) with results := m.results ++ [(k, b)] } := by
  have hk : (k, true) ∉ m.results := h.pending hi nofun
  obtain ⟨hmarked, halone, hcause, hsucceeded, hpending, hdone, honce⟩ := h
  constructor
  case marked    => grind [set_party, set_marked]
  case alone     => grind [set_party]
  case cause     =>
    intro k' hk'
    cases hcause k' hk'
    case inl he =>
      refine .inl (exists_set he fun ph hp => ?_)
      cases hi.symm.trans hp
      exact ⟨_, rfl⟩
    case inr hr => exact .inr (hr.imp_left (List.mem_append_left _))
  case succeeded => grind [set_marked]
  case pending   => grind [set_party]
  case done      => grind [set_party]
  case once      => exact once_append honce hk

theorem finish (h : m.Sound exempt) (hi : m.party i = some (.done, k)) : (m.set i none).Sound exempt := by
  have hk := h.done hi
  obtain ⟨hmarked, halone, hcause, hsucceeded, hpending, hdone, honce⟩ := h
  constructor
  case marked    => grind [set_party, set_marked]
  case alone     => grind [set_party]
  case cause     =>
    intro k' hk'
    cases hcause k' hk'
    case inl he =>
      obtain ⟨j, ph, hj⟩ := he
      by_cases hij : j = i
      case pos =>
        cases hi.symm.trans (hij ▸ hj)
        exact .inr hk
      case neg => exact .inl ⟨j, ph, by simp [hij, hj]⟩
    case inr hr => exact .inr hr
  case succeeded => exact hsucceeded
  case pending   => grind [set_party, set_results]
  case done      => grind [set_party, set_results]
  case once      => exact honce

variable [DecidableEq κ]

theorem mark (h : m.Sound exempt) (hi : m.party i = none) (hk : k ∉ m.marked) :
    Sound exempt { m.set i (some (.trying, k)) with marked := insert k m.marked } := by
  obtain ⟨hmarked, halone, hcause, hsucceeded, hpending, hdone, honce⟩ := h
  constructor
  case marked    => grind [set_party]
  case alone     => grind [set_party]
  case cause     =>
    intro k' hk'
    cases Finset.mem_insert.mp hk'
    case inl he => exact .inl ⟨i, .trying, by simp [he]⟩
    case inr hm => exact (hcause k' hm).imp_left fun he => exists_set he fun ph hp => nomatch hi.symm.trans hp
  case succeeded => exact fun k' hr => Finset.mem_insert_of_mem (hsucceeded k' hr)
  case pending   => grind [set_party, set_results]
  case done      => grind [set_party, set_results]
  case once      => exact honce

theorem unmark (h : m.Sound exempt) (hi : m.party i = some (.failed, k)) :
    Sound exempt { m.set i none with marked := m.marked.erase k } := by
  have hk : (k, true) ∉ m.results := h.pending hi nofun
  obtain ⟨hmarked, halone, hcause, hsucceeded, hpending, hdone, honce⟩ := h
  constructor
  case marked    => grind [set_party]
  case alone     => grind [set_party]
  case cause     =>
    intro k' hk'
    obtain ⟨hne, hk'⟩ := Finset.mem_erase.mp hk'
    refine (hcause k' hk').imp_left fun he => exists_set he fun ph hp => ?_
    cases hi.symm.trans hp
    exact absurd rfl hne
  case succeeded =>
    intro k' hr
    refine Finset.mem_erase.mpr ⟨?_, hsucceeded k' hr⟩
    rintro rfl
    exact hk hr
  case pending   => grind [set_party, set_results]
  case done      => grind [set_party, set_results]
  case once      => exact honce

theorem step (h : m.Sound exempt) (hs : m.Step exempt m') : m'.Sound exempt := by
  cases hs
  case keep         => exact h
  case mark hi hk   => exact h.mark hi hk
  case skip hi hk   => exact h.skip hi hk
  case fail hi      => exact h.attempt hi false
  case succeed hi   => exact h.attempt hi true
  case unmark hi    => exact h.unmark hi
  case finish hi    => exact h.finish hi

end Sound

end Marks
