import Server8.Indexer.Items
import Server8.Lib.Marks

-- What the workers of Indexer2.cpp do with `visitedURL`: they mark a URL before they fetch it, and take the
-- mark away when the fetch fails.

namespace Server8

namespace Indexer2

open IndexerCallback

variable {s s' : State} {i j : Nat} {f f' : Frame} {fetched : Fetched} {p : Nat} {item : ArgItem} {u : Bytes}

-- How far a run with a mark is.
def Pc.phase : Pc → Option Phase
  | .getData => some .trying
  | .unmark  => some .failed
  | .switch  => some .done
  | .submit  => some .done
  | .exit    => some .done
  | _        => none

def State.url (s : State) (p : Nat) : Option Bytes :=
  (s.heap.block p).map ArgItem.currentURL

def State.party (s : State) (i : Nat) : Option (Phase × Bytes) :=
  (s.frame i).bind fun f => f.pc.phase.bind fun ph => (s.url f.pArg).map fun url => (ph, url)

-- The workers as parties that mark URLs.
def State.marks (s : State) : Marks Nat Bytes where
  party   := s.party
  marked  := s.visitedURL
  results := s.fetches.map fun x => (x.1, decide (0 < x.2))

-- An empty URL is not fetched.
def Exempt (url : Bytes) : Prop :=
  url = []

section Urls

theorem party_of_frame (hf : s.frame i = some f) :
    s.party i = f.pc.phase.bind fun ph => (s.url f.pArg).map fun url => (ph, url) := by
  rw [State.party, hf]
  rfl

theorem party_of_phase {ph : Phase} (hf : s.frame i = some f) (hph : f.pc.phase = some ph)
    (hi : s.heap.block f.pArg = some item) : s.party i = some (ph, item.currentURL) := by
  simp [party_of_frame hf, hph, State.url, hi]

theorem party_of_phase_none (hf : s.frame i = some f) (hph : f.pc.phase = none) : s.party i = none := by
  simp [party_of_frame hf, hph]

theorem party_of_none (hf : s.frame i = none) : s.party i = none := by
  rw [State.party, hf]
  rfl

-- The functions of the callback do not change the URL of the item.
theorem process_currentURL {data : Bytes} {calls : List (ArgItem × Output)} (h : process item data = some calls) :
    ((calls.getLast?.map Prod.fst).getD item).currentURL = item.currentURL := by
  unfold process at h
  split at h
  case h_2 =>
    obtain ⟨w, hw, h⟩ := Option.bind_eq_some_iff.mp h
    obtain ⟨o, ho, h⟩ := Option.bind_eq_some_iff.mp h
    cases h
    obtain ⟨t, _, hw⟩ := Option.bind_eq_some_iff.mp hw
    split at hw
    case h_1 =>
      cases hw
      rfl
    case h_2 =>
      cases hw
      rfl
  all_goals
    obtain ⟨o, _, rfl⟩ := Option.map_eq_some_iff.mp h
    rfl

-- The URLs of the items that are there do not change, except that a run deletes its own item in the end.
theorem url_run (h : Owned s) (hr : s.Ran i f fetched s') (hp : p ∈ s.owners) (hne : f.pc = .exit → p ≠ f.pArg) :
    s'.url p = s.url p := by
  cases hr
  case visited hs =>
    obtain ⟨d, _, rfl⟩ := State.returned_ok hs
    rfl
  case log hs     =>
    obtain ⟨d, _, rfl⟩ := State.returned_ok hs
    rfl
  case switch item calls heap hpc hi hc hw =>
    have hb := (Memory.write_eq_some hw).left
    show (heap.block p).map ArgItem.currentURL = (s.heap.block p).map ArgItem.currentURL
    rw [hb, Function.update_apply]
    split
    case isTrue he => simp [he, hi, process_currentURL hc]
    case isFalse   => rfl
  case submit     => exact congrArg (Option.map _) (Memory.alloc_ne _ _ (h.holds.ne_newAddress hp))
  case exit heap hpc hfree hs =>
    obtain ⟨d, _, rfl⟩ := State.returned_ok hs
    show (heap.block p).map ArgItem.currentURL = (s.heap.block p).map ArgItem.currentURL
    rw [Memory.free_eq_some hfree, Function.update_of_ne (hne hpc)]
  all_goals rfl

theorem frame_run_ne (hr : s.Ran i f fetched s') (hf : s.frame i = some f) (hij : i ≠ j) :
    s'.frame j = s.frame j := by
  have hreturned : ∀ s₁ : State, s₁.returned i = .ok s' → s'.frame j = s₁.frame j := by
    intro s₁ hs
    obtain ⟨d, hd, rfl⟩ := State.returned_ok hs
    exact (EventDispatcher.frame_returned hd j).trans (if_neg hij)
  cases hr
  case visited hs => exact hreturned s hs
  case log hs     => exact hreturned s hs
  case exit hs    => exact (hreturned _ hs :)
  case resubmit   =>
    exact (frame_goto ((frame_submitEvent ..).trans hf) _ j).trans ((if_neg hij).trans (frame_submitEvent ..))
  case submit     =>
    exact (frame_goto ((frame_submitNew ..).trans hf) _ j).trans ((if_neg hij).trans (frame_submitNew ..))
  all_goals exact (frame_goto hf _ j).trans (if_neg hij)

-- A run does not touch the marks of the others.
theorem party_run_ne (h : Owned s) (hr : s.Ran i f fetched s') (hf : s.frame i = some f) (hij : i ≠ j) :
    s'.party j = s.party j := by
  have hframe := frame_run_ne hr hf hij
  cases hg : s.frame j
  case none   => rw [party_of_none hg, party_of_none (hframe.trans hg)]
  case some g =>
    rw [party_of_frame hg, party_of_frame (hframe.trans hg)]
    cases hph : g.pc.phase
    case none    => rfl
    case some ph =>
      have hown : g.pArg ∈ g.own := by
        unfold Frame.own
        split
        case h_1 hpc => simp [hpc, Pc.phase] at hph
        case h_2     => exact List.mem_singleton_self _
      have hmem := EventDispatcher.mem_custody (fun p => [p]) hg hown
      have hne : f.pc = .exit → g.pArg ≠ f.pArg := by
        intro hpc he
        have hdisjoint := EventDispatcher.own_disjoint h.holds.nodup hf hg hij
        exact hdisjoint (by simp [Frame.own, hpc, he]) hown
      rw [url_run h hr hmem hne]

end Urls

section Refinement

-- Only the party of the run changes.
theorem party_run (h : Owned s) (hf : s.frame i = some f) (hr : s.Ran i f fetched s') :
    s'.party = Function.update s.party i (s'.party i) := by
  funext j
  rw [Function.update_apply]
  split
  case isTrue he  => rw [he]
  case isFalse hn => exact party_run_ne h hr hf (Ne.symm hn)

theorem party_returned (hs : s.returned i = .ok s') : s'.party i = none := by
  obtain ⟨d, hd, rfl⟩ := State.returned_ok hs
  exact party_of_none ((EventDispatcher.frame_returned hd i).trans (if_pos rfl))

theorem step_keep (hp : s'.party = Function.update s.party i (s'.party i)) (hi : s'.party i = s.party i)
    (hv : s'.visitedURL = s.visitedURL) (hs : s'.fetches = s.fetches) : s.marks.Step Exempt s'.marks := by
  have : s'.marks = s.marks := by
    rw [State.marks, State.marks, hp, hi, Function.update_eq_self, hv, hs]
  exact this ▸ .keep

theorem marks_eq {x : Option (Phase × Bytes)} (hp : s'.party = Function.update s.party i (s'.party i))
    (hx : s'.party i = x) :
    s'.marks = ⟨Function.update s.party i x, s'.visitedURL, s'.fetches.map fun x => (x.1, decide (0 < x.2))⟩ := by
  rw [State.marks, hp, hx]

-- Every step of a run does with the marks what the steps of a party do.
theorem run_marks (h : Owned s) (hf : s.frame i = some f) (hr : s.Ran i f fetched s') :
    s.marks.Step Exempt s'.marks := by
  have hupdate := party_run h hf hr
  cases hr
  case visited hpc _ _ hs    =>
    have hi : s'.party i = s.party i := (party_returned hs).trans (party_of_phase_none hf (hpc ▸ rfl)).symm
    obtain ⟨d, _, rfl⟩ := State.returned_ok hs
    exact step_keep hupdate hi rfl rfl
  case log hpc _ hs            =>
    have hi : s'.party i = s.party i := (party_returned hs).trans (party_of_phase_none hf (hpc ▸ rfl)).symm
    obtain ⟨d, _, rfl⟩ := State.returned_ok hs
    exact step_keep hupdate hi rfl rfl
  case mark item hpc hi hn =>
    have hnone : s.marks.party i = none := party_of_phase_none hf (hpc ▸ rfl)
    rw [marks_eq (x := some (.trying, item.currentURL)) hupdate (party_of_phase (frame_goto_self hf _) rfl hi)]
    exact .mark hnone hn
  case empty item hpc hi hu =>
    have htrying : s.marks.party i = some (.trying, item.currentURL) := party_of_phase hf (hpc ▸ rfl) hi
    rw [marks_eq (x := some (.done, item.currentURL)) hupdate (party_of_phase (frame_goto_self hf _) rfl hi)]
    exact .skip htrying hu
  case failed item hpc hi _ hl =>
    have htrying : s.marks.party i = some (.trying, item.currentURL) := party_of_phase hf (hpc ▸ rfl) hi
    have hfail : decide (0 < fetched.length) = false := decide_eq_false (Int.not_lt.mpr hl)
    rw [marks_eq (x := some (.failed, item.currentURL)) hupdate (party_of_phase (frame_goto_self hf _) rfl hi)]
    simp only [State.goto, List.map_append, List.map_cons, List.map_nil, hfail]
    exact .fail htrying
  case fetched item hpc hi _ hl =>
    have htrying : s.marks.party i = some (.trying, item.currentURL) := party_of_phase hf (hpc ▸ rfl) hi
    rw [marks_eq (x := some (.done, item.currentURL)) hupdate (party_of_phase (frame_goto_self hf _) rfl hi)]
    simp only [State.goto, List.map_append, List.map_cons, List.map_nil, decide_eq_true hl]
    exact .succeed htrying
  case unmark item hpc hi =>
    have hfailed : s.marks.party i = some (.failed, item.currentURL) := party_of_phase hf (hpc ▸ rfl) hi
    rw [marks_eq (x := none) hupdate (party_of_phase_none (frame_goto_self hf _) rfl)]
    exact .unmark hfailed
  case resubmit hpc =>
    have hself := frame_goto_self ((frame_submitEvent s f.pArg i).trans hf) { f with pc := .log }
    exact step_keep hupdate ((party_of_phase_none hself rfl).trans (party_of_phase_none hf (hpc ▸ rfl)).symm) rfl rfl
  case switch item calls heap hpc hi hc hw =>
    have hdone : s.party i = some (.done, item.currentURL) := party_of_phase hf (hpc ▸ rfl) hi
    refine step_keep hupdate (.trans ?_ hdone.symm) rfl rfl
    rw [← process_currentURL hc]
    exact party_of_phase (frame_goto_self hf _) rfl (Memory.write_self hw)
  case submitted hpc hl =>
    obtain ⟨item, hi⟩ := h.block hf (by simp [hpc])
    have hdone : s.party i = some (.done, item.currentURL) := party_of_phase hf (hpc ▸ rfl) hi
    have hself := frame_goto_self hf { f with pc := .exit }
    exact step_keep hupdate ((party_of_phase hself rfl hi).trans hdone.symm) rfl rfl
  case submit arg list hpc hl =>
    obtain ⟨item, hi⟩ := h.block hf (by simp [hpc])
    have hdone : s.party i = some (.done, item.currentURL) := party_of_phase hf (hpc ▸ rfl) hi
    have hself := frame_goto_self ((frame_submitNew s arg i).trans hf) { f with list }
    have hi' : (s.submitNew arg).heap.block f.pArg = some item :=
      (Memory.alloc_ne _ _ (Memory.newAddress_ne hi)).trans hi
    exact step_keep hupdate ((party_of_phase hself (hpc ▸ rfl) hi').trans hdone.symm) rfl rfl
  case exit heap hpc hfree hs =>
    obtain ⟨item, hi⟩ := h.block hf (by simp [hpc])
    have hdone : s.marks.party i = some (.done, item.currentURL) := party_of_phase hf (hpc ▸ rfl) hi
    rw [marks_eq (x := none) hupdate (party_returned hs)]
    obtain ⟨d, _, rfl⟩ := State.returned_ok hs
    exact .finish hdone

-- What happens outside of a run leaves the marks.
theorem keep_marks (hp : ∀ j, s'.party j = s.party j) (hv : s'.visitedURL = s.visitedURL)
    (hs : s'.fetches = s.fetches) : s.marks.Step Exempt s'.marks := by
  have : s'.marks = s.marks := by
    rw [State.marks, State.marks, funext hp, hv, hs]
  exact this ▸ .keep

theorem party_submitNew (h : Owned s) (arg : ArgItem) (j : Nat) : (s.submitNew arg).party j = s.party j := by
  cases hg : s.frame j
  case none   => rw [party_of_none hg, party_of_none ((frame_submitNew ..).trans hg)]
  case some g =>
    rw [party_of_frame hg, party_of_frame ((frame_submitNew ..).trans hg)]
    by_cases hpc : g.pc = .log
    case pos => rw [hpc]; rfl
    case neg =>
      obtain ⟨item, hi⟩ := h.block hg hpc
      have hurl : (s.submitNew arg).url g.pArg = s.url g.pArg :=
        congrArg (Option.map _) (Memory.alloc_ne _ _ (Memory.newAddress_ne hi))
      rw [hurl]

theorem party_workThread (h : Owned s) (hs : s.workThread i = .ok s') (j : Nat) : s'.party j = s.party j := by
  obtain ⟨d, hd, rfl⟩ := State.workThread_ok hs
  cases h.serves.frame_workThread hd j
  case inl he =>
    simp only [State.party, State.frame, he]
    rfl
  case inr he =>
    obtain ⟨_, hnone, pArg, hsome⟩ := he
    rw [party_of_none hnone]
    exact party_of_phase_none hsome rfl

theorem step_marks {a : Action} (h : Owned s) (hs : step s a = .ok s') : s.marks.Step Exempt s'.marks := by
  cases a
  case submitNew arg =>
    cases hs
    refine keep_marks (party_submitNew h arg) rfl rfl
  case setStatus st  =>
    cases hs
    refine keep_marks (fun j => ?_) rfl rfl
    simp only [State.party, State.frame, EventDispatcher.frame_setStatus]
    rfl
  case workThread i  =>
    have hp := party_workThread h hs
    obtain ⟨d, _, rfl⟩ := State.workThread_ok hs
    exact keep_marks hp rfl rfl
  case run i fetched =>
    obtain ⟨f, hf, hr⟩ := State.run_ok hs
    exact run_marks h hf hr

theorem marks_new (max : Int) : (State.new max).marks = ⟨fun _ => none, ∅, []⟩ := by
  have hp : (State.new max).party = fun _ => none :=
    funext fun i => party_of_none (EventDispatcher.Quiet.frame_addCallback (.new max) (by decide) _ i)
  rw [State.marks, hp]
  rfl

theorem marks_sound {max : Int} {actions : List Action} (hr : Runs.run step (.new max) actions = .ok s) :
    Owned s ∧ s.marks.Sound Exempt := by
  refine Runs.invariant (I := fun s => Owned s ∧ s.marks.Sound Exempt) ⟨.new max, ?_⟩ Runs.along_true ?_ hr
  case refine_1 => exact marks_new max ▸ .empty
  case refine_2 => exact fun s a s' h _ hs => ⟨h.left.step hs, h.right.step (step_marks h.left hs)⟩

end Refinement

section Once

-- A run that has marked the URL of its item and has not ended or taken the mark away.
def State.At (s : State) (i : Nat) (url : Bytes) : Prop :=
  ∃ f, s.frame i = some f ∧ f.pc.phase ≠ none ∧ s.url f.pArg = some url

-- A URL is with one run at a time, it is not fetched again after a fetch that succeeded, and it is not left
-- in `visitedURL` for another reason. An item whose fetch failed is not in the queue before the mark is away.
structure Once (s : State) : Prop where
  alone   : ∀ i j url, s.At i url → s.At j url → i = j
  marked  : ∀ i url, s.At i url → url ∈ s.visitedURL
  fetches : s.fetches.Pairwise fun a b => a.1 = b.1 → a.2 ≤ 0
  visited : ∀ url ∈ s.visitedURL, url = [] ∨ (∃ i, s.At i url) ∨ ∃ length, 0 < length ∧ (url, length) ∈ s.fetches
  kept    : ∀ url length, (url, length) ∈ s.fetches → 0 < length → url ∈ s.visitedURL
  failed  : ∀ i f, s.frame i = some f → f.pc = .unmark ∨ f.pc = .resubmit →
    ∀ e ∈ s.dispatcher.eventList, e.pArg ≠ f.pArg

theorem at_iff : s.At i u ↔ ∃ ph, s.marks.party i = some (ph, u) := by
  constructor
  case mp =>
    rintro ⟨f, hf, hph, hu⟩
    obtain ⟨ph, hph⟩ := Option.ne_none_iff_exists'.mp hph
    exact ⟨ph, (party_of_frame hf).trans (by rw [hph, hu]; rfl)⟩
  case mpr =>
    rintro ⟨ph, h⟩
    obtain ⟨f, hf, h⟩ := Option.bind_eq_some_iff.mp h
    obtain ⟨ph', hph, h⟩ := Option.bind_eq_some_iff.mp h
    obtain ⟨url, hu, h⟩ := Option.map_eq_some_iff.mp h
    cases h
    exact ⟨f, hf, hph ▸ Option.some_ne_none _, hu⟩

theorem mem_results {length : Int} (h : (u, length) ∈ s.fetches) (hl : 0 < length) : (u, true) ∈ s.marks.results :=
  List.mem_map.mpr ⟨_, h, by rw [decide_eq_true hl]⟩

theorem mem_fetches (h : (u, true) ∈ s.marks.results) : ∃ length, 0 < length ∧ (u, length) ∈ s.fetches := by
  obtain ⟨⟨url, length⟩, hm, he⟩ := List.mem_map.mp h
  obtain ⟨rfl, hl⟩ := Prod.mk.inj he
  exact ⟨length, of_decide_eq_true hl, hm⟩

theorem Once.of_sound (ho : Owned s) (h : s.marks.Sound Exempt) : Once s where
  alone i j url hi hj := by
    obtain ⟨_, hi⟩ := at_iff.mp hi
    obtain ⟨_, hj⟩ := at_iff.mp hj
    exact h.alone hi hj
  marked i url hi := by
    obtain ⟨_, hi⟩ := at_iff.mp hi
    exact h.marked hi
  fetches := by
    refine (List.pairwise_map.mp h.once).imp fun ha he => ?_
    exact Int.not_lt.mp (of_decide_eq_false (ha he))
  visited url hu := by
    obtain ⟨i, hi⟩ | hr | he := h.cause url hu
    case inl         => exact .inr (.inl ⟨i, at_iff.mpr hi⟩)
    case inr.inl     => exact .inr (.inr (mem_fetches hr))
    case inr.inr     => exact .inl he
  kept url length hm hl := h.succeeded url (mem_results hm hl)
  failed i f hf hpc e he heq := by
    have hown : f.own = [f.pArg] := by
      cases hpc
      case inl hpc => simp [Frame.own, hpc]
      case inr hpc => simp [Frame.own, hpc]
    refine EventDispatcher.own_disjoint_events ho.holds.nodup hf (hown ▸ List.mem_singleton_self _) ?_
    exact List.mem_flatMap.mpr ⟨e, he, List.mem_singleton.mpr heq.symm⟩

-- In all runs of the workers.
theorem visited_once (max : Int) (actions : List Action) (s : State)
    (hr : Runs.run step (.new max) actions = .ok s) : Once s :=
  .of_sound (marks_sound hr).left (marks_sound hr).right

-- Two workers get items with the same URL.
def raced : List Action :=
  List.flatten [
    [.submitNew { currentURL := [104], operation := .getBangumiList }],
    [.submitNew { currentURL := [104], operation := .getBangumiList }],
    List.replicate 5 (.workThread 0),
    [.run 0 ⟨0, []⟩],
    List.replicate 5 (.workThread 1),
    [.run 0 ⟨-1, []⟩, .run 1 ⟨0, []⟩, .run 0 ⟨0, []⟩, .run 0 ⟨0, []⟩]]

theorem visited_once_raced : ∃ s, Runs.run step (.new 2) raced = .ok s ∧ Once s := by
  obtain ⟨s, hr, _⟩ : ∃ s, Runs.run step (.new 2) raced = .ok s ∧ s.visits.length = 1 :=
    Runs.exists_ok (by decide +kernel)
  exact ⟨s, hr, visited_once 2 raced s hr⟩

end Once

end Indexer2

end Server8
