import Server8.Indexer.Visited
import Server8.Lib.Worklist

-- What a crawl of Indexer2.cpp finds when every URL has one text, in whatever order the workers run and
-- however often a fetch fails.

namespace Server8

namespace Indexer2

open IndexerCallback

variable {s s' : State} {i j : Nat} {f f' g : Frame} {fetched : Fetched} {p : Nat} {item : ArgItem} {arg : ArgItem}
  {web : Bytes → Bytes} {initial : Set ArgItem} {t : Nat ⊕ ArgItem} {u : Bytes}

-- What `run` submits and writes for an item. `web` gives the texts of the URLs.
def effect (web : Bytes → Bytes) (item : ArgItem) : List ArgItem × List Record :=
  if item.currentURL.length = 0 then ([], [])
  else match process item (web item.currentURL ++ [0]) with
    | none       => ([], [])
    | some calls => (submitted calls, written item (web item.currentURL ++ [0]) ++ executed calls)

def next (web : Bytes → Bytes) (item : ArgItem) : Set ArgItem :=
  {arg | arg ∈ (effect web item).1}

theorem effect_empty (h : item.currentURL = []) : effect web item = ([], []) := by
  simp [effect, h]

theorem effect_process {calls : List (ArgItem × Output)} (h : item.currentURL ≠ [])
    (hc : process item (web item.currentURL ++ [0]) = some calls) :
    effect web item = (submitted calls, written item (web item.currentURL ++ [0]) ++ executed calls) := by
  simp [effect, h, hc]

-- The URL that a run is about to fetch.
def State.fetching (s : State) (i : Nat) : Option Bytes :=
  (s.frame i).bind fun f => if f.pc = .getData then s.url f.pArg else none

-- A fetch that succeeds gives the text of the URL.
def Answers (web : Bytes → Bytes) (s : State) : Action → Prop
  | .run i fetched =>
    ∀ url ∈ s.fetching i, 0 < fetched.length → fetched.output.take fetched.length.toNat = web url
  | _              => True

instance (web : Bytes → Bytes) (s : State) : (a : Action) → Decidable (Answers web s a)
  | .submitNew _   => .isTrue trivial
  | .setStatus _   => .isTrue trivial
  | .workThread _  => .isTrue trivial
  | .run i fetched =>
    inferInstanceAs (Decidable (∀ url ∈ s.fetching i,
      0 < fetched.length → fetched.output.take fetched.length.toNat = web url))

section Tokens

-- What is still to be done: an item that is in the heap, or one that a loop has yet to submit.
def Frame.tokens (f : Frame) : List (Nat ⊕ ArgItem) :=
  match f.pc with
  | .log    => []
  | .exit   => []
  | .submit => f.list.map .inr
  | _       => [.inl f.pArg]

def token (p : Nat) : List (Nat ⊕ ArgItem) :=
  [.inl p]

def State.tokens (s : State) : Multiset (Nat ⊕ ArgItem) :=
  s.dispatcher.custody token Frame.tokens

def State.itemOf (s : State) : Nat ⊕ ArgItem → Option ArgItem
  | .inl p   => s.heap.block p
  | .inr arg => some arg

def State.known (s : State) : Set ArgItem :=
  {x | x ∈ s.processed ∨ ∃ t ∈ s.tokens, s.itemOf t = some x}

def State.done (s : State) : Set ArgItem :=
  {x | x ∈ s.processed}

theorem tokens_goto (hf : s.frame i = some f) (f' : Frame) :
    (s.goto i f').tokens + f.tokens = s.tokens + f'.tokens :=
  s.dispatcher.custody_setFrame token Frame.tokens hf f'

theorem tokens_goto_eq (hf : s.frame i = some f) (ht : f'.tokens = f.tokens) : (s.goto i f').tokens = s.tokens := by
  have := tokens_goto hf f'
  rwa [ht, add_left_inj] at this

theorem tokens_submitEvent (h : s.dispatcher.Serves "callback" ⟨⟩) (p : Nat) :
    (s.submitEvent p).tokens = s.tokens + {.inl p} :=
  h.custody_submitEvent token Frame.tokens p

theorem tokens_returned (hf : s.frame i = some f) (hs : s.returned i = .ok s') :
    s'.tokens + f.tokens = s.tokens := by
  obtain ⟨d, hd, rfl⟩ := State.returned_ok hs
  exact s.dispatcher.custody_returned token Frame.tokens hf hd

theorem tokens_workThread (h : s.dispatcher.Serves "callback" ⟨⟩) (hs : s.workThread i = .ok s') :
    s'.tokens = s.tokens := by
  obtain ⟨d, hd, rfl⟩ := State.workThread_ok hs
  exact (h.workThread token Frame.tokens (fun _ => rfl) hd).right

theorem tokens_setStatus (s : State) (st : EventDispatcher.Status) :
    { s with dispatcher := (s.dispatcher.setStatus st).2 : State }.tokens = s.tokens :=
  s.dispatcher.custody_setStatus token Frame.tokens st

-- The items of the tokens that are in the heap are owned.
theorem tokens_le (s : State) : s.tokens.filterMap Sum.getLeft? ≤ s.owners := by
  rw [State.tokens, EventDispatcher.custody_filterMap]
  refine EventDispatcher.custody_mono (fun p => .refl _) (fun f => ?_) s.dispatcher
  unfold Frame.tokens Frame.own
  cases f.pc
  case submit =>
    have hnil : (f.list.map (Sum.inr : ArgItem → Nat ⊕ ArgItem)).filterMap Sum.getLeft? = [] := by
      simp [List.filterMap_map, Function.comp_def]
    exact hnil ▸ List.nil_sublist _
  all_goals simp

theorem mem_owners (h : .inl p ∈ s.tokens) : p ∈ s.owners :=
  Multiset.mem_of_le (tokens_le s) ((Multiset.mem_filterMap ..).mpr ⟨_, h, rfl⟩)

theorem Owned.itemOf (h : Owned s) (ht : t ∈ s.tokens) : ∃ x, s.itemOf t = some x := by
  cases t
  case inl p   => exact h.holds.live p (mem_owners ht)
  case inr arg => exact ⟨arg, rfl⟩

theorem mem_known {x : ArgItem} : x ∈ s.known ↔ x ∈ s.processed ∨ ∃ t ∈ s.tokens, s.itemOf t = some x :=
  Iff.rfl

theorem itemOf_submitNew (h : Owned s) (ht : t ∈ s.tokens) : (s.submitNew arg).itemOf t = s.itemOf t := by
  cases t
  case inl p => exact Memory.alloc_ne _ _ (h.holds.ne_newAddress (mem_owners ht))
  case inr   => rfl

theorem known_eq (ht : s'.tokens = s.tokens) (hi : ∀ t ∈ s.tokens, s'.itemOf t = s.itemOf t)
    (hp : s'.processed = s.processed) : s'.known = s.known := by
  ext x
  simp only [mem_known, ht, hp]
  exact or_congr_right (exists_congr fun t => and_congr_right fun hm => by rw [hi t hm])

end Tokens

section Runs

-- The item of a run is where it was, unless the run changes it or deletes it.
def Pc.Keeps : Pc → Prop
  | .switch => False
  | .exit   => False
  | _       => True

theorem block_run (h : Owned s) (hr : s.Ran i f fetched s') (hp : p ∈ s.owners) (hne : f.pc.Keeps ∨ p ≠ f.pArg) :
    s'.heap.block p = s.heap.block p := by
  cases hr
  case visited hs       =>
    obtain ⟨d, _, rfl⟩ := State.returned_ok hs
    rfl
  case log hs           =>
    obtain ⟨d, _, rfl⟩ := State.returned_ok hs
    rfl
  case switch hpc _ _ hw =>
    have hne : p ≠ f.pArg := hne.resolve_left (by simp [hpc, Pc.Keeps])
    exact (congrFun (Memory.write_eq_some hw).left p).trans (Function.update_of_ne hne ..)
  case submit           => exact Memory.alloc_ne _ _ (h.holds.ne_newAddress hp)
  case exit heap hpc hfree hs =>
    have hne : p ≠ f.pArg := hne.resolve_left (by simp [hpc, Pc.Keeps])
    obtain ⟨d, _, rfl⟩ := State.returned_ok hs
    exact (congrFun (Memory.free_eq_some hfree) p).trans (Function.update_of_ne hne ..)
  all_goals rfl

theorem itemOf_run (h : Owned s) (hr : s.Ran i f fetched s') (ht : t ∈ s.tokens)
    (hne : f.pc.Keeps ∨ t ≠ .inl f.pArg) : s'.itemOf t = s.itemOf t := by
  cases t
  case inl p   => exact block_run h hr (mem_owners ht) (hne.imp_right fun hne he => hne (congrArg _ he))
  case inr arg => rfl

-- A run that has marked the URL and has not dealt with the item.
def Pc.Works : Pc → Prop
  | .getData => True
  | .unmark  => True
  | .switch  => True
  | _        => False

theorem tokens_of_works (h : f.pc.Works) : f.tokens = [.inl f.pArg] := by
  unfold Frame.tokens
  split
  case h_1 hpc => simp [hpc, Pc.Works] at h
  case h_2 hpc => simp [hpc, Pc.Works] at h
  case h_3 hpc => simp [hpc, Pc.Works] at h
  case h_4     => rfl

theorem own_of_works (h : f.pc.Works) : f.own = [f.pArg] := by
  unfold Frame.own
  split
  case h_1 hpc => simp [hpc, Pc.Works] at h
  case h_2     => rfl

theorem mem_tokens (hf : s.frame i = some f) (h : f.pc.Works) : .inl f.pArg ∈ s.tokens :=
  EventDispatcher.mem_custody token hf (tokens_of_works h ▸ List.mem_singleton_self _)

-- What the other runs work with is as it was.
theorem works_run (h : Owned s) (hf : s.frame i = some f) (hr : s.Ran i f fetched s') (hg : s.frame j = some g)
    (hpc : g.pc.Works) (hij : i ≠ j) : s'.frame j = some g ∧ s'.heap.block g.pArg = s.heap.block g.pArg := by
  refine ⟨(frame_run_ne hr hf hij).trans hg, block_run h hr (mem_owners (mem_tokens hg hpc)) ?_⟩
  by_cases hk : f.pc.Keeps
  case pos => exact .inl hk
  case neg =>
    have hown : f.own = [f.pArg] := by
      unfold Frame.own
      split
      case h_1 hlog => simp [hlog, Pc.Keeps] at hk
      case h_2      => rfl
    have hdisjoint := EventDispatcher.own_disjoint h.holds.nodup hf hg hij
    refine .inr fun he => hdisjoint (hown ▸ List.mem_singleton_self _) ?_
    exact own_of_works hpc ▸ List.mem_singleton.mpr he.symm

end Runs

section Frames

-- The item of a run that works is one that was marked, and at the switch its text is there.
structure Frame.Informed (web : Bytes → Bytes) (s : State) (f : Frame) (item : ArgItem) : Prop where
  visited : f.pc.Works → item ∈ s.visits
  text    : f.pc = .switch → item.currentURL ≠ [] ∧ f.output = web item.currentURL ++ [0]

def Informed (web : Bytes → Bytes) (s : State) : Prop :=
  ∀ i f item, s.frame i = some f → s.heap.block f.pArg = some item → f.Informed web s item

-- Why a URL is marked: an item with it was dealt with, or a run works with one.
inductive Accounts (s : State) (u : Bytes) : Prop
  | processed {x : ArgItem} : x ∈ s.processed → x.currentURL = u → Accounts s u
  | works {i : Nat} {f : Frame} {item : ArgItem} : s.frame i = some f → f.pc.Works →
      s.heap.block f.pArg = some item → item.currentURL = u → Accounts s u

def Accounted (s : State) : Prop :=
  ∀ u ∈ s.visitedURL, Accounts s u

theorem visits_run (hr : s.Ran i f fetched s') : s.visits ⊆ s'.visits := by
  cases hr
  case visited hs =>
    obtain ⟨d, _, rfl⟩ := State.returned_ok hs
    exact List.Subset.refl _
  case log hs     =>
    obtain ⟨d, _, rfl⟩ := State.returned_ok hs
    exact List.Subset.refl _
  case exit hs    =>
    obtain ⟨d, _, rfl⟩ := State.returned_ok hs
    exact List.Subset.refl _
  case mark       => exact List.subset_append_left ..
  all_goals exact List.Subset.refl _

-- For the frames, what counts is the frame of the run.
theorem Informed.of_self (h : Owned s) (hi : Informed web s) (hf : s.frame i = some f) (hr : s.Ran i f fetched s')
    (hself : ∀ f' item, s'.frame i = some f' → s'.heap.block f'.pArg = some item → f'.Informed web s' item) :
    Informed web s' := by
  intro j g item hg hb
  by_cases hij : i = j
  case pos => exact hself g item (hij ▸ hg) hb
  case neg =>
    have hg := (frame_run_ne hr hf hij).symm.trans hg
    by_cases hpc : g.pc.Works
    case pos =>
      have hg' := hi j g item hg ((works_run h hf hr hg hpc hij).right.symm.trans hb)
      exact ⟨fun hw => visits_run hr (hg'.visited hw), hg'.text⟩
    case neg => exact ⟨fun hw => absurd hw hpc, fun he => absurd (by simp [he, Pc.Works]) hpc⟩

theorem Informed.run (h : Owned s) (hi : Informed web s) (ha : Answers web s (.run i fetched))
    (hf : s.frame i = some f) (hr : s.Ran i f fetched s') : Informed web s' := by
  refine .of_self h hi hf hr fun f' item' hf' hb => ?_
  have hidle : ¬f'.pc.Works → f'.Informed web s' item' :=
    fun hn => ⟨fun hw => absurd hw hn, fun he => absurd (by simp [he, Pc.Works]) hn⟩
  cases hr
  case visited hs =>
    obtain ⟨d, hd, rfl⟩ := State.returned_ok hs
    cases ((EventDispatcher.frame_returned hd i).trans (if_pos rfl)).symm.trans hf'
  case log hs     =>
    obtain ⟨d, hd, rfl⟩ := State.returned_ok hs
    cases ((EventDispatcher.frame_returned hd i).trans (if_pos rfl)).symm.trans hf'
  case exit hs    =>
    obtain ⟨d, hd, rfl⟩ := State.returned_ok hs
    cases ((EventDispatcher.frame_returned hd i).trans (if_pos rfl)).symm.trans hf'
  case mark item hpc hb' _ =>
    cases (frame_goto_self hf _).symm.trans hf'
    cases hb'.symm.trans hb
    exact ⟨fun _ => List.mem_append_right _ (List.mem_singleton_self _), nofun⟩
  case failed hpc _ _ _ =>
    cases (frame_goto_self hf _).symm.trans hf'
    exact ⟨fun _ => (hi i f item' hf hb).visited (by simp [hpc, Pc.Works]), nofun⟩
  case fetched item hpc hb' hu hl =>
    cases (frame_goto_self hf _).symm.trans hf'
    cases hb'.symm.trans hb
    refine ⟨fun _ => (hi i f _ hf hb').visited (by simp [hpc, Pc.Works]), fun _ => ⟨hu, ?_⟩⟩
    have htext : fetched.output.take fetched.length.toNat = web item'.currentURL :=
      ha item'.currentURL (by simp [State.fetching, hf, hpc, State.url, hb']) hl
    rw [htext]
  case resubmit =>
    cases (frame_goto_self ((frame_submitEvent ..).trans hf) _).symm.trans hf'
    exact hidle (by simp [Pc.Works])
  case submit hpc _ =>
    cases (frame_goto_self ((frame_submitNew ..).trans hf) _).symm.trans hf'
    exact hidle (by simp [hpc, Pc.Works])
  all_goals
    cases (frame_goto_self hf _).symm.trans hf'
    exact hidle (by simp [Pc.Works])

-- What accounts for a URL does so after the run, if it is not the run itself.
theorem Accounts.run (h : Owned s) (hf : s.frame i = some f) (hr : s.Ran i f fetched s') (ha : Accounts s u)
    (hp : s.processed ⊆ s'.processed)
    (hself : ∀ item, f.pc.Works → s.heap.block f.pArg = some item → item.currentURL = u → Accounts s' u) :
    Accounts s' u := by
  cases ha
  case processed x hx he          => exact .processed (hp hx) he
  case works j g item hg hpc hb he =>
    by_cases hij : i = j
    case pos =>
      cases hf.symm.trans (hij ▸ hg)
      exact hself item hpc hb he
    case neg =>
      have hkept := works_run h hf hr hg hpc hij
      exact .works hkept.left hpc (hkept.right.trans hb) he

theorem Accounted.run (h : Owned s) (hacc : Accounted s) (hf : s.frame i = some f) (hr : s.Ran i f fetched s') :
    Accounted s' := by
  intro u hu
  have hr' := hr
  cases hr
  case visited hpc _ _ hs =>
    obtain ⟨d, _, rfl⟩ := State.returned_ok hs
    exact .run h hf hr' (hacc u hu) (List.Subset.refl _)
      fun _ hw => absurd hw (by simp [hpc, Pc.Works])
  case log hpc _ hs =>
    obtain ⟨d, _, rfl⟩ := State.returned_ok hs
    exact .run h hf hr' (hacc u hu) (List.Subset.refl _)
      fun _ hw => absurd hw (by simp [hpc, Pc.Works])
  case exit hpc _ hs =>
    obtain ⟨d, _, rfl⟩ := State.returned_ok hs
    exact .run h hf hr' (hacc u hu) (List.Subset.refl _)
      fun _ hw => absurd hw (by simp [hpc, Pc.Works])
  case mark item hpc hb _ =>
    cases Finset.mem_insert.mp hu
    case inl he => exact .works (frame_goto_self hf _) (by simp [Pc.Works]) hb he.symm
    case inr hu =>
      exact .run h hf hr' (hacc u hu) (List.Subset.refl _) fun _ hw => absurd hw (by simp [hpc, Pc.Works])
  case empty item hpc hb _ =>
    refine .run h hf hr' (hacc u hu) (List.subset_append_left ..) fun item' _ hb' he => ?_
    cases hb.symm.trans hb'
    exact .processed (List.mem_append_right _ (List.mem_singleton_self _)) he
  case failed item hpc hb _ _ =>
    refine .run h hf hr' (hacc u hu) (List.Subset.refl _) fun item' _ hb' he => ?_
    exact .works (frame_goto_self hf _) (by simp [Pc.Works]) hb' he
  case fetched item hpc hb _ _ =>
    refine .run h hf hr' (hacc u hu) (List.Subset.refl _) fun item' _ hb' he => ?_
    exact .works (frame_goto_self hf _) (by simp [Pc.Works]) hb' he
  case unmark item hpc hb =>
    obtain ⟨hne, hu⟩ := Finset.mem_erase.mp hu
    refine .run h hf hr' (hacc u hu) (List.Subset.refl _) fun item' _ hb' he => ?_
    cases hb.symm.trans hb'
    exact absurd he.symm hne
  case resubmit hpc =>
    exact .run h hf hr' (hacc u hu) (List.Subset.refl _)
      fun _ hw => absurd hw (by simp [hpc, Pc.Works])
  case switch item calls heap hpc hb hc hw =>
    refine .run h hf hr' (hacc u hu) (List.subset_append_left ..) fun item' _ hb' he => ?_
    cases hb.symm.trans hb'
    exact .processed (List.mem_append_right _ (List.mem_singleton_self _)) he
  case submitted hpc _ =>
    exact .run h hf hr' (hacc u hu) (List.Subset.refl _)
      fun _ hw => absurd hw (by simp [hpc, Pc.Works])
  case submit hpc _ =>
    exact .run h hf hr' (hacc u hu) (List.Subset.refl _)
      fun _ hw => absurd hw (by simp [hpc, Pc.Works])

end Frames

section Known

-- What is known of a crawl where `initial` was submitted.
abbrev Explored (web : Bytes → Bytes) (initial : Set ArgItem) (s : State) : Prop :=
  Worklist.Explores ArgItem.currentURL (next web) initial s.known s.done

theorem Explored.of_eq (he : Explored web initial s) (hk : s'.known = s.known) (hp : s'.processed = s.processed) :
    Explored web initial s' := by
  rw [Explored, hk, State.done, hp]
  exact he

theorem mem_of_add {A B T T' : Multiset (Nat ⊕ ArgItem)} (h : T' + A = T + B) (t : Nat ⊕ ArgItem) :
    (t ∈ T' ∨ t ∈ A) ↔ (t ∈ T ∨ t ∈ B) := by
  rw [← Multiset.mem_add, h, Multiset.mem_add]

-- A run that gives the token of its item away does not find it with someone else.
theorem not_mem_tokens (h : Owned s) {list : List ArgItem}
    (ht : s'.tokens + {.inl p} = s.tokens + (list.map .inr : List (Nat ⊕ ArgItem))) : .inl p ∉ s'.tokens := by
  intro hm
  have hle : s'.tokens.filterMap Sum.getLeft? + {p} ≤ s.owners := by
    have hfilter := congrArg (Multiset.filterMap (Sum.getLeft? : Nat ⊕ ArgItem → Option Nat)) ht
    simp only [Multiset.filterMap_add, Multiset.filterMap_coe, List.filterMap_map, Function.comp_def, Sum.getLeft?_inr,
      List.filterMap_none, Multiset.coe_nil, add_zero] at hfilter
    exact (show s'.tokens.filterMap Sum.getLeft? + {p} = _ from hfilter) ▸ tokens_le s
  have hnodup := Multiset.nodup_add.mp (Multiset.nodup_of_le hle h.holds.nodup)
  have hp : p ∈ s'.tokens.filterMap Sum.getLeft? := (Multiset.mem_filterMap ..).mpr ⟨_, hm, rfl⟩
  exact Multiset.disjoint_left.mp hnodup.right.right hp (Multiset.mem_singleton_self p)

-- The item of a run leads to what the run submits.
theorem known_finish (hb : s.heap.block p = some item) {list : List ArgItem}
    (ht : s'.tokens + {.inl p} = s.tokens + (list.map .inr : List (Nat ⊕ ArgItem)))
    (hp : .inl p ∈ s.tokens) (hi : ∀ t ∈ s'.tokens, s'.itemOf t = s.itemOf t)
    (hdone : s'.processed = s.processed ++ [item]) : s'.known = s.known ∪ {arg | arg ∈ list} := by
  have hmem := mem_of_add ht
  ext x
  rw [Set.mem_union, mem_known, mem_known, hdone, List.mem_append, List.mem_singleton]
  constructor
  case mp =>
    rintro ((hx | rfl) | ⟨t, htok, hx⟩)
    case inl.inl => exact .inl (.inl hx)
    case inl.inr => exact .inl (.inr ⟨_, hp, hb⟩)
    case inr     =>
      rw [hi t htok] at hx
      cases (hmem t).mp (.inl htok)
      case inl htok => exact .inl (.inr ⟨t, htok, hx⟩)
      case inr htok =>
        obtain ⟨arg, harg, rfl⟩ := List.mem_map.mp htok
        cases hx
        exact .inr harg
  case mpr =>
    rintro ((hx | ⟨t, htok, hx⟩) | hx)
    case inl.inl => exact .inl (.inl hx)
    case inl.inr =>
      cases (hmem t).mpr (.inl htok)
      case inl htok => exact .inr ⟨t, htok, (hi t htok).trans hx⟩
      case inr heq  =>
        cases Multiset.mem_singleton.mp heq
        cases hb.symm.trans hx
        exact .inl (.inr rfl)
    case inr     =>
      have htok : .inr x ∈ s'.tokens :=
        ((hmem (.inr x)).mpr (.inr (List.mem_map_of_mem hx))).resolve_right (by simp)
      exact .inr ⟨_, htok, rfl⟩

theorem Explored.finish (he : Explored web initial s) (list : List ArgItem) (hb : s.heap.block p = some item)
    (ht : s'.tokens + {.inl p} = s.tokens + (list.map .inr : List (Nat ⊕ ArgItem)))
    (hp : .inl p ∈ s.tokens) (hi : ∀ t ∈ s'.tokens, s'.itemOf t = s.itemOf t)
    (hdone : s'.processed = s.processed ++ [item]) (hlist : (effect web item).1 = list) :
    Explored web initial s' := by
  have hdone' : s'.done = insert item s.done := by
    ext x
    rw [State.done, hdone]
    simp [State.done, or_comm]
  rw [Explored, known_finish hb ht hp hi hdone, hdone', ← hlist]
  exact Worklist.Explores.finish he (.inr ⟨_, hp, hb⟩)

-- An item is dropped when its URL is accounted for.
theorem Explored.visited (he : Explored web initial s) (hacc : Accounted s) (hf : s.frame i = some f)
    (hpc : f.pc = .mark) (hb : s.heap.block f.pArg = some item) (hu : item.currentURL ∈ s.visitedURL)
    (hs : s.returned i = .ok s') : Explored web initial s' := by
  have ht := tokens_returned hf hs
  simp only [Frame.tokens, hpc] at ht
  have hmem : ∀ t, (t ∈ s'.tokens ∨ t = .inl f.pArg) ↔ t ∈ s.tokens := fun t => by
    rw [← ht, Multiset.mem_add, Multiset.mem_coe, List.mem_singleton]
  obtain ⟨d, hd, rfl⟩ := State.returned_ok hs
  refine Worklist.Explores.drop he ?_ (fun x hx => .inl hx) ?_
  case refine_1 => exact fun x hx => hx.imp_right fun ⟨t, htok, hx⟩ => ⟨t, (hmem t).mp (.inl htok), hx⟩
  case refine_2 =>
    rintro x (hx | ⟨t, htok, hx⟩)
    case inl => exact ⟨x, .inl hx, rfl⟩
    case inr =>
      cases (hmem t).mpr htok
      case inl htok => exact ⟨x, .inr ⟨t, htok, hx⟩, rfl⟩
      case inr heq  =>
        cases heq
        cases hb.symm.trans hx
        cases hacc _ hu
        case processed y hy hkey        => exact ⟨y, .inl hy, hkey⟩
        case works j g y hg hw hy hkey  =>
          have hij : i ≠ j := by
            rintro rfl
            cases hf.symm.trans hg
            simp [hpc, Pc.Works] at hw
          have hg' := (EventDispatcher.frame_returned hd j).trans ((if_neg hij).trans hg)
          exact ⟨y, .inr ⟨.inl g.pArg, mem_tokens hg' hw, hy⟩, hkey⟩

-- An item that a loop submits is in the heap then.
theorem known_submit (h : Owned s) (hf : s.frame i = some f) (hpc : f.pc = .submit) {list : List ArgItem}
    (hl : f.list = arg :: list) : ((s.submitNew arg).goto i { f with list }).known = s.known := by
  have hself := (frame_submitNew s arg i).trans hf
  have ht := tokens_goto hself { f with list }
  have hsubmit : (s.submitNew arg).tokens = s.tokens + {.inl s.heap.newAddress} :=
    tokens_submitEvent (s := { s with heap := (s.heap.alloc arg).2 }) h.serves _
  have hmem : ∀ t, (t ∈ ((s.submitNew arg).goto i { f with list }).tokens ∨ t = .inr arg) ↔
      t ∈ s.tokens ∨ t = .inl s.heap.newAddress := by
    have hown : f.tokens = .inr arg :: list.map .inr := by simp [Frame.tokens, hpc, hl]
    have hown' : Frame.tokens { f with list } = list.map .inr := by simp [Frame.tokens, hpc]
    rw [hown, hown', hsubmit, ← Multiset.cons_coe, ← Multiset.singleton_add, ← add_assoc, add_left_inj] at ht
    intro t
    simpa using mem_of_add ht t
  have hnew : ∀ t ∈ s.tokens, ((s.submitNew arg).goto i { f with list }).itemOf t = s.itemOf t :=
    fun t htok => itemOf_submitNew h htok
  ext x
  rw [mem_known, mem_known]
  refine or_congr_right ⟨?_, ?_⟩
  case refine_1 =>
    rintro ⟨t, htok, hx⟩
    cases (hmem t).mp (.inl htok)
    case inl htok => exact ⟨t, htok, (hnew t htok).symm.trans hx⟩
    case inr heq  =>
      cases heq
      have : some arg = some x := (Memory.alloc_self s.heap arg).symm.trans hx
      exact ⟨.inr arg, EventDispatcher.mem_custody token hf (by simp [Frame.tokens, hpc, hl]), this⟩
  case refine_2 =>
    rintro ⟨t, htok, hx⟩
    cases (hmem t).mpr (.inl htok)
    case inl htok' => exact ⟨t, htok', (hnew t htok).trans hx⟩
    case inr heq   =>
      cases heq
      have htok : .inl s.heap.newAddress ∈ ((s.submitNew arg).goto i { f with list }).tokens :=
        ((hmem _).mpr (.inr rfl)).resolve_right (by simp)
      exact ⟨_, htok, (Memory.alloc_self s.heap arg).trans hx⟩

theorem Explored.run (h : Owned s) (hi : Informed web s) (hacc : Accounted s) (he : Explored web initial s)
    (hf : s.frame i = some f) (hr : s.Ran i f fetched s') : Explored web initial s' := by
  have hitem : f.pc.Keeps → ∀ t ∈ s.tokens, s'.itemOf t = s.itemOf t :=
    fun hk t htok => itemOf_run h hr htok (.inl hk)
  cases hr
  case visited hpc hb hu hs  => exact he.visited hacc hf hpc hb hu hs
  case mark hpc _ _          =>
    exact he.of_eq (known_eq (tokens_goto_eq hf (by simp [Frame.tokens, hpc]))
      (hitem (by simp [hpc, Pc.Keeps])) rfl) rfl
  case empty hpc hb hu       =>
    have ht := tokens_goto hf { f with pc := .exit }
    have hw : f.pc.Works := by simp [hpc, Pc.Works]
    rw [tokens_of_works hw] at ht
    exact he.finish [] hb ht (mem_tokens hf hw) (fun _ _ => rfl) rfl (by rw [effect_empty hu])
  case failed hpc _ _ _      =>
    exact he.of_eq (known_eq (tokens_goto_eq hf (by simp [Frame.tokens, hpc]))
      (hitem (by simp [hpc, Pc.Keeps])) rfl) rfl
  case fetched hpc _ _ _     =>
    exact he.of_eq (known_eq (tokens_goto_eq hf (by simp [Frame.tokens, hpc]))
      (hitem (by simp [hpc, Pc.Keeps])) rfl) rfl
  case unmark hpc _          =>
    exact he.of_eq (known_eq (tokens_goto_eq hf (by simp [Frame.tokens, hpc]))
      (hitem (by simp [hpc, Pc.Keeps])) rfl) rfl
  case resubmit hpc          =>
    refine he.of_eq (known_eq ?_ (hitem (by simp [hpc, Pc.Keeps])) rfl) rfl
    have ht := tokens_goto ((frame_submitEvent s f.pArg i).trans hf) { f with pc := .log }
    have hown : f.tokens = [.inl f.pArg] := by simp [Frame.tokens, hpc]
    rw [hown, tokens_submitEvent h.serves, add_right_comm, Multiset.coe_singleton, add_left_inj] at ht
    exact ht.trans (add_zero _)
  case log hpc _ hs            =>
    have ht := tokens_returned hf hs
    simp only [Frame.tokens, hpc, Multiset.coe_nil, add_zero] at ht
    obtain ⟨d, hd, rfl⟩ := State.returned_ok hs
    exact he.of_eq (known_eq ht (fun _ _ => rfl) rfl) rfl
  case switch item calls heap hpc hb hc hwrite =>
    have ht := tokens_goto hf { f with pc := .submit, list := submitted calls }
    have hw : f.pc.Works := by simp [hpc, Pc.Works]
    rw [tokens_of_works hw] at ht
    obtain ⟨hu, htext⟩ := (hi i f item hf hb).text hpc
    refine he.finish (submitted calls) hb ht (mem_tokens hf hw) (fun t htok => ?_) rfl
      (by rw [effect_process hu (htext ▸ hc)])
    cases t
    case inr   => rfl
    case inl p =>
      have hne : p ≠ f.pArg := fun heq => not_mem_tokens h ht (heq ▸ htok)
      exact (congrFun (Memory.write_eq_some hwrite).left p).trans (Function.update_of_ne hne ..)
  case submitted hpc hl      =>
    exact he.of_eq (known_eq (tokens_goto_eq hf (by simp [Frame.tokens, hpc, hl])) (fun _ _ => rfl) rfl) rfl
  case submit hpc hl         => exact he.of_eq (known_submit h hf hpc hl) rfl
  case exit heap hpc hfree hs =>
    have ht : s'.tokens = s.tokens := by
      have ht := tokens_returned (s := { s with heap }) hf hs
      have hnone : f.tokens = [] := by simp [Frame.tokens, hpc]
      rw [hnone, Multiset.coe_nil, add_zero] at ht
      exact ht
    have hfresh : f.pArg ∉ s'.owners := by
      have ho := owners_returned (s := { s with heap }) hf hs
      have hown : f.own = [f.pArg] := by simp [Frame.own, hpc]
      rw [hown] at ho
      have hnodup := Multiset.nodup_add.mp (ho ▸ h.holds.nodup : (s'.owners + _).Nodup)
      exact fun hm => Multiset.disjoint_left.mp hnodup.right.right hm (List.mem_singleton_self _)
    refine he.of_eq (known_eq ht ?_ ?_) ?_
    case refine_1 =>
      rw [← ht]
      intro t htok
      obtain ⟨d, hd, rfl⟩ := State.returned_ok hs
      cases t
      case inr   => rfl
      case inl p =>
        have hne : p ≠ f.pArg := fun heq => hfresh (heq ▸ mem_owners htok)
        exact (congrFun (Memory.free_eq_some hfree) p).trans (Function.update_of_ne hne ..)
    all_goals
      obtain ⟨d, hd, rfl⟩ := State.returned_ok hs
      rfl

end Known

section Crawl

open Worklist (Derived)

-- A crawl after `initial` was submitted.
structure Crawl (web : Bytes → Bytes) (initial : Set ArgItem) (s : State) : Prop extends Owned s where
  informed  : Informed web s
  accounted : Accounted s
  explored  : Explored web initial s
  visits    : ∀ x ∈ s.visits, Derived (next web) initial x
  processed : s.processed ⊆ s.visits
  records   : s.records = s.processed.flatMap fun x => (effect web x).2

theorem Crawl.new (web : Bytes → Bytes) (max : Int) : Crawl web ∅ (.new max) where
  toOwned   := .new max
  informed i f item hf := by
    cases (EventDispatcher.Quiet.frame_addCallback (.new max) (by decide) _ i).symm.trans hf
  accounted := nofun
  explored  := by
    have htokens : (State.new max).tokens = 0 := EventDispatcher.Quiet.custody_addCallback (.new max) (by decide) _
    have hknown : (State.new max).known = ∅ := by
      ext x
      rw [mem_known, htokens]
      simp [State.new]
    have hdone : (State.new max).done = ∅ := by
      ext x
      simp [State.done, State.new]
    rw [Explored, hknown, hdone]
    exact .empty
  visits    := nofun
  processed := List.Subset.refl _
  records   := rfl

-- What the runs know and account for does not change where their frames and items do not.
theorem informed_outside (h : Informed web s)
    (hframe : ∀ j f, f.pc.Works → s'.frame j = some f →
      s.frame j = some f ∧ s'.heap.block f.pArg = s.heap.block f.pArg)
    (hvisits : s'.visits = s.visits) : Informed web s' := by
  intro j f item hf hb
  by_cases hpc : f.pc.Works
  case pos =>
    obtain ⟨hf, he⟩ := hframe j f hpc hf
    have hf' := h j f item hf (he.symm.trans hb)
    exact ⟨fun hw => hvisits ▸ hf'.visited hw, hf'.text⟩
  case neg => exact ⟨fun hw => absurd hw hpc, fun he => absurd (by simp [he, Pc.Works]) hpc⟩

theorem accounted_outside (h : Accounted s)
    (hframe : ∀ j f, f.pc.Works → s.frame j = some f →
      s'.frame j = some f ∧ s'.heap.block f.pArg = s.heap.block f.pArg)
    (hvisited : s'.visitedURL = s.visitedURL) (hprocessed : s'.processed = s.processed) : Accounted s' := by
  intro u hu
  cases h u (hvisited ▸ hu)
  case processed x hx he         => exact .processed (hprocessed ▸ hx) he
  case works j f item hf hw hb he =>
    obtain ⟨hf', hb'⟩ := hframe j f hw hf
    exact .works hf' hw (hb'.trans hb) he

theorem Crawl.submitNew (h : Crawl web initial s) (arg : ArgItem) :
    Crawl web (insert arg initial) (s.submitNew arg) := by
  have hblock : ∀ p, .inl p ∈ s.tokens → (s.submitNew arg).heap.block p = s.heap.block p :=
    fun p hp => itemOf_submitNew h.toOwned hp
  have hframe := frame_submitNew s arg
  have htokens : (s.submitNew arg).tokens = s.tokens + {.inl s.heap.newAddress} :=
    tokens_submitEvent (s := { s with heap := (s.heap.alloc arg).2 }) h.serves _
  have hknown : (s.submitNew arg).known = insert arg s.known := by
    ext x
    rw [Set.mem_insert_iff, mem_known, mem_known, htokens]
    constructor
    case mp =>
      rintro (hx | ⟨t, htok, hx⟩)
      case inl => exact .inr (.inl hx)
      case inr =>
        cases Multiset.mem_add.mp htok
        case inl htok => exact .inr (.inr ⟨t, htok, (itemOf_submitNew h.toOwned htok).symm.trans hx⟩)
        case inr heq  =>
          cases Multiset.mem_singleton.mp heq
          exact .inl (Option.some_inj.mp ((Memory.alloc_self s.heap arg).symm.trans hx)).symm
    case mpr =>
      rintro (rfl | hx | ⟨t, htok, hx⟩)
      case inl     =>
        exact .inr ⟨_, Multiset.mem_add.mpr (.inr (Multiset.mem_singleton_self _)), Memory.alloc_self s.heap x⟩
      case inr.inl => exact .inl hx
      case inr.inr => exact .inr ⟨t, Multiset.mem_add.mpr (.inl htok), (itemOf_submitNew h.toOwned htok).trans hx⟩
  constructor
  case toOwned   => exact h.toOwned.submitNew arg
  case informed  =>
    refine informed_outside h.informed (fun j f hw hf => ?_) rfl
    rw [hframe] at hf
    exact ⟨hf, hblock f.pArg (mem_tokens hf hw)⟩
  case accounted =>
    exact accounted_outside h.accounted
      (fun j f hw hf => ⟨(hframe j).trans hf, hblock f.pArg (mem_tokens hf hw)⟩) rfl rfl
  case explored  =>
    rw [Explored, hknown]
    exact Worklist.Explores.submit h.explored arg
  case visits    => exact fun x hx => (h.visits x hx).mono (Set.subset_insert arg initial)
  case processed => exact h.processed
  case records   => exact h.records

theorem Crawl.workThread (h : Crawl web initial s) (hs : s.workThread i = .ok s') : Crawl web initial s' := by
  have hown := h.toOwned.workThread hs
  have htokens := tokens_workThread h.serves hs
  obtain ⟨d, hd, rfl⟩ := State.workThread_ok hs
  have hframe := h.serves.frame_workThread hd
  constructor
  case toOwned   => exact hown
  case informed  =>
    refine informed_outside h.informed (fun j f hw hf => ?_) rfl
    cases hframe j
    case inl he => exact ⟨he.symm.trans hf, rfl⟩
    case inr he =>
      obtain ⟨_, _, pArg, hp⟩ := he
      cases hp.symm.trans hf
      cases hw
  case accounted =>
    refine accounted_outside h.accounted (fun j f hw hf => ?_) rfl rfl
    cases hframe j
    case inl he => exact ⟨he.trans hf, rfl⟩
    case inr he => cases he.right.left.symm.trans hf
  case explored  => exact h.explored.of_eq (known_eq htokens (fun _ _ => rfl) rfl) rfl
  case visits    => exact h.visits
  case processed => exact h.processed
  case records   => exact h.records

theorem Crawl.setStatus (h : Crawl web initial s) (st : EventDispatcher.Status) :
    Crawl web initial { s with dispatcher := (s.dispatcher.setStatus st).2 } := by
  have hframe := s.dispatcher.frame_setStatus st
  constructor
  case toOwned   => exact ⟨h.serves.setStatus st, owners_setStatus s st ▸ h.holds⟩
  case informed  => exact informed_outside h.informed (fun j f _ hf => ⟨(hframe j).symm.trans hf, rfl⟩) rfl
  case accounted => exact accounted_outside h.accounted (fun j f _ hf => ⟨(hframe j).trans hf, rfl⟩) rfl rfl
  case explored  => exact h.explored.of_eq (known_eq (tokens_setStatus s st) (fun _ _ => rfl) rfl) rfl
  case visits    => exact h.visits
  case processed => exact h.processed
  case records   => exact h.records

theorem visits_derived (h : Crawl web initial s) (hf : s.frame i = some f) (hr : s.Ran i f fetched s') :
    ∀ x ∈ s'.visits, Derived (next web) initial x := by
  cases hr
  case mark item hpc hb _ =>
    intro x hx
    cases List.mem_append.mp hx
    case inl hx => exact h.visits x hx
    case inr hx =>
      cases List.mem_singleton.mp hx
      have htok : .inl f.pArg ∈ s.tokens :=
        EventDispatcher.mem_custody token hf (by simp [Frame.tokens, hpc])
      exact h.explored.derived _ (.inr ⟨_, htok, hb⟩)
  case visited hs         =>
    obtain ⟨d, hd, rfl⟩ := State.returned_ok hs
    exact h.visits
  case log hs             =>
    obtain ⟨d, hd, rfl⟩ := State.returned_ok hs
    exact h.visits
  case exit hs            =>
    obtain ⟨d, hd, rfl⟩ := State.returned_ok hs
    exact h.visits
  all_goals exact h.visits

-- What is written is what comes of the items that are dealt with.
theorem records_append (item : ArgItem) (h : s.records = s.processed.flatMap fun x => (effect web x).2) :
    s.records ++ (effect web item).2 = (s.processed ++ [item]).flatMap fun x => (effect web x).2 := by
  rw [List.flatMap_append, List.flatMap_singleton, h]

theorem processed_run (h : Crawl web initial s) (hf : s.frame i = some f) (hr : s.Ran i f fetched s') :
    s'.processed ⊆ s'.visits ∧ s'.records = s'.processed.flatMap fun x => (effect web x).2 := by
  have hmem : ∀ item, f.pc.Works → s.heap.block f.pArg = some item → s.processed ++ [item] ⊆ s.visits := by
    intro item hw hb
    have hvisited := (h.informed i f item hf hb).visited hw
    exact List.append_subset.mpr ⟨h.processed, List.cons_subset.mpr ⟨hvisited, List.nil_subset _⟩⟩
  cases hr
  case visited hs         =>
    obtain ⟨d, hd, rfl⟩ := State.returned_ok hs
    exact ⟨h.processed, h.records⟩
  case log hs             =>
    obtain ⟨d, hd, rfl⟩ := State.returned_ok hs
    exact ⟨h.processed, h.records⟩
  case exit hs            =>
    obtain ⟨d, hd, rfl⟩ := State.returned_ok hs
    exact ⟨h.processed, h.records⟩
  case mark               => exact ⟨List.Subset.trans h.processed (List.subset_append_left ..), h.records⟩
  case empty item hpc hb hu =>
    refine ⟨hmem item (by simp [hpc, Pc.Works]) hb, .trans ?_ (records_append item h.records)⟩
    rw [effect_empty hu]
    exact (List.append_nil _).symm
  case switch item calls heap hpc hb hc hw =>
    refine ⟨hmem item (by simp [hpc, Pc.Works]) hb, .trans ?_ (records_append item h.records)⟩
    obtain ⟨hu, htext⟩ := (h.informed i f item hf hb).text hpc
    rw [effect_process hu (htext ▸ hc), ← htext]
    exact List.append_assoc ..
  all_goals exact ⟨h.processed, h.records⟩

theorem Crawl.run (h : Crawl web initial s) (ha : Answers web s (.run i fetched)) (hf : s.frame i = some f)
    (hr : s.Ran i f fetched s') : Crawl web initial s' where
  toOwned   := h.toOwned.run hf hr
  informed  := h.informed.run h.toOwned ha hf hr
  accounted := h.accounted.run h.toOwned hf hr
  explored  := h.explored.run h.toOwned h.informed h.accounted hf hr
  visits    := visits_derived h hf hr
  processed := (processed_run h hf hr).left
  records   := (processed_run h hf hr).right

-- No URL is dealt with twice: those that were stay marked, and no run works with one of them.
structure Apart (s : State) : Prop where
  nodup  : (s.processed.map ArgItem.currentURL).Nodup
  marked : ∀ x ∈ s.processed, x.currentURL ∈ s.visitedURL
  works  : ∀ i f item, s.frame i = some f → f.pc.Works → s.heap.block f.pArg = some item →
    item.currentURL ∉ s.processed.map ArgItem.currentURL

theorem phase_of_works {pc : Pc} (h : pc.Works) : pc.phase ≠ none := by
  cases pc
  all_goals simp_all [Pc.Works, Pc.phase]

theorem at_of_works (hf : s.frame i = some f) (hpc : f.pc.Works) (hb : s.heap.block f.pArg = some item) :
    s.At i item.currentURL :=
  ⟨f, hf, phase_of_works hpc, by rw [State.url, hb, Option.map_some]⟩

-- A run that does not deal with its item, and does not take a mark away, leaves this as it is.
theorem Apart.of_self (h : Owned s) (ha : Apart s) (hf : s.frame i = some f) (hr : s.Ran i f fetched s')
    (hp : s'.processed = s.processed) (hv : s.visitedURL ⊆ s'.visitedURL)
    (hself : ∀ f' item, s'.frame i = some f' → f'.pc.Works → s'.heap.block f'.pArg = some item →
      item.currentURL ∉ s.processed.map ArgItem.currentURL) : Apart s' := by
  refine ⟨hp ▸ ha.nodup, fun x hx => hv (ha.marked x (hp ▸ hx)), fun j g item hg hpc hb => ?_⟩
  rw [hp]
  by_cases hij : i = j
  case pos => exact hself g item (hij ▸ hg) hpc hb
  case neg =>
    have hg := (frame_run_ne hr hf hij).symm.trans hg
    exact ha.works j g item hg hpc ((works_run h hf hr hg hpc hij).right.symm.trans hb)

-- The run with the URL is the only one that works with it.
theorem Apart.finish (h : Owned s) (ho : Once s) (ha : Apart s) (hf : s.frame i = some f)
    (hr : s.Ran i f fetched s') (hpc : f.pc.Works) (hb : s.heap.block f.pArg = some item)
    (hp : s'.processed = s.processed ++ [item]) (hv : s'.visitedURL = s.visitedURL)
    (hself : ∀ f', s'.frame i = some f' → ¬f'.pc.Works) : Apart s' := by
  constructor
  case nodup  =>
    rw [hp, List.map_append, List.map_singleton]
    exact List.nodup_append.mpr ⟨ha.nodup, List.nodup_singleton _, fun u hu v hv he => by
      cases List.mem_singleton.mp hv
      exact ha.works i f item hf hpc hb (he ▸ hu)⟩
  case marked =>
    rw [hp, hv]
    refine List.forall_mem_append.mpr ⟨ha.marked, List.forall_mem_singleton.mpr ?_⟩
    exact ho.marked i _ (at_of_works hf hpc hb)
  case works  =>
    intro j g item' hg hw hb'
    rw [hp, List.map_append, List.map_singleton]
    have hij : i ≠ j := by
      rintro rfl
      exact hself g hg hw
    have hg := (frame_run_ne hr hf hij).symm.trans hg
    have hb' := (works_run h hf hr hg hw hij).right.symm.trans hb'
    intro hm
    cases List.mem_append.mp hm
    case inl hm => exact ha.works j g item' hg hw hb' hm
    case inr hm =>
      have hat := at_of_works hg hw hb'
      rw [List.mem_singleton.mp hm] at hat
      exact hij (ho.alone i j _ (at_of_works hf hpc hb) hat)

theorem Apart.run (h : Owned s) (ho : Once s) (ha : Apart s) (hf : s.frame i = some f)
    (hr : s.Ran i f fetched s') : Apart s' := by
  have hr' := hr
  have hsame := ha.of_self h hf hr
  cases hr
  case visited hs         =>
    obtain ⟨d, hd, rfl⟩ := State.returned_ok hs
    refine hsame rfl (Finset.Subset.refl _) fun f' item hf' => ?_
    cases ((EventDispatcher.frame_returned hd i).trans (if_pos rfl)).symm.trans hf'
  case log hs             =>
    obtain ⟨d, hd, rfl⟩ := State.returned_ok hs
    refine hsame rfl (Finset.Subset.refl _) fun f' item hf' => ?_
    cases ((EventDispatcher.frame_returned hd i).trans (if_pos rfl)).symm.trans hf'
  case exit hs            =>
    obtain ⟨d, hd, rfl⟩ := State.returned_ok hs
    refine hsame rfl (Finset.Subset.refl _) fun f' item hf' => ?_
    cases ((EventDispatcher.frame_returned hd i).trans (if_pos rfl)).symm.trans hf'
  case mark item hpc hb hu =>
    refine hsame rfl (Finset.subset_insert ..) fun f' item' hf' _ hb' hm => ?_
    cases (frame_goto_self hf _).symm.trans hf'
    cases hb.symm.trans hb'
    obtain ⟨x, hx, he⟩ := List.mem_map.mp hm
    exact hu (he ▸ ha.marked x hx)
  case failed hpc _ _ _   =>
    refine hsame rfl (Finset.Subset.refl _) fun f' item' hf' _ hb' => ?_
    cases (frame_goto_self hf _).symm.trans hf'
    exact ha.works i f item' hf (by simp [hpc, Pc.Works]) hb'
  case fetched hpc _ _ _  =>
    refine hsame rfl (Finset.Subset.refl _) fun f' item' hf' _ hb' => ?_
    cases (frame_goto_self hf _).symm.trans hf'
    exact ha.works i f item' hf (by simp [hpc, Pc.Works]) hb'
  case empty item hpc hb _ =>
    refine ha.finish h ho hf hr' (by simp [hpc, Pc.Works]) hb rfl rfl fun f' hf' => ?_
    cases (frame_goto_self hf _).symm.trans hf'
    simp [Pc.Works]
  case switch item calls heap hpc hb hc hw =>
    refine ha.finish h ho hf hr' (by simp [hpc, Pc.Works]) hb rfl rfl fun f' hf' => ?_
    cases (frame_goto_self hf _).symm.trans hf'
    simp [Pc.Works]
  case unmark item hpc hb =>
    -- The URL whose mark goes was not dealt with.
    have hfresh := ha.works i f item hf (by simp [hpc, Pc.Works]) hb
    refine ⟨ha.nodup, fun x hx => ?_, fun j g item' hg hw hb' => ?_⟩
    · exact Finset.mem_erase.mpr ⟨fun he => hfresh (List.mem_map.mpr ⟨x, hx, he⟩), ha.marked x hx⟩
    · by_cases hij : i = j
      case pos =>
        subst hij
        cases (frame_goto_self hf _).symm.trans hg
        simp [Pc.Works] at hw
      case neg =>
        have hg := (frame_run_ne hr' hf hij).symm.trans hg
        exact ha.works j g item' hg hw hb'
  case resubmit hpc       =>
    refine hsame rfl (Finset.Subset.refl _) fun f' item' hf' hw => ?_
    cases (frame_goto_self ((frame_submitEvent ..).trans hf) _).symm.trans hf'
    simp [Pc.Works] at hw
  case submitted hpc _    =>
    refine hsame rfl (Finset.Subset.refl _) fun f' item' hf' hw => ?_
    cases (frame_goto_self hf _).symm.trans hf'
    simp [Pc.Works] at hw
  case submit hpc _       =>
    refine hsame rfl (Finset.Subset.refl _) fun f' item' hf' hw => ?_
    cases (frame_goto_self ((frame_submitNew ..).trans hf) _).symm.trans hf'
    simp [hpc, Pc.Works] at hw

theorem Apart.outside (ha : Apart s) (hframe : ∀ j f, f.pc.Works → s'.frame j = some f →
      s.frame j = some f ∧ s'.heap.block f.pArg = s.heap.block f.pArg)
    (hvisited : s'.visitedURL = s.visitedURL) (hprocessed : s'.processed = s.processed) : Apart s' := by
  refine ⟨hprocessed ▸ ha.nodup, hprocessed ▸ hvisited ▸ ha.marked, fun j f item hf hw hb => ?_⟩
  obtain ⟨hf', hb'⟩ := hframe j f hw hf
  exact hprocessed ▸ ha.works j f item hf' hw (hb'.symm.trans hb)

theorem Apart.step {a : Action} (h : Owned s) (ho : Once s) (ha : Apart s) (hs : step s a = .ok s') : Apart s' := by
  cases a
  case submitNew arg =>
    cases hs
    refine ha.outside (fun j f hw hf => ?_) rfl rfl
    rw [frame_submitNew] at hf
    exact ⟨hf, itemOf_submitNew h (mem_tokens hf hw)⟩
  case setStatus st  =>
    cases hs
    exact ha.outside (fun j f _ hf => ⟨(s.dispatcher.frame_setStatus st j).symm.trans hf, rfl⟩) rfl rfl
  case workThread i  =>
    have hs : s.workThread i = .ok s' := hs
    obtain ⟨d, hd, rfl⟩ := State.workThread_ok hs
    refine ha.outside (fun j f hw hf => ?_) rfl rfl
    cases h.serves.frame_workThread hd j
    case inl he => exact ⟨he.symm.trans hf, rfl⟩
    case inr he =>
      obtain ⟨_, _, pArg, hp⟩ := he
      cases hp.symm.trans hf
      cases hw
  case run i fetched =>
    obtain ⟨f, hf, hr⟩ := State.run_ok hs
    exact ha.run h ho hf hr

theorem Apart.new (max : Int) : Apart (.new max) where
  nodup  := .nil
  marked := List.forall_mem_nil _
  works i f item hf := by
    cases (EventDispatcher.Quiet.frame_addCallback (.new max) (by decide) _ i).symm.trans hf

-- What other threads submit.
def submittedBy (actions : List Action) : Set ArgItem :=
  {arg | .submitNew arg ∈ actions}

theorem Crawl.step {a : Action} {actions : List Action} (h : Crawl web (submittedBy actions) s) (ha : Answers web s a)
    (hs : step s a = .ok s') : Crawl web (submittedBy (actions ++ [a])) s' := by
  have hsame : (∀ arg, a ≠ .submitNew arg) → submittedBy (actions ++ [a]) = submittedBy actions := by
    intro hn
    ext arg
    simpa [submittedBy] using fun he => absurd he.symm (hn arg)
  cases a
  case submitNew arg =>
    cases hs
    have hinsert : submittedBy (actions ++ [.submitNew arg]) = insert arg (submittedBy actions) := by
      ext x
      simp [submittedBy, or_comm]
    rw [hinsert]
    exact h.submitNew arg
  case setStatus st  =>
    cases hs
    rw [hsame nofun]
    exact h.setStatus st
  case workThread i  =>
    rw [hsame nofun]
    exact h.workThread hs
  case run i fetched =>
    obtain ⟨f, hf, hr⟩ := State.run_ok hs
    rw [hsame nofun]
    exact h.run ha hf hr

-- The queue is empty, and no worker has anything to do.
def State.Finished (s : State) : Prop :=
  s.dispatcher.eventList = [] ∧ ∀ w ∈ s.dispatcher.threadList, w.pc.Idle

instance (s : State) : Decidable s.Finished :=
  inferInstanceAs (Decidable (_ ∧ _))

theorem State.Finished.known (h : s.Finished) : s.known = s.done := by
  have hw : s.dispatcher.threadList.flatMap (EventDispatcher.Worker.hands token Frame.tokens) = [] :=
    List.flatMap_eq_nil_iff.mpr fun w hw => EventDispatcher.Worker.hands_idle (h.right w hw)
  have htokens : s.tokens = 0 := by
    rw [State.tokens, EventDispatcher.custody, h.left, hw]
    rfl
  ext x
  rw [mem_known, htokens]
  simp [State.done]

-- A page with one bangumi, and a video whose identifier is to be looked up, twice.
def pageItem : ArgItem where
  currentURL := [104]
  operation  := .getBangumiList

def videoIDItem : ArgItem where
  currentURL := [105]
  operation  := .getVideoID

-- What comes of them.
def seasonListItem : ArgItem where
  bangumiID  := ascii "1"
  currentURL := seasonURL (ascii "1")
  operation  := .getSeasonList

def videoItem : ArgItem where
  videoID    := ascii "7"
  currentURL := videoURL (ascii "7")
  operation  := .getVideoDetail

def pageText : Bytes :=
  ascii "\x7b\"cover\":\"\",\"favorites\":1,\"is_finish\":1,\"newest_ep_index\":\"\",\"pub_time\":1,\"season_id\":\"1\"," ++
  ascii "\"season_status\":1,\"title\":\"\",\"total_count\":1,\"update_time\":1,\"url\":\"\",\"week\":\"\"\x7d"

def videoIDText : Bytes :=
  ascii "\x7b\"aid\":7,\"cid\":1,\"episode_status\":1,\"player\":\"\",\"pre_ad\":1,\"season_status\":1,\"vid\":\"\"\x7d"

def videoText : Bytes :=
  ascii "\x7b\"view\":1,\"danmaku\":2,\"reply\":3,\"favorite\":4,\"coin\":5,\"share\":6," ++
  ascii "\"now_rank\":7,\"his_rank\":8\x7d"

def texts (url : Bytes) : Bytes :=
  if url = pageItem.currentURL then pageText
  else if url = videoIDItem.currentURL then videoIDText
  else if url = videoItem.currentURL then videoText
  else [120]

-- A worker gets an item and goes on to the fetch, which gives the text of the URL.
def fetchedBy (i : Nat) (item : ArgItem) : List Action :=
  [.run i ⟨0, []⟩, .run i ⟨(texts item.currentURL).length, texts item.currentURL⟩, .run i ⟨0, []⟩]

-- One worker drops one of the two equal items, and the fetch for the other one fails at first.
def dropped : List Action :=
  List.flatten [
    [.submitNew videoIDItem, .submitNew videoIDItem, .submitNew pageItem],
    List.replicate 5 (.workThread 0),
    List.replicate 5 (.workThread 1),
    [.run 0 ⟨0, []⟩, .run 1 ⟨0, []⟩, .run 0 ⟨-1, []⟩, .run 0 ⟨0, []⟩, .run 0 ⟨0, []⟩, .run 0 ⟨0, []⟩],
    List.replicate 5 (.workThread 1),
    List.replicate 5 (.workThread 0),
    fetchedBy 1 pageItem,
    fetchedBy 0 videoIDItem,
    List.replicate 3 (.run 0 ⟨0, []⟩),
    List.replicate 3 (.run 1 ⟨0, []⟩),
    List.replicate 5 (.workThread 1),
    List.replicate 5 (.workThread 0),
    fetchedBy 0 seasonListItem,
    List.replicate 2 (.run 0 ⟨0, []⟩),
    fetchedBy 1 videoItem,
    List.replicate 2 (.run 1 ⟨0, []⟩)]

end Crawl

end Indexer2

end Server8
