import Server8.IOCP.Context

namespace Server8

-- One socket context with the contexts it gave out.
structure Registry where
  contexts : Contexts
  context  : SocketContext
  created  : List Nat

namespace Registry

inductive Op
  | createIOCPContext (bufSize : Int) (pos : 0 < bufSize)
  | removeIOCPContext (contextIndex : Int)

def apply (r : Registry) : Op → Option Registry
  | .createIOCPContext bufSize _ => do
    let (contexts, context, pIC) ← r.context.createIOCPContext r.contexts bufSize
    some { contexts, context, created := pIC :: r.created }
  | .removeIOCPContext contextIndex => do
    let (contexts, context, _) ← r.context.removeIOCPContext r.contexts contextIndex
    some { r with contexts, context }

def run (r : Registry) (ops : List Op) : Option Registry :=
  ops.foldlM apply r

def new (contexts : Contexts) : Registry where
  contexts := contexts
  context  := {}
  created  := []

def Live (r : Registry) (p : Nat) (c : IOCPContext) : Prop :=
  p ∈ r.created ∧ r.contexts.block p = some c

-- Every live context is filed under its index, so that its index removes it and nothing else.
def Registered (r : Registry) : Prop :=
  ∀ p c, r.Live p c → r.context.iocpContextMap[c.contextIndex]? = some p ∧
    ∃ r', r.apply (.removeIOCPContext c.contextIndex) = some r' ∧ r'.contexts.block p = none ∧
      ∀ p' c', p' ≠ p → r.Live p' c' →
        r'.Live p' c' ∧ r'.context.iocpContextMap[c'.contextIndex]? = some p'

def Op.removes (k : Int) : Op → Prop
  | .createIOCPContext ..    => False
  | .removeIOCPContext index => index = k

-- After `n` creations: each further one is followed by a removal of the number after its index.
def Cleared : Int → List Op → Prop
  | _, []                         => True
  | n, .createIOCPContext .. :: ops => (∃ op ∈ ops, op.removes (n + 1)) ∧ Cleared (n + 1) ops
  | n, .removeIOCPContext _ :: ops  => Cleared n ops

-- What the two operations keep: a live context is filed under the number after its index.
structure Filed (r : Registry) : Prop where
  indexed : ∀ {k : Int} {p : Nat}, r.context.iocpContextMap[k]? = some p →
    p ∈ r.created ∧ k ≤ r.context.count ∧
      ∃ c, r.contexts.block p = some c ∧ c.contextIndex = k - 1
  stored  : ∀ {p : Nat} {c : IOCPContext}, r.Live p c →
    ∃ k : Int, r.context.iocpContextMap[k]? = some p

namespace Filed

variable {r r' : Registry}

theorem new (contexts : Contexts) : Filed (new contexts) where
  indexed h := by simp [Registry.new] at h
  stored  h := by simp [Live, Registry.new] at h

theorem create (h : r.Filed) {bufSize : Int} (pos : 0 < bufSize) :
    ∃ r', r.apply (.createIOCPContext bufSize pos) = some r' ∧ r'.Filed ∧
      r'.context.count = r.context.count + 1 ∧ ∀ k : Int,
        r'.context.iocpContextMap[k]? =
          if k = r.context.count + 1 then some r.contexts.newAddress
          else r.context.iocpContextMap[k]? := by
  have ⟨c, _, he⟩ := r.context.createIOCPContext_eq (m := r.contexts) pos
  have ha := congrArg (Option.bind · fun x => some (Registry.mk x.1 x.2.1 (x.2.2 :: r.created))) he
  have hn : r.context.iocpContextMap[r.context.count + 1]? = none := by
    cases hk : r.context.iocpContextMap[r.context.count + 1]?
    case none   => rfl
    case some p =>
      have := (h.indexed hk).right.left
      omega
  have hk : ∀ k : Int, (r.context.iocpContextMap.insertIfNew (r.context.count + 1)
      r.contexts.newAddress)[k]? = if k = r.context.count + 1 then some r.contexts.newAddress
      else r.context.iocpContextMap[k]? := by
    intro k
    simp only [SocketContext.getElem?_insertIfNew, hn, and_true, eq_comm]
  refine ⟨_, ha, ⟨?_, ?_⟩, rfl, hk⟩
  case refine_1 =>
    intro k p hp
    rw [hk] at hp
    split at hp
    case isTrue hk =>
      cases hp
      refine ⟨List.mem_cons_self, Int.le_of_eq hk, _, Memory.alloc_self .., ?_⟩
      simp [hk]
    case isFalse =>
      have ⟨hc, hle, c', hb, hi⟩ := h.indexed hp
      refine ⟨List.mem_cons_of_mem _ hc, Int.le_add_one hle, c', ?_, hi⟩
      rw [Memory.alloc_ne _ _ (Memory.newAddress_ne hb), hb]
  case refine_2 =>
    intro p c' hl
    by_cases hp : p = r.contexts.newAddress
    case pos => exact ⟨r.context.count + 1, by rw [hk, if_pos rfl, hp]⟩
    case neg =>
      have hb := hl.right
      rw [Memory.alloc_ne _ _ hp] at hb
      have ⟨k, hs⟩ := h.stored ⟨(List.mem_cons.mp hl.left).resolve_left hp, hb⟩
      have hne : k ≠ r.context.count + 1 := by
        rintro rfl
        simp [hn] at hs
      exact ⟨k, by rw [hk, if_neg hne, hs]⟩

theorem remove (h : r.Filed) (k : Int) :
    ∃ r', r.apply (.removeIOCPContext k) = some r' ∧ r'.Filed ∧
      r'.context.count = r.context.count ∧ ∀ j : Int,
        r'.context.iocpContextMap[j]? = if j = k then none else r.context.iocpContextMap[j]? := by
  cases hk : r.context.iocpContextMap[k]?
  case none =>
    refine ⟨r, ?_, h, rfl, fun j => ?_⟩
    · simp only [apply, SocketContext.removeIOCPContext_absent hk, Option.bind_eq_bind,
        Option.bind_some]
    · split
      case isTrue hj  => rw [hj, hk]
      case isFalse hj => rfl
  case some p =>
    have ⟨hc, _, c, hb, hi⟩ := h.indexed hk
    have ⟨m, hm⟩ := Memory.free_of_block hb
    have hf := Memory.free_eq_some hm
    have he : ∀ j : Int, (r.context.iocpContextMap.erase k)[j]? =
        if j = k then none else r.context.iocpContextMap[j]? := by
      intro j
      simp only [SocketContext.getElem?_erase, eq_comm]
    have ha := congrArg (Option.bind · fun x => some (Registry.mk x.1 x.2.1 r.created))
      (SocketContext.removeIOCPContext_present hk hm)
    refine ⟨_, ha, ⟨?_, ?_⟩, rfl, he⟩
    case refine_1 =>
      intro j p' hp'
      rw [he] at hp'
      split at hp'
      case isTrue => cases hp'
      case isFalse hj =>
        have ⟨hc', hle, c', hb', hi'⟩ := h.indexed hp'
        have hne : p' ≠ p := by
          rintro rfl
          cases hb.symm.trans hb'
          omega
        exact ⟨hc', hle, c', by simp only [hf, Function.update_of_ne hne, hb'], hi'⟩
    case refine_2 =>
      intro p' c' hl
      have hne : p' ≠ p := by
        rintro rfl
        have hb' := hl.right
        simp [hf] at hb'
      have hb' := hl.right
      rw [hf, Function.update_of_ne hne] at hb'
      have ⟨j, hj⟩ := h.stored ⟨hl.left, hb'⟩
      have hjk : j ≠ k := by
        rintro rfl
        exact hne (Option.some.inj (hj.symm.trans hk))
      exact ⟨j, by rw [he, if_neg hjk, hj]⟩

-- A live context is never filed under its own index, where only its predecessor can be.
theorem not_filed_under_index (h : r.Filed) {p : Nat} {c : IOCPContext} (hl : r.Live p c) :
    r.context.iocpContextMap[c.contextIndex]? ≠ some p := by
  intro hp
  have ⟨_, _, c', hb, hi⟩ := h.indexed hp
  cases hl.right.symm.trans hb
  omega

theorem registered_iff (h : r.Filed) :
    r.Registered ↔ ∀ k : Int, r.context.iocpContextMap[k]? = none := by
  constructor
  case mp =>
    intro hr k
    cases hk : r.context.iocpContextMap[k]?
    case none   => rfl
    case some p =>
      have ⟨hc, _, c, hb, _⟩ := h.indexed hk
      exact absurd (hr p c ⟨hc, hb⟩).left (h.not_filed_under_index ⟨hc, hb⟩)
  case mpr =>
    intro he p c hl
    have ⟨k, hk⟩ := h.stored hl
    simp [he k] at hk

theorem run_iff (h : r.Filed) (ops : List Op) :
    ∃ r', r.run ops = some r' ∧ r'.Filed ∧ ((∀ k : Int, r'.context.iocpContextMap[k]? = none) ↔
      (∀ k : Int, r.context.iocpContextMap[k]? ≠ none → ∃ op ∈ ops, op.removes k) ∧
        Cleared r.context.count ops) := by
  induction ops generalizing r
  case nil => exact ⟨r, rfl, h, by simp [Cleared]⟩
  case cons op ops ih =>
    cases op
    case createIOCPContext bufSize pos =>
      have ⟨r₁, ha, h₁, hc, hk⟩ := h.create pos
      have ⟨r', hr, h', hi⟩ := ih h₁
      refine ⟨r', ?_, h', hi.trans ?_⟩
      · rw [run, List.foldlM_cons, ha]
        exact hr
      · simp only [hc, hk, Cleared, List.exists_mem_cons_iff, Op.removes, false_or]
        constructor
        case mp =>
          intro ⟨hs, hcl⟩
          have hn := hs (r.context.count + 1) (by simp)
          refine ⟨fun k hk' => hs k ?_, hn, hcl⟩
          split
          case isTrue  => exact Option.some_ne_none _
          case isFalse => exact hk'
        case mpr =>
          intro ⟨hs, hn, hcl⟩
          refine ⟨fun k hk' => ?_, hcl⟩
          split at hk'
          case isTrue he => exact he ▸ hn
          case isFalse   => exact hs k hk'
    case removeIOCPContext index =>
      have ⟨r₁, ha, h₁, hc, hk⟩ := h.remove index
      have ⟨r', hr, h', hi⟩ := ih h₁
      refine ⟨r', ?_, h', hi.trans ?_⟩
      · rw [run, List.foldlM_cons, ha]
        exact hr
      · simp only [hc, hk, Cleared, List.exists_mem_cons_iff, Op.removes]
        refine and_congr_left fun _ => forall_congr' fun k => ?_
        by_cases he : k = index
        case pos => simp [he]
        case neg => simp [he, Ne.symm he]

end Filed

-- A sequence of calls leaves every live context under its index just in case it leaves none alive.
theorem registered_iff_cleared (contexts : Contexts) (ops : List Op) :
    ∃ r, (new contexts).run ops = some r ∧ (r.Registered ↔ Cleared 0 ops) := by
  have ⟨r, hr, hf, hi⟩ := (Filed.new contexts).run_iff ops
  refine ⟨r, hr, hf.registered_iff.trans (hi.trans ?_)⟩
  simp [new]

theorem createIOCPContext_not_registered :
    ∃ r, (new .empty).run [.createIOCPContext 4096 (by decide)] = some r ∧ ¬r.Registered := by
  refine ⟨_, rfl, fun h => ?_⟩
  have hr := (h 1 _ ⟨List.mem_cons_self, Memory.alloc_self ..⟩).left
  exact absurd hr (by decide)

end Registry
end Server8
