import Server8.IOCP.Closing

-- The end of the module: the workers, and their exit packets.

namespace Server8

open Runs

-- An exit packet in the queue.
def Item.exits : Item → Bool
  | .packet p => p.kind == .exit
  | _         => false

-- A worker that goes back to the queue.
def Item.returns : Item → Bool
  | .thread true (.dispatch p) => p.kind != .exit
  | .thread true _             => true
  | _                          => false

-- The workers run the handlers, and other threads `sendData`.
def Task.Fits (worker : Bool) : Task → Prop
  | .find .. | .bind .. | .publish .. | .create .. | .postSend .. | .sent .. => worker = false
  | .removeIOCPContext .. | .postCloseConnection ..                          => True
  | _                                                                        => worker = true

def Item.Fits : Item → Prop
  | .thread worker task => task.Fits worker
  | _                   => True

namespace Module

variable {m m' : Module} {used new : List Item} {task : Task} {p : Completion} {c : IOCPContext}
  {worker first second : Bool}

-- A step in which no worker gets lost, and that leaves the port alone.
structure Works (m : Module) (used : List Item) (m' : Module) (new : List Item) : Prop where
  fits         : ∀ item ∈ new, item.Fits
  idle         : m'.idle + new.countP Item.returns = m.idle + used.countP Item.returns
  exits        : new.countP Item.exits = 0
  lock         : ∀ left, m'.lock = .exits left ↔ m.lock = .exits left
  portOpen     : m'.portOpen = m.portOpen
  maxThreadNum : m'.maxThreadNum = m.maxThreadNum

theorem dispatched_works (ht : p.Typed m) (hc : m.contexts.block p.pIC = some c)
    (h : Dispatched m p c first second m' new) : m.Works [.thread true (.dispatch p)] m' new := by
  have ho := ht.holds.operation c hc
  have exit_of {o : IOCPOperationSignal} (h : c.operation = o) (hne : o ≠ .exit) : p.kind ≠ .exit :=
    fun hk => hne (by rw [← h, ho, hk, Kind.operation])
  cases h
  case empty operation _ =>
    have := exit_of operation (by decide)
    constructor <;> simp [Item.Fits, Task.Fits, Item.returns, Item.exits, this]
  case sendError operation _ =>
    have := exit_of operation (by decide)
    constructor <;> simp [Item.Fits, Task.Fits, Item.returns, Item.exits, this]
  case close operation why =>
    have : p.kind ≠ .exit := fun hk => by
      have := ht.plain (why.imp And.left id)
      simp [hk] at this
    constructor <;> simp [Item.Fits, Task.Fits, Item.returns, Item.exits, this]
  case closed operation why sc block closeFlag =>
    have : p.kind ≠ .exit := fun hk => by
      have := ht.plain (.inr why)
      simp [hk] at this
    constructor <;> simp [Item.returns, done, this]
  case null operation =>
    have := exit_of operation (by decide)
    constructor <;> simp [Item.returns, done, this]
  case doAccept operation _ h =>
    have := exit_of operation (by decide)
    rcases doAccept_ok h with ⟨rfl, rfl⟩ | ⟨_, _, _, _, _, _, _, rfl, rfl⟩
    · constructor <;> simp [Item.Fits, Task.Fits, Item.returns, Item.exits, closesocket, this]
    · constructor <;> simp [Item.Fits, Task.Fits, Item.returns, Item.exits, List.countP_cons, this]
  case doRecv operation _ h =>
    have := exit_of operation (by decide)
    obtain ⟨_, _, rfl, rfl⟩ := doRecv_ok h
    constructor <;> simp [Item.Fits, Task.Fits, Item.returns, Item.exits, this]
  case doSend operation _ h =>
    have := exit_of operation (by decide)
    obtain ⟨_, _, _, _, rfl, rfl⟩ := doSend_ok h
    constructor <;> simp [Item.Fits, Task.Fits, Item.returns, Item.exits, this]
  case doCloseConnection operation =>
    have := exit_of operation (by decide)
    constructor <;> simp [Item.Fits, Task.Fits, Item.returns, Item.exits, this]
  case exit operation h =>
    have : p.kind = .exit := by
      cases hk : p.kind <;> simp [ho, hk, Kind.operation] at operation ⊢
    obtain ⟨_, _, _, rfl, rfl⟩ := exitThread_ok h
    constructor <;> simp [Item.returns, this]

-- The worker that runs a handler has it done or goes on with it.
theorem run_works (ht : task.Typed m) (hf : task.Fits worker)
    (h : m.run worker first second task = .ok (m', new)) :
    m.Works [.thread worker task] m' new := by
  cases task
  case dispatch p =>
    obtain ⟨c, hc, hd⟩ := dispatch_ok h
    cases hf
    exact dispatched_works ht hc hd
  case insert pSC pIC q n flag =>
    obtain ⟨_, _, rfl, rfl⟩ := insert_ok h
    cases hf
    constructor <;> cases flag <;> simp [Item.Fits, Task.Fits, Item.returns, Item.exits]
  case process =>
    obtain ⟨_, _, rfl, rfl⟩ := process_ok h
    cases hf
    constructor <;> simp [Item.Fits, Task.Fits, Item.returns, Item.exits]
  case postAccept =>
    obtain ⟨_, _, _, _, _, _, rfl, rfl⟩ := repost_ok h
    cases hf
    constructor <;> cases first <;> cases second <;>
      simp [Item.Fits, Task.Fits, Item.returns, Item.exits]
  case removeIOCPContext =>
    obtain ⟨_, _, _, _, rfl, rfl⟩ := remove_ok h
    constructor <;> cases worker <;> simp [Item.returns, done]
  case doRecv =>
    obtain ⟨c, hc, ⟨_, _, _, rfl, rfl⟩ | ⟨_, _, _, rfl, rfl⟩⟩ := callback_ok h
    · cases hf
      constructor <;> simp [Item.Fits, Task.Fits, Item.returns, Item.exits]
    · cases hf
      rw [posted_of_key (ht.key (.inl rfl) c hc)]
      constructor <;> cases first <;> simp [Item.Fits, Task.Fits, Item.returns, Item.exits]
  case doSend posted ret effects =>
    cases hf
    rcases perform_ok h with ⟨_, rfl, rfl⟩ | ⟨_, _, c, _, hc, h⟩
    · constructor <;> cases ret <;> simp [Item.Fits, Task.Fits, Item.returns, Item.exits]
    · rcases h with ⟨_, _, rfl, rfl⟩ | ⟨_, _, rfl, rfl⟩ | ⟨_, _, _, _, rfl, rfl⟩
      · constructor <;> simp [Item.Fits, Task.Fits, Item.returns, Item.exits]
      · rw [posted_of_key (ht.key (.inr rfl) c hc)]
        constructor <;> cases posted <;>
          simp [Item.Fits, Task.Fits, Item.returns, Item.exits, List.countP_cons]
      · constructor <;> simp [Item.Fits, Task.Fits, Item.returns, Item.exits]
  case resent =>
    cases hf
    obtain ⟨hm, rfl⟩ := resent_ok h
    cases ht.setOperation hm
    constructor <;> simp [Item.Fits, Task.Fits, Item.returns, Item.exits]
  case sendError =>
    cases hf
    cases h
    constructor <;> simp [Item.Fits, Task.Fits, Item.returns, Item.exits]
  case postCloseConnection =>
    rcases postCloseConnection_ok h with ⟨rfl, rfl, _⟩ | ⟨_, _, _, _, _, _, _, _, _, rfl, rfl⟩
    · constructor <;> cases worker <;> simp [Item.returns, done]
    · unfold PostQueuedCompletionStatus
      split <;> constructor <;> cases worker <;> simp [Item.Fits, Item.returns, Item.exits, done]
  case doCloseConnection =>
    cases hf
    have hd := doCloseConnection_ok h
    clear h
    obtain ⟨rfl, ⟨_, rfl⟩ | ⟨_, _, _, _, rfl⟩⟩ := hd
    · constructor <;> simp [Item.returns, done]
    · constructor <;> simp [Item.returns, done]
  case find =>
    cases hf
    obtain ⟨rfl, ⟨_, rfl⟩ | ⟨_, rfl⟩⟩ := find_ok h
    · constructor <;> simp [Item.Fits, Task.Fits, Item.returns, Item.exits]
    · constructor <;> simp [Item.Fits, Task.Fits, Item.returns, Item.exits]
  case bind =>
    cases hf
    rcases bindSocket_ok h with ⟨rfl, rfl⟩ | ⟨_, _, _, _, _, _, _, _, rfl, rfl⟩
    · constructor <;> simp [Item.returns]
    · constructor <;> simp [Item.Fits, Task.Fits, Item.returns, Item.exits]
  case publish =>
    cases hf
    obtain ⟨c, _, _, _, hc, _, _, _, rfl, rfl⟩ := publish_ok h
    rw [posted_of_key (ht.left.key (.inl rfl) c hc)]
    constructor <;> cases first <;> simp [Item.Fits, Task.Fits, Item.returns, Item.exits]
  case create =>
    cases hf
    obtain ⟨_, _, _, _, _, rfl, rfl⟩ := create_ok h
    constructor <;> simp [Item.Fits, Task.Fits, Item.returns, Item.exits]
  case postSend =>
    cases hf
    obtain ⟨c, hc, rfl, rfl⟩ := postSend_ok h
    rw [posted_of_key (ht.key (.inr rfl) c hc)]
    constructor <;> cases first <;> simp [Item.Fits, Task.Fits, Item.returns, Item.exits]
  case sent posted =>
    cases hf
    obtain ⟨hm, rfl⟩ := sent_ok h
    cases ht.setOperation hm
    constructor <;> cases posted <;> simp [Item.Fits, Task.Fits, Item.returns, Item.exits]

end Module

namespace State

variable {s s' : State} {a : Action} {n : Nat} {bufferSize : Int} {standby : Nat}
  {actions : List Action}

-- The workers that have not taken an exit packet.
def workers (s : State) : Nat :=
  s.idle + s.items.countP Item.returns

-- `stopIOCP` closes the port only when there is no exit packet in the queue.
def closesDrained (s : State) : Action → Bool
  | .stopIOCP => s.lock != .exits 0 || s.items.all (!·.exits)
  | _         => true

-- Whether a worker takes an exit packet in the step.
def takesExit (s : State) (a : Action) (_ : State) : Nat :=
  match a with
  | .getQueuedCompletionStatus (some i) => if (s.items[i]?).any Item.exits then 1 else 0
  | _                                   => 0

-- Whether a worker asks the closed port for a packet in the step.
def asksClosed (_ : State) (a : Action) (_ : State) : Nat :=
  match a with
  | .getQueuedCompletionStatus none => 1
  | _                               => 0

theorem fits_step (hv : s.Valid) (hf : ∀ item ∈ s.items, item.Fits) (h : s.step a = .ok s') :
    ∀ item ∈ s'.items, item.Fits := by
  obtain ⟨used, m', new, rest, hs, rfl⟩ := step_ok h
  clear h
  have hp := hs.perm
  have hnew : ∀ item ∈ new, item.Fits := by
    cases hs
    case initIOCP h =>
      obtain ⟨_, _, _, _, _, _, _, _, _, _, _, ⟨_, _, rfl⟩ | ⟨_, _, rfl⟩⟩ := Module.initIOCP_ok h
      · simp [Item.Fits]
      · simp
    case stopIOCP h =>
      unfold Module.stopIOCP at h
      split at h
      case h_2 =>
        obtain ⟨_, _, _, _, rfl⟩ := Module.postExit_ok h
        unfold Module.PostQueuedCompletionStatus
        split <;> simp [Item.Fits]
      case h_4 =>
        obtain ⟨_, _, _, _, _, _, _, rfl⟩ := Module.deleteStandby_ok h
        simp
      all_goals
        cases h
        try simp
    case destroy h =>
      obtain ⟨_, _, _, _, rfl⟩ := Module.destroy_ok h
      simp
    case complete h =>
      rcases Module.complete_ok h with ⟨_, rfl⟩ | ⟨_, _, _, _, _, _, _, rfl⟩ | ⟨_, _, _, rfl⟩ <;>
        simp [Item.Fits]
    case run hi h =>
      have hm := List.mem_of_getElem? hi
      exact (Module.run_works (hv.typed _ hm) (hf _ hm) h).fits
    all_goals simp [Item.Fits, Task.Fits]
  intro item hm
  cases List.mem_append.mp hm
  case inl hm => exact hnew item hm
  case inr hm => exact hf item (hp.mem_iff.mpr (List.mem_append_right _ hm))

-- Every worker takes one exit packet: as long as the port is open, each of them still finds one in the
-- queue or has yet to get one from `stopIOCP`.
structure Orderly (n : Nat) (s : State) : Prop where
  valid        : s.Valid
  fits         : ∀ item ∈ s.items, item.Fits
  maxThreadNum : s.maxThreadNum = n
  running      : s.portOpen = true → (∀ left, s.lock ≠ .exits left) →
    s.workers = n ∧ s.items.countP Item.exits = 0
  stopping     : s.portOpen = true → ∀ left, s.lock = .exits left →
    s.items.countP Item.exits + left = s.workers
  stopped      : s.portOpen = false → s.workers = 0

theorem Orderly.start : (start bufferSize n n standby).Orderly n where
  valid        := .start
  fits         := nofun
  maxThreadNum := rfl
  running _ _  := ⟨rfl, rfl⟩
  stopping _ _ := nofun
  stopped      := nofun

-- A step that leaves the port as it is, in which `taken` workers take exit packets.
theorem Orderly.of_counts {taken : Nat} (ho : s.Orderly n) (valid : s'.Valid)
    (fits : ∀ item ∈ s'.items, item.Fits) (maxThreadNum : s'.maxThreadNum = s.maxThreadNum)
    (lock : ∀ left, s'.lock = .exits left ↔ s.lock = .exits left) (port : s'.portOpen = s.portOpen)
    (hw : taken + s'.workers = s.workers)
    (he : taken + s'.items.countP Item.exits = s.items.countP Item.exits) : s'.Orderly n where
  valid        := valid
  fits         := fits
  maxThreadNum := maxThreadNum.trans ho.maxThreadNum
  running hp hl := by
    have := ho.running (port ▸ hp) fun left h => hl left ((lock left).mpr h)
    omega
  stopping hp left hl := by
    have := ho.stopping (port ▸ hp) left ((lock left).mp hl)
    omega
  stopped hp := by
    have := ho.stopped (port ▸ hp)
    omega

theorem Orderly.of_works {used new rest : List Item} {m' : Module} (ho : s.Orderly n)
    (hv : State.Valid { m' with items := new ++ rest }) (hp : s.items.Perm (used ++ rest))
    (hw : s.toModule.Works used m' new) (hu : used.countP Item.exits = 0) :
    Orderly n { m' with items := new ++ rest } ∧
      State.workers { m' with items := new ++ rest } = s.workers := by
  have hworkers : State.workers { m' with items := new ++ rest } = s.workers := by
    have := hw.idle
    simp only [workers, hp.countP_eq, List.countP_append]
    omega
  have hexits : (new ++ rest).countP Item.exits = s.items.countP Item.exits := by
    simp only [hp.countP_eq, List.countP_append, hu, hw.exits]
  refine ⟨ho.of_counts hv (fun item hm => ?_) hw.maxThreadNum hw.lock hw.portOpen
    ((Nat.zero_add _).trans hworkers) ((Nat.zero_add _).trans hexits), hworkers⟩
  cases List.mem_append.mp hm
  case inl hm => exact hw.fits item hm
  case inr hm => exact ho.fits item (hp.mem_iff.mpr (List.mem_append_right _ hm))

theorem Orderly.stopIOCP {m' : Module} {new : List Item} (ho : s.Orderly n)
    (hg : s.closesDrained .stopIOCP) (hv : State.Valid { m' with items := new ++ s.items })
    (h : s.toModule.stopIOCP = .ok (m', new)) :
    Orderly n { m' with items := new ++ s.items } ∧
      State.workers { m' with items := new ++ s.items } = s.workers := by
  unfold Module.stopIOCP at h
  split at h
  case h_1 hl =>
    cases h
    refine ⟨⟨hv, ho.fits, ho.maxThreadNum, fun _ hl => absurd rfl (hl _), fun hc left he => ?_,
      ho.stopped⟩, rfl⟩
    obtain ⟨hw, he'⟩ := ho.running hc (by simp [hl])
    cases he
    rw [List.nil_append, he', ho.maxThreadNum, Nat.zero_add]
    exact hw.symm
  case h_2 left hl =>
    obtain ⟨_, pIC, _, rfl, rfl⟩ := Module.postExit_ok h
    have hw : (s.PostQueuedCompletionStatus .exit s.socketContexts.newAddress pIC).countP
        Item.returns = 0 := by
      unfold Module.PostQueuedCompletionStatus
      split <;> rfl
    have hworkers : (s.PostQueuedCompletionStatus .exit s.socketContexts.newAddress pIC ++
        s.items).countP Item.returns = s.items.countP Item.returns := by
      rw [List.countP_append, hw, Nat.zero_add]
    refine ⟨⟨hv, fun item hm => ?_, ho.maxThreadNum, fun _ hl => absurd rfl (hl _),
      fun hc k he => ?_, fun hc => ?_⟩, ?_⟩
    · cases List.mem_append.mp hm
      case inl hm =>
        unfold Module.PostQueuedCompletionStatus at hm
        split at hm <;> simp at hm
        exact hm ▸ trivial
      case inr hm => exact ho.fits item hm
    · cases he
      have := ho.stopping hc _ hl
      have hport : s.portOpen = true := hc
      simp only [workers, hworkers] at this ⊢
      simp only [Module.PostQueuedCompletionStatus, hport, if_true, List.countP_append,
        List.countP_singleton, Item.exits, beq_self_eq_true]
      omega
    · simp only [workers, hworkers]
      exact ho.stopped hc
    · simp only [workers, hworkers]
  case h_3 hl =>
    cases h
    refine ⟨⟨hv, ho.fits, ho.maxThreadNum, nofun, nofun, fun _ => ?_⟩, rfl⟩
    show s.workers = 0
    cases hc : s.portOpen
    case false => exact ho.stopped hc
    case true  =>
      have := ho.stopping hc 0 hl
      simp only [closesDrained, hl, bne_self_eq_false, Bool.false_or, List.all_eq_true,
        Bool.not_eq_true'] at hg
      rw [← this, List.countP_eq_zero.mpr fun item hm => by simp [hg item hm]]
  case h_4 hl =>
    obtain ⟨_, _, _, _, _, _, rfl, rfl⟩ := Module.deleteStandby_ok h
    have hp : s.items.Perm ([] ++ s.items) := .refl _
    exact ho.of_works hv hp (by constructor <;> simp [hl]) rfl
  case h_5 => cases h

theorem Orderly.step (ho : s.Orderly n) (hg : s.closesDrained a) (h : s.step a = .ok s') :
    s'.Orderly n ∧ takesExit s a s' + s'.workers = s.workers ∧ asksClosed s a s' = 0 := by
  have hv := ho.valid.step h
  obtain ⟨used, m', new, rest, hs, rfl⟩ := step_ok h
  clear h
  have hp := hs.perm
  cases hs
  case initIOCP hl h =>
    obtain ⟨_, _, _, _, _, _, _, _, _, _, rfl, hi⟩ := Module.initIOCP_ok h
    have hw := ho.of_works hv hp ?_ rfl
    · exact ⟨hw.left, by rw [hw.right]; exact Nat.zero_add _, rfl⟩
    · rcases hi with ⟨_, _, rfl⟩ | ⟨_, _, rfl⟩
      · constructor <;> simp [Item.Fits, Item.returns, Item.exits, hl]
      · constructor <;> simp [hl]
  case initialised hl =>
    have hw := ho.of_works hv hp (by constructor <;> simp [hl]) rfl
    exact ⟨hw.left, by rw [hw.right]; exact Nat.zero_add _, rfl⟩
  case stopIOCP h =>
    have ⟨hi, hw⟩ := ho.stopIOCP hg hv h
    exact ⟨hi, by rw [hw]; exact Nat.zero_add _, rfl⟩
  case destroy h =>
    obtain ⟨_, _, _, rfl, rfl⟩ := Module.destroy_ok h
    have hw := ho.of_works hv hp (by constructor <;> simp) rfl
    exact ⟨hw.left, by rw [hw.right]; exact Nat.zero_add _, rfl⟩
  case dequeue i p hi hport hidle =>
    have hw : takesExit s (.getQueuedCompletionStatus (some i)) s +
        workers { s.toModule with
          idle  := s.idle - 1
          items := [.thread true (.dispatch p)] ++ s.items.eraseIdx i } = s.workers := by
      simp only [takesExit, hi, workers, hp.countP_eq, List.countP_append]
      cases hk : p.kind <;> simp [Item.exits, Item.returns, hk] <;> omega
    have he : takesExit s (.getQueuedCompletionStatus (some i)) s +
        ([Item.thread true (.dispatch p)] ++ s.items.eraseIdx i).countP Item.exits =
          s.items.countP Item.exits := by
      simp only [takesExit, hi, hp.countP_eq, List.countP_append]
      cases hk : p.kind <;> simp [Item.exits, hk]
    refine ⟨ho.of_counts hv ?_ rfl (fun _ => .rfl) rfl hw he, hw, rfl⟩
    simp only [List.cons_append, List.nil_append, List.forall_mem_cons]
    exact ⟨rfl, fun item hm => ho.fits item (List.mem_of_mem_eraseIdx hm)⟩
  case spin hport hidle =>
    have := ho.stopped hport
    simp only [workers] at this
    omega
  case complete i result kind pSC pIC hi h =>
    have hw := ho.of_works hv hp ?_ rfl
    · exact ⟨hw.left, by rw [hw.right]; exact Nat.zero_add _, rfl⟩
    · have hkind := (ho.valid.typed _ (List.mem_of_getElem? hi)).left
      rcases Module.complete_ok h with ⟨rfl, rfl⟩ | ⟨_, _, _, _, hk, _, rfl, rfl⟩ | ⟨_, hk, rfl, rfl⟩
      · rcases hkind with rfl | rfl | rfl <;> constructor <;> simp [Item.Fits, Item.returns, Item.exits]
      · rcases hk with rfl | rfl <;> constructor <;> simp [Item.Fits, Item.returns, Item.exits]
      · cases hk
        constructor <;> simp [Item.Fits, Item.returns, Item.exits]
  case run i first second worker task hi h =>
    have hm := List.mem_of_getElem? hi
    have hw := ho.of_works hv hp (Module.run_works (ho.valid.typed _ hm) (ho.fits _ hm) h) rfl
    exact ⟨hw.left, by rw [hw.right]; exact Nat.zero_add _, rfl⟩
  all_goals
    have hw := ho.of_works hv hp (by
      constructor <;> simp [Item.Fits, Task.Fits, Item.returns, Item.exits,
        Module.createConnectContext]) rfl
    exact ⟨hw.left, by rw [hw.right]; exact Nat.zero_add _, rfl⟩

-- No worker has asked the closed port for a packet, and once the port is closed all the workers have
-- taken their exit packets and none of them goes back to the queue.
def Ended (n : Nat) (s : State) (actions : List Action) (s' : State) : Prop :=
  Runs.total step asksClosed s actions = 0 ∧
    (s'.portOpen = false → Runs.total step takesExit s actions = n ∧ s'.idle = 0 ∧
      ∀ item ∈ s'.items, item.returns = false)

theorem ended_along (hg : Along step (closesDrained · ·) (start bufferSize n n standby) actions)
    (h : Runs.run step (start bufferSize n n standby) actions = .ok s') :
    Ended n (start bufferSize n n standby) actions s' := by
  have ho : s'.Orderly n :=
    invariant .start hg (fun _ _ _ ho hc hs => (ho.step hc hs).left) h
  refine ⟨?_, fun hp => ?_⟩
  · exact total_add (φ := fun _ => 0) Orderly.start hg
      (fun _ _ _ ho hc hs => ⟨(ho.step hc hs).left, (ho.step hc hs).right.right⟩) h
  · have ht := total_add (φ := workers) Orderly.start hg
      (fun _ _ _ ho hc hs => ⟨(ho.step hc hs).left, (ho.step hc hs).right.left⟩) h
    have hw := ho.stopped hp
    simp only [workers] at hw ht
    refine ⟨?_, by omega, fun item hm => ?_⟩
    · simpa [hw, start] using ht
    · have := List.countP_eq_zero.mp (by omega : s'.items.countP Item.returns = 0) item hm
      simpa using this

-- Two workers that take their packets in time, one of them after an accept that failed.
def drained : List Action := [
  .initIOCP true true, .initIOCP true true, .complete 0 .failed, .getQueuedCompletionStatus (some 0),
  .stopIOCP, .stopIOCP, .stopIOCP, .getQueuedCompletionStatus (some 0), .run 0 true true,
  .run 1 true true, .run 0 true true, .getQueuedCompletionStatus (some 1), .run 0 true true, .stopIOCP,
  .stopIOCP]

theorem ended_drained :
    ∃ s', Runs.run step (start 8192 2 2 1) drained = .ok s' ∧ s'.portOpen = false ∧
      Ended 2 (start 8192 2 2 1) drained s' := by
  have hg : Along step (closesDrained · ·) (start 8192 2 2 1) drained := by decide +kernel
  obtain ⟨s', h, hp⟩ : ∃ s', Runs.run step (start 8192 2 2 1) drained = .ok s' ∧ s'.portOpen = false :=
    exists_ok (by decide +kernel)
  exact ⟨s', h, hp, ended_along hg h⟩

-- The port is closed before the worker takes its packet.
def undrained : List Action := [.initIOCP true true, .stopIOCP, .stopIOCP, .stopIOCP, .stopIOCP]

theorem spin_again (hp : s.portOpen = false) (hi : 0 < s.idle) (k : Nat) :
    ∃ s', Runs.run step s (List.replicate k (.getQueuedCompletionStatus none)) = .ok s' ∧
      s'.portOpen = false ∧ 0 < s'.idle := by
  induction k generalizing s
  case zero      => exact ⟨s, rfl, hp, hi⟩
  case succ k ih =>
    have hs : step s (.getQueuedCompletionStatus none) = .ok { s with errorNum := s.errorNum + 1 } :=
      if_pos ⟨by simp [hp], hi⟩
    rw [List.replicate_succ, run_cons, hs]
    exact ih hp hi

-- The worker asks the closed port for a packet again and again.
theorem undrained_not_ended :
    ∃ s', Runs.run step (start 8192 1 1 0) undrained = .ok s' ∧
      ¬Ended 1 (start 8192 1 1 0) undrained s' ∧
      ∀ k, ∃ s'', Runs.run step s' (List.replicate k (.getQueuedCompletionStatus none)) = .ok s'' ∧
        0 < s''.idle := by
  obtain ⟨s', h, hp, hidle⟩ : ∃ s', Runs.run step (start 8192 1 1 0) undrained = .ok s' ∧
      s'.portOpen = false ∧ s'.idle = 1 := exists_ok (by decide +kernel)
  refine ⟨s', h, fun he => ?_, fun k => ?_⟩
  · have := (he.right hp).right.left
    omega
  · obtain ⟨s'', hr, _, hi⟩ := spin_again hp (by omega) k
    exact ⟨s'', hr, hi⟩

end State
end Server8
