import Server8.IOCP.Shutdown
import Server8.Lib.Increments
import Server8.Protocol.RoundTrip

-- The numbers that the module reports.

namespace Server8

open Runs

-- A worker that has put a connection into the map and not counted it yet.
def Item.uncounted : Item → Bool
  | .thread _ (.process ..)             => true
  | .thread _ (.postAccept _ true true) => true
  | _                                   => false

namespace Module

variable {m m' : Module} {used new : List Item} {task : Task} {p : Completion} {c : IOCPContext}
  {worker first second : Bool}

-- A step that keeps the connections in step with their number, and the callbacks with theirs.
structure Counts (m : Module) (used : List Item) (m' : Module) (new : List Item) : Prop where
  connections : m'.connectNum + new.countP Item.uncounted + m.socketContextMap.size +
      m.normallyClosedNum =
    m.connectNum + used.countP Item.uncounted + m'.socketContextMap.size + m'.normallyClosedNum
  callbacks : m'.callbackInvokedNum + m.calls.length = m.callbackInvokedNum + m'.calls.length

theorem dispatched_counts (h : Dispatched m p c first second m' new) :
    m.Counts [.thread true (.dispatch p)] m' new := by
  cases h
  case empty =>
    constructor <;> simp [Item.uncounted]
    omega
  case doAccept h =>
    rcases doAccept_ok h with ⟨rfl, rfl⟩ | ⟨_, _, _, _, _, _, _, rfl, rfl⟩
    · constructor <;> simp [Item.uncounted, closesocket]
    · constructor <;> simp [Item.uncounted]
  case doRecv h =>
    obtain ⟨_, _, rfl, rfl⟩ := doRecv_ok h
    constructor <;> simp [Item.uncounted]
  case doSend h =>
    obtain ⟨_, _, _, _, rfl, rfl⟩ := doSend_ok h
    constructor <;> simp [Item.uncounted]
  case exit h =>
    obtain ⟨_, _, _, rfl, rfl⟩ := exitThread_ok h
    constructor <;> simp [Item.uncounted]
  all_goals constructor <;> simp [Item.uncounted, done]

-- What the counters need of a step: the next accept is posted just in case the connection was accepted,
-- and no outbound connection, packet of a free connection, or failed send comes up.
def Counted (first second : Bool) : Task → Bool
  | .publish ..                   => false
  | .postAccept _ reset true      => reset == (first && second)
  | .doRecv _ _ _ count (_ :: _)  => count
  | .sendError _                  => false
  | _                             => true

theorem run_counts (hg : Counted first second task) (ht : task.Typed m)
    (enters : ∀ q, Token.insert q ∈ task.tokens → q ∉ m.socketContextMap)
    (leaves : ∀ q own, Token.close q own ∈ task.tokens → q ∈ m.socketContextMap)
    (h : m.run worker first second task = .ok (m', new)) :
    m.Counts [.thread worker task] m' new := by
  cases task
  case dispatch p =>
    obtain ⟨c, _, hd⟩ := dispatch_ok h
    have := dispatched_counts hd
    exact ⟨this.connections, this.callbacks⟩
  case insert pSC pIC q n flag =>
    obtain ⟨_, _, rfl, rfl⟩ := insert_ok h
    have hm := enters q (by simp [Task.tokens])
    constructor
    · cases flag <;> simp [Item.uncounted, Std.TreeMap.size_insertIfNew, hm] <;> omega
    · simp
  case process =>
    obtain ⟨_, _, rfl, rfl⟩ := process_ok h
    constructor <;> simp [Item.uncounted]
    omega
  case postAccept pIC reset count =>
    obtain ⟨_, _, _, _, _, _, rfl, rfl⟩ := repost_ok h
    simp only [Counted] at hg
    constructor <;> cases reset <;> cases count <;> cases first <;> cases second <;>
      simp [Item.uncounted] at hg ⊢
  case removeIOCPContext =>
    obtain ⟨_, _, _, _, rfl, rfl⟩ := remove_ok h
    constructor <;> simp [Item.uncounted, done]
  case doRecv pSC pIC base count stops =>
    obtain ⟨c, hc, ⟨_, _, rfl, rfl, rfl⟩ | ⟨_, _, _, rfl, rfl⟩⟩ := callback_ok h
    · simp only [Counted] at hg
      constructor <;> simp [Item.uncounted, hg]
      omega
    · rw [posted_of_key (ht.key (.inl rfl) c hc)]
      constructor <;> cases first <;> simp [Item.uncounted]
  case doSend posted ret effects =>
    rcases perform_ok h with ⟨_, rfl, rfl⟩ | ⟨_, _, c, _, hc, h⟩
    · constructor <;> cases ret <;> simp [Item.uncounted]
    · rcases h with ⟨_, _, rfl, rfl⟩ | ⟨_, _, rfl, rfl⟩ | ⟨_, _, _, _, rfl, rfl⟩
      · constructor <;> simp [Item.uncounted]
        omega
      · rw [posted_of_key (ht.key (.inr rfl) c hc)]
        constructor <;> cases posted <;> simp [Item.uncounted]
      · constructor <;> simp [Item.uncounted]
  case resent =>
    obtain ⟨hm, rfl⟩ := resent_ok h
    cases ht.setOperation hm
    constructor <;> simp [Item.uncounted]
  case sendError => cases hg
  case postCloseConnection =>
    rcases postCloseConnection_ok h with ⟨rfl, rfl, _⟩ | ⟨_, _, _, _, _, _, _, _, _, rfl, rfl⟩
    · constructor <;> simp [Item.uncounted, done]
    · unfold PostQueuedCompletionStatus
      split <;> constructor <;> simp [Item.uncounted, done]
  case doCloseConnection q own =>
    have hm := leaves q own (by simp [Task.tokens])
    have hd := doCloseConnection_ok h
    clear h
    obtain ⟨rfl, ⟨hn, _⟩ | ⟨_, _, _, _, rfl⟩⟩ := hd
    · exact absurd hn (member_iff.mpr hm)
    · have hpos : 0 < m.socketContextMap.size := by
        have := Std.TreeMap.isEmpty_eq_false_of_contains (Std.TreeMap.contains_iff_mem.mpr hm)
        rw [Std.TreeMap.isEmpty_eq_size_eq_zero, beq_eq_false_iff_ne] at this
        exact Nat.pos_of_ne_zero this
      constructor <;> simp [Item.uncounted, done, Std.TreeMap.size_erase, hm]
      omega
  case find =>
    obtain ⟨rfl, ⟨_, rfl⟩ | ⟨_, rfl⟩⟩ := find_ok h
    · constructor <;> simp [Item.uncounted]
    · constructor <;> simp [Item.uncounted]
  case bind =>
    rcases bindSocket_ok h with ⟨rfl, rfl⟩ | ⟨_, _, _, _, _, _, _, _, rfl, rfl⟩
    · constructor <;> simp [Item.uncounted]
    · constructor <;> simp [Item.uncounted]
  case publish => cases hg
  case create =>
    obtain ⟨_, _, _, _, _, rfl, rfl⟩ := create_ok h
    constructor <;> simp [Item.uncounted]
  case postSend =>
    obtain ⟨c, hc, rfl, rfl⟩ := postSend_ok h
    rw [posted_of_key (ht.key (.inr rfl) c hc)]
    constructor <;> cases first <;> simp [Item.uncounted]
  case sent posted =>
    obtain ⟨hm, rfl⟩ := sent_ok h
    cases ht.setOperation hm
    constructor <;> cases posted <;> simp [Item.uncounted]

inductive Number
  | connectNum
  | normallyClosedNum
  | errorNum
  | callbackInvokedNum
  deriving DecidableEq, Repr

-- How many increments of a number threads have come to.
def begun (m : Module) : Number → Int
  | .connectNum         => m.connectNum
  | .normallyClosedNum  => m.normallyClosedNum
  | .errorNum           => m.errorNum
  | .callbackInvokedNum => m.callbackInvokedNum

section Begun

variable {n : Number}

-- A step that comes to no increment.
theorem begun_le_of_eq (connectNum : m'.connectNum = m.connectNum)
    (normallyClosedNum : m'.normallyClosedNum = m.normallyClosedNum) (errorNum : m'.errorNum = m.errorNum)
    (callbackInvokedNum : m'.callbackInvokedNum = m.callbackInvokedNum) : m.begun n ≤ m'.begun n := by
  cases n
  case connectNum         => exact Int.le_of_eq connectNum.symm
  case normallyClosedNum  => exact Int.le_of_eq normallyClosedNum.symm
  case errorNum           => exact Int.le_of_eq errorNum.symm
  case callbackInvokedNum => exact Int.le_of_eq callbackInvokedNum.symm

theorem begun_le_dispatched (h : Dispatched m p c first second m' new) : m.begun n ≤ m'.begun n := by
  cases h
  case empty le _ _     => cases n <;> simp [begun, le]
  case sendError le _ _ => cases n <;> simp [begun, le]
  case close le _ _     => cases n <;> simp [begun, le]
  case doAccept h =>
    rcases doAccept_ok h with ⟨rfl, _⟩ | ⟨_, _, _, _, _, _, _, rfl, _⟩
    · exact begun_le_of_eq rfl rfl rfl rfl
    · exact begun_le_of_eq rfl rfl rfl rfl
  case doRecv h =>
    obtain ⟨_, _, rfl, _⟩ := doRecv_ok h
    exact begun_le_of_eq rfl rfl rfl rfl
  case doSend h =>
    obtain ⟨_, _, _, _, rfl, _⟩ := doSend_ok h
    exact begun_le_of_eq rfl rfl rfl rfl
  case exit h =>
    obtain ⟨_, _, _, rfl, _⟩ := exitThread_ok h
    exact begun_le_of_eq rfl rfl rfl rfl
  all_goals exact begun_le_of_eq rfl rfl rfl rfl

theorem begun_le_setOperation {pIC : Nat} (h : m.setOperation pIC = .ok m') : m.begun n ≤ m'.begun n := by
  obtain ⟨_, _, _, _, rfl⟩ := setOperation_ok.mp h
  exact begun_le_of_eq rfl rfl rfl rfl

theorem begun_le_run (h : m.run worker first second task = .ok (m', new)) : m.begun n ≤ m'.begun n := by
  cases task
  case dispatch =>
    obtain ⟨_, _, hd⟩ := dispatch_ok h
    exact begun_le_dispatched hd
  case insert =>
    obtain ⟨_, _, rfl, _⟩ := insert_ok h
    exact begun_le_of_eq rfl rfl rfl rfl
  case process =>
    obtain ⟨_, _, rfl, _⟩ := process_ok h
    cases n <;> simp [begun]
  case postAccept =>
    obtain ⟨_, _, _, _, _, _, rfl, _⟩ := repost_ok h
    cases n <;> simp only [begun, Int.le_refl]
    split <;> omega
  case removeIOCPContext =>
    obtain ⟨_, _, _, _, rfl, _⟩ := remove_ok h
    exact begun_le_of_eq rfl rfl rfl rfl
  case doRecv =>
    obtain ⟨_, _, ⟨_, _, _, rfl, _⟩ | ⟨_, _, _, rfl, _⟩⟩ := callback_ok h
    · cases n <;> simp only [begun, Int.le_refl]
      split <;> omega
    · exact begun_le_of_eq rfl rfl rfl rfl
  case doSend =>
    rcases perform_ok h with ⟨_, rfl, _⟩ | ⟨_, _, _, _, _, h⟩
    · exact begun_le_of_eq rfl rfl rfl rfl
    · rcases h with ⟨_, _, rfl, _⟩ | ⟨_, _, rfl, _⟩ | ⟨_, _, _, _, rfl, _⟩
      · cases n <;> simp [begun]
      · exact begun_le_of_eq rfl rfl rfl rfl
      · exact begun_le_of_eq rfl rfl rfl rfl
  case resent => exact begun_le_setOperation (resent_ok h).left
  case sendError =>
    cases h
    exact begun_le_of_eq rfl rfl rfl rfl
  case postCloseConnection =>
    rcases postCloseConnection_ok h with ⟨rfl, _⟩ | ⟨_, _, _, _, _, _, _, _, _, rfl, _⟩
    · exact begun_le_of_eq rfl rfl rfl rfl
    · exact begun_le_of_eq rfl rfl rfl rfl
  case doCloseConnection =>
    obtain ⟨_, ⟨_, rfl⟩ | ⟨_, _, _, _, rfl⟩⟩ := doCloseConnection_ok h
    · cases n <;> simp [begun, done]
    · cases n <;> simp [begun, done]
  case find =>
    obtain ⟨rfl, _⟩ := find_ok h
    exact Int.le_refl _
  case bind =>
    rcases bindSocket_ok h with ⟨rfl, _⟩ | ⟨_, _, _, _, _, _, _, _, rfl, _⟩
    · exact Int.le_refl _
    · exact begun_le_of_eq rfl rfl rfl rfl
  case publish =>
    obtain ⟨_, _, _, _, _, _, _, _, rfl, _⟩ := publish_ok h
    exact begun_le_of_eq rfl rfl rfl rfl
  case create =>
    obtain ⟨_, _, _, _, _, rfl, _⟩ := create_ok h
    exact begun_le_of_eq rfl rfl rfl rfl
  case postSend =>
    obtain ⟨_, _, rfl, _⟩ := postSend_ok h
    exact Int.le_refl _
  case sent => exact begun_le_setOperation (sent_ok h).left

theorem begun_le_stopIOCP (h : m.stopIOCP = .ok (m', new)) : m.begun n ≤ m'.begun n := by
  unfold stopIOCP at h
  split at h
  case h_2 =>
    obtain ⟨_, _, _, rfl, _⟩ := postExit_ok h
    exact begun_le_of_eq rfl rfl rfl rfl
  case h_4 =>
    obtain ⟨_, _, _, _, _, _, rfl, _⟩ := deleteStandby_ok h
    exact begun_le_of_eq rfl rfl rfl rfl
  case h_5 => cases h
  all_goals
    cases h
    exact begun_le_of_eq rfl rfl rfl rfl

end Begun

end Module

namespace State

variable {s s' : State} {a : Action} {bufferSize : Int} {maxThreadNum threads standby : Nat}
  {actions : List Action}

def counted (s : State) : Action → Bool
  | .run i first second =>
    match s.items[i]? with
    | some (.thread _ task) => Module.Counted first second task
    | _                     => true
  | _                   => true

structure Counted (s : State) : Prop where
  valid       : s.Valid
  fits        : ∀ item ∈ s.items, item.Fits
  connections : s.connectNum + s.items.countP Item.uncounted =
    s.socketContextMap.size + s.normallyClosedNum
  callbacks   : s.callbackInvokedNum = s.calls.length

theorem Counted.start : (start bufferSize maxThreadNum threads standby).Counted where
  valid       := .start
  fits        := nofun
  connections := by simp [State.start]
  callbacks   := rfl

theorem Counted.step (hc : s.Counted) (hg : s.counted a) (h : s.step a = .ok s') : s'.Counted := by
  have hv := hc.valid.step h
  have hf := fits_step hc.valid hc.fits h
  obtain ⟨used, m', new, rest, hs, rfl⟩ := step_ok h
  clear h
  have hp := hs.perm
  have hn : s.toModule.Counts used m' new := by
    cases hs
    case initIOCP h =>
      obtain ⟨_, _, _, _, _, _, _, _, _, _, rfl, ⟨_, _, rfl⟩ | ⟨_, _, rfl⟩⟩ := Module.initIOCP_ok h
      · constructor <;> simp [Item.uncounted]
      · constructor <;> simp
    case stopIOCP h =>
      unfold Module.stopIOCP at h
      split at h
      case h_2 =>
        obtain ⟨_, _, _, rfl, rfl⟩ := Module.postExit_ok h
        unfold Module.PostQueuedCompletionStatus
        split <;> constructor <;> simp [Item.uncounted]
      case h_4 =>
        obtain ⟨_, _, _, _, _, _, rfl, rfl⟩ := Module.deleteStandby_ok h
        constructor <;> simp
      all_goals
        cases h
        try (constructor <;> simp)
    case destroy h =>
      obtain ⟨_, _, _, rfl, rfl⟩ := Module.destroy_ok h
      constructor <;> simp
    case complete h =>
      rcases Module.complete_ok h with ⟨rfl, rfl⟩ | ⟨_, _, _, _, _, _, rfl, rfl⟩ | ⟨_, _, rfl, rfl⟩ <;>
        constructor <;> simp [Item.uncounted]
    case run worker task hi h =>
      have hm := List.mem_of_getElem? hi
      simp only [counted, hi] at hg
      have count_pos {t : Token} (ht : t ∈ task.tokens) : 0 < s.ledger.tokens t :=
        List.count_pos_iff.mpr (List.mem_flatMap.mpr ⟨_, hm, ht⟩)
      refine Module.run_counts hg (hc.valid.typed _ hm) (fun q hq => ?_) (fun q own hq => ?_) h
      · exact fun hm => (hc.valid.ok q).enters (count_pos hq) (Module.member_iff.mpr hm)
      · have := (hc.valid.ok q).leaves (by
          have := count_pos hq
          cases own <;> omega)
        exact Module.member_iff.mp this.left
    all_goals constructor <;> simp [Item.uncounted, Module.createConnectContext]
  refine ⟨hv, hf, ?_, ?_⟩
  · have h₁ := hc.connections
    have h₂ := hn.connections
    simp only [hp.countP_eq, List.countP_append] at h₁ ⊢
    omega
  · have h₁ := hc.callbacks
    have h₂ := hn.callbacks
    show m'.callbackInvokedNum = m'.calls.length
    omega

theorem begun_le (n : Module.Number) (h : s.step a = .ok s') : s.begun n ≤ s'.begun n := by
  obtain ⟨used, m', new, rest, hs, rfl⟩ := step_ok h
  clear h
  change s.begun n ≤ m'.begun n
  cases hs
  case initIOCP h =>
    obtain ⟨_, _, _, _, _, _, _, _, _, _, rfl, _⟩ := Module.initIOCP_ok h
    exact Module.begun_le_of_eq rfl rfl rfl rfl
  case stopIOCP h => exact Module.begun_le_stopIOCP h
  case destroy h  =>
    obtain ⟨_, _, _, rfl, _⟩ := Module.destroy_ok h
    exact Module.begun_le_of_eq rfl rfl rfl rfl
  case complete h =>
    rcases Module.complete_ok h with ⟨rfl, _⟩ | ⟨_, _, _, _, _, _, rfl, _⟩ | ⟨_, _, rfl, _⟩
    · exact Int.le_refl _
    · exact Module.begun_le_of_eq rfl rfl rfl rfl
    · exact Int.le_refl _
  case spin       => cases n <;> simp [Module.begun]
  case run h      => exact Module.begun_le_run h
  all_goals exact Module.begun_le_of_eq rfl rfl rfl rfl

-- No worker is in a handler, and no close packet is in the queue.
def Quiet (s : State) : Prop :=
  (∀ task, .thread true task ∉ s.items) ∧ ∀ pSC, s.items.all (!·.closes pSC)

theorem Counted.uncounted (hc : s.Counted) (hq : s.Quiet) : s.items.countP Item.uncounted = 0 := by
  refine List.countP_eq_zero.mpr fun item hm hu => ?_
  have hf := hc.fits item hm
  cases item
  case operation => simp [Item.uncounted] at hu
  case packet    => simp [Item.uncounted] at hu
  case thread worker task =>
    cases task
    case process    =>
      cases hf
      exact hq.left _ hm
    case postAccept =>
      cases hf
      exact hq.left _ hm
    all_goals simp [Item.uncounted] at hu

-- `Quiet`, as far as the items tell.
def idles (s : State) : Bool :=
  s.items.all fun
    | .thread worker _ => !worker
    | .packet p        => !p.kind.isClose
    | _                => true

theorem quiet_of_idles (h : s.idles = true) : s.Quiet := by
  simp only [idles, List.all_eq_true] at h
  refine ⟨fun task hm => by simpa using h _ hm, fun pSC => List.all_eq_true.mpr fun item hm => ?_⟩
  have := h item hm
  cases item <;> simp_all [Item.closes]

end State

-- The module and its numbers in memory. An increment that a thread comes to is a load and a store, at once or
-- when other threads have gone on, in their own increments too.
structure Racing extends State where
  numbers : Module.Number → Counter

namespace Racing

inductive Action
  | act (a : Server8.Action)
  | load (n : Module.Number)
  | store (n : Module.Number) (i : Nat)

def start (bufferSize : Int) (maxThreadNum threads standby : Nat) : Racing where
  toState := .start bufferSize maxThreadNum threads standby
  numbers := fun _ => .zero

def step (r : Racing) : Action → Except Stop Racing
  | .act a     => do
    let s ← r.toState.step a
    return {
      toState := s
      numbers := fun n => (r.numbers n).begins (s.begun n - r.begun n).toNat }
  | .load n    => do
    let c ← need .disabled (r.numbers n).load
    return { r with numbers := Function.update r.numbers n c }
  | .store n i => do
    let c ← need .disabled ((r.numbers n).store i)
    return { r with numbers := Function.update r.numbers n c }

-- What the numbers need of a step, besides: the increments of a number do not overlap, and fit an `int`.
def counted (r : Racing) : Action → Bool
  | .act a     => r.toState.counted a
  | .load n    => (r.numbers n).Alone
  | .store n i => (r.numbers n).Fits i

structure Counted (r : Racing) : Prop where
  state   : r.toState.Counted
  numbers : ∀ n, (r.numbers n).Counts (r.begun n)

variable {r r' : Racing} {a : Action} {bufferSize : Int} {maxThreadNum threads standby : Nat}
  {actions : List Action}

theorem Counted.start : (start bufferSize maxThreadNum threads standby).Counted where
  state     := .start
  numbers n := by cases n <;> exact .zero

theorem Counted.update {n : Module.Number} {c : Counter} (hc : r.Counted) (h : c.Counts (r.begun n)) :
    Counted { r with numbers := Function.update r.numbers n c } where
  state     := hc.state
  numbers k := by
    show (Function.update r.numbers n c k).Counts (r.begun k)
    rw [Function.update_apply]
    split
    case isTrue hk => exact hk ▸ h
    case isFalse   => exact hc.numbers k

theorem Counted.step (hc : r.Counted) (hg : r.counted a) (h : r.step a = .ok r') : r'.Counted := by
  cases a
  case act a     =>
    obtain ⟨s, hs, h⟩ := bind_ok.mp h
    cases pure_ok.mp h
    refine ⟨hc.state.step hg hs, fun n => ?_⟩
    have hle := State.begun_le n hs
    have he : s.begun n = r.begun n + (s.begun n - r.begun n).toNat := by omega
    exact he ▸ (hc.numbers n).begins
  case load n    =>
    obtain ⟨c, hl, h⟩ := bind_ok.mp h
    cases pure_ok.mp h
    exact hc.update ((hc.numbers n).load (of_decide_eq_true hg) (need_ok.mp hl))
  case store n i =>
    obtain ⟨c, hs, h⟩ := bind_ok.mp h
    cases pure_ok.mp h
    exact hc.update ((hc.numbers n).store (of_decide_eq_true hg) (need_ok.mp hs))

-- No worker is in a handler or an increment, and no close packet is in the queue.
def Quiet (r : Racing) : Prop :=
  r.toState.Quiet ∧ ∀ n, (r.numbers n).Settled

def AddsUp (r : Racing) : Prop :=
  (r.numbers .connectNum).value.toInt =
      r.socketContextMap.size + (r.numbers .normallyClosedNum).value.toInt ∧
    (r.numbers .callbackInvokedNum).value.toInt = r.calls.length

theorem addsUp_along
    (hg : Along step (counted · ·) (start bufferSize maxThreadNum threads standby) actions)
    (h : Runs.run step (start bufferSize maxThreadNum threads standby) actions = .ok r)
    (hq : r.Quiet) : r.AddsUp := by
  have hc : r.Counted := invariant .start hg (fun _ _ _ hc hg h => hc.step hg h) h
  have value n : (r.numbers n).value.toInt = r.begun n := (hc.numbers n).settled (hq.right n)
  have hn := hc.state.uncounted hq.left
  have := hc.state.connections
  simp only [AddsUp, value, Module.begun]
  exact ⟨by omega, hc.state.callbacks⟩

def increment (n : Module.Number) : List Action :=
  [.load n, .store n 0]

-- A connection that is accepted, and one that sends nothing.
def accepts : List Action :=
  [.initIOCP true true, .initIOCP true true, .initIOCP true true, .complete 0 (.received [1]),
    .getQueuedCompletionStatus (some 0), .run 0 true true, .run 0 true true, .run 0 true true,
    .complete 0 (.received []), .getQueuedCompletionStatus (some 0), .run 0 true true,
    .run 0 true true].map .act ++ increment .normallyClosedNum

-- Two workers count their connections one after the other.
def counts : List Action :=
  accepts ++ increment .connectNum ++ increment .connectNum

-- `Quiet`, as far as the items and the numbers tell.
def idles (r : Racing) : Bool :=
  r.toState.idles && (r.numbers .connectNum).Settled && (r.numbers .normallyClosedNum).Settled &&
    (r.numbers .errorNum).Settled && (r.numbers .callbackInvokedNum).Settled

theorem quiet_of_idles (h : r.idles = true) : r.Quiet := by
  simp only [idles, Bool.and_eq_true, decide_eq_true_eq] at h
  obtain ⟨⟨⟨⟨hs, h₁⟩, h₂⟩, h₃⟩, h₄⟩ := h
  exact ⟨State.quiet_of_idles hs, fun n => by cases n <;> assumption⟩

theorem addsUp_counts :
    ∃ r, Runs.run step (start 8192 2 2 2) counts = .ok r ∧ (r.numbers .connectNum).value = 2 ∧ r.AddsUp := by
  have hg : Along step (counted · ·) (start 8192 2 2 2) counts := by decide +kernel
  obtain ⟨r, h, hi, hv⟩ : ∃ r, Runs.run step (start 8192 2 2 2) counts = .ok r ∧
      r.idles = true ∧ (r.numbers .connectNum).value = 2 := exists_ok (by decide +kernel)
  exact ⟨r, h, hv, addsUp_along hg h (quiet_of_idles hi)⟩

-- Both load the number before one of them stores it.
def overlaps : List Action :=
  accepts ++ [.load .connectNum, .load .connectNum, .store .connectNum 0, .store .connectNum 0]

theorem overlaps_not_addsUp :
    ∃ r, Runs.run step (start 8192 2 2 2) overlaps = .ok r ∧ r.Quiet ∧ ¬r.AddsUp := by
  obtain ⟨r, h, hi, hn⟩ : ∃ r, Runs.run step (start 8192 2 2 2) overlaps = .ok r ∧ r.idles = true ∧
      (r.numbers .connectNum).value.toInt ≠
        r.socketContextMap.size + (r.numbers .normallyClosedNum).value.toInt := exists_ok (by decide +kernel)
  exact ⟨r, h, quiet_of_idles hi, fun ha => hn ha.left⟩

-- An outbound connection, on which a packet is received.
def miscounts : List Action :=
  [.initIOCP true true, .createConnectContext true, .sendData 2 [1], .run 0 true true,
    .run 0 true true, .run 0 true true, .run 0 true true, .run 0 true true, .run 0 true true,
    .complete 1 (.received Packet.sample.createHeader.1), .getQueuedCompletionStatus (some 0),
    .run 0 true true, .run 0 true true, .run 0 true true].map .act

theorem miscounts_not_addsUp :
    ∃ r, Runs.run step (start 8192 1 1 0) miscounts = .ok r ∧ r.Quiet ∧
      (r.numbers .connectNum).value.toInt ≠
        r.socketContextMap.size + (r.numbers .normallyClosedNum).value.toInt ∧
      (r.numbers .callbackInvokedNum).value.toInt ≠ r.calls.length := by
  obtain ⟨r, h, hi, hm⟩ : ∃ r, Runs.run step (start 8192 1 1 0) miscounts = .ok r ∧ r.idles = true ∧
      (r.numbers .connectNum).value.toInt ≠
        r.socketContextMap.size + (r.numbers .normallyClosedNum).value.toInt ∧
      (r.numbers .callbackInvokedNum).value.toInt ≠ r.calls.length := exists_ok (by decide +kernel)
  exact ⟨r, h, quiet_of_idles hi, hm⟩

end Racing
end Server8
