import Mathlib.Data.List.Basic

-- An abstract account of the connections.

namespace Server8

-- What may be in flight for a connection: its receive, its entry into the map, and its close, which
-- the thread with the receive asked for or another one.
inductive Token
  | receive (pSC : Nat)
  | insert (pSC : Nat)
  | close (pSC : Nat) (own : Bool)
  deriving DecidableEq, Repr

-- Which contexts are bound to the port, in the map, and closing or deleted, and how often each token
-- is in flight.
structure Ledger where
  bound  : Nat → Prop
  member : Nat → Prop
  closed : Nat → Prop
  tokens : Token → Nat

namespace Ledger

open Token

def Moves (l : Ledger) (used new : List Token) (l' : Ledger) : Prop :=
  ∀ t, l'.tokens t + used.count t = l.tokens t + new.count t

-- The contexts stay bound, and closed.
structure Lasts (l l' : Ledger) : Prop where
  bound  : ∀ {p : Nat}, l.bound p → l'.bound p
  closed : ∀ {p : Nat}, l.bound p → l.closed p → l'.closed p

-- What one step of the module may do. A careful step does not drop a receive while the connection is
-- on its way into the map.
inductive Step (careful : Prop) (l l' : Ledger) : Prop
  | keep (bound : l'.bound = l.bound) (member : l'.member = l.member) (moves : l.Moves [] [] l')
  | drop (p : Nat) (bound : l'.bound = l.bound) (member : l'.member = l.member)
    (moves : l.Moves [receive p] [] l')
    (why : l'.closed p ∨ ¬l.member p ∧ (careful → l.tokens (insert p) = 0))
  | bind (p : Nat) (fresh : ¬l.bound p) (bound : ∀ q, l'.bound q ↔ l.bound q ∨ q = p)
    (member : l'.member = l.member) (moves : l.Moves [] [receive p, insert p] l')
  | insert (p : Nat) (lost : Bool) (bound : l'.bound = l.bound)
    (member : ∀ q, l'.member q ↔ l.member q ∨ q = p)
    (moves : l.Moves (insert p :: if lost then [receive p] else []) [] l')
    (care : careful → lost = false)
  | close (p : Nat) (own posted : Bool) (bound : l'.bound = l.bound) (member : l'.member = l.member)
    (mem : l.member p) (was : ¬l.closed p) (now : l'.closed p)
    (moves : l.Moves (if own then [receive p] else []) (if posted then [close p own] else []) l')
  | leave (p : Nat) (own : Bool) (bound : l'.bound = l.bound)
    (member : ∀ q, l'.member q ↔ l.member q ∧ q ≠ p) (moves : l.Moves [close p own] [] l')

-- A context is bound once, so it gets one receive and one entry; it leaves the map only through its
-- close, and there is one close.
structure Ok (l : Ledger) (p : Nat) : Prop where
  receive : l.tokens (receive p) ≤ 1
  insert  : l.tokens (insert p) ≤ 1
  close   : l.tokens (close p true) + l.tokens (close p false) ≤ 1
  enters  : 0 < l.tokens (Token.insert p) → ¬l.member p
  leaves  : 0 < l.tokens (Token.close p true) + l.tokens (Token.close p false) →
    l.member p ∧ l.closed p
  own     : 0 < l.tokens (Token.close p true) → l.tokens (Token.receive p) = 0
  bound   : 0 < l.tokens (Token.receive p) + l.tokens (Token.insert p) ∨ l.member p → l.bound p

-- A connection that is in the map, or on its way there, has its receive.
def Open (l : Ledger) (p : Nat) : Prop :=
  0 < l.tokens (insert p) ∨ l.member p → ¬l.closed p → 0 < l.tokens (receive p)

-- A context that is bound, but no connection.
structure Apart (l : Ledger) (p : Nat) : Prop where
  bound  : l.bound p
  member : ¬l.member p
  none   : l.tokens (receive p) = 0 ∧ l.tokens (Token.insert p) = 0

variable {careful : Prop} {l l' : Ledger} {p : Nat}

-- How the tokens of one context move.
theorem Moves.counts {used new : List Token} (h : l.Moves used new l') (p : Nat) :
    (l'.tokens (receive p) + used.count (receive p) = l.tokens (receive p) + new.count (receive p) ∧
      l'.tokens (insert p) + used.count (insert p) = l.tokens (insert p) + new.count (insert p)) ∧
    ∀ own, l'.tokens (close p own) + used.count (close p own) =
      l.tokens (close p own) + new.count (close p own) :=
  ⟨⟨h _, h _⟩, fun _ => h _⟩

-- The only close of a connection is posted while it is open.
theorem Step.closes (own : Bool) (hs : l.Step careful l')
    (h : l.tokens (Token.close p own) < l'.tokens (Token.close p own)) :
    l.member p ∧ ¬l.closed p ∧ l'.closed p := by
  cases hs
  case close q own' posted bound member mem was now moves =>
    have hm := moves (Token.close p own)
    cases own' <;> cases posted <;>
      simp only [List.count_nil, List.count_cons, beq_iff_eq, Bool.false_eq_true, if_true,
        if_false] at hm <;> grind
  case insert q lost bound member moves care =>
    have hm := moves (Token.close p own)
    cases lost <;> simp at hm <;> omega
  case keep moves =>
    have hm := moves (Token.close p own)
    simp at hm
    omega
  case drop moves _ =>
    have hm := moves (Token.close p own)
    simp at hm
    omega
  case bind moves =>
    have hm := moves (Token.close p own)
    simp at hm
    omega
  case leave moves =>
    have hm := moves (Token.close p own)
    simp only [List.count_nil] at hm
    omega

theorem Ok.step (h : l.Ok p) (lasts : l.Lasts l') (hs : l.Step careful l') : l'.Ok p := by
  have hb := lasts.bound (p := p)
  have hc := lasts.closed (p := p)
  have ⟨h₁, h₂, h₃, h₄, h₅, h₆, h₇⟩ := h
  cases hs
  case keep bound member moves =>
    have hm := moves.counts p
    simp only [List.count_nil, Bool.forall_bool] at hm
    constructor <;> grind
  case drop q bound member moves why =>
    have hm := moves.counts p
    simp only [List.count_nil, List.count_cons, Bool.forall_bool, beq_iff_eq] at hm
    constructor <;> grind
  case bind q fresh bound member moves =>
    have hm := moves.counts p
    simp only [List.count_nil, List.count_cons, Bool.forall_bool, beq_iff_eq] at hm
    constructor <;> grind
  case insert q lost bound member moves care =>
    have hm := moves.counts p
    cases lost <;>
      simp only [List.count_nil, List.count_cons, Bool.forall_bool, beq_iff_eq, Bool.false_eq_true, if_true,
        if_false] at hm <;>
      constructor <;> grind
  case close q own posted bound member mem was now moves =>
    have hm := moves.counts p
    cases own <;> cases posted <;>
      simp only [List.count_nil, List.count_cons, Bool.forall_bool, beq_iff_eq, Bool.false_eq_true, if_true,
        if_false] at hm <;>
      constructor <;> grind
  case leave q own bound member moves =>
    have hm := moves.counts p
    cases own <;>
      simp only [List.count_nil, List.count_cons, Bool.forall_bool, beq_iff_eq] at hm <;>
      constructor <;> grind

theorem Open.step (h : l.Open p) (ok : l.Ok p) (lasts : l.Lasts l') (hs : l.Step True l') :
    l'.Open p := by
  have hc := lasts.closed (p := p)
  have ⟨h₁, h₂, h₃, h₄, h₅, h₆, h₇⟩ := ok
  unfold Open at *
  cases hs
  case keep bound member moves =>
    have hm := moves.counts p
    simp only [List.count_nil] at hm
    grind
  case drop q bound member moves why =>
    have hm := moves.counts p
    simp only [List.count_nil, List.count_cons, beq_iff_eq] at hm
    grind
  case bind q fresh bound member moves =>
    have hm := moves.counts p
    simp only [List.count_nil, List.count_cons, beq_iff_eq] at hm
    grind
  case insert q lost bound member moves care =>
    have hm := moves.counts p
    simp only [care trivial, List.count_nil, List.count_cons, beq_iff_eq] at hm
    grind
  case close q own posted bound member mem was now moves =>
    have hm := moves.counts p
    cases own <;> cases posted <;>
      simp only [List.count_nil, List.count_cons, beq_iff_eq, Bool.false_eq_true, if_true,
        if_false] at hm <;> grind
  case leave q own bound member moves =>
    have hm := moves.counts p
    simp only [List.count_nil, List.count_cons, beq_iff_eq] at hm
    grind

theorem Apart.step (h : l.Apart p) (lasts : l.Lasts l') (hs : l.Step careful l') : l'.Apart p := by
  have hb := lasts.bound h.bound
  have ⟨h₁, h₂, h₃⟩ := h
  cases hs
  case keep bound member moves =>
    have hm := moves.counts p
    simp only [List.count_nil] at hm
    constructor <;> grind
  case drop q bound member moves why =>
    have hm := moves.counts p
    simp only [List.count_nil, List.count_cons, beq_iff_eq] at hm
    constructor <;> grind
  case bind q fresh bound member moves =>
    have hm := moves.counts p
    simp only [List.count_nil, List.count_cons, beq_iff_eq] at hm
    constructor <;> grind
  case insert q lost bound member moves care =>
    have hm := moves.counts p
    cases lost <;>
      simp only [List.count_nil, List.count_cons, beq_iff_eq, Bool.false_eq_true, if_true,
        if_false] at hm <;>
      constructor <;> grind
  case close q own posted bound member mem was now moves =>
    have hm := moves.counts p
    cases own <;> cases posted <;>
      simp only [List.count_nil, List.count_cons, beq_iff_eq, Bool.false_eq_true, if_true,
        if_false] at hm <;>
      constructor <;> grind
  case leave q own bound member moves =>
    have hm := moves.counts p
    simp only [List.count_nil, List.count_cons, beq_iff_eq] at hm
    constructor <;> grind

end Ledger
end Server8
