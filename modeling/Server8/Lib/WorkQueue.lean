import Mathlib.Algebra.Order.Group.Multiset
import Mathlib.Data.List.Nodup
import Mathlib.Tactic.Abel

-- What happens to the elements of a queue that is worked off by several hands: each element is
-- appended once, taken from the front by one hand, and in the end delivered or dropped.

structure WorkQueue (ε : Type) where
  appended  : List ε
  taken     : List ε
  queue     : List ε
  held      : Multiset ε
  delivered : Multiset ε
  dropped   : Multiset ε

namespace WorkQueue

variable {ε : Type} {q q' : WorkQueue ε}

def empty : WorkQueue ε where
  appended  := []
  taken     := []
  queue     := []
  held      := 0
  delivered := 0
  dropped   := 0

inductive Step (q : WorkQueue ε) : WorkQueue ε → Prop
  | keep    : Step q q
  | append  {e : ε} : e ∉ q.appended →
      Step q { q with appended := q.appended ++ [e], queue := q.queue ++ [e] }
  | take    {e : ε} {rest : List ε} {held : Multiset ε} : q.queue = e :: rest → held = e ::ₘ q.held →
      Step q { q with taken := q.taken ++ [e], queue := rest, held }
  | deliver {e : ε} {held delivered : Multiset ε} : q.held = e ::ₘ held →
      delivered = e ::ₘ q.delivered → Step q { q with held, delivered }
  | drop    {e : ε} {held dropped : Multiset ε} : q.held = e ::ₘ held → dropped = e ::ₘ q.dropped →
      Step q { q with held, dropped }

-- Nothing is lost, doubled or overtaken.
structure Conserved (q : WorkQueue ε) : Prop where
  conserved : (q.appended : Multiset ε) = q.queue + q.held + q.delivered + q.dropped
  once      : q.appended.Nodup
  order     : q.appended = q.taken ++ q.queue

theorem Conserved.empty : (empty : WorkQueue ε).Conserved where
  conserved := rfl
  once      := .nil
  order     := rfl

theorem Conserved.step (h : q.Conserved) (hs : q.Step q') : q'.Conserved := by
  cases hs
  case keep => exact h
  case append e he =>
    refine ⟨?_, ?_, ?_⟩
    · simp only [← Multiset.coe_add, h.conserved]
      abel
    · exact h.once.append (List.nodup_singleton e) (List.disjoint_singleton.mpr he)
    · rw [h.order, List.append_assoc]
  case take e rest held hq hh =>
    have hc := h.conserved
    have ho := h.order
    rw [hq] at hc ho
    refine ⟨?_, h.once, ?_⟩
    · rw [hc, hh, ← Multiset.cons_coe, Multiset.cons_add, Multiset.add_cons]
    · rw [ho, List.append_assoc, List.singleton_append]
  case deliver e held delivered hh hd =>
    have hc := h.conserved
    rw [hh] at hc
    refine ⟨?_, h.once, h.order⟩
    rw [hc, hd]
    simp only [Multiset.add_cons, Multiset.cons_add]
  case drop e held dropped hh hd =>
    have hc := h.conserved
    rw [hh] at hc
    refine ⟨?_, h.once, h.order⟩
    rw [hc, hd]
    simp only [Multiset.add_cons, Multiset.cons_add]

-- The four places share no element, and none holds one twice.
theorem Conserved.nodup (h : q.Conserved) :
    ((q.queue : Multiset ε) + q.held + q.delivered + q.dropped).Nodup :=
  h.conserved ▸ Multiset.coe_nodup.mpr h.once

end WorkQueue
