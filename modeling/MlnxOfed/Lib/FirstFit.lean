/-
First fit: room for a span among spans listed in order below a limit; those at or past the limit come last,
in any order.
-/

import Mathlib.Algebra.Order.Ring.Int

namespace MlnxOfed.Lib

open List

structure Span where
  start : Nat
  size : Nat
  deriving DecidableEq

namespace Span

def stop (span : Span) : Nat := span.start + span.size

def Disjoint (left right : Span) : Prop := left.stop ≤ right.start ∨ right.stop ≤ left.start

instance (left right : Span) : Decidable (left.Disjoint right) :=
  inferInstanceAs (Decidable (_ ∨ _))

def Meets (left right : Span) : Prop := left.start < right.stop ∧ right.start < left.stop

def OrderedBelow (limit : Nat) (left right : Span) : Prop :=
  left.stop ≤ right.start ∨ (limit ≤ left.start ∧ limit ≤ right.start)

/-- No span of the size below the limit, from `candidate` on, is free. -/
def NoGap (limit size candidate : Nat) (spans : List Span) : Prop :=
  ∀ start, candidate ≤ start → start + size ≤ limit → ∃ span ∈ spans, span.Meets ⟨start, size⟩

end Span

def firstFit (size candidate : Nat) : List Span → Nat × Nat
  | [] => (candidate, 0)
  | span :: rest =>
    if candidate + size > span.start then
      let later := firstFit size span.stop rest
      (later.1, later.2 + 1)
    else (candidate, 0)

section FirstFit

variable {limit size candidate : Nat} {spans : List Span}

/-- What a search that starts at `candidate` may assume about the spans that are left. -/
def Span.Ahead (limit candidate : Nat) (spans : List Span) : Prop :=
  ∀ span ∈ spans, candidate ≤ span.start ∨ (limit ≤ candidate ∧ limit ≤ span.start)

theorem Span.Ahead.zero (limit spans) : Span.Ahead limit 0 spans := fun _ _ => .inl (Nat.zero_le _)

theorem Span.Ahead.stop {span : Span} (ordered : ∀ later ∈ spans, span.OrderedBelow limit later) :
    Span.Ahead limit span.stop spans := by
  intro later mem
  rcases ordered later mem with below | ⟨past, laterPast⟩
  · exact .inl below
  · exact .inr ⟨le_trans past (Nat.le_add_right _ _), laterPast⟩

theorem firstFit_room (pos : 0 < size) (ordered : spans.Pairwise (Span.OrderedBelow limit))
    (ahead : Span.Ahead limit candidate spans) (below : (firstFit size candidate spans).1 + size ≤ limit) :
    candidate ≤ (firstFit size candidate spans).1 ∧ (∀ span ∈ spans.take (firstFit size candidate spans).2,
        span.stop ≤ (firstFit size candidate spans).1) ∧
      (∀ span ∈ spans.drop (firstFit size candidate spans).2,
        (firstFit size candidate spans).1 + size ≤ span.start) := by
  induction spans generalizing candidate with
  | nil => exact ⟨le_rfl, by simp, by simp⟩
  | cons span rest ih =>
    obtain ⟨first, others⟩ := pairwise_cons.mp ordered
    by_cases passed : candidate + size > span.start
    · rw [firstFit, if_pos passed] at below ⊢
      obtain ⟨low, old, behind⟩ := ih others (Span.Ahead.stop first) below
      have startLe : span.start ≤ span.stop := Nat.le_add_right _ _
      refine ⟨?_, ?_, behind⟩
      · rcases ahead span (.head _) with early | ⟨_, past⟩
        · exact le_trans early (le_trans startLe low)
        · simp only at below
          omega
      · intro other mem
        rcases mem_cons.mp mem with rfl | later
        · exact low
        · exact old other later
    rw [firstFit, if_neg passed] at below ⊢
    refine ⟨le_rfl, by simp, ?_⟩
    intro other mem
    rcases mem_cons.mp mem with rfl | later
    · exact Nat.le_of_not_lt passed
    · rcases first other later with next | ⟨_, past⟩
      · have startLe : span.start ≤ span.stop := Nat.le_add_right _ _
        omega
      · omega

theorem firstFit_noGap (ordered : spans.Pairwise (Span.OrderedBelow limit))
    (beyond : limit < (firstFit size candidate spans).1 + size) :
    Span.NoGap limit size candidate spans := by
  induction spans generalizing candidate with
  | nil =>
    intro start low fits
    simp only [firstFit] at beyond
    omega
  | cons span rest ih =>
    obtain ⟨_, others⟩ := pairwise_cons.mp ordered
    intro start low fits
    by_cases passed : candidate + size > span.start
    · rw [firstFit, if_pos passed] at beyond
      by_cases within : start < span.stop
      · refine ⟨span, .head _, ?_, within⟩
        change span.start < start + size
        omega
      · obtain ⟨other, mem, meets⟩ := ih others beyond start (Nat.le_of_not_lt within) fits
        exact ⟨other, mem_cons_of_mem _ mem, meets⟩
    · rw [firstFit, if_neg passed] at beyond
      omega

theorem firstFit_ordered (pos : 0 < size) (ordered : spans.Pairwise (Span.OrderedBelow limit))
    (below : (firstFit size 0 spans).1 + size ≤ limit) :
    (spans.take (firstFit size 0 spans).2 ++
      ⟨(firstFit size 0 spans).1, size⟩ :: spans.drop (firstFit size 0 spans).2).Pairwise
        (Span.OrderedBelow limit) := by
  obtain ⟨_, old, behind⟩ := firstFit_room pos ordered (Span.Ahead.zero _ _) below
  have split := ordered
  rw [← take_append_drop (firstFit size 0 spans).2 spans, pairwise_append] at split
  obtain ⟨front, back, across⟩ := split
  refine pairwise_append.mpr ⟨front, pairwise_cons.mpr ⟨?_, back⟩, ?_⟩
  · exact fun span mem => .inl (behind span mem)
  · intro span mem other otherMember
    rcases mem_cons.mp otherMember with rfl | later
    · exact .inl (old span mem)
    · exact across span mem other later

end FirstFit

end MlnxOfed.Lib
