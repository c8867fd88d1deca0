/-
Successor chains over the occupied points of a linear order, where a point may only be followed by some of
the later ones.

When a point is occupied or vacated, the chain is patched at the closest occupied predecessor only. Every
other point keeps its successor if the predecessor lies on the way from it, and the predecessor gets the
right one if nothing between the two is occupied.
-/

import Mathlib.Algebra.Order.Ring.Int

namespace MlnxOfed.Lib

variable {ι : Type*} [LinearOrder ι]

structure Follows (ι : Type*) [LinearOrder ι] where
  rel : ι → ι → Prop
  lt : ∀ {left right}, rel left right → left < right
  trans : ∀ {left middle right}, rel left middle → rel middle right → rel left right

namespace Follows

variable (follows : Follows ι) (occupied : Set ι)

structure IsNext (left right : ι) : Prop where
  member : right ∈ occupied
  rel : follows.rel left right
  least : ∀ other ∈ occupied, follows.rel left other → right ≤ other

structure IsPrev (right left : ι) : Prop where
  member : left ∈ occupied
  rel : follows.rel left right
  greatest : ∀ other ∈ occupied, follows.rel other right → other ≤ left

/-- A change at `point` can be patched at its predecessor alone. -/
structure Patchable (point : ι) : Prop where
  /-- Nothing that may follow the predecessor is occupied before `point`. -/
  clear : ∀ prev, follows.IsPrev occupied point prev →
    ∀ other ∈ occupied, follows.rel prev other → point ≤ other
  /-- Every other point that `point` may follow is followed by the predecessor. -/
  relay : ∀ prev, follows.IsPrev occupied point prev →
    ∀ other ∈ occupied, follows.rel other point → other ≠ prev → follows.rel other prev

variable {follows occupied} {point prev : ι}

theorem IsNext.unique {left first second} (isFirst : follows.IsNext occupied left first)
    (isSecond : follows.IsNext occupied left second) : first = second :=
  le_antisymm (isFirst.least second isSecond.member isSecond.rel)
    (isSecond.least first isFirst.member isFirst.rel)

variable (patchable : follows.Patchable occupied point)

include patchable

theorem Patchable.next_of_prev (isPrev : follows.IsPrev occupied point prev) :
    follows.IsNext (insert point occupied) prev point where
  member := Set.mem_insert point occupied
  rel := isPrev.rel
  least other mem related := by
    rcases Set.mem_insert_iff.mp mem with same | old
    · exact le_of_eq same.symm
    · exact patchable.clear prev isPrev other old related

theorem Patchable.next_insert_iff {left} (leftIn : left ∈ occupied)
    (notPrev : ¬ follows.IsPrev occupied point left)
    (hasPrev : follows.rel left point → ∃ prev, follows.IsPrev occupied point prev) (right : ι) :
    follows.IsNext (insert point occupied) left right ↔ follows.IsNext (occupied \ {point}) left right := by
  -- Either `point` may not follow `left`, or the predecessor stands before it.
  have old (related : follows.rel left point) : ∃ prev ∈ occupied, follows.rel left prev ∧ prev < point := by
    obtain ⟨prev, isPrev⟩ := hasPrev related
    have apart : left ≠ prev := fun same => notPrev (same ▸ isPrev)
    exact ⟨prev, isPrev.member, patchable.relay prev isPrev left leftIn related apart, follows.lt isPrev.rel⟩
  constructor
  · intro next
    have apart : right ≠ point := by
      intro same
      subst same
      obtain ⟨prev, prevIn, related, early⟩ := old next.rel
      exact absurd (next.least prev (Set.mem_insert_of_mem _ prevIn) related) (not_le.mpr early)
    refine ⟨⟨?_, apart⟩, next.rel, ?_⟩
    · exact (Set.mem_insert_iff.mp next.member).resolve_left apart
    · intro other otherIn related
      exact next.least other (Set.mem_insert_of_mem _ otherIn.1) related
  intro next
  refine ⟨Set.mem_insert_of_mem _ next.member.1, next.rel, ?_⟩
  intro other otherIn related
  by_cases same : other = point
  · subst same
    obtain ⟨prev, prevIn, relatedPrev, early⟩ := old related
    exact le_trans (next.least prev ⟨prevIn, ne_of_lt early⟩ relatedPrev) (le_of_lt early)
  · exact next.least other ⟨(Set.mem_insert_iff.mp otherIn).resolve_left same, same⟩ related

/-- With `point` vacated, its predecessor is followed by what followed it, if no later point may follow the
predecessor only. -/
theorem Patchable.next_bypass (isPrev : follows.IsPrev occupied point prev)
    (onward : ∀ other ∈ occupied, point < other → follows.rel prev other → follows.rel point other)
    (right : ι) :
    follows.IsNext (occupied \ {point}) prev right ↔ follows.IsNext (occupied \ {point}) point right := by
  have same other (member : other ∈ occupied \ {point}) : follows.rel prev other ↔ follows.rel point
      other := by
    constructor
    · intro related
      have late := patchable.clear prev isPrev other member.1 related
      exact onward other member.1 (lt_of_le_of_ne late (Ne.symm member.2)) related
    · intro related
      exact follows.trans isPrev.rel related
  constructor
  · intro next
    exact ⟨next.member, (same right next.member).mp next.rel, fun other member related =>
      next.least other member ((same other member).mpr related)⟩
  · intro next
    exact ⟨next.member, (same right next.member).mpr next.rel, fun other member related =>
      next.least other member ((same other member).mp related)⟩

omit patchable

theorem next_self_iff (follows : Follows ι) (occupied : Set ι) (point right : ι) :
    follows.IsNext (insert point occupied) point right ↔ follows.IsNext (occupied \ {point}) point right := by
  have irrefl : ¬ follows.rel point point := fun related => lt_irrefl _ (follows.lt related)
  constructor
  · intro next
    have apart : right ≠ point := fun same => irrefl (same ▸ next.rel)
    refine ⟨⟨(Set.mem_insert_iff.mp next.member).resolve_left apart, apart⟩, next.rel, ?_⟩
    intro other member related
    exact next.least other (Set.mem_insert_of_mem _ member.1) related
  intro next
  refine ⟨Set.mem_insert_of_mem _ next.member.1, next.rel, ?_⟩
  intro other member related
  have apart : other ≠ point := fun same => irrefl (same ▸ related)
  exact next.least other ⟨(Set.mem_insert_iff.mp member).resolve_left apart, apart⟩ related

end Follows

end MlnxOfed.Lib
