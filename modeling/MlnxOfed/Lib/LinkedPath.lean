/-
Singly linked paths through an array of links, with both ends known: taking the first element, appending
after the last.
-/

import Mathlib.Data.List.Chain
import Mathlib.Data.List.Nodup

namespace MlnxOfed.Lib

open Function Option List

variable {α : Type*} {next : α → α} {path front : List α} {first last : α}

def Linked (next : α → α) (path : List α) : Prop :=
  path.IsChain fun here there => next here = there

theorem Linked.tail {rest} (linked : Linked next (first :: rest)) : Linked next rest :=
  List.IsChain.tail linked

theorem Linked.second {there rest} (linked : Linked next (first :: there :: rest)) :
    next first = there := by
  unfold Linked at linked
  rw [isChain_cons_cons] at linked
  exact linked.1

theorem Linked.congr {other} (linked : Linked next path) (same : ∀ x ∈ path.dropLast, other x = next x) :
    Linked other path := by
  induction path with
  | nil => exact isChain_nil
  | cons here rest ih =>
    cases rest with
    | nil => exact isChain_singleton _
    | cons there rest =>
      have later : Linked other (there :: rest) := by
        refine ih linked.tail ?_
        intro x inside
        exact same x (by rw [dropLast_cons₂]; exact .tail _ inside)
      unfold Linked at *
      rw [isChain_cons_cons]
      refine ⟨?_, later⟩
      rw [same here (by rw [dropLast_cons₂]; exact .head _)]
      exact (isChain_cons_cons.mp linked).1

theorem Linked.append [DecidableEq α] (linked : Linked next (front ++ [last])) (apart : (front ++ [last]).Nodup)
    (x : α) : Linked (update next last x) (front ++ [last] ++ [x]) := by
  have kept : Linked (update next last x) (front ++ [last]) := by
    refine linked.congr ?_
    intro y inside
    rw [dropLast_concat] at inside
    have other : y ≠ last := by
      intro same
      exact disjoint_of_nodup_append apart (same ▸ inside) (mem_singleton_self _)
    exact update_of_ne other _ _
  unfold Linked at *
  rw [isChain_append]
  refine ⟨kept, isChain_singleton _, ?_⟩
  intro y isLast z isNew
  rw [getLast?_concat, mem_def, some.injEq] at isLast
  rw [head?_cons, mem_def, some.injEq] at isNew
  rw [← isLast, ← isNew, update_self]

end MlnxOfed.Lib
