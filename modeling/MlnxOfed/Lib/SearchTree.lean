/-
Binary search trees over keys that fall from left to right, as a search sees them. Rebalancing is left open:
only the order of the values matters.
-/

import Mathlib.Algebra.Order.Ring.Int

namespace MlnxOfed.Lib

open List

inductive SearchTree (α : Type*) where
  | leaf
  | node (left : SearchTree α) (value : α) (right : SearchTree α)

namespace SearchTree

variable {α κ : Type*} [LinearOrder κ] {key : α → κ}

def toList : SearchTree α → List α
  | leaf => []
  | node left value right => left.toList ++ value :: right.toList

def search (key : α → κ) (wanted : κ) : SearchTree α → Option α
  | leaf => none
  | node left value right =>
    if key value < wanted then left.search key wanted
    else if wanted < key value then right.search key wanted
    else some value

def link (key : α → κ) (wanted : κ) (new : α) : SearchTree α → SearchTree α
  | leaf => node leaf new leaf
  | node left value right =>
    if key value < wanted then node (left.link key wanted new) value right
    else if wanted < key value then node left value (right.link key wanted new)
    else node left value right

def Sorted (key : α → κ) (values : List α) : Prop :=
  values.Pairwise fun before after => key after < key before

variable {tree : SearchTree α}

theorem search_eq_some (sorted : Sorted key tree.toList) {wanted}
    {value} : tree.search key wanted = some value ↔ value ∈ tree.toList ∧ key value = wanted := by
  induction tree with
  | leaf => simp [search, toList]
  | node left here right ihLeft ihRight =>
    obtain ⟨leftSorted, rest, across⟩ := pairwise_append.mp sorted
    obtain ⟨below, rightSorted⟩ := pairwise_cons.mp rest
    rw [search, toList, mem_append, mem_cons]
    split
    · rename_i small
      rw [ihLeft leftSorted]
      constructor
      · rintro ⟨mem, same⟩
        exact ⟨.inl mem, same⟩
      rintro ⟨mem | rfl | mem, same⟩
      · exact ⟨mem, same⟩
      · exact absurd same (ne_of_lt small)
      · have under := below value mem
        rw [same] at under
        exact absurd small (lt_asymm under)
    rename_i notSmall
    split
    · rename_i large
      rw [ihRight rightSorted]
      constructor
      · rintro ⟨mem, same⟩
        exact ⟨.inr (.inr mem), same⟩
      rintro ⟨mem | rfl | mem, same⟩
      · have beside := across value mem here (.head _)
        rw [same] at beside
        exact absurd large (lt_asymm beside)
      · exact absurd same (ne_of_gt large)
      · exact ⟨mem, same⟩
    rename_i notLarge
    have same : key here = wanted := le_antisymm (not_lt.mp notLarge) (not_lt.mp notSmall)
    constructor
    · intro found
      obtain rfl := Option.some.inj found
      exact ⟨.inr (.inl rfl), same⟩
    rintro ⟨mem | rfl | mem, equal⟩
    · have beside := across value mem here (.head _)
      rw [same, equal] at beside
      exact absurd beside (lt_irrefl _)
    · rfl
    · have under := below value mem
      rw [same, equal] at under
      exact absurd under (lt_irrefl _)

theorem link_mem {wanted new} (missing : tree.search key wanted = none) {value} :
    value ∈ (tree.link key wanted new).toList ↔ value = new ∨ value ∈ tree.toList := by
  induction tree with
  | leaf => simp [link, toList]
  | node left here right ihLeft ihRight =>
    rw [search] at missing
    rw [link]
    split at missing
    · rename_i small
      rw [if_pos small, toList, mem_append, ihLeft missing, toList, mem_append, or_assoc]
    rename_i notSmall
    split at missing
    · rename_i large
      rw [if_neg notSmall, if_pos large, toList, mem_append, mem_cons,
        ihRight missing, toList, mem_append, mem_cons]
      constructor
      · rintro (old | rfl | rfl | old)
        · exact .inr (.inl old)
        · exact .inr (.inr (.inl rfl))
        · exact .inl rfl
        · exact .inr (.inr (.inr old))
      · rintro (rfl | old | rfl | old)
        · exact .inr (.inr (.inl rfl))
        · exact .inl old
        · exact .inr (.inl rfl)
        · exact .inr (.inr (.inr old))
    · exact absurd missing (by simp)

theorem link_sorted {new} (sorted : Sorted key tree.toList) (missing : tree.search key (key new) = none) :
    Sorted key (tree.link key (key new) new).toList := by
  induction tree with
  | leaf => exact pairwise_singleton _ _
  | node left here right ihLeft ihRight =>
    obtain ⟨leftSorted, rest, across⟩ := pairwise_append.mp sorted
    obtain ⟨below, rightSorted⟩ := pairwise_cons.mp rest
    rw [search] at missing
    rw [link]
    split at missing
    · rename_i small
      rw [if_pos small]
      refine pairwise_append.mpr ⟨ihLeft leftSorted missing, rest, ?_⟩
      intro value mem other otherMember
      rcases (link_mem missing).mp mem with rfl | old
      · rcases mem_cons.mp otherMember with rfl | later
        · exact small
        · exact lt_trans (below other later) small
      · exact across value old other otherMember
    rename_i notSmall
    split at missing
    · rename_i large
      rw [if_neg notSmall, if_pos large]
      refine pairwise_append.mpr ⟨leftSorted, pairwise_cons.mpr ⟨?_, ihRight rightSorted missing⟩, ?_⟩
      · intro value mem
        rcases (link_mem missing).mp mem with rfl | old
        · exact large
        · exact below value old
      intro value mem other otherMember
      rcases mem_cons.mp otherMember with rfl | later
      · exact across value mem other (.head _)
      · rcases (link_mem missing).mp later with rfl | old
        · exact lt_trans large (across value mem here (.head _))
        · exact across value mem other (.tail _ old)
    · exact absurd missing (by simp)

theorem search_link_congr {other} (same : ∀ value ∈ tree.toList, key value = other value) (wanted : κ) :
    tree.search key wanted = tree.search other wanted ∧
      ∀ new, tree.link key wanted new = tree.link other wanted new := by
  induction tree with
  | leaf => exact ⟨rfl, fun _ => rfl⟩
  | node left here right ihLeft ihRight =>
    have own := same here (mem_append_right _ (.head _))
    have inLeft := ihLeft fun value mem => same value (mem_append_left _ mem)
    have inRight := ihRight fun value mem =>
      same value (mem_append_right _ (.tail _ mem))
    refine ⟨?_, fun new => ?_⟩
    · rw [search, search, own, inLeft.1, inRight.1]
    · rw [link, link, own, inLeft.2, inRight.2]

structure Balance (α : Type*) [DecidableEq α] where
  insertColor : SearchTree α → SearchTree α
  erase : α → SearchTree α → SearchTree α
  insertColor_toList : ∀ tree, (insertColor tree).toList = tree.toList
  erase_toList : ∀ value tree, (erase value tree).toList = tree.toList.erase value

def ofList : List α → SearchTree α
  | [] => leaf
  | value :: rest => node leaf value (ofList rest)

private theorem ofList_toList (values : List α) : (ofList values).toList = values := by
  induction values with
  | nil => rfl
  | cons value rest ih => exact congrArg (value :: ·) ih

def Balance.right [DecidableEq α] : Balance α where
  insertColor := id
  erase value tree := ofList (tree.toList.erase value)
  insertColor_toList _ := rfl
  erase_toList _ _ := ofList_toList _

end SearchTree

end MlnxOfed.Lib
