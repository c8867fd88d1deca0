/-
Lists of items with distinct keys: changing or removing one, up to a permutation that puts it first.
-/

import Mathlib.Algebra.Order.Ring.Int
import Mathlib.Data.List.Perm.Basic
import Mathlib.Data.List.Nodup

namespace MlnxOfed.Lib

open List

variable {Item Key : Type*} [DecidableEq Key] (key : Item → Key)

def findKey (items : List Item) (wanted : Key) : Option Item :=
  items.find? fun item => key item = wanted

def removeKey (items : List Item) (gone : Key) : List Item :=
  items.filter fun item => key item ≠ gone

def updateKey (items : List Item) (wanted : Key) (change : Item → Item) : List Item :=
  items.map fun item => if key item = wanted then change item else item

variable {key} {items : List Item} {item : Item}

theorem mem_removeKey {gone other} :
    other ∈ removeKey key items gone ↔ other ∈ items ∧ key other ≠ gone := by
  rw [removeKey, mem_filter, decide_eq_true_eq]

theorem removeKey_of_not_mem {gone} (absent : gone ∉ items.map key) : removeKey key items gone = items := by
  refine filter_eq_self.mpr ?_
  intro other mem
  rw [decide_eq_true_eq]
  exact fun same => absent (same ▸ mem_map_of_mem mem)

theorem perm_cons_removeKey (distinct : (items.map key).Nodup) (mem : item ∈ items) :
    items.Perm (item :: removeKey key items (key item)) := by
  induction items with
  | nil => cases mem
  | cons head tail ih =>
    rw [map_cons, nodup_cons] at distinct
    rcases mem_cons.mp mem with rfl | inTail
    · have keep : removeKey key (item :: tail) (key item) = tail := by
        rw [removeKey, filter_cons_of_neg (by simp)]
        exact removeKey_of_not_mem distinct.1
      rw [keep]
    have apart : key head ≠ key item := fun same =>
      distinct.1 (same ▸ mem_map_of_mem inTail)
    have keep : removeKey key (head :: tail) (key item) = head :: removeKey key tail (key item) :=
      filter_cons_of_pos (by simpa using apart)
    rw [keep]
    exact ((ih distinct.2 inTail).cons head).trans (.swap _ _ _)

theorem updateKey_perm (apart : (items.map key).Nodup) (mem : item ∈ items) (change : Item → Item) :
    (updateKey key items (key item) change).Perm (change item :: removeKey key items (key item)) := by
  have perm := (perm_cons_removeKey apart mem).map
    fun other => if key other = key item then change other else other
  refine perm.trans ?_
  rw [map_cons, if_pos rfl]
  refine .cons _ (Perm.of_eq ?_)
  refine (map_congr_left ?_).trans (map_id _)
  intro other inRest
  exact if_neg (mem_removeKey.mp inRest).2

theorem mem_of_findKey {wanted} (found : findKey key items wanted = some item) :
    item ∈ items ∧ key item = wanted := by
  have same := find?_some found
  exact ⟨mem_of_find?_eq_some found, by simpa using same⟩

theorem findKey_eq_some (apart : (items.map key).Nodup) (mem : item ∈ items) :
    findKey key items (key item) = some item := by
  cases found : findKey key items (key item) with
  | none =>
    have absent := find?_eq_none.mp found item mem
    simp at absent
  | some other =>
    obtain ⟨inside, same⟩ := mem_of_findKey found
    rw [inj_on_of_nodup_map apart inside mem same]

end MlnxOfed.Lib
