/-
Intrusive lists: an element stands on at most one of several lists. A home function says which; linking and
unlinking change it.
-/

import Mathlib.Algebra.Order.Ring.Int
import Mathlib.Data.List.Nodup

namespace MlnxOfed.Lib

open Option List Function

/-- The list holds exactly the elements with the property, each once. -/
structure Tracks (list : List Nat) (member : Nat → Prop) : Prop where
  nodup : list.Nodup
  mem : ∀ x, x ∈ list ↔ member x

variable {list grown : List Nat} {member other : Nat → Prop}

variable (tracks : Tracks list member)

include tracks

theorem Tracks.congr (same : ∀ x, member x ↔ other x) : Tracks list other :=
  ⟨tracks.nodup, fun x => (tracks.mem x).trans (same x)⟩

variable {x : Nat}

theorem Tracks.add (absent : ¬member x)
    (perm : grown.Perm (x :: list)) : Tracks grown fun y => y = x ∨ member y := by
  constructor
  · rw [perm.nodup_iff, nodup_cons]
    exact ⟨fun inside => absent ((tracks.mem x).mp inside), tracks.nodup⟩
  · intro y
    rw [perm.mem_iff, mem_cons, tracks.mem]

theorem Tracks.erase (x) : Tracks (list.erase x) fun y => y ≠ x ∧ member y := by
  constructor
  · exact tracks.nodup.erase x
  · intro y
    rw [tracks.nodup.mem_erase_iff, tracks.mem]

theorem Tracks.filter (keep) : Tracks (list.filter keep) fun y => member y ∧ keep y = true := by
  constructor
  · exact tracks.nodup.filter keep
  · intro y
    rw [mem_filter, tracks.mem]

omit tracks

variable {K : Type} {lists : K → List Nat} {home : Nat → Option K}

def Filed (lists : K → List Nat) (home : Nat → Option K) : Prop :=
  ∀ k, Tracks (lists k) fun x => home x = some k

/-- `list_del`: the element leaves the list it is on. -/
def unfile (lists : K → List Nat) (x : Nat) : K → List Nat := fun k => (lists k).erase x

theorem Filed.mem_iff (filed : Filed lists home) {k} : x ∈ lists k ↔ home x = some k := (filed k).mem x

theorem Filed.congr (filed : Filed lists home) {moved}
    (same : ∀ x, home x = moved x) : Filed lists moved := by
  rw [← funext same]
  exact filed

theorem Filed.unfile (filed : Filed lists home) (x) : Filed (unfile lists x) (update home x none) := by
  intro k
  refine ((filed k).erase x).congr ?_
  intro y
  by_cases same : y = x
  · subst same
    rw [update_self]
    exact ⟨fun both => absurd rfl both.1, nofun⟩
  · rw [update_of_ne same]
    exact ⟨fun both => both.2, fun there => ⟨same, there⟩⟩

variable [DecidableEq K]

/-- `list_add_tail`. -/
def fileLast (lists : K → List Nat) (k : K) (x : Nat) : K → List Nat :=
  update lists k (lists k ++ [x])

variable (filed : Filed lists home)

include filed

theorem Filed.file (homeless : home x = none) {k} (perm : grown.Perm (x :: lists k)) :
    Filed (update lists k grown) (update home x (some k)) := by
  have absent : ¬home x = some k := by
    rw [homeless]
    exact nofun
  intro j
  by_cases same : j = k
  · subst same
    rw [update_self]
    refine ((filed j).add absent perm).congr ?_
    intro y
    by_cases own : y = x
    · subst own
      rw [update_self]
      exact ⟨fun _ => rfl, fun _ => .inl rfl⟩
    · rw [update_of_ne own]
      exact ⟨fun either => either.resolve_left own, .inr⟩
  rw [update_of_ne same]
  refine (filed j).congr ?_
  intro y
  by_cases own : y = x
  · subst own
    rw [update_self, homeless]
    exact ⟨nofun, fun equal => absurd (some.inj equal).symm same⟩
  · rw [update_of_ne own]

theorem Filed.fileLast (homeless : home x = none) (k) : Filed (fileLast lists k x) (update home x (some k)) :=
  filed.file homeless (perm_append_singleton x (lists k))

theorem Filed.move (x) {k} (perm : grown.Perm (x :: Lib.unfile lists x k)) :
    Filed (update (Lib.unfile lists x) k grown) (update home x (some k)) := by
  have moved := (filed.unfile x).file (update_self x none home) perm
  rw [update_idem] at moved
  exact moved

theorem Filed.moveLast (x k) : Filed (Lib.fileLast (Lib.unfile lists x) k x) (update home x (some k)) :=
  filed.move x (perm_append_singleton x _)

theorem Filed.keep (k keep) : Filed (update lists k ((lists k).filter keep))
      fun x => if home x = some k ∧ keep x = false then none else home x := by
  intro j
  by_cases same : j = k
  · subst same
    rw [update_self]
    refine ((filed j).filter keep).congr ?_
    intro x
    dsimp only
    split_ifs with gone
    · rw [gone.2]
      exact ⟨fun both => absurd both.2 Bool.false_ne_true, nofun⟩
    · exact ⟨fun both => both.1, fun there => ⟨there, by
        cases kept : keep x with
        | true => rfl
        | false => exact absurd ⟨there, kept⟩ gone⟩⟩
  rw [update_of_ne same]
  refine (filed j).congr ?_
  intro x
  dsimp only
  by_cases gone : home x = some k ∧ keep x = false
  · rw [if_pos gone, gone.1]
    exact ⟨fun equal => absurd (some.inj equal).symm same, nofun⟩
  · rw [if_neg gone]

omit filed

end MlnxOfed.Lib
