/-
A pool of threads stepped one at a time: taking one out, and pools with at most one thread of a kind. The
order means nothing.
-/


namespace MlnxOfed.Lib

open List

variable {α : Type} {p : α → Prop} {pool rest : List α} {x y : α} {sole : Option α}

def pull : Nat → List α → Option (α × List α)
  | _, [] => none
  | 0, x :: rest => some (x, rest)
  | n + 1, x :: rest => (pull n rest).map fun (y, others) => (y, x :: others)

theorem pull_perm {n} : ∀ {pool rest}, pull n pool = some (x, rest) → pool.Perm (x :: rest) := by
  induction n with
  | zero =>
    intro pool rest found
    cases pool with
    | nil => cases found
    | cons head tail =>
      cases found
      exact .refl _
  | succ n ih =>
    intro pool rest found
    cases pool with
    | nil => cases found
    | cons head tail =>
      obtain ⟨⟨y, others⟩, inner, same⟩ := Option.map_eq_some_iff.1 found
      cases same
      exact ((ih inner).cons head).trans (.swap _ _ _)

theorem exists_pull (here : x ∈ pool) : ∃ n rest, pull n pool = some (x, rest) := by
  induction pool with
  | nil => cases here
  | cons head tail ih =>
    rcases mem_cons.1 here with rfl | inside
    · exact ⟨0, tail, rfl⟩
    · obtain ⟨n, rest, found⟩ := ih inside
      refine ⟨n + 1, head :: rest, ?_⟩
      change (pull n tail).map _ = _
      rw [found]
      rfl

/-- The elements of the kind in the pool: none, or the one that is named. -/
inductive Solo (p : α → Prop) (pool : List α) : Option α → Prop where
  | none (others : ∀ x ∈ pool, ¬p x) : Solo p pool none
  | one {x : α} {rest : List α} (split : pool.Perm (x :: rest)) (holds : p x)
      (others : ∀ y ∈ rest, ¬p y) : Solo p pool (some x)

theorem Solo.cons_of_not (solo : Solo p pool sole) (not : ¬p x) : Solo p (x :: pool) sole := by
  cases solo with
  | none others => exact .none (forall_mem_cons.2 ⟨not, others⟩)
  | one split holds others =>
    exact .one ((split.cons x).trans (.swap _ _ _)) holds (forall_mem_cons.2 ⟨not, others⟩)

theorem Solo.cons (solo : Solo p pool Option.none) (holds : p x) : Solo p (x :: pool) (some x) := by
  cases solo with
  | none others => exact .one (.refl _) holds others

theorem Solo.tail_of_not (solo : Solo p pool sole) (split : pool.Perm (x :: rest)) (not : ¬p x) :
    Solo p rest sole := by
  cases solo with
  | none others => exact .none fun y inside => others y (split.mem_iff.2 (.tail _ inside))
  | @one y remaining parted holds others =>
    have mem : y ∈ x :: rest := (parted.symm.trans split).mem_iff.1 (mem_cons_self)
    have inside : y ∈ rest := by
      rcases mem_cons.1 mem with same | inside
      · exact absurd (same ▸ holds) not
      · exact inside
    obtain ⟨old, after, rfl⟩ := append_of_mem inside
    have shape : (old ++ y :: after).Perm (y :: (old ++ after)) := perm_middle
    have exchanged : (y :: remaining).Perm (y :: x :: (old ++ after)) :=
      (parted.symm.trans split).trans ((shape.cons x).trans (.swap _ _ _))
    have remainder : remaining.Perm (x :: (old ++ after)) := exchanged.cons_inv
    exact .one shape holds fun z here => others z (remainder.mem_iff.2 (.tail _ here))

theorem Solo.tail (solo : Solo p pool sole) (split : pool.Perm (x :: rest)) (holds : p x) :
    sole = some x ∧ Solo p rest Option.none := by
  cases solo with
  | none others => exact absurd holds (others x (split.mem_iff.2 (.head _)))
  | @one y remaining parted still others =>
    have mem : x ∈ y :: remaining := (split.symm.trans parted).mem_iff.1 (.head _)
    have same : x = y := by
      rcases mem_cons.1 mem with same | inside
      · exact same
      · exact absurd holds (others x inside)
    subst same
    have remainder : remaining.Perm rest := (parted.symm.trans split).cons_inv
    exact ⟨rfl, .none fun z here => others z (remainder.mem_iff.2 here)⟩

theorem Solo.sole_eq_none (solo : Solo p pool sole) (others : ∀ x ∈ pool, ¬p x) : sole = Option.none := by
  cases solo with
  | none _ => rfl
  | one split holds _ => exact absurd holds (others _ (split.mem_iff.2 (.head _)))

theorem Solo.mem (solo : Solo p pool (some x)) : x ∈ pool ∧ p x := by
  cases solo with
  | one split holds _ => exact ⟨split.mem_iff.2 (.head _), holds⟩

end MlnxOfed.Lib
