/-
An object that several parties hold. `Counts` relates a reference count and the number of frees to the
number of parties; `Locks` relates a counter to the readers that share it and the party that has it alone,
for which it is -1.
-/

import Mathlib.Algebra.Order.Ring.Int


namespace MlnxOfed.Lib

structure Counts (allocated : Bool) (ref freed owned : Nat) : Prop where
  refs : ref = owned
  dead : ref = 0 → freed = allocated.toNat
  live : ref ≠ 0 → freed = 0 ∧ allocated = true

namespace Counts

variable {allocated : Bool} {ref freed owned owned' : Nat}

variable (counts : Counts allocated ref freed owned)

include counts

theorem owns (some : 0 < owned) : ref ≠ 0 := by
  have refs := counts.refs
  omega

theorem pass (same : owned' = owned) : Counts allocated ref freed owned' := by
  subst same
  exact counts

theorem get (some : ref ≠ 0) (more : owned' = owned + 1) : Counts allocated (ref + 1) freed owned' := by
  obtain ⟨refs, _dead, live⟩ := counts
  refine ⟨by omega, by omega, fun _ => live some⟩

theorem put (less : owned = owned' + 1) :
    Counts allocated (ref - 1) (if ref - 1 = 0 then freed + 1 else freed) owned' := by
  obtain ⟨refs, _dead, live⟩ := counts
  obtain ⟨unfreed, born⟩ := live (by omega)
  refine ⟨by omega, fun none => ?_, fun some => ?_⟩
  · rw [if_pos none, unfreed, born]
    rfl
  · rw [if_neg some]
    exact ⟨unfreed, born⟩

omit counts

end Counts

structure Locks (usecnt : Int) (exclusive readers : Nat) : Prop where
  alone : exclusive ≤ 1
  unshared : exclusive ≠ 0 → readers = 0
  count : usecnt = if exclusive = 0 then (readers : Int) else -1

namespace Locks

variable {usecnt : Int} {exclusive exclusive' readers readers' : Nat}

variable (locks : Locks usecnt exclusive readers)

include locks

theorem pass (same : exclusive' = exclusive) : Locks usecnt exclusive' readers := by
  subst same
  exact locks

theorem taken (held : exclusive ≠ 0) : usecnt = -1 := by rw [locks.count, if_neg held]

theorem shared (free : usecnt ≠ -1) : exclusive = 0 := by
  rcases Nat.eq_zero_or_pos exclusive with none | held
  · exact none
  · exact absurd (locks.taken (by omega)) free

theorem idle (free : usecnt = 0) : exclusive = 0 ∧ readers = 0 := by
  have open_ := locks.shared (by omega)
  have count := locks.count
  rw [if_pos open_] at count
  omega

omit locks

theorem free (open_ : exclusive = 0) (unread : readers = 0) : Locks 0 exclusive readers := by
  subst open_ unread
  exact ⟨by omega, fun _ => rfl, rfl⟩

variable (locks : Locks usecnt exclusive readers)

include locks

theorem lockRead (free : usecnt ≠ -1) (same : exclusive' = exclusive)
    (more : readers' = readers + 1) : Locks (usecnt + 1) exclusive' readers' := by
  have open_ := locks.shared free
  have count := locks.count
  rw [if_pos open_] at count
  refine ⟨by omega, by omega, ?_⟩
  rw [if_pos (by omega)]
  omega

theorem unlockRead (same : exclusive' = exclusive)
    (less : readers = readers' + 1) : Locks (usecnt - 1) exclusive' readers' := by
  have unshared := locks.unshared
  have count := locks.count
  rw [if_pos (by omega)] at count
  refine ⟨by omega, by omega, ?_⟩
  rw [if_pos (by omega)]
  omega

theorem lockWrite (free : usecnt = 0) (more : exclusive' = exclusive + 1) : Locks (-1) exclusive' readers := by
  obtain ⟨open_, none⟩ := locks.idle free
  refine ⟨by omega, fun _ => none, ?_⟩
  rw [if_neg (by omega)]

theorem unlockWrite (less : exclusive = exclusive' + 1) : Locks 0 exclusive' readers := by
  obtain ⟨alone, unshared, _count⟩ := locks
  refine ⟨by omega, by omega, ?_⟩
  rw [if_pos (by omega), unshared (by omega)]
  rfl

omit locks

end Locks

end MlnxOfed.Lib
