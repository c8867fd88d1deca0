/-
Times that are kept modulo a power of two and compared by the sign of their difference.
-/

import Mathlib.Algebra.Order.Ring.Int

namespace MlnxOfed.Lib

/-- `time_after`: the difference is negative as a signed number. -/
def timeAfter (bits a b : Nat) : Bool :=
  2 ^ (bits - 1) ≤ (b + 2 ^ bits - a) % 2 ^ bits

def timeBefore (bits a b : Nat) : Bool :=
  timeAfter bits b a

variable {bits : Nat}

theorem two_pow_half (some : 0 < bits) : 2 ^ bits = 2 * 2 ^ (bits - 1) := by
  obtain ⟨fewer, rfl⟩ := Nat.exists_eq_add_of_lt some
  rw [zero_add, Nat.add_sub_cancel, Nat.pow_succ, mul_comm]

theorem wrapped_sub {modulus} (some : 0 < modulus) (now gap) :
    ((now + gap) % modulus + modulus - now % modulus) % modulus = gap % modulus := by
  have below := Nat.mod_lt now some
  have split := Nat.div_add_mod now modulus
  have rounded : now + (modulus - now % modulus) = modulus * (now / modulus + 1) := by
    rw [Nat.mul_add]
    omega
  calc ((now + gap) % modulus + modulus - now % modulus) % modulus
      = ((now + gap) % modulus + (modulus - now % modulus)) % modulus := by
        rw [Nat.add_sub_assoc (le_of_lt below)]
    _ = (now + gap + (modulus - now % modulus)) % modulus := Nat.mod_add_mod _ _ _
    _ = (gap + modulus * (now / modulus + 1)) % modulus := by
        rw [← rounded]
        congr 1
        omega
    _ = gap % modulus := Nat.add_mul_mod_self_left _ _ _

theorem timeAfter_eq_false (some : 0 < bits) {now later} (ahead : now ≤ later)
    (near : later < now + 2 ^ (bits - 1)) :
    timeAfter bits (now % 2 ^ bits) (later % 2 ^ bits) = false := by
  obtain ⟨gap, rfl⟩ := Nat.exists_eq_add_of_le ahead
  have half := two_pow_half some
  unfold timeAfter
  rw [wrapped_sub (Nat.two_pow_pos bits), Nat.mod_eq_of_lt (by omega), decide_eq_false_iff_not]
  omega

theorem timeAfter_eq_true (some : 0 < bits) {now old} (ago : old < now)
    (near : now ≤ old + 2 ^ (bits - 1)) :
    timeAfter bits (now % 2 ^ bits) (old % 2 ^ bits) = true := by
  obtain ⟨gap, rfl⟩ := Nat.exists_eq_add_of_lt ago
  have half := two_pow_half some
  have same : old % 2 ^ bits = (old + gap + 1 + (2 ^ bits - (gap + 1))) % 2 ^ bits := by
    rw [show old + gap + 1 + (2 ^ bits - (gap + 1)) = old + 2 ^ bits by omega, Nat.add_mod_right]
  unfold timeAfter
  rw [same, wrapped_sub (Nat.two_pow_pos bits), Nat.mod_eq_of_lt (by omega), decide_eq_true_eq]
  omega

end MlnxOfed.Lib
