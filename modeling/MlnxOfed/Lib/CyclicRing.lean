/-
Rings of `2 ^ log` slots addressed by a free running counter. A position is an unbounded count: its slot is
the position modulo the size, its lap bit the parity of the rounds. Both are read off a fixed width counter
as long as it is wider than the size of the ring.
-/

import Mathlib.Data.List.Basic
import Mathlib.Algebra.Order.Ring.Int

namespace MlnxOfed.Lib

def ringSlot (log position : Nat) : Nat :=
  position % 2 ^ log

def ringLap (log position : Nat) : Nat :=
  position / 2 ^ log % 2

variable {log : Nat}

theorem ringSlot_lt (log pos) : ringSlot log pos < 2 ^ log := Nat.mod_lt _ (Nat.two_pow_pos log)

theorem ringLap_lt (log pos) : ringLap log pos < 2 := Nat.mod_lt _ (by decide)

variable {width position : Nat}

theorem counter_and_mask (narrow : log ≤ width) :
    (position % 2 ^ width) &&& (2 ^ log - 1) = ringSlot log position := by
  rw [Nat.and_two_pow_sub_one_eq_mod]
  exact Nat.mod_mod_of_dvd _ (Nat.pow_dvd_pow 2 narrow)

theorem counter_shift_lap (narrow : log < width) :
    (position % 2 ^ width) >>> log % 2 = ringLap log position := by
  have split : 2 ^ width = 2 ^ log * 2 ^ (width - log) := by
    rw [← Nat.pow_add]
    congr 1
    omega
  have even : 2 ∣ 2 ^ (width - log) := Nat.pow_dvd_pow 2 (show 1 ≤ width - log by omega)
  rw [Nat.shiftRight_eq_div_pow, split, Nat.mod_mul_right_div_self, ringLap]
  exact Nat.mod_mod_of_dvd _ even

theorem counter_distance {width pos count} (small : count < 2 ^ width) :
    ((pos + count) % 2 ^ width + 2 ^ width - pos % 2 ^ width) % 2 ^ width = count := by
  have below : pos % 2 ^ width < 2 ^ width := Nat.mod_lt _ (Nat.two_pow_pos width)
  rw [← Nat.mod_add_mod]
  generalize pos % 2 ^ width = low at *
  rcases Nat.lt_or_ge (low + count) (2 ^ width) with short | past
  · rw [Nat.mod_eq_of_lt short]
    have sum : low + count + 2 ^ width - low = count + 2 ^ width := by omega
    rw [sum, Nat.add_mod_right, Nat.mod_eq_of_lt small]
  · rw [Nat.mod_eq_sub_mod past, Nat.mod_eq_of_lt (show low + count - 2 ^ width < 2 ^ width by omega)]
    have sum : low + count - 2 ^ width + 2 ^ width - low = count := by omega
    rw [sum, Nat.mod_eq_of_lt small]

variable {left right : Nat}

private theorem ringSlot_inj (order : left ≤ right)
    (near : right < left + 2 ^ log) (same : ringSlot log left = ringSlot log right) :
    left = right := by
  have divides : 2 ^ log ∣ right - left := Nat.dvd_of_mod_eq_zero (Nat.sub_mod_eq_zero_of_mod_eq same.symm)
  have zero : right - left = 0 := Nat.eq_zero_of_dvd_of_lt divides (by omega)
  omega

theorem ringSlot_ne (order : left < right) (near : right < left + 2 ^ log) :
    ringSlot log left ≠ ringSlot log right := by
  intro same
  have := ringSlot_inj (le_of_lt order) near same
  omega

@[simp] theorem ringSlot_add_round (log position) :
    ringSlot log (position + 2 ^ log) = ringSlot log position :=
  Nat.add_mod_right _ _

theorem ringLap_add_round (log position) : ringLap log (position + 2 ^ log) = 1 - ringLap log position := by
  unfold ringLap
  rw [Nat.add_div_right _ (Nat.two_pow_pos log)]
  omega

theorem ringLap_add_round_ne (log position) : ringLap log (position + 2 ^ log) ≠ ringLap log position := by
  rw [ringLap_add_round]
  have := ringLap_lt log position
  omega

variable {base offset : Nat}

theorem ringSlot_add (inside : ringSlot log base + offset < 2 ^ log) :
    ringSlot log (base + offset) = ringSlot log base + offset := by
  unfold ringSlot at *
  rw [← Nat.mod_add_mod]
  exact Nat.mod_eq_of_lt inside

theorem ringLap_add (inside : ringSlot log base + offset < 2 ^ log) :
    ringLap log (base + offset) = ringLap log base := by
  unfold ringSlot at inside
  unfold ringLap
  congr 1
  have split := Nat.div_add_mod base (2 ^ log)
  have sum : base + offset = base % 2 ^ log + offset + 2 ^ log * (base / 2 ^ log) := by omega
  rw [sum, Nat.add_mul_div_left _ _ (Nat.two_pow_pos log), Nat.div_eq_of_lt inside, zero_add]

theorem ringSlot_add_past (past : 2 ^ log ≤ ringSlot log base + offset) (near : offset ≤ 2 ^ log) :
    ringSlot log (base + offset) = ringSlot log base + offset - 2 ^ log := by
  have below := ringSlot_lt log base
  unfold ringSlot at *
  rw [← Nat.mod_add_mod, Nat.mod_eq_sub_mod past]
  exact Nat.mod_eq_of_lt (by omega)

theorem ringLap_add_past (past : 2 ^ log ≤ ringSlot log base + offset)
    (near : offset ≤ 2 ^ log) : ringLap log (base + offset) = 1 - ringLap log base := by
  have below := ringSlot_lt log base
  -- step back one round: the offset from the start of the next lap stays inside it
  have reach : base + offset = base - (2 ^ log - offset) + 2 ^ log := by
    have := Nat.mod_le base (2 ^ log)
    unfold ringSlot at past
    omega
  have back : ringLap log (base - (2 ^ log - offset)) = ringLap log base := by
    have split := Nat.div_add_mod base (2 ^ log)
    unfold ringSlot at past below
    have lower : base - (2 ^ log - offset) =
        base % 2 ^ log - (2 ^ log - offset) + 2 ^ log * (base / 2 ^ log) := by omega
    unfold ringLap
    rw [lower, Nat.add_mul_div_left _ _ (Nat.two_pow_pos log), Nat.div_eq_of_lt (by omega), zero_add]
  rw [reach, ringLap_add_round, back]

/-- Rewrite the `count` slots from a position on, each by its offset. -/
def writeRing {Item : Type*} (log : Nat) (ring : Nat → Item) (position count : Nat)
    (write : Nat → Item → Item) : Nat → Item :=
  fun slot =>
    let offset := (slot + (2 ^ log - ringSlot log position)) % 2 ^ log
    if offset < count then write offset (ring slot) else ring slot

private theorem writeRing_offset {pos offset} (inside : offset < 2 ^ log) :
    (ringSlot log (pos + offset) + (2 ^ log - ringSlot log pos)) % 2 ^ log = offset := by
  have below := ringSlot_lt log pos
  rcases Nat.lt_or_ge (ringSlot log pos + offset) (2 ^ log) with short | past
  · rw [ringSlot_add short]
    have sum : ringSlot log pos + offset + (2 ^ log - ringSlot log pos) = offset + 2 ^ log := by omega
    rw [sum, Nat.add_mod_right, Nat.mod_eq_of_lt inside]
  · rw [ringSlot_add_past past (le_of_lt inside)]
    have sum : ringSlot log pos + offset - 2 ^ log + (2 ^ log - ringSlot log pos) = offset := by omega
    rw [sum, Nat.mod_eq_of_lt inside]

theorem writeRing_inside {Item : Type*} {ring : Nat → Item} {pos count : Nat} {write : Nat → Item → Item}
    {offset : Nat} (inside : offset < count) (room : count ≤ 2 ^ log) :
    writeRing log ring pos count write (ringSlot log (pos + offset)) =
      write offset (ring (ringSlot log (pos + offset))) := by
  unfold writeRing
  simp only [writeRing_offset (lt_of_lt_of_le inside room), if_pos inside]

theorem writeRing_outside {Item : Type*} {ring : Nat → Item} {pos count : Nat} {write : Nat → Item → Item}
    {other : Nat} (after : pos + count ≤ other) (near : other < pos + 2 ^ log) :
    writeRing log ring pos count write (ringSlot log other) = ring (ringSlot log other) := by
  obtain ⟨offset, rfl⟩ := Nat.exists_eq_add_of_le (le_trans (Nat.le_add_right _ _) after)
  unfold writeRing
  simp only [writeRing_offset (show offset < 2 ^ log by omega), if_neg (show ¬ offset < count by omega)]

end MlnxOfed.Lib
