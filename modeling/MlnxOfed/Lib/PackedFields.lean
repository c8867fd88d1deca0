/-
Fields packed into rows of 32-bit words, read and written by masks and shifts: what was written is read
back, and nothing else changes.
-/

import Mathlib.Algebra.Order.Ring.Int

namespace MlnxOfed.Lib

open Function

/-- A field, by its word, the place of its last bit there and its width. -/
structure PackedField where
  word : Nat
  place : Nat
  width : Nat
  fits : place + width ≤ 32 := by decide

namespace PackedField

variable (field : PackedField)

def mask : BitVec 32 := BitVec.ofNat 32 (2 ^ field.width - 1)

def get (words : Nat → BitVec 32) : BitVec 32 := (words field.word >>> field.place) &&& field.mask

def set (words : Nat → BitVec 32) (value : BitVec 32) : Nat → BitVec 32 :=
  update words field.word ((words field.word &&& ~~~(field.mask <<< field.place)) |||
      ((value &&& field.mask) <<< field.place))

def Covers (word bit : Nat) : Prop :=
  word = field.word ∧ field.place ≤ bit ∧ bit < field.place + field.width

theorem getLsbD_mask (i) : field.mask.getLsbD i = decide (i < field.width) := by
  have fits := field.fits
  unfold mask
  rw [BitVec.getLsbD_ofNat, Nat.testBit_two_pow_sub_one]
  by_cases inside : i < field.width
  · simp [inside, show i < 32 by omega]
  · simp [inside]

variable (words : Nat → BitVec 32)

include words

theorem getLsbD_get (i) : (field.get words).getLsbD i =
      (decide (i < field.width) && (words field.word).getLsbD (field.place + i)) := by
  unfold get
  rw [BitVec.getLsbD_and, BitVec.getLsbD_ushiftRight, getLsbD_mask, Bool.and_comm]

variable (value : BitVec 32)

theorem getLsbD_set_word {bit} (inside : bit < 32) : (field.set words value field.word).getLsbD bit =
      if field.place ≤ bit ∧ bit < field.place + field.width then
        value.getLsbD (bit - field.place)
      else (words field.word).getLsbD bit := by
  unfold set
  rw [update_self]
  simp only [BitVec.getLsbD_or, BitVec.getLsbD_and, BitVec.getLsbD_not, BitVec.getLsbD_shiftLeft,
    getLsbD_mask, inside, decide_true, Bool.true_and]
  by_cases old : bit < field.place
  · simp [old, show ¬ field.place ≤ bit by omega]
  · by_cases within : bit < field.place + field.width
    · simp [old, within, show field.place ≤ bit by omega, show bit - field.place < field.width by omega]
    · simp [old, within, show ¬ bit - field.place < field.width by omega]

theorem get_set : field.get (field.set words value) = value &&& field.mask := by
  have fits := field.fits
  apply BitVec.eq_of_getLsbD_eq
  intro i below
  rw [getLsbD_get, BitVec.getLsbD_and, getLsbD_mask]
  by_cases inside : i < field.width
  · rw [getLsbD_set_word field words value (by omega), if_pos (by omega)]
    simp [inside]
  · simp [inside]

theorem set_of_ne {word} (other : word ≠ field.word) : field.set words value word = words word :=
  update_of_ne other ..

omit words

theorem get_set_of_ne {other : PackedField} (apart : other.word ≠ field.word)
    (words : Nat → BitVec 32) (value : BitVec 32) :
    other.get (field.set words value) = other.get words := by
  unfold get
  rw [field.set_of_ne words value apart]

theorem set_outside (words : Nat → BitVec 32) (value : BitVec 32) {word bit}
    (inside : bit < 32) (outside : ¬ field.Covers word bit) :
    (field.set words value word).getLsbD bit = (words word).getLsbD bit := by
  by_cases same : word = field.word
  · subst same
    rw [getLsbD_set_word field words value inside, if_neg fun within => outside ⟨rfl, within⟩]
  · rw [field.set_of_ne words value same]

end PackedField

end MlnxOfed.Lib
