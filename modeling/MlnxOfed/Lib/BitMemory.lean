/-
Byte memories as strings of bits. Bit `p` is bit `p % 8`, from the high end, of byte `p / 8`, so that a
number stored high byte first has its bits in reading order.
-/

import Mathlib.Algebra.Order.Ring.Int

namespace MlnxOfed.Lib

open List

abbrev Bytes := Nat → UInt8

def bitAt (memory : Bytes) (position : Nat) : Bool :=
  (memory (position / 8)).toNat.testBit (7 - position % 8)

/-- The number in `count` bytes from an address on, high byte first. -/
def readBe (memory : Bytes) (address : Nat) : Nat → Nat
  | 0 => 0
  | count + 1 => 2 ^ 8 * readBe memory address count + (memory (address + count)).toNat

def writeBe (memory : Bytes) (address count value : Nat) : Bytes := fun byte =>
  if address ≤ byte ∧ byte < address + count then
    UInt8.ofNat (value / 2 ^ (8 * (address + count - 1 - byte)))
  else memory byte

def copyBlock (target : Bytes) (address : Nat) (source : Bytes) (start count : Nat) : Bytes :=
  fun byte =>
    if address ≤ byte ∧ byte < address + count then source (start + (byte - address))
    else target byte

def loadBytes (memory : Bytes) (address count : Nat) : List UInt8 :=
  (range count).map fun i => memory (address + i)

def storeBytes (memory : Bytes) (address : Nat) (bytes : List UInt8) : Bytes := fun byte =>
  if address ≤ byte ∧ byte < address + bytes.length then bytes.getD (byte - address) 0
  else memory byte

variable (memory : Bytes)

theorem readBe_testBit (address count i) : (readBe memory address count).testBit i =
      (decide (i < 8 * count) && bitAt memory (8 * (address + count) - 1 - i)) := by
  induction count generalizing i with
  | zero => simp [readBe]
  | succ count ih =>
    have small : (memory (address + count)).toNat < 2 ^ 8 := (memory (address + count)).toNat_lt
    rw [readBe, Nat.testBit_two_pow_mul_add _ small]
    split
    · have inside : decide (i < 8 * (count + 1)) = true := decide_eq_true (by omega)
      have byte : (8 * (address + (count + 1)) - 1 - i) / 8 = address + count := by omega
      have bit : 7 - (8 * (address + (count + 1)) - 1 - i) % 8 = i := by omega
      rw [inside, Bool.true_and, bitAt, byte, bit]
    rw [ih]
    have same : decide (i - 8 < 8 * count) = decide (i < 8 * (count + 1)) := by
      apply decide_eq_decide.mpr
      omega
    have bit : 8 * (address + count) - 1 - (i - 8) = 8 * (address + (count + 1)) - 1 - i := by omega
    rw [same, bit]

theorem readBe_lt (address count) : readBe memory address count < 2 ^ (8 * count) := by
  induction count with
  | zero => exact Nat.one_pos
  | succ count ih =>
    have small : (memory (address + count)).toNat < 2 ^ 8 := (memory (address + count)).toNat_lt
    rw [readBe, Nat.mul_succ, Nat.pow_add]
    omega

theorem bitAt_writeBe (address count value position) : bitAt (writeBe memory address count value) position =
      if 8 * address ≤ position ∧ position < 8 * (address + count) then
        value.testBit (8 * (address + count) - 1 - position)
      else bitAt memory position := by
  unfold bitAt writeBe
  by_cases inside : address ≤ position / 8 ∧ position / 8 < address + count
  · rw [if_pos inside, if_pos (by omega), UInt8.toNat_ofNat', Nat.testBit_mod_two_pow, Nat.testBit_div_two_pow]
    have low : decide (7 - position % 8 < 8) = true := decide_eq_true (by omega)
    rw [low, Bool.true_and]
    congr 1
    omega
  · rw [if_neg inside, if_neg (by omega)]

theorem bitAt_copyBlock (target address source start count position) :
    bitAt (copyBlock target address source start count) position =
      if 8 * address ≤ position ∧ position < 8 * (address + count) then
        bitAt source (8 * start + (position - 8 * address))
      else bitAt target position := by
  unfold bitAt copyBlock
  split
  · rw [if_pos (by omega)]
    have byte : (8 * start + (position - 8 * address)) / 8 = start + (position / 8 - address) := by omega
    have bit : (8 * start + (position - 8 * address)) % 8 = position % 8 := by omega
    rw [byte, bit]
  · rw [if_neg (by omega)]

variable {left right : Bytes}

theorem byte_eq_of_bits {i j} (same : ∀ b, b < 8 → bitAt left (8 * i + b) = bitAt right (8 * j + b)) :
    left i = right j := by
  apply UInt8.toNat_inj.mp
  apply Nat.eq_of_testBit_eq
  intro b
  by_cases low : b < 8
  · have bits := same (7 - b) (by omega)
    unfold bitAt at bits
    have byteLeft : (8 * i + (7 - b)) / 8 = i := by omega
    have byteRight : (8 * j + (7 - b)) / 8 = j := by omega
    have bitLeft : 7 - (8 * i + (7 - b)) % 8 = b := by omega
    have bitRight : 7 - (8 * j + (7 - b)) % 8 = b := by omega
    rw [byteLeft, byteRight, bitLeft, bitRight] at bits
    exact bits
  · have high (byte : UInt8) : byte.toNat.testBit b = false := by
      apply Nat.testBit_lt_two_pow
      exact lt_of_lt_of_le byte.toNat_lt (Nat.pow_le_pow_right (by decide) (by omega))
    rw [high, high]

variable {address count : Nat}

theorem readBe_congr (same : ∀ byte, address ≤ byte → byte < address + count → left byte = right byte) :
    readBe left address count = readBe right address count := by
  induction count with
  | zero => rfl
  | succ count ih =>
    rw [readBe, readBe, ih fun byte lower upper => same byte lower (by omega),
      same (address + count) (by omega) (by omega)]

theorem readBe_writeBe (address count value) (fits : value < 2 ^ (8 * count)) :
    readBe (writeBe memory address count value) address count = value := by
  apply Nat.eq_of_testBit_eq
  intro i
  rw [readBe_testBit, bitAt_writeBe]
  by_cases inside : i < 8 * count
  · rw [decide_eq_true inside, Bool.true_and, if_pos (by omega)]
    congr 1
    omega
  · rw [decide_eq_false inside, Bool.false_and]
    symm
    apply Nat.testBit_lt_two_pow
    exact lt_of_lt_of_le fits (Nat.pow_le_pow_right (by decide) (by omega))

theorem writeBe_outside {memory address count value byte}
    (outside : byte < address ∨ address + count ≤ byte) :
    writeBe memory address count value byte = memory byte := by
  unfold writeBe
  rw [if_neg (by omega)]

theorem storeBytes_outside {memory address byte bytes}
    (outside : byte < address ∨ address + bytes.length ≤ byte) :
    storeBytes memory address bytes byte = memory byte := by
  unfold storeBytes
  rw [if_neg (by omega)]

theorem loadBytes_congr (same : ∀ byte, address ≤ byte → byte < address + count → left byte = right byte) :
    loadBytes left address count = loadBytes right address count := by
  apply map_congr_left
  intro i inside
  have upper := mem_range.mp inside
  exact same _ (by omega) (by omega)

theorem loadBytes_storeBytes (address bytes) :
    loadBytes (storeBytes memory address bytes) address bytes.length = bytes := by
  unfold loadBytes storeBytes
  apply ext_getElem
  · simp
  · intro i inRange inBytes
    rw [getElem_map, getElem_range, if_pos (by omega), Nat.add_sub_cancel_left,
      getD_eq_getElem?_getD, getElem?_eq_getElem inBytes, Option.getD_some]

end MlnxOfed.Lib
