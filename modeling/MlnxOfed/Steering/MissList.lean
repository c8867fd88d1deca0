/-
The miss list of a bucket of STEs (dr_ste.c, dr_rule.c) and the miss address in both formats (dr_ste_v0.c,
dr_ste_v1.c). The device follows the miss addresses, each in two fields of the STE, which the v0 format
joins in 32 bits.
-/

import MlnxOfed.Lib.PackedFields
import MlnxOfed.Steering.ModifyMeaning

namespace MlnxOfed.Steering

open Lib (PackedField)
open SteFormat

/-! ### The miss address -/

abbrev HwSte := Nat → BitVec 32

def missAddress39_32 : SteFormat → PackedField
  | .v0 => { word := 6, place := 0, width := 8 }
  | .v1 => { word := 1, place := 0, width := 8 }

def missAddress31_6 : SteFormat → PackedField
  | .v0 => { word := 7, place := 6, width := 26 }
  | .v1 => { word := 2, place := 6, width := 26 }

def setMissAddrOf (format : SteFormat) (hwSte : HwSte) (missAddr : BitVec 64) : HwSte :=
  let index := missAddr >>> 6
  let hwSte := (missAddress39_32 format).set hwSte ((index >>> 26).setWidth 32)
  (missAddress31_6 format).set hwSte (index.setWidth 32)

def drSteV0SetMissAddr : HwSte → BitVec 64 → HwSte := setMissAddrOf .v0

def drSteV1SetMissAddr : HwSte → BitVec 64 → HwSte := setMissAddrOf .v1

def drSteV0GetMissAddr (hwSte : HwSte) : BitVec 64 :=
  let index : BitVec 64 := ((missAddress31_6 .v0).get hwSte |||
    (missAddress39_32 .v0).get hwSte <<< 26).setWidth 64
  index <<< 6

def drSteV1GetMissAddr (hwSte : HwSte) : BitVec 64 :=
  let index : BitVec 64 := ((missAddress31_6 .v1).get hwSte).setWidth 64 |||
    ((missAddress39_32 .v1).get hwSte).setWidth 64 <<< 26
  index <<< 6

def SteFormat.setMissAddr : SteFormat → HwSte → BitVec 64 → HwSte
  | .v0 => drSteV0SetMissAddr
  | .v1 => drSteV1SetMissAddr

def SteFormat.getMissAddr : SteFormat → HwSte → BitVec 64
  | .v0 => drSteV0GetMissAddr
  | .v1 => drSteV1GetMissAddr

def SteFormat.follows (format : SteFormat) (hwSte : HwSte) : BitVec 64 :=
  (((missAddress31_6 format).get hwSte).setWidth 64 |||
    ((missAddress39_32 format).get hwSte).setWidth 64 <<< 26) <<< 6

def IsSteAddr (addr : BitVec 64) : Prop := addr.toNat < 2 ^ 40 ∧ addr.toNat % 64 = 0

def SameBesidesMissAddr (format : SteFormat) (before after : HwSte) : Prop :=
  ∀ word bit, bit < 32 → ¬ (missAddress39_32 format).Covers word bit →
    ¬ (missAddress31_6 format).Covers word bit → (after word).getLsbD bit = (before word).getLsbD bit

variable (format : SteFormat)

include format

variable (hwSte : HwSte)

private theorem setMissAddrOf_same (addr : BitVec 64) :
    SameBesidesMissAddr format hwSte (setMissAddrOf format hwSte addr) := by
  intro word bit inside notHigh notLow
  unfold setMissAddrOf
  rw [PackedField.set_outside _ _ _ inside notLow, PackedField.set_outside _ _ _ inside notHigh]

theorem SteFormat.setMissAddr_eq : format.setMissAddr = setMissAddrOf format := by
  cases format with
  | v0 => rfl
  | v1 => rfl

variable {addr : BitVec 64}

omit format in
theorem IsSteAddr.bit (isAddr : IsSteAddr addr) {i} (outside : i < 6 ∨ 40 ≤ i) : addr.getLsbD i = false := by
  obtain ⟨short, aligned⟩ := isAddr
  rw [← BitVec.testBit_toNat]
  rcases outside with low | high
  · have multiple : addr.toNat = 2 ^ 6 * (addr.toNat / 64) := by omega
    rw [multiple, Nat.testBit_two_pow_mul]
    simp [show ¬ 6 ≤ i by omega]
  · exact Nat.testBit_lt_two_pow (lt_of_lt_of_le short (Nat.pow_le_pow_right (by decide) high))

private theorem get_setMissAddr (addr : BitVec 64) : (missAddress39_32 format).get (format.setMissAddr hwSte addr) =
        (addr >>> 6 >>> 26).setWidth 32 &&& (missAddress39_32 format).mask ∧
      (missAddress31_6 format).get (format.setMissAddr hwSte addr) =
        (addr >>> 6).setWidth 32 &&& (missAddress31_6 format).mask := by
  have apart : (missAddress39_32 format).word ≠ (missAddress31_6 format).word := by
    cases format <;> decide
  rw [format.setMissAddr_eq]
  unfold setMissAddrOf
  rw [PackedField.get_set, PackedField.get_set_of_ne _ apart, PackedField.get_set]
  exact ⟨rfl, rfl⟩

private theorem follows_setMissAddr
    (isAddr : IsSteAddr addr) : format.follows (format.setMissAddr hwSte addr) = addr := by
  obtain ⟨high, low⟩ := get_setMissAddr format hwSte addr
  have highWidth : (missAddress39_32 format).width = 8 := by cases format <;> rfl
  have lowWidth : (missAddress31_6 format).width = 26 := by cases format <;> rfl
  unfold follows
  rw [high, low]
  apply BitVec.eq_of_getLsbD_eq
  intro i below
  simp only [BitVec.getLsbD_shiftLeft, BitVec.getLsbD_or, BitVec.getLsbD_setWidth,
    BitVec.getLsbD_and, BitVec.getLsbD_ushiftRight, PackedField.getLsbD_mask, highWidth, lowWidth]
  rcases Nat.lt_or_ge i 6 with first | notFirst
  · simp [first, isAddr.bit (.inl first)]
  rcases Nat.lt_or_ge i 32 with inLow | notLow
  · simp [below, show ¬ i < 6 by omega, show i - 6 < 26 by omega, show 6 + (i - 6) = i by omega,
      show i - 6 < 64 by omega, show i - 6 < 32 by omega]
  rcases Nat.lt_or_ge i 40 with inHigh | outside
  · simp [below, show ¬ i < 6 by omega, show ¬ i - 6 < 26 by omega,
      show 6 + (26 + (i - 6 - 26)) = i by omega, show i - 6 < 64 by omega,
      show i - 6 - 26 < 64 by omega, show i - 6 - 26 < 32 by omega,
      show i - 6 - 26 < 8 by omega]
  · simp [isAddr.bit (.inr outside), show ¬ i - 6 < 26 by omega, show ¬ i - 6 - 26 < 8 by omega]

omit format in
theorem isSteAddr_of_bits (zero : ∀ i, i < 6 ∨ 40 ≤ i → addr.getLsbD i = false) : IsSteAddr addr := by
  constructor
  · apply Nat.lt_pow_two_of_testBit
    intro i high
    rw [BitVec.testBit_toNat, zero i (.inr high)]
  change addr.toNat % 2 ^ 6 = 0
  apply Nat.eq_of_testBit_eq
  intro i
  rw [Nat.testBit_mod_two_pow, Nat.zero_testBit, BitVec.testBit_toNat]
  by_cases low : i < 6
  · rw [zero i (.inl low), Bool.and_false]
  · simp [low]

theorem getLsbD_getMissAddr (i) : (format.getMissAddr hwSte).getLsbD i =
      ((format.follows hwSte).getLsbD i && (decide (format = .v1) || decide (i < 38))) := by
  cases format with
  | v1 => simp [getMissAddr, drSteV1GetMissAddr, follows]
  | v0 =>
    simp only [getMissAddr, drSteV0GetMissAddr, follows,
      BitVec.getLsbD_shiftLeft, BitVec.getLsbD_setWidth, BitVec.getLsbD_or]
    rcases Nat.lt_or_ge i 38 with low | high
    · simp [low, show i - 6 < 32 by omega, show i - 6 < 64 by omega, show i - 6 - 26 < 64 by omega]
    · simp [show ¬ i < 38 by omega, show ¬ i - 6 < 32 by omega,
        BitVec.getLsbD_of_ge _ (i - 6) (show 32 ≤ i - 6 by omega)]

private theorem isSteAddr_follows : IsSteAddr (format.follows hwSte) := by
  have highWidth : (missAddress39_32 format).width = 8 := by cases format <;> rfl
  have lowWidth : (missAddress31_6 format).width = 26 := by cases format <;> rfl
  apply isSteAddr_of_bits
  intro i outside
  simp only [follows, BitVec.getLsbD_shiftLeft, BitVec.getLsbD_setWidth,
    BitVec.getLsbD_or, PackedField.getLsbD_get, highWidth, lowWidth]
  rcases outside with low | high
  · simp [low]
  · simp [show ¬ i - 6 < 26 by omega, show ¬ i - 6 - 26 < 8 by omega]

private theorem isSteAddr_getMissAddr : IsSteAddr (format.getMissAddr hwSte) := by
  apply isSteAddr_of_bits
  intro i outside
  rw [getLsbD_getMissAddr, (isSteAddr_follows format hwSte).bit outside, Bool.false_and]

private theorem getMissAddr_eq_iff : format.getMissAddr hwSte = format.follows hwSte ↔
      format = .v1 ∨ (format.follows hwSte).toNat < 2 ^ 38 := by
  constructor
  · intro same
    by_cases isV1 : format = .v1
    · exact .inl isV1
    · right
      apply Nat.lt_pow_two_of_testBit
      intro i high
      rw [BitVec.testBit_toNat, ← same, getLsbD_getMissAddr]
      simp [isV1, show ¬ i < 38 by omega]
  intro short
  apply BitVec.eq_of_getLsbD_eq
  intro i _
  rw [getLsbD_getMissAddr]
  rcases short with isV1 | short
  · simp [isV1]
  by_cases low : i < 38
  · simp [low]
  · have zero : (format.follows hwSte).getLsbD i = false := by
      rw [← BitVec.testBit_toNat]
      exact Nat.testBit_lt_two_pow (lt_of_lt_of_le short (Nat.pow_le_pow_right (by decide) (by omega)))
    rw [zero, Bool.false_and]

omit format

/-- `struct mlx5dr_ste`, with the address of the STE that the device reads. -/
structure Ste where
  icmAddr : BitVec 64
  hwSte : HwSte

/-- `struct mlx5dr_ste_send_info`, with the STE that is written by its address. -/
structure SteSendInfo where
  icmAddr : BitVec 64
  size : Nat
  offset : Nat
  data : HwSte

def drSteSizeCtrl : Nat := 32

/-- A miss list, what is to be written, and the counters of its table. -/
structure MissBucket where
  missList : List Ste
  sendSteList : List SteSendInfo
  numOfValidEntries : Nat
  numOfCollisions : Nat

/-- The device goes from each entry to the next, and from the last to the anchor. -/
def MissLinked (format : SteFormat) (anchor : BitVec 64) : List Ste → Prop
  | [] => True
  | ste :: rest =>
    format.follows ste.hwSte = rest.head?.elim anchor Ste.icmAddr ∧ MissLinked format anchor rest

def Ste.setMissAddr (format : SteFormat) (ste : Ste) (missAddr : BitVec 64) : Ste :=
  { ste with hwSte := format.setMissAddr ste.hwSte missAddr }

/-- `dr_ste_remove_middle_ste` for the entry after `prev`. -/
def drSteRemoveMiddleSte (format : SteFormat) (bucket : MissBucket) (before : List Ste)
    (prev ste : Ste) (after : List Ste) : MissBucket :=
  let prev := prev.setMissAddr format (format.getMissAddr ste.hwSte)
  { missList := before ++ prev :: after
    sendSteList := bucket.sendSteList ++ [⟨prev.icmAddr, drSteSizeCtrl, 0, prev.hwSte⟩]
    numOfValidEntries := bucket.numOfValidEntries - 1
    numOfCollisions := bucket.numOfCollisions - 1 }

variable {anchor : BitVec 64}

private theorem missLinked_append {format} (old ste rest) : MissLinked format anchor (old ++ ste :: rest) ↔
      MissLinked format ste.icmAddr old ∧ MissLinked format anchor (ste :: rest) := by
  induction old with
  | nil => exact (and_iff_right trivial).symm
  | cons first more ih =>
    change _ ∧ MissLinked format anchor (more ++ ste :: rest) ↔ (_ ∧ MissLinked format ste.icmAddr more) ∧ _
    rw [ih, ← and_assoc]
    cases more with
    | nil => exact .rfl
    | cons second more => exact .rfl

def farSte (icmAddr missAddr : BitVec 64) : Ste :=
  ⟨icmAddr, drSteV0SetMissAddr (fun _ => 0) missAddr⟩

/-- The miss address of an STE is exact, and a removal keeps the device's way, where the address read fits
what the format reads. -/
theorem missAddr_exact_iff (format : SteFormat) : (∀ (hwSte : HwSte) (addr : BitVec 64), IsSteAddr addr →
      (format.getMissAddr (format.setMissAddr hwSte addr) = addr ∧
          SameBesidesMissAddr format hwSte (format.setMissAddr hwSte addr) ↔
        format = .v1 ∨ addr.toNat < 2 ^ 38)) ∧
    ∀ (anchor : BitVec 64) (bucket : MissBucket) (before after : List Ste) (prev ste : Ste),
      bucket.missList = before ++ prev :: ste :: after →
      MissLinked format anchor bucket.missList →
      ((drSteRemoveMiddleSte format bucket before prev ste after).missList.map Ste.icmAddr =
            (before ++ prev :: after).map Ste.icmAddr ∧
          MissLinked format anchor (drSteRemoveMiddleSte format bucket before prev ste after).missList ↔
        format = .v1 ∨ (format.follows ste.hwSte).toNat < 2 ^ 38) := by
  constructor
  · intro hwSte addr isAddr
    have same : SameBesidesMissAddr format hwSte (format.setMissAddr hwSte addr) := by
      rw [format.setMissAddr_eq]
      exact setMissAddrOf_same format hwSte addr
    have exact_iff := getMissAddr_eq_iff format (format.setMissAddr hwSte addr)
    rw [follows_setMissAddr format hwSte isAddr] at exact_iff
    exact (and_iff_left same).trans exact_iff
  intro anchor bucket before after prev ste isList linked
  rw [isList, missLinked_append] at linked
  obtain ⟨toPrev, -, next, rest⟩ := linked
  have addrs : (drSteRemoveMiddleSte format bucket before prev ste after).missList.map
      Ste.icmAddr = (before ++ prev :: after).map Ste.icmAddr := by
    simp [drSteRemoveMiddleSte, Ste.setMissAddr]
  have relinked : format.follows (prev.setMissAddr format (format.getMissAddr ste.hwSte)).hwSte =
        format.getMissAddr ste.hwSte :=
    follows_setMissAddr format prev.hwSte (isSteAddr_getMissAddr format ste.hwSte)
  rw [and_iff_right addrs, ← getMissAddr_eq_iff]
  change MissLinked format anchor (before ++ _ :: after) ↔ _
  rw [missLinked_append, MissLinked, relinked, next]
  exact ⟨fun kept => kept.2.1, fun same => ⟨toPrev, same, rest⟩⟩

theorem missAddr_exact_low : drSteV0GetMissAddr (drSteV0SetMissAddr (fun _ => 0) 0x3fffffffc0) = 0x3fffffffc0 ∧
      MissLinked .v0 0x1000 (drSteRemoveMiddleSte .v0 ⟨[farSte 0x40 0x80, farSte 0x80 0x1000], [], 2, 1⟩ []
          (farSte 0x40 0x80) (farSte 0x80 0x1000) []).missList :=
  ⟨(((missAddr_exact_iff .v0).1 (fun _ => 0) 0x3fffffffc0 ⟨by decide, by decide⟩).mpr (.inr (by decide))).1,
    (((missAddr_exact_iff .v0).2 0x1000 ⟨[farSte 0x40 0x80, farSte 0x80 0x1000], [], 2, 1⟩ [] [] _ _
      rfl ⟨by decide, by decide, trivial⟩).mpr
      (.inr (by decide))).2⟩

/-- The address of the anchor is lost, and the list ends at another one. -/
theorem missAddr_not_exact : drSteV0GetMissAddr (drSteV0SetMissAddr (fun _ => 0) 0x4000000000) = 0 ∧
      MissLinked .v0 0x4000000000 [farSte 0x40 0x80, farSte 0x80 0x4000000000] ∧
      ¬ MissLinked .v0 0x4000000000 (drSteRemoveMiddleSte .v0 ⟨[], [], 2, 1⟩ [] (farSte 0x40 0x80)
          (farSte 0x80 0x4000000000) []).missList := by
  refine ⟨by decide, ⟨by decide, by decide, trivial⟩, ?_⟩
  rintro ⟨ends, -⟩
  revert ends
  decide

end MlnxOfed.Steering
