/-
Packing structures into wire headers and back (packer.c). A field of up to 32 bits is merged into a 32 bit
word, one of up to 64 into a 64 bit word, and a longer one is copied bytewise. As bits, each field moves the
low bits of its structure member to its place in the buffer.
-/

import Mathlib.Data.List.Pairwise
import MlnxOfed.Lib.BitMemory

namespace MlnxOfed.Infiniband

open List Lib

/-- `struct ib_field` without its name; a field without structure member is reserved. -/
structure IbField where
  structOffsetBytes : Nat
  structSizeBytes : Nat
  offsetWords : Nat
  offsetBits : Nat
  sizeBits : Nat
deriving DecidableEq

def HandledSize (size : Nat) : Prop :=
  size = 1 ∨ size = 2 ∨ size = 4 ∨ size = 8

instance : DecidablePred HandledSize := fun size =>
  inferInstanceAs (Decidable (size = 1 ∨ size = 2 ∨ size = 4 ∨ size = 8))

def valueRead (offset size : Nat) (member : Bytes) : Nat :=
  if HandledSize size then readBe member offset size else 0

def valueWrite (offset size val : Nat) (member : Bytes) : Bytes :=
  if HandledSize size then writeBe member offset size val else member

/-- `(*addr & ~mask) | (val & mask)` on words of a given width. -/
def mergeWord (width word val mask : Nat) : Nat :=
  word &&& (mask ^^^ (2 ^ width - 1)) ||| val &&& mask

namespace IbField

/-- One round of `ib_pack`. -/
def pack (field : IbField) (structure_ buf : Bytes) : Bytes :=
  if field.sizeBits ≤ 32 then
    let shift := 32 - field.offsetBits - field.sizeBits
    let val :=
      if field.structSizeBytes ≠ 0 then
        (valueRead field.structOffsetBytes field.structSizeBytes structure_ <<< shift) % 2 ^ 32
      else 0
    let mask := (((1 <<< field.sizeBits) - 1) <<< shift) % 2 ^ 32
    let addr := 4 * field.offsetWords
    writeBe buf addr 4 (mergeWord 32 (readBe buf addr 4) val mask)
  else if field.sizeBits ≤ 64 then
    let shift := 64 - field.offsetBits - field.sizeBits
    let val :=
      if field.structSizeBytes ≠ 0 then
        (valueRead field.structOffsetBytes field.structSizeBytes structure_ <<< shift) % 2 ^ 64
      else 0
    let mask := (((2 ^ 64 - 1) >>> (64 - field.sizeBits)) <<< shift) % 2 ^ 64
    let addr := 4 * field.offsetWords
    writeBe buf addr 8 (mergeWord 64 (readBe buf addr 8) val mask)
  else
    let addr := field.offsetWords * 4 + field.offsetBits / 8
    if field.structSizeBytes ≠ 0 then
      copyBlock buf addr structure_ field.structOffsetBytes (field.sizeBits / 8)
    else copyBlock buf addr (fun _ => 0) 0 (field.sizeBits / 8)

/-- A round of `ib_unpack`; the address of a 64 bit word is in units of 64 bits. -/
def unpack (field : IbField) (buf structure_ : Bytes) : Bytes :=
  if field.structSizeBytes = 0 then structure_
  else if field.sizeBits ≤ 32 then
    let shift := 32 - field.offsetBits - field.sizeBits
    let mask := (((1 <<< field.sizeBits) - 1) <<< shift) % 2 ^ 32
    let addr := 4 * field.offsetWords
    let val := (readBe buf addr 4 &&& mask) >>> shift
    valueWrite field.structOffsetBytes field.structSizeBytes val structure_
  else if field.sizeBits ≤ 64 then
    let shift := 64 - field.offsetBits - field.sizeBits
    let mask := (((2 ^ 64 - 1) >>> (64 - field.sizeBits)) <<< shift) % 2 ^ 64
    let addr := 8 * field.offsetWords
    let val := (readBe buf addr 8 &&& mask) >>> shift
    valueWrite field.structOffsetBytes field.structSizeBytes val structure_
  else
    copyBlock structure_ field.structOffsetBytes buf
      (field.offsetWords * 4 + field.offsetBits / 8) (field.sizeBits / 8)

end IbField

def ibPack (desc : List IbField) (structure_ buf : Bytes) : Bytes :=
  desc.foldl (fun buf field => field.pack structure_ buf) buf

def ibUnpack (desc : List IbField) (buf structure_ : Bytes) : Bytes :=
  desc.foldl (fun structure_ field => field.unpack buf structure_) structure_

namespace IbField

/-- The field lies in one word window or is byte aligned; its member has a size that is read and written, or
that of a long field. -/
structure Wf (field : IbField) : Prop where
  positive : 0 < field.sizeBits
  word : field.sizeBits ≤ 32 → field.offsetBits + field.sizeBits ≤ 32
  longWord : 32 < field.sizeBits → field.sizeBits ≤ 64 → field.offsetBits + field.sizeBits ≤ 64
  bytes : 64 < field.sizeBits → field.offsetBits % 8 = 0 ∧ field.sizeBits % 8 = 0
  member : field.structSizeBytes ≠ 0 → field.sizeBits ≤ 64 → HandledSize field.structSizeBytes
  longMember : field.structSizeBytes ≠ 0 → 64 < field.sizeBits → 8 * field.structSizeBytes = field.sizeBits

def start (field : IbField) : Nat :=
  32 * field.offsetWords + field.offsetBits

/-- First bit that `ib_unpack` takes the field from. -/
def readStart (field : IbField) : Nat :=
  if 32 < field.sizeBits ∧ field.sizeBits ≤ 64 then 64 * field.offsetWords + field.offsetBits
  else field.start

def value (field : IbField) (structure_ : Bytes) : Nat :=
  readBe structure_ field.structOffsetBytes field.structSizeBytes

end IbField

private theorem mergeWord_testBit (width word val mask i) (inside : i < width) :
    (mergeWord width word val mask).testBit i = if mask.testBit i then val.testBit i else word.testBit i := by
  unfold mergeWord
  rw [Nat.testBit_or, Nat.testBit_and, Nat.testBit_and, Nat.testBit_xor,
    Nat.testBit_two_pow_sub_one, decide_eq_true inside]
  cases mask.testBit i <;> simp

theorem wordMask_testBit (size shift i) (inside : i < 32) :
    ((((1 <<< size) - 1) <<< shift) % 2 ^ 32).testBit i = decide (shift ≤ i ∧ i < shift + size) := by
  rw [Nat.one_shiftLeft, Nat.testBit_mod_two_pow, Nat.testBit_shiftLeft,
    Nat.testBit_two_pow_sub_one, decide_eq_true inside]
  by_cases low : shift ≤ i
  · have same : i - shift < size ↔ i < shift + size := by omega
    simp [low, same]
  · simp [low]

theorem longMask_testBit (size shift i) (inside : i < 64) (small : size ≤ 64) :
    ((((2 ^ 64 - 1) >>> (64 - size)) <<< shift) % 2 ^ 64).testBit i =
      decide (shift ≤ i ∧ i < shift + size) := by
  rw [Nat.testBit_mod_two_pow, Nat.testBit_shiftLeft, Nat.testBit_shiftRight,
    Nat.testBit_two_pow_sub_one, decide_eq_true inside]
  by_cases low : shift ≤ i
  · have same : 64 - size + (i - shift) < 64 ↔ i < shift + size := by omega
    simp [low, same]
  · simp [low]

/-! ### One field, bit by bit -/

namespace IbField

variable {field : IbField} {structure_ buf : Bytes}

theorem Wf.valueRead (wf : field.Wf) (short : field.sizeBits ≤ 64) :
    valueRead field.structOffsetBytes field.structSizeBytes structure_ = field.value structure_ := by
  unfold Infiniband.valueRead value
  by_cases reserved : field.structSizeBytes = 0
  · rw [reserved, if_neg (by decide)]
    rfl
  · rw [if_pos (wf.member reserved short)]

theorem value_reserved (reserved : field.structSizeBytes = 0) : field.value structure_ = 0 := by
  unfold value
  rw [reserved]
  rfl

private theorem writeWord_bit {width addr shift size offset value mask buf}
    (bytes : 8 * (width / 8) = width) (fits : offset + size ≤ width) (shiftEq : shift = width - offset - size)
    (maskBit : ∀ i, i < width → mask.testBit i = decide (shift ≤ i ∧ i < shift + size)) (p) :
    bitAt (writeBe buf addr (width / 8) (mergeWord width (readBe buf addr (width / 8))
        ((value <<< shift) % 2 ^ width) mask)) p =
      if 8 * addr + offset ≤ p ∧ p < 8 * addr + offset + size then
        value.testBit (size - 1 - (p - (8 * addr + offset)))
      else bitAt buf p := by
  rw [bitAt_writeBe]
  split
  · have low : 8 * (addr + width / 8) - 1 - p < width := by omega
    rw [mergeWord_testBit _ _ _ _ _ low, maskBit _ low]
    by_cases inside : 8 * addr + offset ≤ p ∧ p < 8 * addr + offset + size
    · rw [if_pos inside, if_pos (decide_eq_true (by omega)), Nat.testBit_mod_two_pow,
        decide_eq_true low, Bool.true_and, Nat.testBit_shiftLeft,
        decide_eq_true (show shift ≤ 8 * (addr + width / 8) - 1 - p by omega), Bool.true_and]
      congr 1
      omega
    have outside : ¬ decide (shift ≤ 8 * (addr + width / 8) - 1 - p ∧
        8 * (addr + width / 8) - 1 - p < shift + size) = true := by
      rw [decide_eq_true_eq]
      omega
    rw [if_neg inside, if_neg outside, readBe_testBit,
      decide_eq_true (show 8 * (addr + width / 8) - 1 - p < 8 * (width / 8) by omega),
      Bool.true_and]
    congr 1
    omega
  · rw [if_neg (by omega)]

theorem pack_bit (wf : field.Wf) (structure_ buf p) :
    bitAt (field.pack structure_ buf) p = if field.start ≤ p ∧ p < field.start + field.sizeBits then
        (field.value structure_).testBit (field.sizeBits - 1 - (p - field.start))
      else bitAt buf p := by
  have positive := wf.positive
  have val (width : Nat) (short : field.sizeBits ≤ 64) : (if field.structSizeBytes ≠ 0 then
        (Infiniband.valueRead field.structOffsetBytes field.structSizeBytes structure_ <<<
          (width - field.offsetBits - field.sizeBits)) % 2 ^ width
      else 0) = (field.value structure_ <<< (width - field.offsetBits - field.sizeBits)) % 2 ^ width := by
    rw [wf.valueRead short]
    split
    · rfl
    · rename_i reserved
      rw [value_reserved (not_not.mp reserved), Nat.zero_shiftLeft, Nat.zero_mod]
  have place : 8 * (4 * field.offsetWords) + field.offsetBits = field.start := by
    unfold start
    omega
  unfold pack
  by_cases word : field.sizeBits ≤ 32
  · rw [if_pos word]
    simp only [val 32 (by omega)]
    have bits := @writeWord_bit 32 (4 * field.offsetWords) (32 - field.offsetBits - field.sizeBits)
      field.sizeBits field.offsetBits (field.value structure_)
      ((((1 <<< field.sizeBits) - 1) <<< (32 - field.offsetBits - field.sizeBits)) % 2 ^ 32) buf
      rfl (wf.word word) rfl (fun i inside => wordMask_testBit _ _ i inside) p
    rw [place] at bits
    exact bits
  rw [if_neg word]
  by_cases longWord : field.sizeBits ≤ 64
  · rw [if_pos longWord]
    simp only [val 64 longWord]
    have bits := @writeWord_bit 64 (4 * field.offsetWords)
      (64 - field.offsetBits - field.sizeBits) field.sizeBits field.offsetBits
      (field.value structure_)
      ((((2 ^ 64 - 1) >>> (64 - field.sizeBits)) <<< (64 - field.offsetBits - field.sizeBits)) % 2 ^ 64) buf
      rfl (wf.longWord (by omega) longWord) rfl
      (fun i inside => longMask_testBit _ _ i inside longWord) p
    rw [place] at bits
    exact bits
  rw [if_neg longWord]
  obtain ⟨offset, size⟩ := wf.bytes (by omega)
  have begins : 8 * (field.offsetWords * 4 + field.offsetBits / 8) = field.start := by omega
  have ends : 8 * (field.offsetWords * 4 + field.offsetBits / 8 + field.sizeBits / 8) =
      field.start + field.sizeBits := by omega
  split
  · rename_i mem
    have width := wf.longMember mem (by omega)
    rw [bitAt_copyBlock, begins, ends]
    by_cases inside : field.start ≤ p ∧ p < field.start + field.sizeBits
    · rw [if_pos inside, if_pos inside]
      unfold value
      rw [readBe_testBit, decide_eq_true (by omega), Bool.true_and]
      congr 1
      omega
    · rw [if_neg inside, if_neg inside]
  · rename_i reserved
    rw [bitAt_copyBlock, begins, ends, value_reserved (not_not.mp reserved)]
    by_cases inside : field.start ≤ p ∧ p < field.start + field.sizeBits
    · rw [if_pos inside, if_pos inside, Nat.zero_testBit]
      exact Nat.zero_testBit _
    · rw [if_neg inside, if_neg inside]

private theorem readWord_bit {width addr shift size offset mask buf}
    (bytes : 8 * (width / 8) = width) (fits : offset + size ≤ width) (shiftEq : shift = width - offset - size)
    (maskBit : ∀ i, i < width → mask.testBit i = decide (shift ≤ i ∧ i < shift + size)) (i) :
    ((readBe buf addr (width / 8) &&& mask) >>> shift).testBit i =
      (decide (i < size) && bitAt buf (8 * addr + offset + (size - 1 - i))) := by
  rw [Nat.testBit_shiftRight, Nat.testBit_and, readBe_testBit]
  by_cases inside : shift + i < width
  · rw [maskBit _ inside, decide_eq_true (show shift + i < 8 * (width / 8) by omega),
      Bool.true_and, Bool.and_comm]
    by_cases low : i < size
    · rw [decide_eq_true (show shift ≤ shift + i ∧ shift + i < shift + size by omega),
        decide_eq_true low, Bool.true_and, Bool.true_and]
      congr 1
      omega
    · rw [decide_eq_false (show ¬ (shift ≤ shift + i ∧ shift + i < shift + size) by omega),
        decide_eq_false low, Bool.false_and, Bool.false_and]
  · rw [decide_eq_false (show ¬ shift + i < 8 * (width / 8) by omega),
      decide_eq_false (show ¬ i < size by omega), Bool.false_and, Bool.false_and, Bool.false_and]

theorem unpack_bit (wf : field.Wf) (member : field.structSizeBytes ≠ 0) (buf structure_ p) :
    bitAt (field.unpack buf structure_) p = if 8 * field.structOffsetBytes ≤ p ∧
          p < 8 * (field.structOffsetBytes + field.structSizeBytes) then
        decide (8 * (field.structOffsetBytes + field.structSizeBytes) - 1 - p < field.sizeBits) &&
          bitAt buf (field.readStart + (field.sizeBits - 1 -
            (8 * (field.structOffsetBytes + field.structSizeBytes) - 1 - p)))
      else bitAt structure_ p := by
  have positive := wf.positive
  unfold unpack
  rw [if_neg member]
  by_cases word : field.sizeBits ≤ 32
  · have place : field.readStart = 8 * (4 * field.offsetWords) + field.offsetBits := by
      unfold readStart start
      rw [if_neg (by omega)]
      omega
    rw [if_pos word]
    unfold valueWrite
    rw [if_pos (wf.member member (by omega)), bitAt_writeBe, place]
    split
    · exact @readWord_bit 32 (4 * field.offsetWords) (32 - field.offsetBits - field.sizeBits)
        field.sizeBits field.offsetBits
        ((((1 <<< field.sizeBits) - 1) <<< (32 - field.offsetBits - field.sizeBits)) % 2 ^ 32) buf
        rfl (wf.word word) rfl (fun i inside => wordMask_testBit _ _ i inside) _
    · rfl
  · rw [if_neg word]
    by_cases longWord : field.sizeBits ≤ 64
    · have place : field.readStart = 8 * (8 * field.offsetWords) + field.offsetBits := by
        unfold readStart
        rw [if_pos (by omega)]
        omega
      rw [if_pos longWord]
      unfold valueWrite
      rw [if_pos (wf.member member longWord), bitAt_writeBe, place]
      split
      · exact @readWord_bit 64 (8 * field.offsetWords) (64 - field.offsetBits - field.sizeBits)
          field.sizeBits field.offsetBits
          ((((2 ^ 64 - 1) >>> (64 - field.sizeBits)) <<< (64 - field.offsetBits - field.sizeBits)) % 2 ^ 64) buf
          rfl (wf.longWord (by omega) longWord) rfl
          (fun i inside => longMask_testBit _ _ i inside longWord) _
      · rfl
    · obtain ⟨offset, size⟩ := wf.bytes (by omega)
      have width := wf.longMember member (by omega)
      have place : field.readStart = 8 * (field.offsetWords * 4 + field.offsetBits / 8) := by
        unfold readStart start
        rw [if_neg (by omega)]
        omega
      have ends : field.structOffsetBytes + field.sizeBits / 8 =
          field.structOffsetBytes + field.structSizeBytes := by omega
      rw [if_neg longWord, bitAt_copyBlock, ends, place]
      split
      · rename_i inside
        rw [decide_eq_true (by omega), Bool.true_and]
        congr 1
        omega
      · rfl

end IbField

def BufferApart (left right : IbField) : Prop :=
  left.start + left.sizeBits ≤ right.start ∨ right.start + right.sizeBits ≤ left.start

def MemberApart (left right : IbField) : Prop :=
  left.structSizeBytes ≠ 0 → right.structSizeBytes ≠ 0 →
    left.structOffsetBytes + left.structSizeBytes ≤ right.structOffsetBytes ∨
      right.structOffsetBytes + right.structSizeBytes ≤ left.structOffsetBytes

structure DescWf (desc : List IbField) : Prop where
  fields : ∀ field ∈ desc, field.Wf
  buffer : desc.Pairwise BufferApart
  members : desc.Pairwise MemberApart

def IbField.Covers (field : IbField) (p : Nat) : Prop :=
  field.start ≤ p ∧ p < field.start + field.sizeBits

section Desc

variable {desc : List IbField} {field : IbField}

theorem ibPack_bit_outside (wf : ∀ field ∈ desc, field.Wf) {structure_ buf p}
    (outside : ∀ field ∈ desc, ¬ field.Covers p) :
    bitAt (ibPack desc structure_ buf) p = bitAt buf p := by
  induction desc generalizing buf with
  | nil => rfl
  | cons first rest ih =>
    rw [forall_mem_cons] at wf outside
    have here := outside.1
    unfold IbField.Covers at here
    have later := @ih wf.2 (first.pack structure_ buf) outside.2
    rw [IbField.pack_bit wf.1, if_neg here] at later
    exact later

theorem ibPack_bit (wf : DescWf desc) {structure_ buf p} (listed : field ∈ desc) (covers : field.Covers p) :
    bitAt (ibPack desc structure_ buf) p =
      (field.value structure_).testBit (field.sizeBits - 1 - (p - field.start)) := by
  obtain ⟨fields, buffer, members⟩ := wf
  induction desc generalizing buf with
  | nil => exact absurd listed not_mem_nil
  | cons first rest ih =>
    rw [forall_mem_cons] at fields
    rw [pairwise_cons] at buffer members
    rcases mem_cons.mp listed with same | later
    · subst same
      have outside : ∀ other ∈ rest, ¬ other.Covers p := by
        intro other inRest both
        have apart := buffer.1 other inRest
        unfold BufferApart at apart
        unfold IbField.Covers at both covers
        omega
      unfold IbField.Covers at covers
      have kept := @ibPack_bit_outside rest fields.2 structure_ (field.pack structure_ buf) p outside
      rw [IbField.pack_bit fields.1, if_pos covers] at kept
      exact kept
    · exact ih later fields.2 buffer.2 members.2

private theorem ibUnpack_bit_outside (wf : ∀ field ∈ desc, field.Wf) {structure_ buf p}
    (outside : ∀ field ∈ desc, field.structSizeBytes ≠ 0 → ¬ (8 * field.structOffsetBytes ≤ p ∧
        p < 8 * (field.structOffsetBytes + field.structSizeBytes))) :
    bitAt (ibUnpack desc buf structure_) p = bitAt structure_ p := by
  induction desc generalizing structure_ with
  | nil => rfl
  | cons first rest ih =>
    rw [forall_mem_cons] at wf outside
    have later := @ih wf.2 (first.unpack buf structure_) outside.2
    have here : bitAt (first.unpack buf structure_) p = bitAt structure_ p := by
      by_cases reserved : first.structSizeBytes = 0
      · unfold IbField.unpack
        rw [if_pos reserved]
      · rw [IbField.unpack_bit wf.1 reserved, if_neg (outside.1 reserved)]
    rw [here] at later
    exact later

theorem ibUnpack_bit (wf : DescWf desc) {structure_ buf p} (listed : field ∈ desc)
    (mem : field.structSizeBytes ≠ 0)
    (inside : 8 * field.structOffsetBytes ≤ p ∧ p < 8 * (field.structOffsetBytes + field.structSizeBytes)) :
    bitAt (ibUnpack desc buf structure_) p =
      (decide (8 * (field.structOffsetBytes + field.structSizeBytes) - 1 - p < field.sizeBits) &&
        bitAt buf (field.readStart + (field.sizeBits - 1 -
          (8 * (field.structOffsetBytes + field.structSizeBytes) - 1 - p)))) := by
  obtain ⟨fields, buffer, members⟩ := wf
  induction desc generalizing structure_ with
  | nil => exact absurd listed not_mem_nil
  | cons first rest ih =>
    rw [forall_mem_cons] at fields
    rw [pairwise_cons] at buffer members
    rcases mem_cons.mp listed with same | later
    · subst same
      have outside : ∀ other ∈ rest, other.structSizeBytes ≠ 0 → ¬ (8 * other.structOffsetBytes ≤ p ∧
            p < 8 * (other.structOffsetBytes + other.structSizeBytes)) := by
        intro other inRest otherMember both
        have apart := members.1 other inRest mem otherMember
        omega
      have kept := @ibUnpack_bit_outside rest fields.2 (field.unpack buf structure_) buf p outside
      rw [IbField.unpack_bit fields.1 mem, if_pos inside] at kept
      exact kept
    · exact ih later fields.2 buffer.2 members.2

/-! ### There and back -/

structure RoundTrip (desc : List IbField) : Prop where
  restored : ∀ structure_ other buf : Bytes, (∀ field ∈ desc, field.value structure_ < 2 ^ field.sizeBits) →
      ∀ field ∈ desc, ∀ byte, field.structOffsetBytes ≤ byte →
        byte < field.structOffsetBytes + field.structSizeBytes →
          ibUnpack desc (ibPack desc structure_ buf) other byte = structure_ byte
  outside : ∀ (structure_ buf : Bytes) (p : Nat), (∀ field ∈ desc, ¬ field.Covers p) →
    bitAt (ibPack desc structure_ buf) p = bitAt buf p
  cleared : ∀ structure_ buf : Bytes, ∀ field ∈ desc, field.structSizeBytes = 0 →
    ∀ p, field.Covers p → bitAt (ibPack desc structure_ buf) p = false
  repacked : ∀ buf target other : Bytes, ∀ field ∈ desc, field.structSizeBytes ≠ 0 →
    ∀ p, field.Covers p → bitAt (ibPack desc (ibUnpack desc buf other) target) p = bitAt buf p

/-- Only the first 64 bit word is described, and no member is too narrow. -/
def Readable (desc : List IbField) : Prop :=
  ∀ field ∈ desc, field.structSizeBytes ≠ 0 →
    (32 < field.sizeBits ∧ field.sizeBits ≤ 64 → field.offsetWords = 0) ∧
      field.sizeBits ≤ 8 * field.structSizeBytes

theorem IbField.readStart_eq (first : 32 < field.sizeBits ∧ field.sizeBits ≤ 64 →
    field.offsetWords = 0) : field.readStart = field.start := by
  unfold IbField.readStart IbField.start
  split
  · rename_i long
    rw [first long]
  · rfl

private theorem restored_of_readable (wf : DescWf desc) (readable : Readable desc) {structure_ other buf}
    (fits : field.value structure_ < 2 ^ field.sizeBits) (listed : field ∈ desc) {byte}
    (lower : field.structOffsetBytes ≤ byte) (upper : byte < field.structOffsetBytes + field.structSizeBytes) :
    ibUnpack desc (ibPack desc structure_ buf) other byte = structure_ byte := by
  have mem : field.structSizeBytes ≠ 0 := by omega
  have positive := (wf.fields field listed).positive
  apply byte_eq_of_bits
  intro b small
  rw [ibUnpack_bit wf listed mem (by omega), IbField.readStart_eq (readable field listed mem).1]
  have value : (field.value structure_).testBit
      (8 * (field.structOffsetBytes + field.structSizeBytes) - 1 - (8 * byte + b)) =
        bitAt structure_ (8 * byte + b) := by
    unfold IbField.value
    rw [readBe_testBit, decide_eq_true (by omega), Bool.true_and]
    congr 1
    omega
  rw [← value]
  generalize spot : 8 * (field.structOffsetBytes + field.structSizeBytes) - 1 - (8 * byte + b) = i
  by_cases low : i < field.sizeBits
  · have covers : field.Covers (field.start + (field.sizeBits - 1 - i)) := by
      unfold IbField.Covers
      omega
    rw [decide_eq_true low, Bool.true_and, ibPack_bit wf listed covers]
    congr 1
    omega
  · rw [decide_eq_false low, Bool.false_and]
    symm
    apply Nat.testBit_lt_two_pow
    exact lt_of_lt_of_le fits (Nat.pow_le_pow_right (by decide) (by omega))

private theorem repacked_of_readable (wf : DescWf desc) (readable : Readable desc) {buf target other}
    (listed : field ∈ desc) (mem : field.structSizeBytes ≠ 0) {p} (covers : field.Covers p) :
    bitAt (ibPack desc (ibUnpack desc buf other) target) p = bitAt buf p := by
  obtain ⟨first, wide⟩ := readable field listed mem
  rw [ibPack_bit wf listed covers]
  unfold IbField.Covers at covers
  unfold IbField.value
  rw [readBe_testBit, decide_eq_true (by omega), Bool.true_and,
    ibUnpack_bit wf listed mem (by omega), decide_eq_true (by omega), Bool.true_and,
    IbField.readStart_eq first]
  congr 1
  omega

def IbField.one (field : IbField) : Bytes :=
  writeBe (fun _ => 0) field.structOffsetBytes field.structSizeBytes 1

theorem bitAt_zero (p) : bitAt (fun _ => 0) p = false := by exact Nat.zero_testBit _

theorem IbField.bitAt_one (mem : field.structSizeBytes ≠ 0) (p) : bitAt field.one p =
      decide (p = 8 * (field.structOffsetBytes + field.structSizeBytes) - 1) := by
  unfold IbField.one
  rw [bitAt_writeBe, bitAt_zero]
  by_cases last : p = 8 * (field.structOffsetBytes + field.structSizeBytes) - 1
  · rw [if_pos (by omega), last, Nat.sub_self]
    simp
  · rw [decide_eq_false last]
    split
    · have high : 1 ≤ 8 * (field.structOffsetBytes + field.structSizeBytes) - 1 - p := by omega
      exact Nat.testBit_lt_two_pow (Nat.one_lt_two_pow (by omega))
    · rfl

theorem IbField.value_one (mem : field.structSizeBytes ≠ 0) : field.value field.one = 1 := by
  apply Nat.eq_of_testBit_eq
  intro i
  unfold IbField.value
  rw [readBe_testBit, IbField.bitAt_one mem]
  by_cases low : i = 0
  · rw [low, decide_eq_true (by omega), decide_eq_true (by omega)]
    rfl
  · rw [Nat.testBit_lt_two_pow (show 1 < 2 ^ i from Nat.one_lt_two_pow low)]
    by_cases inside : i < 8 * field.structSizeBytes
    · rw [decide_eq_false (show ¬ 8 * (field.structOffsetBytes + field.structSizeBytes) - 1 - i =
        8 * (field.structOffsetBytes + field.structSizeBytes) - 1 by omega), Bool.and_false]
    · rw [decide_eq_false inside, Bool.false_and]

theorem IbField.value_one_other {other} (mem : field.structSizeBytes ≠ 0)
    (apart : MemberApart field other) : other.value field.one = 0 := by
  apply Nat.eq_of_testBit_eq
  intro i
  unfold IbField.value
  rw [readBe_testBit, IbField.bitAt_one mem, Nat.zero_testBit]
  by_cases inside : i < 8 * other.structSizeBytes
  · have far := apart mem (by omega)
    rw [decide_eq_false (show ¬ 8 * (other.structOffsetBytes + other.structSizeBytes) - 1 - i =
      8 * (field.structOffsetBytes + field.structSizeBytes) - 1 by omega), Bool.and_false]
  · rw [decide_eq_false inside, Bool.false_and]

theorem DescWf.value_one (wf : DescWf desc) (listed : field ∈ desc)
    (mem : field.structSizeBytes ≠ 0) {other} (otherListed : other ∈ desc) :
    other.value field.one = if other = field then 1 else 0 := by
  split_ifs with same
  · rw [same, IbField.value_one mem]
  apply IbField.value_one_other mem
  have symmetric : Std.Symm MemberApart := by
    constructor
    intro left right apart rightMember leftMember
    exact (apart leftMember rightMember).symm
  exact wf.members.forall listed otherListed (Ne.symm same)

private theorem bitAt_ibPack_one (wf : DescWf desc) (listed : field ∈ desc) (mem : field.structSizeBytes ≠ 0) (p) :
    bitAt (ibPack desc field.one (fun _ => 0)) p = decide (p = field.start + field.sizeBits - 1) := by
  have positive := (wf.fields field listed).positive
  by_cases covered : ∃ other ∈ desc, other.Covers p
  · obtain ⟨other, otherListed, covers⟩ := covered
    rw [ibPack_bit wf otherListed covers, wf.value_one listed mem otherListed]
    by_cases same : other = field
    · subst same
      unfold IbField.Covers at covers
      rw [if_pos rfl]
      by_cases last : p = other.start + other.sizeBits - 1
      · rw [decide_eq_true last, show other.sizeBits - 1 - (p - other.start) = 0 by omega]
        rfl
      · rw [decide_eq_false last]
        exact Nat.testBit_lt_two_pow (Nat.one_lt_two_pow (by omega))
    rw [if_neg same, Nat.zero_testBit]
    symm
    apply decide_eq_false
    intro last
    have symmetric : Std.Symm BufferApart := by
      constructor
      intro left right apart
      exact apart.symm
    have apart := wf.buffer.forall listed otherListed (Ne.symm same)
    unfold BufferApart at apart
    unfold IbField.Covers at covers
    omega
  · have outside : ∀ other ∈ desc, ¬ other.Covers p := by
      intro other otherListed covers
      exact covered ⟨other, otherListed, covers⟩
    rw [ibPack_bit_outside wf.fields outside, bitAt_zero]
    symm
    apply decide_eq_false
    intro last
    apply outside field listed
    unfold IbField.Covers
    omega

private theorem first_of_restored (wf : DescWf desc) (trip : RoundTrip desc) (listed : field ∈ desc)
    (mem : field.structSizeBytes ≠ 0) (long : 32 < field.sizeBits ∧ field.sizeBits ≤ 64) :
    field.offsetWords = 0 := by
  have fits other (otherListed : other ∈ desc) : other.value field.one < 2 ^ other.sizeBits := by
    have positive := (wf.fields other otherListed).positive
    rw [wf.value_one listed mem otherListed]
    split
    · exact Nat.one_lt_two_pow (by omega)
    · exact Nat.two_pow_pos _
  have restored := trip.restored field.one (fun _ => 0) (fun _ => 0) fits field listed
    (field.structOffsetBytes + field.structSizeBytes - 1) (by omega) (by omega)
  have bits := congrArg (fun byte : UInt8 => byte.toNat.testBit 0) restored
  have view (memory : Bytes) : (memory (field.structOffsetBytes + field.structSizeBytes - 1)).toNat.testBit 0 =
        bitAt memory (8 * (field.structOffsetBytes + field.structSizeBytes) - 1) := by
    congr 1
    · congr 3
      omega
    · omega
  simp only [view] at bits
  rw [IbField.bitAt_one mem, decide_eq_true rfl, ibUnpack_bit wf listed mem (by omega),
    Bool.and_eq_true, bitAt_ibPack_one wf listed mem, decide_eq_true_eq] at bits
  have place := of_decide_eq_true bits.2
  unfold IbField.readStart IbField.start at place
  rw [if_pos long] at place
  omega

private theorem wide_of_repacked (wf : DescWf desc) (trip : RoundTrip desc) (listed : field ∈ desc)
    (mem : field.structSizeBytes ≠ 0) : field.sizeBits ≤ 8 * field.structSizeBytes := by
  have positive := (wf.fields field listed).positive
  apply Nat.le_of_not_lt
  intro narrow
  have covers : field.Covers field.start := by
    unfold IbField.Covers
    omega
  have same := trip.repacked (fun _ => 255) (fun _ => 0) (fun _ => 0) field listed mem field.start covers
  have ones : bitAt (fun _ => 255) field.start = true := by
    have all : ∀ i, i < 8 → (255 : UInt8).toNat.testBit i = true := by decide
    exact all _ (by omega)
  rw [ones, ibPack_bit wf listed covers, Nat.testBit_lt_two_pow] at same
  · exact absurd same (by decide)
  · unfold IbField.value
    exact lt_of_lt_of_le (readBe_lt _ _ _) (Nat.pow_le_pow_right (by decide) (by omega))

/-- Packing and unpacking undo each other exactly where every 64 bit word described is the first of the
buffer and members are as wide as their fields. -/
theorem roundTrip_iff_readable (desc : List IbField) (wf : DescWf desc) : RoundTrip desc ↔ Readable desc := by
  constructor
  · intro trip field listed member
    exact ⟨first_of_restored wf trip listed member, wide_of_repacked wf trip listed member⟩
  intro readable
  constructor
  case restored =>
    intro structure_ other buf fits field listed byte lower upper
    exact restored_of_readable wf readable (fits field listed) listed lower upper
  case outside =>
    intro structure_ buf p outside
    exact ibPack_bit_outside wf.fields outside
  case cleared =>
    intro structure_ buf field listed reserved p covers
    rw [ibPack_bit wf listed covers, IbField.value_reserved reserved, Nat.zero_testBit]
  case repacked =>
    intro buf target other field listed member p covers
    exact repacked_of_readable wf readable listed member covers

end Desc

/-- A 4 bit and a 28 bit field in a word, a reserved word, and a GUID as second 64 bit word. -/
def guidDesc : List IbField :=
  [⟨0, 1, 0, 0, 4⟩, ⟨4, 4, 0, 4, 28⟩, ⟨0, 0, 1, 0, 32⟩, ⟨8, 8, 2, 0, 64⟩]

def guidFirstDesc : List IbField :=
  [⟨8, 8, 0, 0, 64⟩, ⟨0, 1, 2, 0, 4⟩, ⟨4, 4, 2, 4, 28⟩, ⟨0, 0, 3, 0, 32⟩]

private theorem wf_of_list {desc} (fields : ∀ field ∈ desc, 0 < field.sizeBits ∧
      (field.sizeBits ≤ 32 → field.offsetBits + field.sizeBits ≤ 32) ∧
      field.offsetBits + field.sizeBits ≤ 64 ∧
      (field.structSizeBytes ≠ 0 → HandledSize field.structSizeBytes))
    (buffer : desc.Pairwise BufferApart) (members : desc.Pairwise MemberApart) : DescWf desc := by
  refine ⟨?_, buffer, members⟩
  intro field listed
  obtain ⟨pos, word, long, mem⟩ := fields field listed
  exact {
    positive := pos
    word := word
    longWord _ _ := long
    bytes above := by omega
    member known _ := mem known
    longMember _ above := by omega }

instance (left right : IbField) : Decidable (BufferApart left right) :=
  inferInstanceAs (Decidable (_ ∨ _))

instance (left right : IbField) : Decidable (MemberApart left right) :=
  inferInstanceAs (Decidable (_ → _ → _ ∨ _))

private theorem guidDesc_wf : DescWf guidDesc := wf_of_list (by decide) (by decide) (by decide)

private theorem guidFirstDesc_wf : DescWf guidFirstDesc := wf_of_list (by decide) (by decide) (by decide)

theorem roundTrip_guidFirst : RoundTrip guidFirstDesc := by
  apply (roundTrip_iff_readable guidFirstDesc guidFirstDesc_wf).mpr
  unfold Readable
  decide

/-- A GUID of 1 in the second 64 bit word comes back as 0. -/
theorem unpack_pack_guid : DescWf guidDesc ∧
      (∀ field ∈ guidDesc, field.value (fun byte => if byte = 15 then 1 else 0) < 2 ^ field.sizeBits) ∧
      ibUnpack guidDesc
          (ibPack guidDesc (fun byte => if byte = 15 then 1 else 0) (fun _ => 0)) (fun _ => 0) 15 =
        0 := by
  refine ⟨guidDesc_wf, by decide, by decide +kernel⟩

end MlnxOfed.Infiniband
