/-
Reading a send WQE back (`mlx5_ib_read_wqe_sq` in `qp.c`): by two linear copies from
user memory, block by block from the fragments of a kernel buffer.
-/

import MlnxOfed.Lib.BitMemory

namespace MlnxOfed.Qp

open Lib

/-- A user buffer: its bytes from the mapping's start, its length, and whether a copy out of its pages is
complete. -/
structure Umem where
  bytes : Bytes
  length : Nat
  copies : Nat → Nat → Bool

def ibUmemCopyFrom (buffer : Bytes) (dst : Nat) (umem : Umem) (offset length : Nat) : Option Bytes :=
  if umem.length < offset ∨ umem.length - offset < length then none
  else if umem.copies offset length then some (copyBlock buffer dst umem.bytes offset length)
  else none

structure FragBufCtrl where
  frags : Nat → Bytes
  szM1 : Nat
  fragSzM1 : Nat
  stridesOffset : Nat
  logStride : Nat
  logFragStrides : Nat

def mlx5InitFbcOffset (frags : Nat → Bytes) (logStride logSz stridesOffset : Nat) : FragBufCtrl where
  frags := frags
  szM1 := 2 ^ logSz - 1
  fragSzM1 := 2 ^ (12 - logStride) - 1
  stridesOffset := stridesOffset
  logStride := logStride
  logFragStrides := 12 - logStride

def mlx5FragBufGetWqe (fbc : FragBufCtrl) (ix : Nat) : Bytes := fun byte =>
  fbc.frags ((ix + fbc.stridesOffset) >>> fbc.logFragStrides)
    (((ix + fbc.stridesOffset) &&& fbc.fragSzM1) <<< fbc.logStride + byte)

/-- The send queue of a QP: `2 ^ logCnt` blocks of 64 bytes from a byte of the buffer. The buffer's size is
an `int`; the receive queue before a kernel send queue takes whole blocks. -/
structure IbQp where
  logCnt : Nat
  offset : Nat
  umem : Option Umem
  frags : Nat → Bytes
  fits : offset + 2 ^ logCnt * 64 < 2 ^ 31
  aligned : umem = none → 64 ∣ offset

namespace IbQp

variable (qp : IbQp)

def wqeCnt : Nat := 2 ^ qp.logCnt

def fbc : FragBufCtrl :=
  mlx5InitFbcOffset (fun frag => qp.frags (qp.offset / 4096 + frag)) 6 qp.logCnt (qp.offset % 4096 / 64)

/-- The bytes of the queue, in the order the device sees them. -/
def sqByte (i : Nat) : UInt8 :=
  match qp.umem with
  | some umem => umem.bytes (qp.offset + i)
  | none => qp.frags ((qp.offset + i) / 4096) ((qp.offset + i) % 4096)

/-- The bytes from block `wqeIndex` on, round the end of the queue. -/
def circular (wqeIndex : Nat) : Bytes := fun i =>
  qp.sqByte ((wqeIndex % qp.wqeCnt * 64 + i) % (qp.wqeCnt * 64))

end IbQp

/-- The length the control segment gives for its WQE. -/
def wqeLength (ctrl : Bytes) : Nat := (readBe ctrl 4 4 &&& 0x3f) * 16

def mlx5IbReadUserWqeCommon (umem : Umem) (buffer : Bytes) (dst buflen wqeIndex wqOffset wqWqeCnt wqWqeShift bcnt : Nat) :
    Option (Bytes × Nat) :=
  let offset := wqOffset + (wqeIndex % wqWqeCnt) <<< wqWqeShift
  let wqEnd := wqOffset + wqWqeCnt <<< wqWqeShift
  let copyLength := min (buflen % 2 ^ 32) ((wqEnd - offset) % 2 ^ 32)
  let copyLength := min copyLength (bcnt % 2 ^ 32)
  (ibUmemCopyFrom buffer dst umem offset copyLength).map (·, copyLength)

/-- `none` is an error. -/
def mlx5IbReadUserWqeSq (qp : IbQp) (umem : Umem) (wqeIndex : Nat) (buffer : Bytes) (buflen : Nat) :
    Option (Bytes × Nat) :=
  match mlx5IbReadUserWqeCommon umem buffer 0 buflen wqeIndex qp.offset qp.wqeCnt 6 buflen with
  | none => none
  | some (buffer, bytesCopied) =>
    if bytesCopied < 16 then none
    else if wqeLength buffer ≤ bytesCopied then some (buffer, bytesCopied)
    else
      (mlx5IbReadUserWqeCommon umem buffer bytesCopied (buflen - bytesCopied) 0 qp.offset qp.wqeCnt 6
        (wqeLength buffer - bytesCopied)).map fun second => (second.1, bytesCopied + second.2)

/-- The loop of `mlx5_ib_read_kernel_wqe_sq`. -/
def readKernelBlocks (fbc : FragBufCtrl) (buflen length bytesCopied wqeIndex : Nat) (buffer : Bytes) : Bytes × Nat :=
  if bytesCopied < length then
    if min (buflen - bytesCopied) 64 = 0 then (buffer, bytesCopied)
    else
      readKernelBlocks fbc buflen length (bytesCopied + min (buflen - bytesCopied) 64) ((wqeIndex + 1) &&& fbc.szM1)
        (copyBlock buffer bytesCopied (mlx5FragBufGetWqe fbc wqeIndex) 0 (min (buflen - bytesCopied) 64))
  else (buffer, bytesCopied)
termination_by length - bytesCopied

def mlx5IbReadKernelWqeSq (qp : IbQp) (wqeIndex : Nat) (buffer : Bytes) (buflen : Nat) : Bytes × Nat :=
  let index := wqeIndex &&& qp.fbc.szM1
  readKernelBlocks qp.fbc buflen (wqeLength (mlx5FragBufGetWqe qp.fbc index)) 0 index buffer

def mlx5IbReadWqeSq (qp : IbQp) (wqeIndex : Nat) (buffer : Bytes) (buflen : Nat) : Option (Bytes × Nat) :=
  if buflen < 16 then none
  else
    match qp.umem with
    | none => some (mlx5IbReadKernelWqeSq qp wqeIndex buffer buflen)
    | some umem => mlx5IbReadUserWqeSq qp umem wqeIndex buffer buflen

theorem wqeLength_congr {left right} (same : ∀ i, i < 16 → left i = right i) :
    wqeLength left = wqeLength right := by
  simp only [wqeLength, readBe]
  rw [same _ (by omega), same _ (by omega), same _ (by omega), same _ (by omega)]

variable {qp : IbQp} {umem : Umem} {buffer after : Bytes} {wqeIndex buflen bc : Nat}

theorem fbc_getWqe (kernel : qp.umem = none) {ix i} (inBlock : i < 64) :
    mlx5FragBufGetWqe qp.fbc ix i = qp.sqByte (ix * 64 + i) := by
  have aligned := qp.aligned kernel
  have mask (value : Nat) : value &&& 2 ^ 6 - 1 = value % 64 := Nat.and_two_pow_sub_one_eq_mod value 6
  simp only [mlx5FragBufGetWqe, IbQp.fbc, mlx5InitFbcOffset, IbQp.sqByte, kernel, Nat.shiftRight_eq_div_pow,
    Nat.shiftLeft_eq]
  rw [mask]
  congr 1 <;> omega

/-- The first `bc` bytes of the buffer are those of the WQE. -/
def Holds (wqe buffer : Bytes) (bc : Nat) : Prop := ∀ i, i < bc → buffer i = wqe i

theorem Holds.nothing (wqe buffer) : Holds wqe buffer 0 := fun _ never => absurd never (Nat.not_lt_zero _)

theorem Holds.copy {wqe source bc start count} (holds : Holds wqe buffer bc)
    (more : ∀ i, i < count → source (start + i) = wqe (bc + i)) :
    Holds wqe (copyBlock buffer bc source start count) (bc + count) := by
  intro i inside
  unfold copyBlock
  split_ifs with copied
  · rw [more _ (by omega)]
    congr 1
    omega
  · exact holds i (by omega)

theorem circular_block (qp : IbQp) (wqeIndex block : Nat) {i} (inBlock : i < 64) :
    qp.circular wqeIndex (block * 64 + i) = qp.sqByte ((wqeIndex + block) % qp.wqeCnt * 64 + i) := by
  have whole : (wqeIndex % qp.wqeCnt * 64 + (block * 64 + i)) / 64 = wqeIndex % qp.wqeCnt + block := by omega
  have part : (wqeIndex % qp.wqeCnt * 64 + (block * 64 + i)) % 64 = i := by omega
  rw [IbQp.circular, Nat.mul_comm qp.wqeCnt, Nat.mod_mul, whole, part, Nat.mod_add_mod]
  congr 1
  omega

theorem and_szM1 (qp : IbQp) (index : Nat) : index &&& qp.fbc.szM1 = index % qp.wqeCnt :=
  Nat.and_two_pow_sub_one_eq_mod index qp.logCnt

private theorem readKernelBlocks_holds (kernel : qp.umem = none) (wqeIndex length block) (fits : bc ≤ buflen)
    (here : bc < buflen → bc = block * 64) (holds : Holds (qp.circular wqeIndex) buffer bc) :
    ∃ after more, readKernelBlocks qp.fbc buflen length bc ((wqeIndex + block) % qp.wqeCnt) buffer = (after, more) ∧
      more ≤ buflen ∧ min buflen length ≤ more ∧ Holds (qp.circular wqeIndex) after more := by
  induction left : length - bc using Nat.strong_induction_on generalizing bc block buffer with
  | h left ih =>
    rw [readKernelBlocks]
    split_ifs with short full
    · exact ⟨buffer, bc, rfl, fits, by omega, holds⟩
    · have start := here (by omega)
      rw [and_szM1, Nat.mod_add_mod, Nat.add_assoc]
      refine ih (length - (bc + min (buflen - bc) 64)) (by omega) (block + 1) (by omega) (by omega)
        (holds.copy ?_) rfl
      intro i inside
      rw [fbc_getWqe kernel (by omega), start, circular_block _ _ _ (by omega), Nat.zero_add]
    · exact ⟨buffer, bc, rfl, fits, by omega, holds⟩

/-- What a successful read of the WQE at `wqeIndex` leaves in the buffer. -/
structure ReadBack (wqe : Bytes) (buflen bc : Nat) (after : Bytes) : Prop where
  bytes : ∀ i, i < min bc (wqeLength wqe) → after i = wqe i
  inBuffer : bc ≤ buflen
  enough : min buflen (wqeLength wqe) ≤ bc

private theorem kernel_readBack (kernel : qp.umem = none) (wqeIndex buffer buflen) :
    ReadBack (qp.circular wqeIndex) buflen (mlx5IbReadKernelWqeSq qp wqeIndex buffer buflen).2
      (mlx5IbReadKernelWqeSq qp wqeIndex buffer buflen).1 := by
  have ctrl : wqeLength (mlx5FragBufGetWqe qp.fbc (wqeIndex % qp.wqeCnt)) = wqeLength (qp.circular wqeIndex) := by
    apply wqeLength_congr
    intro i inside
    have block := circular_block qp wqeIndex 0 (i := i) (by omega)
    rw [Nat.zero_mul, Nat.zero_add, Nat.add_zero] at block
    rw [block, fbc_getWqe kernel (by omega)]
  rw [mlx5IbReadKernelWqeSq]
  simp only [and_szM1, ctrl]
  obtain ⟨after, more, read, inBuffer, enough, holds⟩ := readKernelBlocks_holds kernel wqeIndex
    (wqeLength (qp.circular wqeIndex)) 0 (Nat.zero_le buflen) (fun _ => rfl) (Holds.nothing _ _)
  rw [Nat.add_zero] at read
  rw [read]
  exact ⟨fun i inside => holds i (by omega), inBuffer, enough⟩

/-- One linear copy reads on from where the WQE was left, up to the end of the queue. -/
private theorem userWqeCommon_holds (fits : buflen < 2 ^ 32) {dst start bcnt} (small : bcnt < 2 ^ 32) {wqe}
    (holds : Holds wqe buffer dst)
    (on : ∀ i, i < buflen → i < (qp.wqeCnt - start % qp.wqeCnt) * 64 →
      umem.bytes (qp.offset + (start % qp.wqeCnt * 64 + i)) = wqe (dst + i))
    (read : mlx5IbReadUserWqeCommon umem buffer dst buflen start qp.offset qp.wqeCnt 6 bcnt = some (after, bc)) :
    bc = min (min buflen ((qp.wqeCnt - start % qp.wqeCnt) * 64)) bcnt ∧ Holds wqe after (dst + bc) := by
  have room : (qp.offset + qp.wqeCnt <<< 6 - (qp.offset + (start % qp.wqeCnt) <<< 6)) % 2 ^ 32 =
      (qp.wqeCnt - start % qp.wqeCnt) * 64 := by
    have bound : qp.offset + qp.wqeCnt * 64 < 2 ^ 31 := qp.fits
    rw [Nat.shiftLeft_eq, Nat.shiftLeft_eq, Nat.mod_eq_of_lt (by omega)]
    omega
  rw [mlx5IbReadUserWqeCommon, Option.map_eq_some_iff] at read
  obtain ⟨copied, done, same⟩ := read
  simp only [Prod.mk.injEq] at same
  obtain ⟨rfl, length⟩ := same
  rw [room, Nat.mod_eq_of_lt fits, Nat.mod_eq_of_lt small] at done length
  refine ⟨length.symm, ?_⟩
  rw [length, ibUmemCopyFrom] at done
  split_ifs at done
  cases done
  refine holds.copy ?_
  intro i inside
  rw [Nat.shiftLeft_eq, Nat.add_assoc]
  exact on i (by omega) (by omega)

private theorem user_readBack (user : qp.umem = some umem) (minimal : 16 ≤ buflen) (most : buflen ≤ qp.wqeCnt * 64)
    (read : mlx5IbReadUserWqeSq qp umem wqeIndex buffer buflen = some (after, bc)) :
    ReadBack (qp.circular wqeIndex) buflen bc after := by
  have bound : qp.offset + qp.wqeCnt * 64 < 2 ^ 31 := qp.fits
  have below : wqeIndex % qp.wqeCnt < qp.wqeCnt := Nat.mod_lt _ (Nat.two_pow_pos _)
  have byte i : umem.bytes (qp.offset + i) = qp.sqByte i := by simp only [IbQp.sqByte, user]
  rw [mlx5IbReadUserWqeSq] at read
  split at read
  · cases read
  rename_i first bytesCopied copied
  obtain ⟨length, holds⟩ := userWqeCommon_holds (by omega) (by omega)
    (Holds.nothing (qp.circular wqeIndex) _) (fun i _ inQueue => by
      have within : wqeIndex % qp.wqeCnt * 64 + i < qp.wqeCnt * 64 := by omega
      rw [byte, IbQp.circular, Nat.zero_add, Nat.mod_eq_of_lt within]) copied
  have ctrl : wqeLength first = wqeLength (qp.circular wqeIndex) :=
    wqeLength_congr fun i inside => holds i (by omega)
  rw [Nat.zero_add] at holds
  rw [ctrl] at read
  split_ifs at read with short done
  · cases read
    exact ⟨fun i inside => holds i (by omega), by omega, by omega⟩
  rw [Option.map_eq_some_iff] at read
  obtain ⟨⟨second, rest⟩, copiedRest, same⟩ := read
  simp only [Prod.mk.injEq] at same
  obtain ⟨rfl, rfl⟩ := same
  have lengthBound : wqeLength (qp.circular wqeIndex) < 2 ^ 32 := by
    have masked := Nat.and_le_right (n := readBe (qp.circular wqeIndex) 4 4) (m := 0x3f)
    simp only [wqeLength]
    omega
  obtain ⟨restLength, restHolds⟩ := userWqeCommon_holds (by omega) (by omega) holds
    (fun i inBuffer inQueue => by
      rw [Nat.zero_mod, Nat.sub_zero] at inQueue
      have wraps : wqeIndex % qp.wqeCnt * 64 + (bytesCopied + i) = qp.wqeCnt * 64 + i := by omega
      rw [byte, IbQp.circular, wraps, Nat.add_mod_left, Nat.mod_eq_of_lt inQueue, Nat.zero_mod, Nat.zero_mul,
        Nat.zero_add]) copiedRest
  rw [Nat.zero_mod, Nat.sub_zero] at restLength
  exact ⟨fun i inside => restHolds i (by omega), by omega, by omega⟩

section Reads

variable (mapped : qp.offset + qp.wqeCnt * 64 ≤ umem.length)
  (copies : ∀ offset length, umem.copies offset length = true)

include mapped copies

private theorem userWqeCommon_reads (buffer dst buflen start bcnt) (fits : buflen < 2 ^ 32) (small : bcnt < 2 ^ 32) :
    ∃ after bc, mlx5IbReadUserWqeCommon umem buffer dst buflen start qp.offset qp.wqeCnt 6 bcnt = some (after, bc) ∧
      bc = min (min buflen ((qp.wqeCnt - start % qp.wqeCnt) * 64)) bcnt := by
  have bound : qp.offset + qp.wqeCnt * 64 < 2 ^ 31 := qp.fits
  have below : start % qp.wqeCnt < qp.wqeCnt := Nat.mod_lt _ (Nat.two_pow_pos _)
  have room : (qp.offset + qp.wqeCnt <<< 6 - (qp.offset + (start % qp.wqeCnt) <<< 6)) % 2 ^ 32 =
      (qp.wqeCnt - start % qp.wqeCnt) * 64 := by
    rw [Nat.shiftLeft_eq, Nat.shiftLeft_eq, Nat.mod_eq_of_lt (by omega)]
    omega
  rw [mlx5IbReadUserWqeCommon, room, Nat.mod_eq_of_lt fits, Nat.mod_eq_of_lt small, ibUmemCopyFrom, copies,
    if_neg (by rw [Nat.shiftLeft_eq]; omega)]
  exact ⟨_, _, rfl, rfl⟩

/-- A user queue is read where the buffer is mapped and its pages can be copied. -/
private theorem user_reads (minimal : 16 ≤ buflen) (most : buflen ≤ qp.wqeCnt * 64) (wqeIndex buffer) :
    (mlx5IbReadUserWqeSq qp umem wqeIndex buffer buflen).isSome := by
  have bound : qp.offset + qp.wqeCnt * 64 < 2 ^ 31 := qp.fits
  have below : wqeIndex % qp.wqeCnt < qp.wqeCnt := Nat.mod_lt _ (Nat.two_pow_pos _)
  obtain ⟨first, bc, read, length⟩ := userWqeCommon_reads mapped copies buffer 0 buflen wqeIndex buflen
    (by omega) (by omega)
  rw [mlx5IbReadUserWqeSq, read]
  dsimp only
  rw [if_neg (by omega)]
  split
  · rfl
  have masked := Nat.and_le_right (n := readBe first 4 4) (m := 0x3f)
  obtain ⟨second, rest, again, -⟩ := userWqeCommon_reads mapped copies first bc (buflen - bc) 0
    (wqeLength first - bc) (by omega) (by simp only [wqeLength]; omega)
  rw [again]
  rfl

end Reads

/-- What reading a send WQE gives, the same for a user queue and a kernel queue of the same bytes. -/
structure SqReadBack (qp : IbQp) (wqeIndex buflen : Nat) : Prop where
  circular : ∀ buffer after bc, mlx5IbReadWqeSq qp wqeIndex buffer buflen = some (after, bc) →
    ReadBack (qp.circular wqeIndex) buflen bc after
  kernel : qp.umem = none → ∀ buffer, (mlx5IbReadWqeSq qp wqeIndex buffer buflen).isSome
  user : ∀ umem, qp.umem = some umem → qp.offset + qp.wqeCnt * 64 ≤ umem.length →
    (∀ offset length, umem.copies offset length = true) →
      ∀ buffer, (mlx5IbReadWqeSq qp wqeIndex buffer buflen).isSome
  paths : ∀ other : IbQp, other.logCnt = qp.logCnt → (∀ i, i < qp.wqeCnt * 64 → other.sqByte i = qp.sqByte i) →
    ∀ buffer after bc buffer' after' bc', mlx5IbReadWqeSq qp wqeIndex buffer buflen = some (after, bc) →
      mlx5IbReadWqeSq other wqeIndex buffer' buflen = some (after', bc') →
      ∀ i, i < min buflen (wqeLength (qp.circular wqeIndex)) → after i = after' i

private theorem mlx5IbReadWqeSq_readBack (qp) (minimal : 16 ≤ buflen) (most : buflen ≤ qp.wqeCnt * 64)
    (read : mlx5IbReadWqeSq qp wqeIndex buffer buflen = some (after, bc)) :
    ReadBack (qp.circular wqeIndex) buflen bc after := by
  rw [mlx5IbReadWqeSq, if_neg (by omega)] at read
  split at read
  · rename_i kernel
    have back := kernel_readBack kernel wqeIndex buffer buflen
    rw [Option.some.inj read] at back
    exact back
  · rename_i user
    exact user_readBack user minimal most read

/-- A WQE is read back as the circular read of its queue, over both paths. -/
theorem send_wqe_reads_back (qp : IbQp) (wqeIndex buflen : Nat) (minimal : 16 ≤ buflen)
    (most : buflen ≤ qp.wqeCnt * 64) : SqReadBack qp wqeIndex buflen where
  circular _ _ _ := mlx5IbReadWqeSq_readBack qp minimal most
  kernel isKernel buffer := by simp [mlx5IbReadWqeSq, isKernel, Nat.not_lt.mpr minimal]
  user umem isUser mapped copies buffer := by
    rw [mlx5IbReadWqeSq, if_neg (Nat.not_lt.mpr minimal), isUser]
    exact user_reads mapped copies minimal most wqeIndex buffer
  paths other sameCnt sameBytes buffer after bc buffer' after' bc' read read' i inside := by
    have cnt : other.wqeCnt = qp.wqeCnt := congrArg (2 ^ ·) sameCnt
    have back := mlx5IbReadWqeSq_readBack qp minimal most read
    have back' := mlx5IbReadWqeSq_readBack other minimal (cnt ▸ most) read'
    have wqe : other.circular wqeIndex = qp.circular wqeIndex := by
      funext byte
      rw [IbQp.circular, cnt]
      exact sameBytes _ (Nat.mod_lt _ (by omega))
    rw [wqe] at back'
    have enough := back.enough
    have enough' := back'.enough
    rw [back.bytes i (by omega), back'.bytes i (by omega)]

/-- Four blocks in user memory, each byte its own; the control segment of the last gives 128 bytes. -/
def wrappedQp : IbQp where
  logCnt := 2
  offset := 64
  umem := some ⟨fun i => if i = 263 then 8 else .ofNat i, 320, fun _ _ => true⟩
  frags := fun _ _ => 0
  fits := by decide
  aligned := nofun

theorem send_wqe_reads_back_wrapped : ∃ after bc, mlx5IbReadWqeSq wrappedQp 3 (fun _ => 0) 128 = some (after, bc) ∧
    bc = 128 ∧ after 63 = 63 ∧ after 64 = 64 ∧ after 127 = 127 ∧ SqReadBack wrappedQp 3 128 := by
  have back := send_wqe_reads_back wrappedQp 3 128 (by decide) (by decide)
  obtain ⟨⟨after, bc⟩, read⟩ := Option.isSome_iff_exists.mp
    (back.user _ rfl (by decide) (fun _ _ => rfl) fun _ => 0)
  obtain ⟨bytes, inBuffer, enough⟩ := back.circular _ _ _ read
  have length : wqeLength (wrappedQp.circular 3) = 128 := by decide
  rw [length] at bytes enough
  exact ⟨after, bc, read, by omega, bytes 63 (by omega), bytes 64 (by omega), bytes 127 (by omega), back⟩

end MlnxOfed.Qp
