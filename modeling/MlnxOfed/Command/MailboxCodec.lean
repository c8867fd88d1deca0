/-
What is written into the chain of a command message and read back. A message takes the first blocks of its
chain; copying and signing change data, token and signatures of these and nothing else.
-/

import Mathlib.Data.List.Forall2
import MlnxOfed.Command.Mailbox

namespace MlnxOfed.Command

open Function Option List Lib CmdMailbox

def blockCount (len : Nat) : Nat := (len - 16 + 511) / 512

theorem wrapInt_eq {value} (lower : -(2 ^ 31) ≤ value) (upper : value < 2 ^ 31) : wrapInt value = value := by
  apply Int.bmod_eq_of_le
  · omega
  · omega

theorem calcCmdBlocks_eq {len} (fits : len ≤ 2 ^ 31 - 496) : calcCmdBlocks len = blockCount len := by
  unfold calcCmdBlocks blockCount
  have size : wrapInt len = len := wrapInt_eq (by omega) (by omega)
  have room : wrapInt ((len : Int) - min 16 (len : Int) + (512 - 1)) = ((len - 16 + 511 : Nat) : Int) := by
    rw [wrapInt_eq (by omega) (by omega)]
    omega
  simp only [size, room]
  exact (Int.ofNat_tdiv _ _).symm

/-- The sum that rounds the length up leaves the range of an `int`. -/
theorem calcCmdBlocks_overflow {len} (large : 2 ^ 31 - 496 < len) (isInt : len < 2 ^ 31) :
    (calcCmdBlocks len).toNat = 0 := by
  unfold calcCmdBlocks
  have size : wrapInt len = len := wrapInt_eq (by omega) (by omega)
  have wrapped : wrapInt ((len : Int) - min 16 (len : Int) + (512 - 1)) = (len : Int) + 495 - 2 ^ 32 := by
    have under : (len : Int) - min 16 (len : Int) + (512 - 1) = len + 495 := by omega
    rw [under]
    unfold wrapInt
    rw [Int.bmod_def, Int.emod_eq_of_lt (by omega) (by omega), if_neg (by omega)]
    rfl
  simp only [size, wrapped]
  apply Int.toNat_of_nonpos
  have pos : 0 ≤ ((2 : Int) ^ 32 - 495 - len).tdiv 512 := Int.tdiv_nonneg (by omega) (by omega)
  have negated : (len : Int) + 495 - 2 ^ 32 = -((2 : Int) ^ 32 - 495 - len) := by omega
  rw [negated, Int.neg_tdiv]
  omega

private theorem xor8Buf_congr {left right offset len}
    (same : ∀ byte, offset ≤ byte → byte < offset + len → left byte = right byte) :
    xor8Buf left offset len = xor8Buf right offset len := by
  induction len with
  | zero => rfl
  | succ len ih =>
    rw [xor8Buf, xor8Buf, ih fun byte lower upper => same byte lower (by omega),
      same (offset + len) (by omega) (by omega)]

theorem setByte_same (block index value) : setByte block index value index = value := by exact update_self ..

variable {block : Bytes} {value : UInt8}

theorem setByte_other {index other} (apart : other ≠ index) :
    setByte block index value other = block other := by
  exact update_of_ne apart ..

variable {offset len index : Nat}

theorem xor8Buf_setByte_outside (outside : index < offset ∨ offset + len ≤ index) :
    xor8Buf (setByte block index value) offset len = xor8Buf block offset len := by
  apply xor8Buf_congr
  intro byte lower upper
  exact setByte_other (by omega)

private theorem xor8Buf_setByte (lower : offset ≤ index) (upper : index < offset + len) :
    xor8Buf (setByte block index value) offset len =
      xor8Buf block offset len ^^^ (block index ^^^ value) := by
  induction len with
  | zero => omega
  | succ len ih =>
    rw [xor8Buf, xor8Buf]
    by_cases last : index = offset + len
    · subst last
      rw [setByte_same, xor8Buf_setByte_outside (by omega), UInt8.xor_assoc,
        ← UInt8.xor_assoc (block _), UInt8.xor_self, UInt8.zero_xor]
    · rw [ih (by omega), setByte_other (fun same => last same.symm),
        UInt8.xor_assoc (xor8Buf block offset len) (block (offset + len)),
        UInt8.xor_comm (block (offset + len))]
      exact UInt8.xor_assoc ..

private theorem xor_complement (sum : UInt8) : sum ^^^ ~~~ sum = 0xff := by
  rw [UInt8.xor_not, UInt8.xor_self]
  rfl

theorem verifyBlockSig_eq_zero :
    verifyBlockSig block = 0 ↔ xor8Buf block 512 63 = 0xff ∧ xor8Buf block 0 576 = 0xff := by
  unfold verifyBlockSig
  by_cases ctrl : xor8Buf block 512 63 = 0xff
  · by_cases whole : xor8Buf block 0 576 = 0xff
    · simp [ctrl, whole]
    · simp [ctrl, whole]
  · simp [ctrl]

private theorem verifyBlockSig_calcBlockSig (block) : verifyBlockSig (calcBlockSig block) = 0 := by
  rw [verifyBlockSig_eq_zero]
  unfold calcBlockSig
  constructor
  · rw [xor8Buf_setByte_outside (by omega), xor8Buf, xor8Buf_setByte_outside (by omega),
      setByte_same, xor_complement]
  · rw [xor8Buf, xor8Buf_setByte_outside (by omega), setByte_same, xor_complement]

private theorem verifyBlockSig_setByte (signed : verifyBlockSig block = 0) {index}
    (inside : index < 576) (changed : value ≠ block index) :
    verifyBlockSig (setByte block index value) ≠ 0 := by
  intro accepted
  have before := (verifyBlockSig_eq_zero.mp signed).2
  have after := (verifyBlockSig_eq_zero.mp accepted).2
  rw [xor8Buf_setByte (by omega) (by omega), before] at after
  have same : block index ^^^ value = 0 := by
    have both : (0xff : UInt8) ^^^ (block index ^^^ value) = 0xff ^^^ 0 := after
    exact (UInt8.xor_right_inj 0xff).mp both
  exact changed (UInt8.xor_eq_zero_iff.mp same).symm

theorem calcBlockSig_outside {byte} (below : byte < 574) : calcBlockSig block byte = block byte := by
  unfold calcBlockSig
  rw [setByte_other (by omega), setByte_other (by omega)]

/-- Blocks are numbered in order, and each names the address of its successor. -/
def Linked (chain : List CmdMailbox) : Prop :=
  ∀ i box, chain[i]? = some box → box.blockNum = i ∧ box.next = ((chain[i + 1]?.map dma).getD 0).toNat

def SameLinks (left right : CmdMailbox) : Prop :=
  left.dma = right.dma ∧ left.blockNum = right.blockNum ∧ left.next = right.next

theorem SameLinks.refl (box) : SameLinks box box := ⟨rfl, rfl, rfl⟩

theorem sameLinks_of_buf {left right} (dma : left.dma = right.dma)
    (same : ∀ byte, 560 ≤ byte → byte < 572 → left.buf byte = right.buf byte) :
    SameLinks left right := by
  refine ⟨dma, ?_, ?_⟩
  · exact readBe_congr fun byte lower upper => same byte (by omega) (by omega)
  · exact readBe_congr fun byte lower upper => same byte (by omega) (by omega)

private theorem fillBox_sameLinks (token) {bytes} (short : bytes.length ≤ 512)
    (box) : SameLinks (fillBox token bytes box) box := by
  refine sameLinks_of_buf (show (fillBox token bytes box).dma = box.dma from rfl) ?_
  intro byte lower upper
  unfold fillBox
  simp only
  rw [setByte_other (by omega), storeBytes_outside (by omega)]

private theorem signBox_sameLinks (box) : SameLinks { box with buf := calcBlockSig box.buf } box := by
  refine @sameLinks_of_buf _ box rfl ?_
  intro byte lower upper
  exact calcBlockSig_outside (show byte < 574 by omega)

theorem Linked.of_sameLinks {chain other} (linked : Linked chain)
    (same : Forall₂ SameLinks other chain) : Linked other := by
  intro i box found
  obtain ⟨inside, rfl⟩ := List.getElem?_eq_some_iff.mp found
  have length := same.length_eq
  have links (j : Nat) : (other[j]?.map dma) = chain[j]?.map dma := by
    by_cases within : j < other.length
    · have here := (forall₂_iff_get.mp same).2 j within (by omega)
      rw [getElem?_eq_getElem within, getElem?_eq_getElem (by omega)]
      exact congrArg some here.1
    · rw [getElem?_eq_none (by omega), getElem?_eq_none (by omega)]
  obtain ⟨-, number, next⟩ := (forall₂_iff_get.mp same).2 i inside (by omega)
  obtain ⟨numbered, named⟩ := linked i _ (getElem?_eq_getElem (show i < chain.length by omega))
  simp only [get_eq_getElem] at number next
  rw [number, next, numbered, named, links]
  exact ⟨rfl, rfl⟩

variable {token : UInt8} {chain : List CmdMailbox} {bytes : List UInt8}

private theorem copyToBlocks_eq (token chain bytes) (room : bytes.length ≤ 512 * chain.length) :
    ∃ filled, copyToBlocks token chain bytes = some filled ∧ filled.length = chain.length ∧
      ∀ i, filled[i]? = if i < (bytes.length + 511) / 512 then
          chain[i]?.map (fillBox token ((bytes.drop (512 * i)).take 512))
        else chain[i]? := by
  induction chain generalizing bytes with
  | nil =>
    have empty : bytes = [] := eq_nil_of_length_eq_zero (by simpa using room)
    subst empty
    exact ⟨[], rfl, rfl, fun i => by simp⟩
  | cons box rest ih =>
    cases bytes with
    | nil =>
      refine ⟨box :: rest, rfl, rfl, ?_⟩
      intro i
      rw [if_neg]
      simp
    | cons byte bytes =>
      rw [length_cons, length_cons] at room
      have shorter : ((byte :: bytes).drop 512).length ≤ 512 * rest.length := by
        rw [length_drop, length_cons]
        omega
      obtain ⟨filled, copied, length, blocks⟩ := ih ((byte :: bytes).drop 512) shorter
      refine ⟨fillBox token ((byte :: bytes).take 512) box :: filled, ?_, ?_, ?_⟩
      · rw [copyToBlocks, copied]
        rfl
      · rw [length_cons, length, length_cons]
      intro i
      cases i with
      | zero =>
        rw [if_pos (by rw [length_cons]; omega)]
        rfl
      | succ i =>
        rw [getElem?_cons_succ, blocks i, getElem?_cons_succ, drop_drop,
          length_drop, Nat.mul_succ, add_comm 512]
        split
        · rw [if_pos (by omega)]
        · rw [if_neg (by omega)]

variable {filled : List CmdMailbox}

theorem copyToBlocks_sameLinks (copied : copyToBlocks token chain bytes = some filled) :
    Forall₂ SameLinks filled chain := by
  induction chain generalizing bytes filled with
  | nil =>
    cases bytes with
    | nil =>
      rw [copyToBlocks, some.injEq] at copied
      subst copied
      exact Forall₂.nil
    | cons byte bytes => exact absurd copied (by simp [copyToBlocks])
  | cons box rest ih =>
    cases bytes with
    | nil =>
      rw [copyToBlocks, some.injEq] at copied
      subst copied
      exact forall₂_same.mpr fun box _ => SameLinks.refl box
    | cons byte bytes =>
      rw [copyToBlocks, map_eq_some_iff] at copied
      obtain ⟨later, copiedLater, rfl⟩ := copied
      apply Forall₂.cons _ (ih copiedLater)
      apply fillBox_sameLinks
      rw [length_take]
      omega

theorem fillBox_data (token) {bytes} (short : bytes.length ≤ 512)
    (box) : (fillBox token bytes box).data bytes.length = bytes := by
  unfold data fillBox
  simp only
  rw [loadBytes_congr fun byte lower upper =>
    setByte_other (show byte ≠ 573 by omega), loadBytes_storeBytes]

private theorem fillBox_token (token bytes box) : (fillBox token bytes box).token = token := by
  unfold CmdMailbox.token fillBox
  simp only
  rw [setByte_same]

private theorem copyFromBlocks_filled (copied : copyToBlocks token chain bytes = some filled) :
    copyFromBlocks filled bytes.length = some bytes := by
  induction chain generalizing bytes filled with
  | nil =>
    cases bytes with
    | nil => cases filled <;> rfl
    | cons byte bytes => exact absurd copied (by simp [copyToBlocks])
  | cons box rest ih =>
    cases bytes with
    | nil => cases filled <;> rfl
    | cons byte bytes =>
      rw [copyToBlocks, map_eq_some_iff] at copied
      obtain ⟨later, copiedLater, rfl⟩ := copied
      have tail := ih copiedLater
      have chunk : ((byte :: bytes).take 512).length = min (bytes.length + 1) 512 := by
        rw [length_take, length_cons, Nat.min_comm]
      have head := fillBox_data token (show ((byte :: bytes).take 512).length ≤ 512 by omega) box
      rw [chunk] at head
      rw [length_drop, length_cons] at tail
      rw [length_cons, copyFromBlocks, tail, head, map_some, take_append_drop]

private theorem signBlocks_length (n chain) : (signBlocks n chain).length = chain.length := by
  induction chain generalizing n with
  | nil => cases n <;> rfl
  | cons box rest ih =>
    cases n with
    | zero => rfl
    | succ n => rw [signBlocks, length_cons, ih, length_cons]

private theorem signBlocks_getElem? (n chain i) : (signBlocks n chain)[i]? =
      if i < n then chain[i]?.map fun box => { box with buf := calcBlockSig box.buf }
      else chain[i]? := by
  induction chain generalizing n i with
  | nil => cases n <;> simp [signBlocks]
  | cons box rest ih =>
    cases n with
    | zero => rfl
    | succ n =>
      cases i with
      | zero => rfl
      | succ i =>
        rw [signBlocks, getElem?_cons_succ, ih, getElem?_cons_succ]
        simp

theorem signBlocks_sameLinks (n chain) : Forall₂ SameLinks (signBlocks n chain) chain := by
  induction chain generalizing n with
  | nil => cases n <;> exact Forall₂.nil
  | cons box rest ih =>
    cases n with
    | zero => exact forall₂_same.mpr fun box _ => SameLinks.refl box
    | succ n => exact Forall₂.cons (signBox_sameLinks box) (ih n)

/-- The chain of a message is linked and has the blocks that its length takes. -/
structure CmdMsg.Wf (msg : CmdMsg) : Prop where
  linked : Linked msg.next
  room : blockCount msg.len ≤ msg.next.length

/-- A message of given bytes and token after copying: the blocks written are the first of the chain, in
order and linked. -/
structure Encoded (before after : CmdMsg) (bytes : List UInt8) (token : UInt8) : Prop where
  readBack : copyFromMsg after bytes.length = some bytes
  len : after.len = before.len
  parent : after.parent = before.parent
  length : after.next.length = before.next.length
  linked : Linked after.next
  written : ∀ i box, i < blockCount bytes.length → after.next[i]? = some box → box.token = token ∧
      box.data (min (bytes.length - 16 - 512 * i) 512) = ((bytes.drop 16).drop (512 * i)).take 512
  kept : ∀ i, blockCount bytes.length ≤ i → after.next[i]? = before.next[i]?

theorem copyToMsg_encoded {msg} (wf : msg.Wf) (bytes) (length : bytes.length = msg.len) (token) :
    ∃ after, copyToMsg msg bytes token = some after ∧ Encoded msg after bytes token := by
  have room : (bytes.drop 16).length ≤ 512 * msg.next.length := by
    have enough := wf.room
    unfold blockCount at enough
    rw [length_drop]
    omega
  obtain ⟨filled, copied, sameLength, blocks⟩ := copyToBlocks_eq token msg.next (bytes.drop 16) room
  refine ⟨{ msg with first := storeBytes msg.first 0 (bytes.take 16), next := filled }, ?_, ?_⟩
  · unfold copyToMsg
    rw [copied]
    rfl
  constructor
  case readBack =>
    unfold copyFromMsg
    have tail := copyFromBlocks_filled copied
    have head := loadBytes_storeBytes msg.first 0 (bytes.take 16)
    rw [length_drop] at tail
    rw [length_take, Nat.min_comm] at head
    simp only
    rw [tail, head, map_some, take_append_drop]
  case len => rfl
  case parent => rfl
  case length => exact sameLength
  case linked => exact wf.linked.of_sameLinks (copyToBlocks_sameLinks copied)
  case written =>
    intro i box inside found
    have block := blocks i
    rw [if_pos (by rw [length_drop]; exact inside)] at block
    rw [show filled[i]? = some box from found] at block
    obtain ⟨old, -, rfl⟩ := map_eq_some_iff.mp block.symm
    refine ⟨fillBox_token .., ?_⟩
    have data := @fillBox_data token (((bytes.drop 16).drop (512 * i)).take 512)
      (by rw [length_take]; omega) old
    rw [length_take, length_drop, length_drop, Nat.min_comm] at data
    exact data
  case kept =>
    intro i outside
    have block := blocks i
    rw [if_neg (by rw [length_drop]; exact Nat.not_lt.mpr outside)] at block
    exact block

/-- What signing the chain of a message with so many blocks does. -/
structure Signed (before after : CmdMsg) (blocks : Nat) : Prop where
  length : after.next.length = before.next.length
  linked : Linked before.next → Linked after.next
  accepted : ∀ i box, i < blocks → after.next[i]? = some box → verifyBlockSig box.buf = 0
  detected : ∀ i box, i < blocks → after.next[i]? = some box → ∀ index, index < 576 → ∀ value,
    value ≠ box.buf index → verifyBlockSig (setByte box.buf index value) ≠ 0
  content : ∀ (i : Nat) (box : CmdMailbox), after.next[i]? = some box →
    ∃ old : CmdMailbox, before.next[i]? = some old ∧ box.dma = old.dma ∧
      ∀ byte, byte < 574 → box.buf byte = old.buf byte
  kept : ∀ i, blocks ≤ i → after.next[i]? = before.next[i]?

theorem calcChainSig_signed {msg} (fits : msg.len ≤ 2 ^ 31 - 496) :
    Signed msg (calcChainSig msg) (blockCount msg.len) := by
  have next : (calcChainSig msg).next = signBlocks (blockCount msg.len) msg.next := by
    unfold calcChainSig
    rw [calcCmdBlocks_eq fits, Int.toNat_natCast]
  have blocks (i : Nat) : (calcChainSig msg).next[i]? = if i < blockCount msg.len then
        msg.next[i]?.map fun box => { box with buf := calcBlockSig box.buf }
      else msg.next[i]? := by
    rw [next, signBlocks_getElem?]
  have signed i box (inside : i < blockCount msg.len) (found : (calcChainSig msg).next[i]? = some box) :
      verifyBlockSig box.buf = 0 := by
    rw [blocks, if_pos inside] at found
    obtain ⟨old, -, rfl⟩ := map_eq_some_iff.mp found
    exact verifyBlockSig_calcBlockSig old.buf
  constructor
  case length =>
    rw [next]
    exact signBlocks_length ..
  case linked =>
    intro linked
    rw [next]
    exact linked.of_sameLinks (signBlocks_sameLinks ..)
  case accepted => exact signed
  case detected =>
    intro i box inside found index within value changed
    exact verifyBlockSig_setByte (signed i box inside found) within changed
  case content =>
    intro i box found
    rw [blocks] at found
    split at found
    · obtain ⟨old, known, rfl⟩ := map_eq_some_iff.mp found
      exact ⟨old, known, rfl, fun byte below => calcBlockSig_outside below⟩
    · exact ⟨box, found, rfl, fun byte below => rfl⟩
  case kept =>
    intro i outside
    rw [blocks, if_neg (Nat.not_lt.mpr outside)]

end MlnxOfed.Command
