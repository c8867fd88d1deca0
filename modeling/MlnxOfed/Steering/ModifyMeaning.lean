/-
What a modify-header list does to the header, in software actions and in hardware words.

The header is made of fields that the device addresses by a code. A software field lies in a part of one of
them, given by the format's table. The device reads two words at a time.
-/

import MlnxOfed.Lib.PairedOps
import MlnxOfed.Steering.ModifyFormats

namespace MlnxOfed.Steering

open Option List Lib HwAction FieldOp SteCtx

abbrev FieldBits := Nat → Bool

abbrev Header := Nat → FieldBits

/-- The number that the `length` bits from `start` on stand for. -/
def readBits (bits : FieldBits) (start : Nat) : Nat → Nat
  | 0 => 0
  | length + 1 =>
    readBits bits start length + if bits (start + length) then 2 ^ length else 0

/-- The low `length` bits of a number in place of those from `start` on. -/
def writeBits (bits : FieldBits) (start length number : Nat) : FieldBits := fun i =>
  if start ≤ i ∧ i < start + length then number.testBit (i - start) else bits i

inductive HeaderOp where
  | set (field start length data : Nat)
  | add (field start length data : Nat)
  | copy (field start length source sourceStart : Nat)

namespace HeaderOp

/-- An addition drops the carry out of its bits. -/
def fieldOp : HeaderOp → FieldOp Nat FieldBits
  | set field start length data =>
    { target := field
      reads := [field]
      value := fun header => writeBits (header field) start length data
      depends := fun _ _ same => by rw [same field mem_cons_self] }
  | add field start length data =>
    { target := field
      reads := [field]
      value := fun header => writeBits (header field) start length (readBits (header field) start length + data)
      depends := fun _ _ same => by rw [same field mem_cons_self] }
  | copy field start length source sourceStart =>
    { target := field
      reads := [field, source]
      value := fun header => writeBits (header field) start length (readBits (header source) sourceStart length)
      depends := fun _ _ same => by
        rw [same field mem_cons_self, same source (by simp)] }

def target : HeaderOp → Nat
  | set field .. => field
  | add field .. => field
  | copy field .. => field

def source? : HeaderOp → Option Nat
  | copy _ _ _ source _ => some source
  | _ => none

private theorem fieldOp_apart {op next : HeaderOp} (target : op.target ≠ next.target)
    (source : next.source? ≠ some op.target) : op.fieldOp.Apart next.fieldOp := by
  have same : op.fieldOp.target = op.target := by cases op <;> rfl
  have sameNext : next.fieldOp.target = next.target := by cases next <;> rfl
  refine ⟨by rw [same, sameNext]; exact target, ?_⟩
  rw [same]
  cases next with
  | set field start length data | add field start length data =>
    exact fun inReads => target (mem_singleton.mp inReads)
  | copy field start length from_ fromStart =>
    intro inReads
    rcases mem_cons.mp inReads with isField | inRest
    · exact target isField
    · exact source (congrArg some (mem_singleton.mp inRest).symm)

end HeaderOp

/-- What a software action asks for, with the fields where the table puts them. -/
def SwAction.meaning (fieldArr : List ModifyField) (action : SwAction) : Option HeaderOp :=
  if action.actionType = actionTypeSet then
    (mlx5drSteConvModifyHdrSwField fieldArr action.field).map fun info =>
      .set info.hwField.toNat (info.start.toNat + action.offset.toNat) action.effectiveLength
        action.data.toNat
  else if action.actionType = actionTypeAdd then
    (mlx5drSteConvModifyHdrSwField fieldArr action.field).map fun info =>
      .add info.hwField.toNat info.start.toNat (info.stop.toNat - info.start.toNat + 1)
        action.data.toNat
  else if action.actionType = actionTypeCopy then
    (mlx5drSteConvModifyHdrSwField fieldArr action.field).bind fun src =>
      (mlx5drSteConvModifyHdrSwField fieldArr action.dstField).map fun dst =>
        .copy dst.hwField.toNat (dst.start.toNat + action.dstOffset.toNat) action.effectiveLength
          src.hwField.toNat (src.start.toNat + action.offset.toNat)
  else none

variable (word : HwAction)

def HwAction.dstCode : Nat := (word.fields.extractLsb' 16 8).toNat

def HwAction.dstShifter : BitVec 6 := word.fields.extractLsb' 8 6

def HwAction.dstLength : Nat := (word.fields.extractLsb' 0 6).toNat

def HwAction.dstLengthV0 : Nat :=
  let length : BitVec 5 := word.fields.extractLsb' 0 5
  if length = 0 then 32 else length.toNat

def HwAction.srcCode : Nat := (word.inlineData.extractLsb' 16 8).toNat

def HwAction.srcShifter : BitVec 6 := word.inlineData.extractLsb' 8 6

inductive SteFormat where
  | v0
  | v1
  deriving DecidableEq

def SteFormat.ctx : SteFormat → SteCtx
  | .v0 => steCtxV0
  | .v1 => steCtxV1

/-- What the device reads in a word; others, such as a gap, do nothing here. v1 shifters count from the
middle of a quad word. -/
def SteFormat.decode : SteFormat → HwAction → Option HeaderOp
  | .v0, word =>
    if word.actionId = mdfyOpSet then
      some (.set word.dstCode word.dstShifter.toNat word.dstLengthV0 word.inlineData.toNat)
    else if word.actionId = mdfyOpAdd then
      some (.add word.dstCode word.dstShifter.toNat word.dstLengthV0 word.inlineData.toNat)
    else if word.actionId = mdfyOpCopy then
      some (.copy word.dstCode word.dstShifter.toNat word.dstLength word.srcCode
        word.srcShifter.toNat)
    else none
  | .v1, word =>
    if word.actionId = actionIdSet then
      some (.set word.dstCode (word.dstShifter - 0x20).toNat word.dstLength
        word.inlineData.toNat)
    else if word.actionId = actionIdAdd then
      some (.add word.dstCode (word.dstShifter - 0x20).toNat word.dstLength
        word.inlineData.toNat)
    else if word.actionId = actionIdCopy then
      some (.copy word.dstCode (word.dstShifter - 0x20).toNat word.dstLength word.srcCode
        (word.srcShifter - 0x20).toNat)
    else none

/-- A list executed two words at a time. `inOrder`: for each pair, the second word's write lands last. -/
def SteFormat.execute (format : SteFormat) (inOrder : Nat → Bool) (hwActions : List HwAction) :
    Header → Header :=
  runPairs inOrder 0 (hwActions.map fun word => (format.decode word).map HeaderOp.fieldOp)

/-- Executing software actions one by one; an action without a meaning changes nothing. -/
def executeSw (fieldArr : List ModifyField) (swActions : List SwAction) : Header → Header :=
  runList (swActions.filterMap fun action =>
    (action.meaning fieldArr).map HeaderOp.fieldOp)

section Extract

variable {gap low : Nat} (code : BitVec 8) (shifter : BitVec 6) (space : BitVec gap)
  (length : BitVec low)

theorem extract_code (widths : gap + low = 8) :
    (code ++ 0#2 ++ shifter ++ space ++ length).extractLsb' 16 8 = code := by
  have start : 16 - low - gap = 8 := by omega
  rw [BitVec.extractLsb'_append_eq_of_le (by omega), BitVec.extractLsb'_append_eq_of_le (by omega),
    start, BitVec.extractLsb'_append_eq_of_le (by decide),
    BitVec.extractLsb'_append_eq_of_le (by decide)]
  exact BitVec.extractLsb'_eq_self

theorem extract_shifter (widths : gap + low = 8) :
    (code ++ 0#2 ++ shifter ++ space ++ length).extractLsb' 8 6 = shifter := by
  have start : 8 - low - gap = 0 := by omega
  rw [BitVec.extractLsb'_append_eq_of_le (by omega), BitVec.extractLsb'_append_eq_of_le (by omega),
    start, BitVec.extractLsb'_append_eq_of_add_le (by decide)]
  exact BitVec.extractLsb'_eq_self

theorem extract_length : (code ++ 0#2 ++ shifter ++ space ++ length).extractLsb' 0 low = length := by
  rw [BitVec.extractLsb'_append_eq_of_add_le (by omega)]
  exact BitVec.extractLsb'_eq_self

private theorem extract_srcCode : (0#8 ++ code ++ 0#2 ++ shifter ++ 0#8).extractLsb' 16 8 = code := by
  rw [BitVec.extractLsb'_append_eq_of_le (by decide),
    BitVec.extractLsb'_append_eq_of_le (by decide), BitVec.extractLsb'_append_eq_of_le (by decide),
    BitVec.extractLsb'_append_eq_of_add_le (by decide)]
  exact BitVec.extractLsb'_eq_self

private theorem extract_srcShifter : (0#8 ++ code ++ 0#2 ++ shifter ++ 0#8).extractLsb' 8 6 = shifter := by
  rw [BitVec.extractLsb'_append_eq_of_le (by decide), BitVec.extractLsb'_append_eq_of_add_le (by decide)]
  exact BitVec.extractLsb'_eq_self

end Extract

/-! ### Words and their meaning -/

def SteFormat.limit : SteFormat → Nat
  | .v0 => 64
  | .v1 => 32

/-- The field of a table has a code of eight bits, and its own bits are 32 at most. -/
structure ModifyField.Placed (limit : Nat) (info : ModifyField) : Prop where
  code : info.hwField.toNat < 256
  ordered : info.start.toNat ≤ info.stop.toNat
  short : info.stop.toNat - info.start.toNat < 32
  inside : info.stop.toNat < limit

variable {info : ModifyField}

theorem SteFormat.placed (format : SteFormat) {swField}
    (found : format.ctx.convModifyHdrSwField swField = some info) : info.Placed format.limit := by
  have all : ∀ entry ∈ format.ctx.modifyFieldArr, entry.hwField.toNat < 256 ∧
      entry.start.toNat ≤ entry.stop.toNat ∧ entry.stop.toNat - entry.start.toNat < 32 ∧
        entry.stop.toNat < format.limit := by
    cases format <;> decide +kernel
  have mem : info ∈ format.ctx.modifyFieldArr := by
    unfold convModifyHdrSwField mlx5drSteConvModifyHdrSwField at found
    split at found
    · cases found
    · rename_i entry isEntry
      obtain ⟨-, found⟩ := ite_none_left_eq_some.mp found
      cases found
      exact mem_of_getElem? isEntry
  obtain ⟨code, ordered, short, inside⟩ := all info mem
  exact ⟨code, ordered, short, inside⟩

theorem ModifyField.Placed.maxLength {limit}
    (placed : info.Placed limit) : info.maxLength.toNat = info.stop.toNat - info.start.toNat + 1 := by
  have ordered := placed.ordered
  have short := placed.short
  unfold ModifyField.maxLength
  bv_omega

section Decode

variable {code shifter length srcCode srcShifter : BitVec 8} {data : BitVec 32}

theorem shifterV0_toNat (low : shifter.toNat < 64) : (shifter.truncate 6 : BitVec 6).toNat = shifter.toNat := by
  rw [BitVec.truncate, BitVec.toNat_setWidth]
  omega

theorem shifterV1_toNat (low : shifter.toNat < 32) :
    ((shifter + drModifyHeaderQwOffset).truncate 6 - 0x20 : BitVec 6).toNat = shifter.toNat := by
  have offset : drModifyHeaderQwOffset.toNat = 32 := rfl
  have middle : (0x20 : BitVec 6).toNat = 32 := rfl
  rw [BitVec.truncate, BitVec.toNat_sub, BitVec.toNat_setWidth, BitVec.toNat_add, offset, middle]
  omega

theorem length_toNat (short : length.toNat ≤ 32) : (length.truncate 6 : BitVec 6).toNat = length.toNat := by
  rw [BitVec.truncate, BitVec.toNat_setWidth]
  omega

theorem destinationV0_read (id : BitVec 8) (low : shifter.toNat < 64)
    (pos : 0 < length.toNat) (short : length.toNat ≤ 32) :
    let word := mk id (destinationV0 code shifter length) data
    word.dstCode = code.toNat ∧ word.dstShifter.toNat = shifter.toNat ∧ word.dstLengthV0 = length.toNat := by
  unfold dstCode dstShifter dstLengthV0 destinationV0
  dsimp only
  rw [extract_code _ _ _ _ rfl, extract_shifter _ _ _ _ rfl, extract_length, shifterV0_toNat low]
  refine ⟨rfl, rfl, ?_⟩
  by_cases whole : length = 32
  · rw [if_pos whole, whole]
    rfl
  have below : length.toNat < 32 := by
    refine Nat.lt_of_le_of_ne short ?_
    intro same
    exact whole (BitVec.eq_of_toNat_eq same)
  have kept : (length.truncate 5 : BitVec 5).toNat = length.toNat := by
    rw [BitVec.truncate, BitVec.toNat_setWidth]
    omega
  rw [if_neg whole, if_neg, kept]
  intro zero
  rw [zero] at kept
  exact absurd kept (Nat.ne_of_lt pos)

theorem destinationV1_read (id : BitVec 8) (low : shifter.toNat < 32) (short : length.toNat ≤ 32) :
    let word := mk id (destination code shifter length) data
    word.dstCode = code.toNat ∧ (word.dstShifter - 0x20).toNat = shifter.toNat ∧
      word.dstLength = length.toNat := by
  unfold dstCode dstShifter dstLength destination
  dsimp only
  rw [extract_code _ _ _ _ rfl, extract_shifter _ _ _ _ rfl, extract_length, shifterV1_toNat low,
    length_toNat short]
  exact ⟨rfl, rfl, rfl⟩

variable (code shifter length srcCode srcShifter data)

theorem SteFormat.decode_set (format : SteFormat) (low : shifter.toNat < format.limit)
    (pos : 0 < length.toNat) (short : length.toNat ≤ 32) :
    format.decode (format.ctx.setActionSet code shifter length data) =
      some (.set code.toNat shifter.toNat length.toNat data.toNat) := by
  cases format with
  | v0 =>
    have word : SteFormat.v0.ctx.setActionSet code shifter length data =
        ⟨mdfyOpSet, destinationV0 code shifter length, data⟩ := rfl
    obtain ⟨isCode, isShifter, isLength⟩ := destinationV0_read mdfyOpSet low pos short
    rw [word, SteFormat.decode, if_pos rfl, isCode, isShifter, isLength]
  | v1 =>
    have word : SteFormat.v1.ctx.setActionSet code shifter length data =
        ⟨actionIdSet, destination code shifter length, data⟩ := rfl
    obtain ⟨isCode, isShifter, isLength⟩ := destinationV1_read actionIdSet low short
    rw [word, SteFormat.decode, if_pos rfl, isCode, isShifter, isLength]

theorem SteFormat.decode_add (format : SteFormat) (low : shifter.toNat < format.limit)
    (pos : 0 < length.toNat) (short : length.toNat ≤ 32) :
    format.decode (format.ctx.setActionAdd code shifter length data) =
      some (.add code.toNat shifter.toNat length.toNat data.toNat) := by
  cases format with
  | v0 =>
    have word : SteFormat.v0.ctx.setActionAdd code shifter length data =
        ⟨mdfyOpAdd, destinationV0 code shifter length, data⟩ := rfl
    have notSet : ¬mdfyOpAdd = mdfyOpSet := by decide
    obtain ⟨isCode, isShifter, isLength⟩ := destinationV0_read mdfyOpAdd low pos short
    rw [word, SteFormat.decode, if_neg notSet, if_pos rfl, isCode, isShifter, isLength]
  | v1 =>
    have word : SteFormat.v1.ctx.setActionAdd code shifter length data =
        ⟨actionIdAdd, destination code shifter length, data⟩ := rfl
    have notSet : ¬actionIdAdd = actionIdSet := by decide
    obtain ⟨isCode, isShifter, isLength⟩ := destinationV1_read actionIdAdd low short
    rw [word, SteFormat.decode, if_neg notSet, if_pos rfl, isCode, isShifter, isLength]

theorem SteFormat.decode_copy (format : SteFormat) (low : shifter.toNat < format.limit)
    (srcLow : srcShifter.toNat < format.limit) (short : length.toNat ≤ 32) :
    format.decode (format.ctx.setActionCopy code shifter length srcCode srcShifter) =
      some (.copy code.toNat shifter.toNat length.toNat srcCode.toNat srcShifter.toNat) := by
  cases format with
  | v0 =>
    have word : SteFormat.v0.ctx.setActionCopy code shifter length srcCode srcShifter =
        ⟨mdfyOpCopy, code ++ 0#2 ++ shifter.truncate 6 ++ 0#2 ++ length.truncate 6,
          0#8 ++ srcCode ++ 0#2 ++ srcShifter.truncate 6 ++ 0#8⟩ := rfl
    have notSet : ¬mdfyOpCopy = mdfyOpSet := by decide
    have notAdd : ¬mdfyOpCopy = mdfyOpAdd := by decide
    rw [word, SteFormat.decode, if_neg notSet, if_neg notAdd, if_pos rfl]
    unfold HwAction.dstCode HwAction.dstShifter HwAction.dstLength HwAction.srcCode HwAction.srcShifter
    rw [extract_code _ _ _ _ rfl, extract_shifter _ _ _ _ rfl, extract_length, extract_srcCode,
      extract_srcShifter, shifterV0_toNat low, shifterV0_toNat srcLow, length_toNat short]
  | v1 =>
    have word : SteFormat.v1.ctx.setActionCopy code shifter length srcCode srcShifter =
        ⟨HwAction.actionIdCopy, HwAction.destination code shifter length,
          0#8 ++ srcCode ++ 0#2 ++ (srcShifter + drModifyHeaderQwOffset).truncate 6 ++ 0#8⟩ := rfl
    have notSet : ¬HwAction.actionIdCopy = HwAction.actionIdSet := by decide
    have notAdd : ¬HwAction.actionIdCopy = HwAction.actionIdAdd := by decide
    obtain ⟨isCode, isShifter, isLength⟩ := destinationV1_read HwAction.actionIdCopy low short
    rw [word, SteFormat.decode, if_neg notSet, if_neg notAdd, if_pos rfl, isCode, isShifter, isLength]
    unfold HwAction.srcCode HwAction.srcShifter
    dsimp only
    rw [extract_srcCode, extract_srcShifter, shifterV1_toNat srcLow]

end Decode

theorem SwAction.effectiveLength_bounds (action : SwAction) :
    0 < action.effectiveLength ∧ action.effectiveLength ≤ 32 := by
  unfold effectiveLength
  split
  · decide
  · rename_i isShort
    have below := action.length.isLt
    have pos : action.length.toNat ≠ 0 := fun zero => isShort (BitVec.eq_of_toNat_eq zero)
    omega

private theorem effectiveLength_toNat (action : SwAction) :
    (BitVec.ofNat 8 action.effectiveLength).toNat = action.effectiveLength := by
  have bounds := action.effectiveLength_bounds
  rw [BitVec.toNat_ofNat]
  omega

theorem ModifyField.Placed.code_toNat {limit : Nat} {info : ModifyField} (placed : info.Placed limit) :
    (info.hwField.truncate 8 : BitVec 8).toNat = info.hwField.toNat := by
  have code := placed.code
  rw [BitVec.truncate, BitVec.toNat_setWidth]
  omega

theorem ModifyField.Placed.shifter_toNat {limit : Nat} {info : ModifyField}
    (placed : info.Placed limit) (small : limit ≤ 64) {length : Nat} (pos : 0 < length)
    {offset : BitVec 5} (fits : ¬length + offset.toNat > info.maxLength.toNat) :
    (info.start + offset.zeroExtend 8).toNat = info.start.toNat + offset.toNat ∧
      info.start.toNat + offset.toNat < limit := by
  have inside := placed.inside
  have ordered := placed.ordered
  rw [placed.maxLength] at fits
  have below := offset.isLt
  rw [BitVec.toNat_add, BitVec.zeroExtend, BitVec.toNat_setWidth]
  omega

theorem SteFormat.limit_le (format : SteFormat) : format.limit ≤ 64 := by
  cases format <;> decide

private theorem modifySwToHw_meaning {format : SteFormat} {action : SwAction} {converted : Converted}
    (res : format.ctx.modifySwToHw action = .ok converted) :
    ∃ op, action.meaning format.ctx.modifyFieldArr = some op ∧
      format.decode converted.word = some op ∧ op.target = converted.dst.hwField.toNat ∧
        op.source? = converted.src.map fun info => info.hwField.toNat := by
  have bounds := action.effectiveLength_bounds
  have length := effectiveLength_toNat action
  unfold modifySwToHw at res
  unfold SwAction.meaning
  split at res
  · rename_i isSet
    rw [if_pos isSet]
    unfold modifySwToHwSet at res
    split at res
    · cases res
    rename_i info found
    split at res
    · cases res
    rename_i fits
    cases res
    have placed := format.placed found
    obtain ⟨shifter, low⟩ := placed.shifter_toNat format.limit_le bounds.1 fits
    have read := format.decode_set (info.hwField.truncate 8) _ _ action.data
      (shifter.symm ▸ low) (length.symm ▸ bounds.1) (length.symm ▸ bounds.2)
    rw [placed.code_toNat, shifter, length] at read
    exact ⟨_, congrArg _ found, read, rfl, rfl⟩
  · rename_i notSet
    rw [if_neg notSet]
    split at res
    · rename_i isAdd
      rw [if_pos isAdd]
      unfold modifySwToHwAdd at res
      split at res
      · cases res
      rename_i info found
      cases res
      have placed := format.placed found
      have inside := placed.inside
      have ordered := placed.ordered
      have short := placed.short
      have whole := placed.maxLength
      have read := format.decode_add (info.hwField.truncate 8) info.start info.maxLength
        action.data (by omega) (by omega) (by omega)
      rw [placed.code_toNat, whole] at read
      exact ⟨_, congrArg _ found, read, rfl, rfl⟩
    · rename_i notAdd
      rw [if_neg notAdd]
      split at res
      · rename_i isCopy
        rw [if_pos isCopy]
        unfold modifySwToHwCopy at res
        split at res
        · rename_i src dst foundSrc foundDst
          split at res
          · cases res
          rename_i fits
          rw [not_or] at fits
          cases res
          have placed := format.placed foundDst
          have placedSrc := format.placed foundSrc
          obtain ⟨shifter, low⟩ := placed.shifter_toNat format.limit_le bounds.1 fits.2
          obtain ⟨srcShifter, srcLow⟩ := placedSrc.shifter_toNat format.limit_le bounds.1 fits.1
          have read := format.decode_copy (dst.hwField.truncate 8) _ _
            (src.hwField.truncate 8) _ (shifter.symm ▸ low) (srcShifter.symm ▸ srcLow)
            (length.symm ▸ bounds.2)
          rw [placed.code_toNat, placedSrc.code_toNat, shifter, srcShifter, length] at read
          refine ⟨_, ?_, read, rfl, rfl⟩
          unfold convModifyHdrSwField at foundSrc foundDst
          rw [foundSrc, foundDst]
          rfl
        · cases res
      · cases res

/-! ### The list -/

def SteFormat.slot (format : SteFormat) (word : HwAction) : Option (FieldOp Nat FieldBits) :=
  (format.decode word).map HeaderOp.fieldOp

def swOp (fieldArr : List ModifyField) (action : SwAction) : Option (FieldOp Nat FieldBits) :=
  (action.meaning fieldArr).map HeaderOp.fieldOp

theorem SteFormat.slot_zero (format : SteFormat) : format.slot zero = none := by
  cases format <;> rfl

/-- After some actions: the words mean them, no pair has a hazard, and `hwField` has the field written last.
-/
structure Converts (format : SteFormat) (done : List SwAction) (state : ConvertState) : Prop where
  clear : Hazardless (state.hwActions.map format.slot)
  ops : (state.hwActions.map format.slot).filterMap id = done.filterMap (swOp format.ctx.modifyFieldArr)
  meant : ∀ action ∈ done, (action.meaning format.ctx.modifyFieldArr).isSome
  last : ∀ word ∈ state.hwActions.getLast?, ∃ op, format.decode word = some op ∧ op.target = state.hwField.toNat

theorem Converts.start (format) : Converts format [] ConvertState.start where
  clear := trivial
  ops := rfl
  meant := nofun
  last := nofun

section Turn

variable {format : SteFormat} {type : DomainType} {maxHwActions numSwActions i : Nat}
  {done rest : List SwAction} {state after : ConvertState} {action : SwAction}

theorem Converts.apart (converts : Converts format done state) {converted : Converted} {op : HeaderOp}
    (target : op.target = converted.dst.hwField.toNat) (source : op.source? = converted.src.map fun info =>
    info.hwField.toNat) (noGap : ¬state.needsGap converted = true) (odd : (state.hwActions.map
    format.slot).length % 2 = 1) (last) (isLast : last ∈ (state.hwActions.map format.slot).getLast?) :
    SlotsApart last (some op.fieldOp) := by
  intro old isBefore next isNext
  cases isNext
  rw [getLast?_map] at isLast
  obtain ⟨word, isWord, rfl⟩ := map_eq_some_iff.mp isLast
  obtain ⟨earlier, decoded, written⟩ := converts.last word isWord
  unfold SteFormat.slot at isBefore
  rw [decoded] at isBefore
  cases isBefore
  rw [length_map] at odd
  unfold ConvertState.needsGap at noGap
  rw [decide_eq_true_eq, not_and, not_or] at noGap
  obtain ⟨otherTarget, otherSource⟩ := noGap odd
  refine HeaderOp.fieldOp_apart ?_ ?_
  · rw [written, target]
    exact fun same => otherTarget (BitVec.eq_of_toNat_eq same)
  rw [written, source]
  cases isSrc : converted.src with
  | none => exact nofun
  | some info =>
    intro same
    rw [isSrc] at otherSource
    have sameField : state.hwField = info.hwField := (BitVec.eq_of_toNat_eq (some.inj same)).symm
    exact otherSource (decide_eq_true sameField)

theorem Converts.turn (converts : Converts format done state)
    (res : format.ctx.convertTurn type maxHwActions numSwActions i action state = .ok after) :
    Converts format (done ++ [action]) after := by
  obtain ⟨converted, hw, written, words, -⟩ := convertTurn_eq res
  obtain ⟨op, means, decoded, target, source⟩ := modifySwToHw_meaning hw
  have slot : format.slot converted.word = some op.fieldOp := congrArg _ decoded
  have isOp : swOp format.ctx.modifyFieldArr action = some op.fieldOp := congrArg _ means
  refine ⟨?_, ?_, ?_, ?_⟩
  · rw [words, map_append, map_append, map_singleton, slot]
    by_cases gap : state.needsGap converted = true
    · have odd : state.hwActions.length % 2 = 1 := (of_decide_eq_true gap).1
      rw [if_pos gap, map_singleton, format.slot_zero]
      refine (converts.clear.snoc fun _ last _ => slotsApart_none last).snoc ?_
      intro stillOdd
      rw [length_append, length_map, length_singleton] at stillOdd
      omega
    · rw [if_neg gap, map_nil, append_nil]
      exact converts.clear.snoc (converts.apart target source gap)
  · have gapOps : ((if state.needsGap converted = true then [zero] else []).map
        format.slot).filterMap id = [] := by
      split
      · rw [map_singleton, format.slot_zero]
        rfl
      · rfl
    rw [words, map_append, map_append, filterMap_append, filterMap_append,
      converts.ops, gapOps, append_nil, filterMap_append, map_singleton, slot]
    have single : [action].filterMap (swOp format.ctx.modifyFieldArr) = [op.fieldOp] :=
      filterMap_cons_some isOp
    rw [single]
    rfl
  · intro other mem
    rcases mem_append.mp mem with old | new
    · exact converts.meant other old
    · rw [mem_singleton.mp new, means]
      rfl
  · intro word isLast
    rw [words, getLast?_concat] at isLast
    cases isLast
    exact ⟨op, decoded, by rw [target, written]⟩

theorem Converts.run (converts : Converts format done state)
    (res : format.ctx.convertFrom type maxHwActions numSwActions i rest state = .ok after) :
    Converts format (done ++ rest) after := by
  induction rest generalizing i done state with
  | nil =>
    cases res
    rw [append_nil]
    exact converts
  | cons action rest ih =>
    rw [convertFrom] at res
    cases turn : format.ctx.convertTurn type maxHwActions numSwActions i action state with
    | error _ =>
      rw [turn] at res
      cases res
    | ok next =>
      rw [turn] at res
      have more := ih (converts.turn turn) res
      rw [append_assoc] at more
      exact more

theorem convertFrom_length (res : format.ctx.convertFrom type maxHwActions numSwActions i rest
    state = .ok after) (count : i + rest.length = numSwActions)
    (room : state.hwActions.length + rest.length ≤ maxHwActions) :
    after.hwActions.length ≤ maxHwActions := by
  induction rest generalizing i state with
  | nil =>
    cases res
    exact room
  | cons action rest ih =>
    rw [convertFrom] at res
    cases turn : format.ctx.convertTurn type maxHwActions numSwActions i action state with
    | error _ =>
      rw [turn] at res
      cases res
    | ok next =>
      rw [turn] at res
      obtain ⟨converted, -, -, words, gapRoom⟩ := convertTurn_eq turn
      rw [length_cons] at count room
      refine ih res (by omega) ?_
      rw [words, length_append, length_append, length_singleton]
      by_cases gap : state.needsGap converted = true
      · have less := gapRoom gap
        rw [if_pos gap, length_singleton]
        omega
      · rw [if_neg gap, length_nil]
        omega

end Turn

/-- The hardware list of an accepted list does to every header what the software actions do in turn, in as
many words as the caller allows. -/
theorem convertModifyHeader_meaning {format : SteFormat} {type : DomainType} {maxHwActions : Nat}
    {swActions : List SwAction} {state : ConvertState}
    (accepted : format.ctx.convertModifyHeader type maxHwActions swActions = .ok state)
    (fits : swActions.length ≤ maxHwActions) :
    (∀ action ∈ swActions, (action.meaning format.ctx.modifyFieldArr).isSome) ∧
      (∀ inOrder header, format.execute inOrder state.hwActions header =
        executeSw format.ctx.modifyFieldArr swActions header) ∧
          ∀ hwIdx < state.hwActions.length, hwIdx < maxHwActions := by
  have converts := (Converts.start format).run accepted
  rw [nil_append] at converts
  refine ⟨converts.meant, ?_, ?_⟩
  · intro inOrder header
    refine (runPairs_eq converts.clear).trans ?_
    rw [converts.ops]
    rfl
  · intro hwIdx below
    have length := convertFrom_length accepted (zero_add _) (le_of_eq_of_le (zero_add _) fits)
    omega

def setThenCopy : List SwAction :=
  [⟨SwAction.actionTypeSet, 0x52, 0, 0, 0x01020304⟩, ⟨SwAction.actionTypeCopy, 0x52, 0, 0, 0x00040000⟩]

theorem convertModifyHeader_meaning_setThenCopy :
    ∃ state, steCtxV1.convertModifyHeader .fdb 16 setThenCopy = .ok state ∧
      state.hwActions.length = 3 ∧ ∀ inOrder header, SteFormat.v1.execute inOrder state.hwActions header =
          executeSw drSteV1ActionModifyFieldArr setThenCopy header := by
  obtain ⟨state, accepted, three⟩ : ∃ state,
      SteFormat.v1.ctx.convertModifyHeader .fdb 16 setThenCopy = .ok state ∧
        state.hwActions.length = 3 := ⟨_, by rfl, by rfl⟩
  exact ⟨state, accepted, three, (convertModifyHeader_meaning accepted (by decide)).2.1⟩

end MlnxOfed.Steering
