/-
Hardware lists of modify-header and L3-decap actions in the v1 format (dr_action.c, dr_ste_v1.c).

A list is made of 64-bit words. The device computes a word as the disjunction of a pattern word, shared by
all actions of one shape, and an argument word of the action's own. Patterns are compared by shape and
masked before they are stored.
-/

import MlnxOfed.Steering.Matcher

namespace MlnxOfed.Steering

open List

/-- A double action: the first dword is `action_id` and 24 bits that depend on it, the second the inline
data, if any. -/
structure HwAction where
  actionId : BitVec 8
  fields : BitVec 24
  inlineData : BitVec 32
  deriving DecidableEq

namespace HwAction

def actionIdNop : BitVec 8 := 0x00

def actionIdCopy : BitVec 8 := 0x05

def actionIdSet : BitVec 8 := 0x06

def actionIdAdd : BitVec 8 := 0x07

def actionIdRemoveBySize : BitVec 8 := 0x08

def actionIdRemoveHeaderToHeader : BitVec 8 := 0x09

def actionIdInsertInline : BitVec 8 := 0x0a

def zero : HwAction := ⟨actionIdNop, 0, 0⟩

def or (pattern arg : HwAction) : HwAction :=
  ⟨pattern.actionId ||| arg.actionId, pattern.fields ||| arg.fields, pattern.inlineData ||| arg.inlineData⟩

def hasInlineData (word : HwAction) : Bool :=
  word.actionId = actionIdSet ∨ word.actionId = actionIdAdd ∨ word.actionId = actionIdInsertInline

/-- `MLX5_SET(ste_double_action_set, word, inline_data, 0)` where it applies. -/
def mask (word : HwAction) : HwAction :=
  if word.hasInlineData then { word with inlineData := 0 } else word

end HwAction

/-! ### Converting software actions -/

def eNoMem : Int := -12

def eInval : Int := -22

def eOpNotSupp : Int := -95

def eNotSupp : Int := -524

structure ModifyField where
  hwField : BitVec 16
  start : BitVec 8
  stop : BitVec 8
  l3Type : BitVec 8
  l4Type : BitVec 8

def ModifyField.maxLength (info : ModifyField) : BitVec 8 := info.stop - info.start + 1

/-- A word of `set_action_in`, `add_action_in` or `copy_action_in`. -/
structure SwAction where
  actionType : BitVec 4
  field : BitVec 12
  offset : BitVec 5
  length : BitVec 5
  data : BitVec 32

namespace SwAction

def actionTypeSet : BitVec 4 := 0x1

def actionTypeAdd : BitVec 4 := 0x2

def actionTypeCopy : BitVec 4 := 0x3

def dstField (action : SwAction) : BitVec 12 := action.data.extractLsb' 16 12

def dstOffset (action : SwAction) : BitVec 5 := action.data.extractLsb' 8 5

def effectiveLength (action : SwAction) : Nat :=
  if action.length = 0 then 32 else action.length.toNat

end SwAction

def fieldOutIpTtl : BitVec 12 := 0x0a

def fieldOutIpv6Hoplimit : BitVec 12 := 0x47

def fieldMetadataRegA : BitVec 12 := 0x49

def fieldMetadataRegB : BitVec 12 := 0x50

def fieldOutTcpSeqNum : BitVec 12 := 0x59

def fieldOutTcpAckNum : BitVec 12 := 0x5b

/-- The `allow_rx` and `allow_tx` bits of the action. -/
structure Directions where
  allowRx : Bool
  allowTx : Bool

def drActionModifyCheckRegister (type : DomainType) (field : BitVec 12)
    (allowed : Directions) : Except Int Directions :=
  if field = fieldMetadataRegA then
    if type ≠ .nicTx then .error eInval else .ok { allowed with allowRx := false }
  else if field = fieldMetadataRegB then
    if type ≠ .nicRx then .error eInval else .ok { allowed with allowTx := false }
  else .ok allowed

def drActionModifyCheckDirections (allowed : Directions) : Except Int Directions :=
  if allowed.allowRx = false ∧ allowed.allowTx = false then .error eInval else .ok allowed

def drActionModifyCheckSetFieldLimitation (type : DomainType) (action : SwAction)
    (allowed : Directions) : Except Int Directions := do
  drActionModifyCheckDirections (← drActionModifyCheckRegister type action.field allowed)

def drActionModifyCheckAddFieldLimitation (action : SwAction) (allowed : Directions) : Except Int Directions :=
  if action.field ≠ fieldOutIpTtl ∧ action.field ≠ fieldOutIpv6Hoplimit ∧
      action.field ≠ fieldOutTcpSeqNum ∧ action.field ≠ fieldOutTcpAckNum then .error eInval
  else .ok allowed

def drActionModifyCheckCopyFieldLimitation (type : DomainType) (action : SwAction)
    (allowed : Directions) : Except Int Directions := do
  let source ← drActionModifyCheckRegister type action.field allowed
  drActionModifyCheckDirections (← drActionModifyCheckRegister type action.dstField source)

def drActionModifyCheckFieldLimitation (type : DomainType) (action : SwAction)
    (allowed : Directions) : Except Int Directions :=
  if action.actionType = SwAction.actionTypeSet then
    drActionModifyCheckSetFieldLimitation type action allowed
  else if action.actionType = SwAction.actionTypeAdd then
    drActionModifyCheckAddFieldLimitation action allowed
  else if action.actionType = SwAction.actionTypeCopy then
    drActionModifyCheckCopyFieldLimitation type action allowed
  else .error eOpNotSupp

/-- `fieldArr` is `modify_field_arr` of the format; an entry left out of the table has zero bounds. -/
def mlx5drSteConvModifyHdrSwField (fieldArr : List ModifyField) (swField : BitVec 12) : Option ModifyField :=
  match fieldArr[swField.toNat]? with
  | none => none
  | some hwField => if hwField.stop = 0 ∧ hwField.start = 0 then none else some hwField

def drModifyHeaderQwOffset : BitVec 8 := 0x20

variable (hwField shifter length : BitVec 8)

def HwAction.destination : BitVec 24 :=
  hwField ++ 0#2 ++ (shifter + drModifyHeaderQwOffset).truncate 6 ++ 0#2 ++ length.truncate 6

def drSteV1SetActionSet (data : BitVec 32) : HwAction :=
  ⟨HwAction.actionIdSet, HwAction.destination hwField shifter length, data⟩

def drSteV1SetActionAdd (data : BitVec 32) : HwAction :=
  ⟨HwAction.actionIdAdd, HwAction.destination hwField shifter length, data⟩

def drSteV1SetActionCopy (dstHwField dstShifter dstLen srcHwField srcShifter : BitVec 8) : HwAction :=
  ⟨HwAction.actionIdCopy, HwAction.destination dstHwField dstShifter dstLen,
    0#8 ++ srcHwField ++ 0#2 ++ (srcShifter + drModifyHeaderQwOffset).truncate 6 ++ 0#8⟩

/-- A converted action with the field it writes and, for a copy, the field it reads. -/
structure Converted where
  word : HwAction
  dst : ModifyField
  src : Option ModifyField

def drActionModifySwToHwAdd (fieldArr : List ModifyField) (action : SwAction) : Except Int Converted :=
  match mlx5drSteConvModifyHdrSwField fieldArr action.field with
  | none => .error eInval
  | some info =>
    .ok ⟨drSteV1SetActionAdd (info.hwField.truncate 8) info.start info.maxLength action.data, info, none⟩

def drActionModifySwToHwSet (fieldArr : List ModifyField) (action : SwAction) : Except Int Converted :=
  match mlx5drSteConvModifyHdrSwField fieldArr action.field with
  | none => .error eInval
  | some info =>
    if action.effectiveLength + action.offset.toNat > info.maxLength.toNat then .error eInval
    else
      .ok ⟨drSteV1SetActionSet (info.hwField.truncate 8)
        (info.start + action.offset.zeroExtend 8) (BitVec.ofNat 8 action.effectiveLength)
        action.data, info, none⟩

def drActionModifySwToHwCopy (fieldArr : List ModifyField) (action : SwAction) : Except Int Converted :=
  match mlx5drSteConvModifyHdrSwField fieldArr action.field,
      mlx5drSteConvModifyHdrSwField fieldArr action.dstField with
  | some src, some dst =>
    if action.effectiveLength + action.offset.toNat > src.maxLength.toNat ∨
        action.effectiveLength + action.dstOffset.toNat > dst.maxLength.toNat then .error eInval
    else
      .ok ⟨drSteV1SetActionCopy (dst.hwField.truncate 8)
        (dst.start + action.dstOffset.zeroExtend 8) (BitVec.ofNat 8 action.effectiveLength)
        (src.hwField.truncate 8) (src.start + action.offset.zeroExtend 8), dst, some src⟩
  | _, _ => .error eInval

def drActionModifySwToHw (fieldArr : List ModifyField) (action : SwAction) : Except Int Converted :=
  if action.actionType = SwAction.actionTypeSet then drActionModifySwToHwSet fieldArr action
  else if action.actionType = SwAction.actionTypeAdd then drActionModifySwToHwAdd fieldArr action
  else if action.actionType = SwAction.actionTypeCopy then
    drActionModifySwToHwCopy fieldArr action
  else .error eOpNotSupp

/-- The locals of `dr_actions_convert_modify_header` between two turns; `hwActions` is the buffer below
`hw_idx`. -/
structure ConvertState where
  allowed : Directions
  modifyTtl : Bool
  hwField : BitVec 16
  l3Type : BitVec 8
  l4Type : BitVec 8
  hwActions : List HwAction

def ConvertState.start : ConvertState := ⟨⟨true, true⟩, false, 0, 0, 0, []⟩

/-- Two actions run at once: the second of a pair may not touch the field the first writes. -/
def ConvertState.needsGap (state : ConvertState) (converted : Converted) : Bool :=
  state.hwActions.length % 2 = 1 ∧ (state.hwField = converted.dst.hwField ∨
      converted.src.any fun info => state.hwField = info.hwField)

/-- One turn of the loop, at index `i`. -/
def drActionsConvertTurn (type : DomainType) (fieldArr : List ModifyField)
    (maxHwActions numSwActions i : Nat) (action : SwAction) (state : ConvertState) :
    Except Int ConvertState := do
  let allowed ← drActionModifyCheckFieldLimitation type action state.allowed
  let converted ← drActionModifySwToHw fieldArr action
  let dst := converted.dst
  if state.l3Type ≠ 0 ∧ dst.l3Type ≠ 0 ∧ dst.l3Type ≠ state.l3Type then .error eInval
  else if state.l4Type ≠ 0 ∧ dst.l4Type ≠ 0 ∧ dst.l4Type ≠ state.l4Type then .error eInval
  else if state.needsGap converted ∧
      numSwActions + (state.hwActions.length + 1) - i ≥ maxHwActions then .error eInval
  else
    .ok
      { allowed := allowed
        modifyTtl := state.modifyTtl || action.field = fieldOutIpTtl
        hwField := dst.hwField
        l3Type := if dst.l3Type = 0 then state.l3Type else dst.l3Type
        l4Type := if dst.l4Type = 0 then state.l4Type else dst.l4Type
        hwActions := state.hwActions ++
          (if state.needsGap converted then [HwAction.zero] else []) ++ [converted.word] }

def drActionsConvertFrom (type : DomainType) (fieldArr : List ModifyField) (maxHwActions numSwActions : Nat) :
    Nat → List SwAction → ConvertState → Except Int ConvertState
  | _, [], state => .ok state
  | i, action :: rest, state => do
      drActionsConvertFrom type fieldArr maxHwActions numSwActions (i + 1) rest
        (← drActionsConvertTurn type fieldArr maxHwActions numSwActions i action state)

def drActionsConvertModifyHeader (type : DomainType) (fieldArr : List ModifyField)
    (maxHwActions : Nat) (swActions : List SwAction) : Except Int ConvertState :=
  drActionsConvertFrom type fieldArr maxHwActions swActions.length 0 swActions ConvertState.start

def hdrLenL2 : Nat := 14

def hdrLenL2WVlan : Nat := 18

def removeL2L3Headers : HwAction :=
  ⟨HwAction.actionIdRemoveHeaderToHeader, 0#2 ++ 0#6 ++ 0#2 ++ 0x19#6 ++ 0#4 ++ 1#1 ++ 1#1 ++ 0#2, 0⟩

def removeTwoBytes : HwAction :=
  ⟨HwAction.actionIdRemoveBySize, 0#2 ++ 0#6 ++ 0#1 ++ 0#1 ++ 0#7 ++ 0#1 ++ 1#6, 0⟩

def insertInline (data : BitVec 32) : HwAction := ⟨HwAction.actionIdInsertInline, 0, data⟩

def inlineDword (bytes : List (BitVec 8)) (position : Nat) : BitVec 32 :=
  bytes.getD position 0 ++ bytes.getD (position + 1) 0 ++ bytes.getD (position + 2) 0 ++
    bytes.getD (position + 3) 0

/-- The header goes in from its last dword to its first, with two bytes of padding in
front that the last action removes. -/
def drSteV1SetActionDecapL3List (data : List (BitVec 8)) : List HwAction :=
  let dataSz := data.length
  let paddedData := replicate (dataSz % 4) 0 ++ data
  removeL2L3Headers :: (range (dataSz / 4 + 1)).map
      (fun i => insertInline (inlineDword paddedData ((dataSz / 4) * 4 - i * 4))) ++
    [removeTwoBytes]

def mlx5drSteSetActionDecapL3List (data : List (BitVec 8)) : Except Int (List HwAction) :=
  if data.length ≠ hdrLenL2 ∧ data.length ≠ hdrLenL2WVlan then .error eInval
  else .ok (drSteV1SetActionDecapL3List data)

/-- The action types that own a pattern. -/
inductive RewriteType where
  | modifyHdr
  | tnlL3ToL2
  deriving DecidableEq

/-- A turn of `dr_ste_v1_compare_modify_hdr`: a copy is compared whole, other words by their first dword. -/
def compareWord (cur word : HwAction) : Bool :=
  if word.actionId = HwAction.actionIdCopy then word = cur
  else word.actionId = cur.actionId ∧ word.fields = cur.fields

def drSteV1CompareModifyHdr : List HwAction → List HwAction → Bool
  | [], [] => true
  | cur :: curRest, word :: rest => compareWord cur word && drSteV1CompareModifyHdr curRest rest
  | _, _ => false

def drSteV1ComparePattern (curType : RewriteType) (cur : List HwAction) (type : RewriteType)
    (hwActions : List HwAction) : Bool :=
  if cur.length ≠ hwActions.length ∨ curType ≠ type then false
  else
    match type with
    | .modifyHdr => drSteV1CompareModifyHdr cur hwActions
    | .tnlL3ToL2 => true

/-- The in-place loop of `dr_ste_v1_alloc_modify_hdr_chunk`. -/
def maskPattern (hwActions : List HwAction) : List HwAction := hwActions.map HwAction.mask

def HwAction.shape (word : HwAction) : BitVec 8 × BitVec 24 × BitVec 32 :=
  (word.actionId, word.fields, if word.actionId = HwAction.actionIdCopy then word.inlineData else 0)

private theorem compareWord_iff (cur word) : compareWord cur word = true ↔ cur.shape = word.shape := by
  obtain ⟨curId, curFields, curData⟩ := cur
  obtain ⟨wordId, wordFields, wordData⟩ := word
  unfold compareWord HwAction.shape
  simp only [Prod.mk.injEq]
  by_cases copies : wordId = HwAction.actionIdCopy
  · rw [if_pos copies, if_pos copies, decide_eq_true_eq, HwAction.mk.injEq]
    constructor
    · rintro ⟨rfl, rfl, rfl⟩
      exact ⟨rfl, rfl, if_pos copies⟩
    · rintro ⟨rfl, rfl, sameData⟩
      rw [if_pos copies] at sameData
      exact ⟨rfl, rfl, sameData.symm⟩
  · rw [if_neg copies, if_neg copies, decide_eq_true_eq]
    constructor
    · rintro ⟨rfl, rfl⟩
      exact ⟨rfl, rfl, if_neg copies⟩
    · rintro ⟨rfl, rfl, _⟩
      exact ⟨rfl, rfl⟩

private theorem drSteV1CompareModifyHdr_iff (cur hwActions) : drSteV1CompareModifyHdr cur hwActions = true ↔
      cur.map HwAction.shape = hwActions.map HwAction.shape := by
  induction cur generalizing hwActions with
  | nil => cases hwActions <;> simp [drSteV1CompareModifyHdr]
  | cons word rest ih =>
    cases hwActions with
    | nil => simp [drSteV1CompareModifyHdr]
    | cons other others =>
      rw [drSteV1CompareModifyHdr, Bool.and_eq_true, compareWord_iff, ih, map_cons, map_cons, cons.injEq]

def patternShape (type : RewriteType) (hwActions : List HwAction) :
    RewriteType × Nat × List (BitVec 8 × BitVec 24 × BitVec 32) :=
  (type, hwActions.length,
    match type with
    | .modifyHdr => hwActions.map HwAction.shape
    | .tnlL3ToL2 => [])

theorem drSteV1ComparePattern_iff (curType type cur hwActions) :
    drSteV1ComparePattern curType cur type hwActions = true ↔
      patternShape curType cur = patternShape type hwActions := by
  unfold drSteV1ComparePattern patternShape
  by_cases sameType : curType = type
  · subst sameType
    by_cases sameLength : cur.length = hwActions.length
    · cases curType with
      | modifyHdr => simp [sameLength, drSteV1CompareModifyHdr_iff]
      | tnlL3ToL2 => simp [sameLength]
    · simp [sameLength]
  · simp [sameType]

variable (word : HwAction)

theorem HwAction.mask_actionId : word.mask.actionId = word.actionId := by
  unfold mask
  split_ifs <;> rfl

theorem HwAction.mask_fields : word.mask.fields = word.fields := by
  unfold mask
  split_ifs <;> rfl

theorem HwAction.hasInlineData_not_copy {word : HwAction} (has : word.hasInlineData = true) :
    word.actionId ≠ actionIdCopy := by
  intro copies
  simp [hasInlineData, copies, actionIdCopy, actionIdSet, actionIdAdd, actionIdInsertInline] at has

theorem HwAction.shape_mask : word.mask.shape = word.shape := by
  unfold shape
  rw [mask_actionId, mask_fields]
  split_ifs with copies
  · cases has : word.hasInlineData with
    | true => exact absurd copies (hasInlineData_not_copy has)
    | false => rw [mask, has, if_neg (by decide)]
  · rfl

theorem patternShape_maskPattern (type hwActions) :
    patternShape type (maskPattern hwActions) = patternShape type hwActions := by
  have shapes : (maskPattern hwActions).map HwAction.shape = hwActions.map HwAction.shape := by
    rw [maskPattern, map_map]
    exact map_congr_left fun word _ => word.shape_mask
  have length : (maskPattern hwActions).length = hwActions.length := length_map _
  unfold patternShape
  rw [length, shapes]

/-! ### Compiled lists -/

def HwAction.Compiled (word : HwAction) : Prop :=
  word.hasInlineData = true ∨ word.actionId = actionIdCopy ∨ word.inlineData = 0

def decapPattern (length : Nat) : List HwAction :=
  removeL2L3Headers :: replicate (length - 2) (insertInline 0) ++ [removeTwoBytes]

structure CompiledList (type : RewriteType) (hwActions : List HwAction) : Prop where
  words : ∀ word ∈ hwActions, word.Compiled
  decap : type = .tnlL3ToL2 → maskPattern hwActions = decapPattern hwActions.length

theorem HwAction.mask_eq_of_shape {cur word : HwAction} (curCompiled : cur.Compiled)
    (compiled : word.Compiled) (same : cur.shape = word.shape) : cur.mask = word.mask := by
  obtain ⟨curId, curFields, curData⟩ := cur
  obtain ⟨wordId, wordFields, wordData⟩ := word
  simp only [shape, Prod.mk.injEq] at same
  obtain ⟨rfl, rfl, sameData⟩ := same
  by_cases has : hasInlineData ⟨curId, curFields, curData⟩ = true
  · have hasToo : hasInlineData ⟨curId, curFields, wordData⟩ = true := has
    rw [mask, mask, if_pos has, if_pos hasToo]
  have hasNeither : ¬hasInlineData ⟨curId, curFields, wordData⟩ = true := has
  rw [mask, mask, if_neg has, if_neg hasNeither]
  by_cases copies : curId = actionIdCopy
  · rw [if_pos copies, if_pos copies] at sameData
    rw [sameData]
  · have curZero : curData = 0 := (curCompiled.resolve_left has).resolve_left copies
    have zero : wordData = 0 := (compiled.resolve_left hasNeither).resolve_left copies
    rw [curZero, zero]

variable {cur hwActions : List HwAction}

private theorem maskPattern_eq_of_shapes
    (curCompiled : ∀ word ∈ cur, word.Compiled) (compiled : ∀ word ∈ hwActions, word.Compiled)
    (same : cur.map HwAction.shape = hwActions.map HwAction.shape) :
    maskPattern cur = maskPattern hwActions := by
  induction cur generalizing hwActions with
  | nil =>
    rw [map_nil, eq_comm, map_eq_nil_iff] at same
    rw [same]
  | cons word rest ih =>
    cases hwActions with
    | nil => simp at same
    | cons other others =>
      rw [map_cons, map_cons, cons.injEq] at same
      rw [forall_mem_cons] at curCompiled compiled
      have head := HwAction.mask_eq_of_shape curCompiled.1 compiled.1 same.1
      have tail := ih curCompiled.2 compiled.2 same.2
      simp only [maskPattern, map_cons] at tail ⊢
      rw [head, tail]

theorem CompiledList.maskPattern_eq {type} (curCompiled : CompiledList type cur)
    (compiled : CompiledList type hwActions) (same : patternShape type cur = patternShape type hwActions) :
    maskPattern cur = maskPattern hwActions := by
  simp only [patternShape, Prod.mk.injEq] at same
  cases type with
  | modifyHdr => exact maskPattern_eq_of_shapes curCompiled.words compiled.words same.2.2
  | tnlL3ToL2 => rw [curCompiled.decap rfl, compiled.decap rfl, same.2.1]

theorem HwAction.or_mask : word.mask.or word = word := by
  unfold mask
  split_ifs
  · simp [HwAction.or]
  · simp [HwAction.or]

private theorem drActionModifySwToHw_compiled {fieldArr action}
    {converted} (res : drActionModifySwToHw fieldArr action = .ok converted) :
    converted.word.Compiled := by
  unfold drActionModifySwToHw at res
  split_ifs at res
  · unfold drActionModifySwToHwSet at res
    split at res
    · cases res
    · split_ifs at res
      cases res
      exact .inl rfl
  · unfold drActionModifySwToHwAdd at res
    split at res
    · cases res
    · cases res
      exact .inl rfl
  · unfold drActionModifySwToHwCopy at res
    split at res
    · split_ifs at res
      cases res
      exact .inr (.inl rfl)
    · cases res

theorem HwAction.zero_compiled : HwAction.zero.Compiled := .inr (.inr rfl)

section Convert

variable {type : DomainType} {fieldArr : List ModifyField} {maxHwActions numSwActions i : Nat}
  {state after : ConvertState} {action : SwAction}

private theorem drActionsConvertTurn_eq
    (res : drActionsConvertTurn type fieldArr maxHwActions numSwActions i action state = .ok after) :
    ∃ converted, drActionModifySwToHw fieldArr action = .ok converted ∧ after.hwActions = state.hwActions ++
        (if state.needsGap converted then [HwAction.zero] else []) ++ [converted.word] := by
  unfold drActionsConvertTurn at res
  cases limited : drActionModifyCheckFieldLimitation type action state.allowed with
  | error _ =>
    rw [limited] at res
    cases res
  | ok allowed =>
    rw [limited] at res
    cases hw : drActionModifySwToHw fieldArr action with
    | error _ =>
      rw [hw] at res
      cases res
    | ok converted =>
      rw [hw] at res
      simp only [bind, Except.bind] at res
      split at res
      · cases res
      split at res
      · cases res
      · split at res
        · cases res
        · cases res
          exact ⟨converted, rfl, rfl⟩

private theorem drActionsConvertTurn_compiled (given : ∀ word ∈ state.hwActions, word.Compiled)
    (res : drActionsConvertTurn type fieldArr maxHwActions numSwActions i action state =
      .ok after) : ∀ word ∈ after.hwActions, word.Compiled := by
  obtain ⟨converted, hw, words⟩ := drActionsConvertTurn_eq res
  rw [words]
  intro word mem
  rw [mem_append, mem_append, mem_singleton] at mem
  rcases mem with (old | gap) | rfl
  · exact given word old
  · split at gap
    · rw [mem_singleton.mp gap]
      exact HwAction.zero_compiled
    · cases gap
  · exact drActionModifySwToHw_compiled hw

variable {swActions : List SwAction}

private theorem drActionsConvertFrom_compiled (given : ∀ word ∈ state.hwActions, word.Compiled)
    (res : drActionsConvertFrom type fieldArr maxHwActions numSwActions i swActions state =
      .ok after) : ∀ word ∈ after.hwActions, word.Compiled := by
  induction swActions generalizing i state with
  | nil =>
    cases res
    exact given
  | cons action rest ih =>
    rw [drActionsConvertFrom] at res
    cases turn : drActionsConvertTurn type fieldArr maxHwActions numSwActions i action state with
    | error _ =>
      rw [turn] at res
      cases res
    | ok next =>
      rw [turn] at res
      exact ih (drActionsConvertTurn_compiled given turn) res

theorem drActionsConvertModifyHeader_compiled
    (res : drActionsConvertModifyHeader type fieldArr maxHwActions swActions = .ok after) :
    CompiledList .modifyHdr after.hwActions where
  words := drActionsConvertFrom_compiled (by simp [ConvertState.start]) res
  decap := nofun

end Convert

private theorem insertInline_mask (data : BitVec 32) : (insertInline data).mask = insertInline 0 := rfl

theorem mlx5drSteSetActionDecapL3List_compiled {data}
    {hwActions} (res : mlx5drSteSetActionDecapL3List data = .ok hwActions) :
    CompiledList .tnlL3ToL2 hwActions := by
  unfold mlx5drSteSetActionDecapL3List at res
  split_ifs at res
  cases res
  constructor
  · intro word mem
    simp only [drSteV1SetActionDecapL3List, cons_append, mem_cons, mem_append,
      mem_map, not_mem_nil, or_false] at mem
    rcases mem with rfl | ⟨i, _, rfl⟩ | rfl
    · exact .inr (.inr rfl)
    · exact .inl (by rfl)
    · exact .inr (.inr rfl)
  intro _
  have constant (words : Nat → BitVec 32) (count : Nat) : ((range count).map fun i => insertInline
      (words i)).map HwAction.mask = replicate count (insertInline 0) := by
    rw [map_map, eq_replicate_iff]
    refine ⟨by simp, ?_⟩
    intro word mem
    obtain ⟨i, _, rfl⟩ := mem_map.mp mem
    exact insertInline_mask _
  simp only [drSteV1SetActionDecapL3List, maskPattern, decapPattern, map_append,
    map_cons, map_nil, constant, length_append, length_cons, length_map,
    length_range, length_nil]
  rfl

end MlnxOfed.Steering
