/-
Modify-header lists in both STE formats (dr_action.c, dr_ste_v0.c, dr_ste_v1.c): the conversion reads the
header field table of the domain's format, which writes the words. The v1 conversion is the one patterns are
made from.
-/

import MlnxOfed.Steering.ModifyHdr

namespace MlnxOfed.Steering

def designated (size : Nat) (entries : List (Nat × ModifyField)) : List ModifyField :=
  (List.range size).map fun i => (entries.lookup i).getD ⟨0, 0, 0, 0, 0⟩

def typeL3Ipv4 : BitVec 8 := 1

def typeL3Ipv6 : BitVec 8 := 2

def typeL4Tcp : BitVec 8 := 1

def typeL4Udp : BitVec 8 := 2

def drSteV0ActionModifyFieldArr : List ModifyField :=
  designated 0x5c [(0x01, ⟨1, 16, 47, 0, 0⟩), -- OUT_SMAC_47_16: L2_1
      (0x02, ⟨1, 0, 15, 0, 0⟩), -- OUT_SMAC_15_0: L2_1
      (0x03, ⟨2, 32, 47, 0, 0⟩), -- OUT_ETHERTYPE: L2_2
      (0x04, ⟨0, 16, 47, 0, 0⟩), -- OUT_DMAC_47_16: L2_0
      (0x05, ⟨0, 0, 15, 0, 0⟩), -- OUT_DMAC_15_0: L2_0
      (0x06, ⟨4, 0, 5, 0, 0⟩), -- OUT_IP_DSCP: L3_1
      (0x07, ⟨8, 48, 56, 0, typeL4Tcp⟩), -- OUT_TCP_FLAGS: L4_0
      (0x08, ⟨8, 0, 15, 0, typeL4Tcp⟩), -- OUT_TCP_SPORT: L4_0
      (0x09, ⟨8, 16, 31, 0, typeL4Tcp⟩), -- OUT_TCP_DPORT: L4_0
      (0x0a, ⟨4, 8, 15, typeL3Ipv4, 0⟩), -- OUT_IP_TTL: L3_1
      (0x47, ⟨4, 8, 15, typeL3Ipv6, 0⟩), -- OUT_IPV6_HOPLIMIT: L3_1
      (0x0b, ⟨8, 0, 15, 0, typeL4Udp⟩), -- OUT_UDP_SPORT: L4_0
      (0x0c, ⟨8, 16, 31, 0, typeL4Udp⟩), -- OUT_UDP_DPORT: L4_0
      (0x0d, ⟨6, 32, 63, typeL3Ipv6, 0⟩), -- OUT_SIPV6_127_96: L3_3
      (0x0e, ⟨6, 0, 31, typeL3Ipv6, 0⟩), -- OUT_SIPV6_95_64: L3_3
      (0x0f, ⟨7, 32, 63, typeL3Ipv6, 0⟩), -- OUT_SIPV6_63_32: L3_4
      (0x10, ⟨7, 0, 31, typeL3Ipv6, 0⟩), -- OUT_SIPV6_31_0: L3_4
      (0x11, ⟨3, 32, 63, typeL3Ipv6, 0⟩), -- OUT_DIPV6_127_96: L3_0
      (0x12, ⟨3, 0, 31, typeL3Ipv6, 0⟩), -- OUT_DIPV6_95_64: L3_0
      (0x13, ⟨5, 32, 63, typeL3Ipv6, 0⟩), -- OUT_DIPV6_63_32: L3_2
      (0x14, ⟨5, 0, 31, typeL3Ipv6, 0⟩), -- OUT_DIPV6_31_0: L3_2
      (0x15, ⟨3, 0, 31, typeL3Ipv4, 0⟩), -- OUT_SIPV4: L3_0
      (0x16, ⟨3, 32, 63, typeL3Ipv4, 0⟩), -- OUT_DIPV4: L3_0
      (0x49, ⟨22, 0, 31, 0, 0⟩), -- METADATA_REG_A: METADATA
      (0x50, ⟨22, 32, 63, 0, 0⟩), -- METADATA_REG_B: METADATA
      (0x51, ⟨12, 32, 63, 0, 0⟩), -- METADATA_REG_C_0: REG_0
      (0x52, ⟨12, 0, 31, 0, 0⟩), -- METADATA_REG_C_1: REG_0
      (0x53, ⟨13, 32, 63, 0, 0⟩), -- METADATA_REG_C_2: REG_1
      (0x54, ⟨13, 0, 31, 0, 0⟩), -- METADATA_REG_C_3: REG_1
      (0x55, ⟨14, 32, 63, 0, 0⟩), -- METADATA_REG_C_4: REG_2
      (0x56, ⟨14, 0, 31, 0, 0⟩), -- METADATA_REG_C_5: REG_2
      (0x59, ⟨9, 32, 63, 0, 0⟩), -- OUT_TCP_SEQ_NUM: L4_1
      (0x5b, ⟨9, 0, 31, 0, 0⟩), -- OUT_TCP_ACK_NUM: L4_1
      (0x17, ⟨2, 0, 15, 0, 0⟩)] -- OUT_FIRST_VID: L2_2

def drSteV1ActionModifyFieldArr : List ModifyField :=
  designated 0x71 [(0x01, ⟨0x08, 0, 31, 0, 0⟩), -- OUT_SMAC_47_16: SRC_L2_OUT_0
      (0x02, ⟨0x09, 16, 31, 0, 0⟩), -- OUT_SMAC_15_0: SRC_L2_OUT_1
      (0x03, ⟨0x01, 0, 15, 0, 0⟩), -- OUT_ETHERTYPE: L2_OUT_1
      (0x04, ⟨0x00, 0, 31, 0, 0⟩), -- OUT_DMAC_47_16: L2_OUT_0
      (0x05, ⟨0x01, 16, 31, 0, 0⟩), -- OUT_DMAC_15_0: L2_OUT_1
      (0x06, ⟨0x0e, 18, 23, 0, 0⟩), -- OUT_IP_DSCP: L3_OUT_0
      (0x07, ⟨0x19, 16, 24, 0, typeL4Tcp⟩), -- OUT_TCP_FLAGS: L4_OUT_1
      (0x08, ⟨0x18, 16, 31, 0, typeL4Tcp⟩), -- OUT_TCP_SPORT: L4_OUT_0
      (0x09, ⟨0x18, 0, 15, 0, typeL4Tcp⟩), -- OUT_TCP_DPORT: L4_OUT_0
      (0x0a, ⟨0x0e, 8, 15, typeL3Ipv4, 0⟩), -- OUT_IP_TTL: L3_OUT_0
      (0x47, ⟨0x0e, 8, 15, typeL3Ipv6, 0⟩), -- OUT_IPV6_HOPLIMIT: L3_OUT_0
      (0x0b, ⟨0x18, 16, 31, 0, typeL4Udp⟩), -- OUT_UDP_SPORT: L4_OUT_0
      (0x0c, ⟨0x18, 0, 15, 0, typeL4Udp⟩), -- OUT_UDP_DPORT: L4_OUT_0
      (0x0d, ⟨0x4c, 0, 31, typeL3Ipv6, 0⟩), -- OUT_SIPV6_127_96: IPV6_SRC_OUT_0
      (0x0e, ⟨0x4d, 0, 31, typeL3Ipv6, 0⟩), -- OUT_SIPV6_95_64: IPV6_SRC_OUT_1
      (0x0f, ⟨0x4e, 0, 31, typeL3Ipv6, 0⟩), -- OUT_SIPV6_63_32: IPV6_SRC_OUT_2
      (0x10, ⟨0x4f, 0, 31, typeL3Ipv6, 0⟩), -- OUT_SIPV6_31_0: IPV6_SRC_OUT_3
      (0x11, ⟨0x44, 0, 31, typeL3Ipv6, 0⟩), -- OUT_DIPV6_127_96: IPV6_DST_OUT_0
      (0x12, ⟨0x45, 0, 31, typeL3Ipv6, 0⟩), -- OUT_DIPV6_95_64: IPV6_DST_OUT_1
      (0x13, ⟨0x46, 0, 31, typeL3Ipv6, 0⟩), -- OUT_DIPV6_63_32: IPV6_DST_OUT_2
      (0x14, ⟨0x47, 0, 31, typeL3Ipv6, 0⟩), -- OUT_DIPV6_31_0: IPV6_DST_OUT_3
      (0x15, ⟨0x40, 0, 31, typeL3Ipv4, 0⟩), -- OUT_SIPV4: IPV4_OUT_0
      (0x16, ⟨0x41, 0, 31, typeL3Ipv4, 0⟩), -- OUT_DIPV4: IPV4_OUT_1
      (0x49, ⟨0x7c, 0, 31, 0, 0⟩), -- METADATA_REG_A: GNRL_PURPOSE
      (0x50, ⟨0x7b, 0, 31, 0, 0⟩), -- METADATA_REG_B: METADATA_2_CQE
      (0x51, ⟨0x90, 0, 31, 0, 0⟩), -- METADATA_REG_C_0: REGISTER_6
      (0x52, ⟨0x91, 0, 31, 0, 0⟩), -- METADATA_REG_C_1: REGISTER_7
      (0x53, ⟨0x8e, 0, 31, 0, 0⟩), -- METADATA_REG_C_2: REGISTER_4
      (0x54, ⟨0x8f, 0, 31, 0, 0⟩), -- METADATA_REG_C_3: REGISTER_5
      (0x55, ⟨0x8c, 0, 31, 0, 0⟩), -- METADATA_REG_C_4: REGISTER_2
      (0x56, ⟨0x8d, 0, 31, 0, 0⟩), -- METADATA_REG_C_5: REGISTER_3
      (0x59, ⟨0x5e, 0, 31, 0, 0⟩), -- OUT_TCP_SEQ_NUM: TCP_MISC_0
      (0x5b, ⟨0x5f, 0, 31, 0, 0⟩), -- OUT_TCP_ACK_NUM: TCP_MISC_1
      (0x17, ⟨0x02, 0, 15, 0, 0⟩), -- OUT_FIRST_VID: L2_OUT_2
      (0x70, ⟨0x70, 0, 31, 0, 0⟩), -- OUT_EMD_31_0: CFG_HDR_0_1
      (0x6f, ⟨0x6f, 0, 15, 0, 0⟩)] -- OUT_EMD_47_32: CFG_HDR_0_0

def mdfyOpCopy : BitVec 8 := 0x1

def mdfyOpSet : BitVec 8 := 0x2

def mdfyOpAdd : BitVec 8 := 0x3

variable (hwField shifter length : BitVec 8)

def HwAction.destinationV0 : BitVec 24 :=
  hwField ++ 0#2 ++ shifter.truncate 6 ++ 0#3 ++ (if length = 32 then 0 else length).truncate 5

def drSteV0SetActionSet (data : BitVec 32) : HwAction :=
  ⟨mdfyOpSet, HwAction.destinationV0 hwField shifter length, data⟩

def drSteV0SetActionAdd (data : BitVec 32) : HwAction :=
  ⟨mdfyOpAdd, HwAction.destinationV0 hwField shifter length, data⟩

def drSteV0SetActionCopy (dstHwField dstShifter dstLen srcHwField srcShifter : BitVec 8) : HwAction :=
  ⟨mdfyOpCopy, dstHwField ++ 0#2 ++ dstShifter.truncate 6 ++ 0#2 ++ dstLen.truncate 6,
    0#8 ++ srcHwField ++ 0#2 ++ srcShifter.truncate 6 ++ 0#8⟩

/-- The parts of `struct mlx5dr_ste_ctx` that the conversion uses. -/
structure SteCtx where
  modifyFieldArr : List ModifyField
  setActionSet : BitVec 8 → BitVec 8 → BitVec 8 → BitVec 32 → HwAction
  setActionAdd : BitVec 8 → BitVec 8 → BitVec 8 → BitVec 32 → HwAction
  setActionCopy : BitVec 8 → BitVec 8 → BitVec 8 → BitVec 8 → BitVec 8 → HwAction

def steCtxV1Over (fieldArr : List ModifyField) : SteCtx :=
  ⟨fieldArr, drSteV1SetActionSet, drSteV1SetActionAdd, drSteV1SetActionCopy⟩

def steCtxV0 : SteCtx :=
  ⟨drSteV0ActionModifyFieldArr, drSteV0SetActionSet, drSteV0SetActionAdd, drSteV0SetActionCopy⟩

def steCtxV1 : SteCtx := steCtxV1Over drSteV1ActionModifyFieldArr

namespace SteCtx

def convModifyHdrSwField (ctx : SteCtx) (swField : BitVec 12) : Option ModifyField :=
  mlx5drSteConvModifyHdrSwField ctx.modifyFieldArr swField

def modifySwToHwAdd (ctx : SteCtx) (action : SwAction) : Except Int Converted :=
  match ctx.convModifyHdrSwField action.field with
  | none => .error eInval
  | some info =>
    .ok ⟨ctx.setActionAdd (info.hwField.truncate 8) info.start info.maxLength action.data, info, none⟩

def modifySwToHwSet (ctx : SteCtx) (action : SwAction) : Except Int Converted :=
  match ctx.convModifyHdrSwField action.field with
  | none => .error eInval
  | some info =>
    if action.effectiveLength + action.offset.toNat > info.maxLength.toNat then .error eInval
    else
      .ok ⟨ctx.setActionSet (info.hwField.truncate 8)
        (info.start + action.offset.zeroExtend 8) (BitVec.ofNat 8 action.effectiveLength)
        action.data, info, none⟩

def modifySwToHwCopy (ctx : SteCtx) (action : SwAction) : Except Int Converted :=
  match ctx.convModifyHdrSwField action.field, ctx.convModifyHdrSwField action.dstField with
  | some src, some dst =>
    if action.effectiveLength + action.offset.toNat > src.maxLength.toNat ∨
        action.effectiveLength + action.dstOffset.toNat > dst.maxLength.toNat then .error eInval
    else
      .ok ⟨ctx.setActionCopy (dst.hwField.truncate 8)
        (dst.start + action.dstOffset.zeroExtend 8) (BitVec.ofNat 8 action.effectiveLength)
        (src.hwField.truncate 8) (src.start + action.offset.zeroExtend 8), dst, some src⟩
  | _, _ => .error eInval

def modifySwToHw (ctx : SteCtx) (action : SwAction) : Except Int Converted :=
  if action.actionType = SwAction.actionTypeSet then ctx.modifySwToHwSet action
  else if action.actionType = SwAction.actionTypeAdd then ctx.modifySwToHwAdd action
  else if action.actionType = SwAction.actionTypeCopy then ctx.modifySwToHwCopy action
  else .error eOpNotSupp

/-- One turn of the loop of `dr_actions_convert_modify_header`, at index `i`. -/
def convertTurn (ctx : SteCtx) (type : DomainType) (maxHwActions numSwActions i : Nat)
    (action : SwAction) (state : ConvertState) : Except Int ConvertState := do
  let allowed ← drActionModifyCheckFieldLimitation type action state.allowed
  let converted ← ctx.modifySwToHw action
  let dst := converted.dst
  if state.l3Type ≠ 0 ∧ dst.l3Type ≠ 0 ∧ dst.l3Type ≠ state.l3Type then .error eInval
  else if state.l4Type ≠ 0 ∧ dst.l4Type ≠ 0 ∧ dst.l4Type ≠ state.l4Type then .error eInval
  else if state.needsGap converted ∧
      numSwActions + (state.hwActions.length + 1) - i ≥ maxHwActions then .error eInval
  else
    .ok
      { allowed := allowed
        modifyTtl := state.modifyTtl || action.field = fieldOutIpTtl
        hwField := dst.hwField
        l3Type := if dst.l3Type = 0 then state.l3Type else dst.l3Type
        l4Type := if dst.l4Type = 0 then state.l4Type else dst.l4Type
        hwActions := state.hwActions ++
          (if state.needsGap converted then [HwAction.zero] else []) ++ [converted.word] }

def convertFrom (ctx : SteCtx) (type : DomainType) (maxHwActions numSwActions : Nat) :
    Nat → List SwAction → ConvertState → Except Int ConvertState
  | _, [], state => .ok state
  | i, action :: rest, state => do
      ctx.convertFrom type maxHwActions numSwActions (i + 1) rest
        (← ctx.convertTurn type maxHwActions numSwActions i action state)

def convertModifyHeader (ctx : SteCtx) (type : DomainType) (maxHwActions : Nat)
    (swActions : List SwAction) : Except Int ConvertState :=
  ctx.convertFrom type maxHwActions swActions.length 0 swActions ConvertState.start

end SteCtx

theorem convertModifyHeader_v1 (fieldArr type maxHwActions)
    (swActions) : (steCtxV1Over fieldArr).convertModifyHeader type maxHwActions swActions =
      drActionsConvertModifyHeader type fieldArr maxHwActions swActions := by
  have turns numSwActions i rest : ∀ state, (steCtxV1Over fieldArr).convertFrom type maxHwActions numSwActions
      i rest state = drActionsConvertFrom type fieldArr maxHwActions numSwActions i rest state := by
    induction rest generalizing i with
    | nil => exact fun _ => rfl
    | cons action rest ih =>
      intro state
      exact congrArg _ (funext fun next => ih (i + 1) next)
  exact turns _ _ _ _

section Turn

variable {ctx : SteCtx} {type : DomainType} {maxHwActions numSwActions i : Nat}
  {state after : ConvertState} {action : SwAction}

theorem SteCtx.convertTurn_eq
    (res : ctx.convertTurn type maxHwActions numSwActions i action state = .ok after) :
    ∃ converted, ctx.modifySwToHw action = .ok converted ∧ after.hwField = converted.dst.hwField ∧
      after.hwActions = state.hwActions ++
        (if state.needsGap converted then [HwAction.zero] else []) ++ [converted.word] ∧
      (state.needsGap converted = true → numSwActions + (state.hwActions.length + 1) - i < maxHwActions) := by
  unfold SteCtx.convertTurn at res
  cases limited : drActionModifyCheckFieldLimitation type action state.allowed with
  | error _ =>
    rw [limited] at res
    cases res
  | ok allowed =>
    rw [limited] at res
    cases hw : ctx.modifySwToHw action with
    | error _ =>
      rw [hw] at res
      cases res
    | ok converted =>
      rw [hw] at res
      simp only [bind, Except.bind] at res
      split at res
      · cases res
      split at res
      · cases res
      split at res
      · cases res
      · rename_i room
        cases res
        refine ⟨converted, rfl, rfl, rfl, ?_⟩
        intro gap
        exact Nat.lt_of_not_le fun full => room ⟨gap, full⟩

end Turn

end MlnxOfed.Steering
