/-
How the gathered actions are written to steering entries, in both formats and directions, and
`mlx5dr_actions_build_ste_arr` as a whole. The chain starts with the last entry of the matcher. Spans are in
bits of an entry; the reparse bit, which several actions set, is left out.
-/

import MlnxOfed.Lib.SpanChain
import MlnxOfed.Steering.ActionGather

namespace MlnxOfed.Steering

open List Lib SpanChain

inductive SteData where
  | counterId (ctrId : Nat)
  | flowTag (flowTag : Nat)
  | rewriteActions (numOfActions reWriteIndex reWriteArgs : Nat)
  | modifyAction (data : Nat)
  | decap
  | decapL3 (withVlan : Bool) (numOfActions reWriteIndex : Nat)
  | popVlan
  | pushVlan (vlanHdr : Nat)
  | encap (reformatId size : Nat)
  | encapL3 (reformatId size : Nat)
  | insertHdr (reformatId startAnchor startOffset size : Nat)
  | aso (contextNumber destRegId lineId initialColor : Nat)
  | nextTable (gvmi index : Nat)

/-- A write is filed under the type of action it is made for. -/
abbrev SteChain := SpanChain (Option DrActionType) SteData

/-- What `set_actions` is called with. -/
structure StePlan where
  typeSet : DrActionType → Nat
  attr : SteActionsAttr
  finalType : Option DrActionType
  prioTagRequired : Bool

namespace StePlan

def has (plan : StePlan) (type : DrActionType) : Bool := 0 < plan.typeSet type

def vlanHdr (plan : StePlan) (index : Nat) : Nat := plan.attr.vlans.headers.getD index 0

def hitIndex (plan : StePlan) : Nat := (plan.attr.finalIcmAddr >>> 5) ||| 1

/-- How often a type is written that `set_actions` writes where it is there at all. -/
def uses (plan : StePlan) (type : DrActionType) : Nat := if plan.has type then 1 else 0

/-- How often a type is written that `set_actions` writes for each of the vlans. -/
def vlanWrites (plan : StePlan) (type : DrActionType) : Nat :=
  if plan.has type then plan.attr.vlans.count else 0

variable {type : DrActionType} {plan : StePlan}

theorem uses_absent (absent : ¬ plan.has type = true) (tag) : 0 = times (some type) (plan.uses type) tag := by
  simp [times, uses, absent]

theorem uses_present (here : plan.has type = true) (tag) :
    times (some type) 1 tag = times (some type) (plan.uses type) tag := by
  simp [uses, here]

theorem vlanWrites_absent (absent : ¬ plan.has type = true) (tag) :
    0 = times (some type) (plan.vlanWrites type) tag := by
  simp [times, vlanWrites, absent]

end StePlan

namespace SteV0

inductive EntryType where
  | tx
  | rx
  | modifyPkt
  deriving DecidableEq

-- Fields of `ste_modify_packet`, `ste_rx_steering_mult` and `ste_sx_transmit`.
def numberOfReWriteActions : Span := ⟨0x60, 16⟩
def actionType : Span := ⟨0x66, 3⟩
def txActionDescription : Span := ⟨0x6a, 6⟩
def headerReWriteActionsPointer : Span := ⟨0x80, 32⟩
def qpListPointer : Span := ⟨0x80, 32⟩
def encapPointerVlanData : Span := ⟨0x80, 32⟩
def tunnelingAction : Span := ⟨0xa1, 3⟩
def rxActionDescription : Span := ⟨0xa4, 4⟩
def counterTrigger15To0 : Span := ⟨0xb0, 16⟩
def counterTrigger23To16 : Span := ⟨0xd0, 8⟩
def failOnError : Span := ⟨0xfb, 1⟩
def goBack : Span := ⟨0xfb, 1⟩
def nextTableBase63To48 : Span := ⟨0x20, 16⟩
def nextTableBase39To32Size : Span := ⟨0x38, 8⟩
def nextTableBase31To5Size : Span := ⟨0x40, 27⟩

structure Cursor where
  chain : SteChain
  entryType : EntryType

namespace Cursor

def begin (nicType : NicType) : Cursor where
  chain := SpanChain.begin
  entryType := if nicType = .rx then .rx else .tx

def arrInitNext (entryType : EntryType) (cursor : Cursor) : Cursor where
  chain := cursor.chain.next
  entryType := entryType

def put (type : Option DrActionType) (spans : List Span) (data : SteData) (cursor : Cursor) : Cursor :=
  { cursor with chain := cursor.chain.write type spans data }

def setEntryType (entryType : EntryType) (cursor : Cursor) : Cursor :=
  { cursor with entryType := entryType }

def setCounterId (plan : StePlan) (cursor : Cursor) : Cursor :=
  if plan.has .ctr then
    cursor.put (some .ctr) [counterTrigger15To0, counterTrigger23To16] (.counterId plan.attr.ctrId)
  else cursor

def setRewriteActions (plan : StePlan) (cursor : Cursor) : Cursor :=
  cursor.put (some .modifyHdr) [numberOfReWriteActions, headerReWriteActionsPointer]
    (.rewriteActions plan.attr.modifyActions plan.attr.modifyIndex 0)

def setHit (plan : StePlan) (cursor : Cursor) : Cursor :=
  cursor.put plan.finalType [nextTableBase63To48, nextTableBase39To32Size, nextTableBase31To5Size]
    (.nextTable plan.attr.hitGvmi plan.hitIndex)

def setTxModifyHdr (plan : StePlan) (cursor : Cursor) : Cursor :=
  if plan.has .modifyHdr then (cursor.setEntryType .modifyPkt).setRewriteActions plan
  else cursor

def hasTxEncap (plan : StePlan) : Bool := plan.has .l2ToTnlL2 || plan.has .l2ToTnlL3

def setTxPushVlan (plan : StePlan) (cursor : Cursor) (index : Nat) : Cursor :=
  let cursor :=
    if index ≠ 0 ∨ plan.has .modifyHdr = true then cursor.arrInitNext .tx else cursor
  cursor.put (some .pushVlan) ([actionType, encapPointerVlanData] ++ if hasTxEncap plan then [goBack] else [])
    (.pushVlan (plan.vlanHdr index))

def setTxPushVlans (plan : StePlan) (cursor : Cursor) : Cursor :=
  if plan.has .pushVlan then
    (range plan.attr.vlans.count).foldl (setTxPushVlan plan) cursor
  else cursor

def setTxEncap (plan : StePlan) (cursor : Cursor) : Cursor :=
  if hasTxEncap plan then
    let cursor :=
      if plan.has .modifyHdr || plan.has .pushVlan then cursor.arrInitNext .tx else cursor
    let spans := [actionType, txActionDescription, encapPointerVlanData] ++
      if plan.prioTagRequired then [goBack] else []
    let size := plan.attr.reformat.reformatSize / 2
    if plan.has .l2ToTnlL3 then
      cursor.put (some .l2ToTnlL3) spans (.encapL3 plan.attr.reformat.reformatId size)
    else cursor.put (some .l2ToTnlL2) spans (.encap plan.attr.reformat.reformatId size)
  else cursor

def setActionsTx (plan : StePlan) (cursor : Cursor) : Cursor :=
  ((((cursor.setTxModifyHdr plan).setTxPushVlans plan).setTxEncap plan).setCounterId plan).setHit
    plan

def setRxDecapL3 (plan : StePlan) (cursor : Cursor) : Cursor :=
  if plan.has .tnlL3ToL2 then
    (cursor.setEntryType .modifyPkt).put (some .tnlL3ToL2)
      [tunnelingAction, rxActionDescription, failOnError, numberOfReWriteActions, headerReWriteActionsPointer]
      (.decapL3 plan.attr.decapWithVlan plan.attr.decapActions plan.attr.decapIndex)
  else cursor

def setRxDecap (plan : StePlan) (cursor : Cursor) : Cursor :=
  if plan.has .tnlL2ToL2 then
    cursor.put (some .tnlL2ToL2) [tunnelingAction, failOnError] .decap
  else cursor

def setRxPopVlan (plan : StePlan) (cursor : Cursor) (index : Nat) : Cursor :=
  let cursor :=
    if index ≠ 0 ∨ plan.has .tnlL2ToL2 = true ∨ plan.has .tnlL3ToL2 = true then
      cursor.arrInitNext .rx
    else cursor
  cursor.put (some .popVlan) [tunnelingAction] .popVlan

def setRxPopVlans (plan : StePlan) (cursor : Cursor) : Cursor :=
  if plan.has .popVlan then
    (range plan.attr.vlans.count).foldl (setRxPopVlan plan) cursor
  else cursor

def setRxModifyHdr (plan : StePlan) (cursor : Cursor) : Cursor :=
  if plan.has .modifyHdr then
    (if cursor.entryType = .modifyPkt then cursor.arrInitNext .modifyPkt
      else cursor.setEntryType .modifyPkt).setRewriteActions plan
  else cursor

def setRxFlowTag (plan : StePlan) (cursor : Cursor) : Cursor :=
  if plan.has .tag then
    (if cursor.entryType = .modifyPkt then cursor.arrInitNext .rx else cursor).put (some .tag)
      [qpListPointer] (.flowTag plan.attr.flowTag)
  else cursor

def setActionsRx (plan : StePlan) (cursor : Cursor) : Cursor :=
  ((((((cursor.setCounterId plan).setRxDecapL3 plan).setRxDecap plan).setRxPopVlans
    plan).setRxModifyHdr plan).setRxFlowTag plan).setHit plan

end Cursor

end SteV0

namespace SteV1

def actionSingleSz : Nat := 4
def actionDoubleSz : Nat := 8
def actionTripleSz : Nat := 12

def bwcAction : Nat := 24
def matchAction : Nat := 20

def counterId : Span := ⟨0x08, 24⟩
def nextTableBase63To48 : Span := ⟨0x60, 16⟩
def nextTableBase39To32Size : Span := ⟨0x78, 8⟩
def nextTableBase31To5Size : Span := ⟨0x80, 27⟩

def asoFlowMeterNumPerObj : Nat := 2

/-- The locals of `set_actions`: `action` a byte of the entry, `actionSz` an unsigned byte, `underflow` a
subtraction from it below zero. -/
structure Cursor where
  chain : SteChain
  action : Nat
  actionSz : Nat
  allowModifyHdr : Bool
  allowEncap : Bool
  allowCtr : Bool
  underflow : Bool

namespace Cursor

def begin (lastSteIsMatch : Bool) : Cursor where
  chain := SpanChain.begin
  action := if lastSteIsMatch then matchAction else bwcAction
  actionSz := if lastSteIsMatch then actionTripleSz else actionDoubleSz
  allowModifyHdr := true
  allowEncap := true
  allowCtr := true
  underflow := false

/-- `dr_ste_v1_arr_init_next_match` and the two assignments that follow each call. -/
def arrInitNextMatch (cursor : Cursor) : Cursor :=
  { cursor with chain := cursor.chain.next, action := matchAction, actionSz := actionTripleSz }

def allow (modifyHdr encap ctr : Bool) (cursor : Cursor) : Cursor :=
  { cursor with allowModifyHdr := modifyHdr, allowEncap := encap, allowCtr := ctr }

def put (type : DrActionType) (size : Nat) (data : SteData) (cursor : Cursor) : Cursor :=
  { cursor with chain := cursor.chain.write (some type) [⟨8 * cursor.action, 8 * size⟩] data }

def consume (size : Nat) (cursor : Cursor) : Cursor :=
  { cursor with
    actionSz := (cursor.actionSz + 256 - size) % 256
    underflow := cursor.underflow || cursor.actionSz < size }

def advance (size : Nat) (cursor : Cursor) : Cursor :=
  { cursor with action := cursor.action + size }

def place (type : DrActionType) (size : Nat) (data : SteData) (cursor : Cursor) : Cursor :=
  ((cursor.put type size data).consume size).advance size

def putCounterId (plan : StePlan) (cursor : Cursor) : Cursor :=
  { cursor with
    chain := cursor.chain.write (some .ctr) [counterId] (.counterId plan.attr.ctrId) }

def setHit (plan : StePlan) (cursor : Cursor) : Cursor :=
  { cursor with
    chain := cursor.chain.write plan.finalType
      [nextTableBase63To48, nextTableBase39To32Size, nextTableBase31To5Size]
      (.nextTable plan.attr.hitGvmi plan.hitIndex) }

variable (attr : SteActionsAttr)

/-- The data of `dr_ste_v1_set_accelerated_rewrite_actions` for a header modification. -/
def modifyData : SteData :=
  match attr.singleModifyAction with
  | some data => .modifyAction data
  | none => .rewriteActions attr.modifyActions attr.modifyIndex attr.argsIndex

def encapData : SteData :=
  .encap attr.reformat.reformatId (attr.reformat.reformatSize / 2)

def encapL3Data : SteData :=
  .encapL3 attr.reformat.reformatId (attr.reformat.reformatSize / 2)

def insertHdrData : SteData :=
  .insertHdr attr.reformat.reformatId attr.reformat.reformatParam0
    (attr.reformat.reformatParam1 / 2) (attr.reformat.reformatSize / 2)

def asoData : SteData :=
  .aso (attr.asoFlowMeter.objId + attr.asoFlowMeter.offset / asoFlowMeterNumPerObj)
    ((attr.asoFlowMeter.destRegId - 1) / 2) (attr.asoFlowMeter.offset % asoFlowMeterNumPerObj)
    attr.asoFlowMeter.initColor

def setAsoFlowMeter (plan : StePlan) (cursor : Cursor) : Cursor :=
  if plan.has .asoFlowMeter then
    (if cursor.actionSz < actionDoubleSz then cursor.arrInitNextMatch else cursor).place
      .asoFlowMeter actionDoubleSz (asoData plan.attr)
  else cursor

def setTxCtr (plan : StePlan) (cursor : Cursor) : Cursor :=
  if plan.has .ctr then cursor.putCounterId plan else cursor

def setTxModifyHdr (plan : StePlan) (cursor : Cursor) : Cursor :=
  if plan.has .modifyHdr then
    { cursor.place .modifyHdr actionDoubleSz (modifyData plan.attr) with allowEncap := false }
  else cursor

def setTxPushVlan (plan : StePlan) (cursor : Cursor) (index : Nat) : Cursor :=
  let cursor :=
    if cursor.actionSz < actionDoubleSz ∨ cursor.allowEncap = false then
      { cursor.arrInitNextMatch with allowEncap := true }
    else cursor
  cursor.place .pushVlan actionDoubleSz (.pushVlan (plan.vlanHdr index))

def setTxPushVlans (plan : StePlan) (cursor : Cursor) : Cursor :=
  if plan.has .pushVlan then
    (range plan.attr.vlans.count).foldl (setTxPushVlan plan) cursor
  else cursor

def setTxReformat (plan : StePlan) (cursor : Cursor) : Cursor :=
  if plan.has .l2ToTnlL2 then
    (if cursor.allowEncap = false ∨ cursor.actionSz < actionDoubleSz then
      { cursor.arrInitNextMatch with allowEncap := true } else cursor).place
      .l2ToTnlL2 actionDoubleSz (encapData plan.attr)
  else if plan.has .l2ToTnlL3 then
    (if cursor.actionSz < actionTripleSz then cursor.arrInitNextMatch else cursor).place
      .l2ToTnlL3 actionTripleSz (encapL3Data plan.attr)
  else if plan.has .insertHdr then
    (if cursor.allowEncap = false ∨ cursor.actionSz < actionDoubleSz then
      cursor.arrInitNextMatch else cursor).place
      .insertHdr actionDoubleSz (insertHdrData plan.attr)
  else cursor

def setActionsTx (plan : StePlan) (cursor : Cursor) : Cursor :=
  (((((cursor.setTxCtr plan).setTxModifyHdr plan).setTxPushVlans plan).setTxReformat
    plan).setAsoFlowMeter plan).setHit plan

def setRxDecap (plan : StePlan) (cursor : Cursor) : Cursor :=
  if plan.has .tnlL3ToL2 then
    (cursor.place .tnlL3ToL2 actionDoubleSz (.rewriteActions plan.attr.decapActions
      plan.attr.decapIndex plan.attr.decapArgsIndex)).allow false false false
  else if plan.has .tnlL2ToL2 then
    (cursor.place .tnlL2ToL2 actionSingleSz .decap).allow false false false
  else cursor

def setRxPopVlan (cursor : Cursor) (_index : Nat) : Cursor :=
  (if cursor.actionSz < actionSingleSz ∨ cursor.allowModifyHdr = false then
    cursor.arrInitNextMatch.allow false false false else cursor).place
    .popVlan actionSingleSz .popVlan

def setRxPopVlans (plan : StePlan) (cursor : Cursor) : Cursor :=
  if plan.has .popVlan then (range plan.attr.vlans.count).foldl setRxPopVlan cursor
  else cursor

def setRxFlowTag (plan : StePlan) (cursor : Cursor) : Cursor :=
  if plan.has .tag then
    (if cursor.actionSz < actionSingleSz then cursor.arrInitNextMatch.allow true true true
      else cursor).place .tag actionSingleSz (.flowTag plan.attr.flowTag)
  else cursor

def setRxModifyHdr (plan : StePlan) (cursor : Cursor) : Cursor :=
  if plan.has .modifyHdr then
    -- Modifying a header and taking one off need different entries.
    { (if cursor.allowModifyHdr = false ∨ cursor.actionSz < actionDoubleSz then
        cursor.arrInitNextMatch.allow true cursor.allowEncap true else cursor).place
        .modifyHdr actionDoubleSz (modifyData plan.attr) with allowEncap := false }
  else cursor

def setRxCtr (plan : StePlan) (cursor : Cursor) : Cursor :=
  if plan.has .ctr then
    (if cursor.allowCtr = false then cursor.arrInitNextMatch.allow true false false
      else cursor).putCounterId plan
  else cursor

def setRxReformat (plan : StePlan) (cursor : Cursor) : Cursor :=
  if plan.has .l2ToTnlL2 then
    { (if cursor.actionSz < actionDoubleSz then cursor.arrInitNextMatch else cursor).place
        .l2ToTnlL2 actionDoubleSz (encapData plan.attr) with allowModifyHdr := false }
  else if plan.has .l2ToTnlL3 then
    -- Here the code leaves the pointer where it is.
    { ((if cursor.actionSz < actionTripleSz then cursor.arrInitNextMatch else cursor).put
        .l2ToTnlL3 actionTripleSz (encapL3Data plan.attr)).consume actionTripleSz with
      allowModifyHdr := false }
  else if plan.has .insertHdr then
    { (if cursor.allowEncap = false ∨ cursor.actionSz < actionDoubleSz then
        cursor.arrInitNextMatch else cursor).place
        .insertHdr actionDoubleSz (insertHdrData plan.attr) with
      allowEncap := false
      allowModifyHdr := false }
  else cursor

def setActionsRx (plan : StePlan) (cursor : Cursor) : Cursor :=
  (((((((cursor.setRxDecap plan).setRxPopVlans plan).setRxFlowTag plan).setRxModifyHdr
    plan).setRxCtr plan).setRxReformat plan).setAsoFlowMeter plan).setHit plan

end Cursor

end SteV1

structure BuiltStes where
  chain : SteChain
  underflow : Bool
  vlans : VlanInfo
  newHwSteArrSz : Nat

def drActionsApply (env : ActionEnv) (plan : StePlan) : SteChain × Bool :=
  match env.format, env.nicType with
  | .v0, .rx => (((SteV0.Cursor.begin .rx).setActionsRx plan).chain, false)
  | .v0, .tx => (((SteV0.Cursor.begin .tx).setActionsTx plan).chain, false)
  | .v1, .rx =>
    let cursor := (SteV1.Cursor.begin env.lastSteIsMatch).setActionsRx plan
    (cursor.chain, cursor.underflow)
  | .v1, .tx =>
    let cursor := (SteV1.Cursor.begin env.lastSteIsMatch).setActionsTx plan
    (cursor.chain, cursor.underflow)

def ActionsBuild.plan (env : ActionEnv) (build : ActionsBuild) (gathered : Gathered) : StePlan where
  typeSet := build.typeSet
  attr := gathered.attr
  finalType := gathered.finalType
  prioTagRequired := env.prioTagRequired

def mlx5drActionsBuildSteArr (env : ActionEnv) (actions : List DrAction) : Except BuildStop BuiltStes :=
  match (ActionsBuild.begin env).turns env actions with
  | .error stop => .error stop
  | .ok build =>
    match build.gathered.recalcChecksum env with
    | .error stop => .error stop
    | .ok gathered =>
      let applied := drActionsApply env (build.plan env gathered)
      .ok
        { chain := applied.1
          underflow := applied.2
          vlans := gathered.attr.vlans
          newHwSteArrSz := env.numOfBuilders + applied.1.added }

end MlnxOfed.Steering
