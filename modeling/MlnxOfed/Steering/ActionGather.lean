/-
The loop of `mlx5dr_actions_build_ste_arr`: it counts each type, follows the state machine and gathers what
the entries are to hold.
-/

import MlnxOfed.Steering.ActionTypes

namespace MlnxOfed.Steering

structure DrRewrite where
  singleActionOpt : Bool
  data : Nat
  numOfActions : Nat
  index : Nat
  modifyTtl : Bool
  /-- The object id, where the actions take their arguments from an object. -/
  arg : Option Nat

structure DrReformat where
  reformatId : Nat
  reformatSize : Nat
  reformatParam0 : Nat
  reformatParam1 : Nat

inductive DrDestTbl where
  | sw (dmn : Nat) (rxIcmAddr txIcmAddr : Nat)
  | fw (type id : Nat) (rxIcmAddr txIcmAddr : Nat)

structure DrActionVport where
  dmn : Nat
  num : Nat
  vhcaGvmi : Nat
  icmAddressRx : Nat
  icmAddressTx : Nat

structure DrAsoFlowMeter where
  objId : Nat
  offset : Nat
  destRegId : Nat
  initColor : Nat

/-- An action with the part of its union that the type selects. -/
inductive DrAction where
  | tnlL2ToL2
  | l2ToTnlL2 (reformat : DrReformat)
  | tnlL3ToL2 (rewrite : DrRewrite)
  | l2ToTnlL3 (reformat : DrReformat)
  | drop
  | qp
  | ft (destTbl : DrDestTbl)
  | ctr (ctrId offset : Nat)
  | tag (flowTag : Nat)
  | modifyHdr (rewrite : DrRewrite)
  | vport (vport : DrActionVport)
  | popVlan
  | pushVlan (vlanHdr : Nat)
  | sampler (rxIcmAddr txIcmAddr : Nat)
  | insertHdr (reformat : DrReformat)
  | asoFlowMeter (aso : DrAsoFlowMeter)

def DrAction.actionType : DrAction → DrActionType
  | tnlL2ToL2 => .tnlL2ToL2
  | l2ToTnlL2 _ => .l2ToTnlL2
  | tnlL3ToL2 _ => .tnlL3ToL2
  | l2ToTnlL3 _ => .l2ToTnlL3
  | drop => .drop
  | qp => .qp
  | ft _ => .ft
  | ctr _ _ => .ctr
  | tag _ => .tag
  | modifyHdr _ => .modifyHdr
  | vport _ => .vport
  | popVlan => .popVlan
  | pushVlan _ => .pushVlan
  | sampler _ _ => .sampler
  | insertHdr _ => .insertHdr
  | asoFlowMeter _ => .asoFlowMeter

def wirePort : Nat := 0xFFFF

def maxVlans : Nat := 2

def withVlanNumHwActions : Nat := 6

inductive BuildError where
  | inval
  | opNotSupp
  | device (errno : Nat)

/-- How the build ends early: with an error, or an index past an array. -/
inductive BuildStop where
  | outOfBounds
  | refused (error : BuildError)

/-- What the build reads of the domain, its direction and the matcher's last entry. -/
structure ActionEnv where
  dmn : Nat
  domainType : DomainType
  nicType : NicType
  has : nicType ∈ domainType.nics
  /-- The format is v0 on ConnectX-5 and v1 on later devices. -/
  format : SteFormat
  gvmi : Nat
  defaultIcmAddr : Nat
  dropIcmAddr : Nat
  prioTagRequired : Bool
  numOfBuilders : Nat
  lastSteIsMatch : Bool
  /-- Receive and transmit addresses of a table that the firmware owns. -/
  queryFlowTable : Nat → Nat → Except Nat (Nat × Nat)
  /-- The firmware table of a domain that recalculates the checksum for a vport. -/
  recalcCsFtAddr : Nat → Nat → Except Nat Nat

namespace ActionEnv

def rxRule (env : ActionEnv) : Bool := env.nicType = .rx

def actionDomain (env : ActionEnv) : ActionDomain :=
  drActionGetActionDomain env.domainType env.nicType

/-- `DR_STE_CTX_ALLOW_RX_ENCAP` in the capabilities of the format. -/
def allowRxEncap (env : ActionEnv) : Bool := env.format = .v1

end ActionEnv

structure VlanInfo where
  count : Nat
  headers : List Nat

structure SteActionsAttr where
  modifyIndex : Nat
  modifyActions : Nat
  singleModifyAction : Option Nat
  decapIndex : Nat
  decapActions : Nat
  argsIndex : Nat
  decapArgsIndex : Nat
  decapWithVlan : Bool
  finalIcmAddr : Nat
  flowTag : Nat
  ctrId : Nat
  gvmi : Nat
  hitGvmi : Nat
  reformat : DrReformat
  vlans : VlanInfo
  asoFlowMeter : DrAsoFlowMeter

/-- The record and the two locals set with it. `finalType` is the type of the action that set the final
address last, not a variable of the code. -/
structure Gathered where
  attr : SteActionsAttr
  destAction : Option DrAction
  recalcCsRequired : Bool
  finalType : Option DrActionType

def ActionEnv.initialAttr (env : ActionEnv) : SteActionsAttr where
  modifyIndex := 0
  modifyActions := 0
  singleModifyAction := none
  decapIndex := 0
  decapActions := 0
  argsIndex := 0
  decapArgsIndex := 0
  decapWithVlan := false
  finalIcmAddr := env.defaultIcmAddr
  flowTag := 0
  ctrId := 0
  gvmi := env.gvmi
  hitGvmi := env.gvmi
  reformat := ⟨0, 0, 0, 0⟩
  vlans := ⟨0, [0, 0]⟩
  asoFlowMeter := ⟨0, 0, 0, 0⟩

def drActionRecalcCsumRequired (env : ActionEnv) (rewrite : DrRewrite) : Bool :=
  env.format = .v0 && env.domainType = .fdb && rewrite.modifyTtl

def Gathered.setFinal (gathered : Gathered) (type : DrActionType) (icmAddr : Nat) : Gathered :=
  { gathered with
    attr := { gathered.attr with finalIcmAddr := icmAddr }
    finalType := some type }

/-- The switch for an `FT` action. A firmware table's addresses are queried once and kept. -/
def Gathered.handleFt (env : ActionEnv) (gathered : Gathered) : DrDestTbl → Except BuildStop Gathered
  | .sw dmn rxIcmAddr txIcmAddr =>
    if dmn ≠ env.dmn then .error (.refused .inval)
    else .ok <| Gathered.setFinal
      { gathered with destAction := some (.ft (.sw dmn rxIcmAddr txIcmAddr)) } .ft
      (if env.rxRule then rxIcmAddr else txIcmAddr)
  | .fw type id rxIcmAddr txIcmAddr =>
    let details := if rxIcmAddr = 0 then env.queryFlowTable type id
      else .ok (rxIcmAddr, txIcmAddr)
    match details with
    | .error errno => .error (.refused (.device errno))
    | .ok (rx, tx) => .ok <| Gathered.setFinal
        { gathered with destAction := some (.ft (.fw type id rx tx)) } .ft
        (if env.rxRule then rx else tx)

def Gathered.setReformat (gathered : Gathered) (reformat : DrReformat) : Gathered :=
  { gathered with attr := { gathered.attr with reformat := reformat } }

/-- The switch over the type of an action. -/
def Gathered.handle (env : ActionEnv) (gathered : Gathered) : DrAction → Except BuildStop Gathered
  | .drop => .ok (gathered.setFinal .drop env.dropIcmAddr)
  | .ft destTbl => gathered.handleFt env destTbl
  | .qp => .error (.refused .inval)
  | .ctr ctrId offset =>
    .ok { gathered with attr := { gathered.attr with ctrId := ctrId + offset } }
  | .tag flowTag => .ok { gathered with attr := { gathered.attr with flowTag := flowTag } }
  | .tnlL2ToL2 => .ok gathered
  | .tnlL3ToL2 rewrite =>
    .ok { gathered with
      attr := { gathered.attr with
        decapIndex := rewrite.index
        decapActions := rewrite.numOfActions
        decapWithVlan := rewrite.numOfActions = withVlanNumHwActions
        decapArgsIndex := rewrite.arg.getD gathered.attr.decapArgsIndex } }
  | .modifyHdr rewrite =>
    .ok { gathered with
      attr := if rewrite.singleActionOpt then
          { gathered.attr with
            modifyActions := rewrite.numOfActions
            singleModifyAction := some rewrite.data }
        else
          { gathered.attr with
            modifyActions := rewrite.numOfActions
            modifyIndex := rewrite.index
            argsIndex := rewrite.arg.getD gathered.attr.argsIndex }
      recalcCsRequired := drActionRecalcCsumRequired env rewrite }
  | .l2ToTnlL2 reformat | .l2ToTnlL3 reformat =>
    if env.rxRule && !env.allowRxEncap then .error (.refused .inval)
    else .ok (gathered.setReformat { gathered.attr.reformat with
      reformatSize := reformat.reformatSize
      reformatId := reformat.reformatId })
  | .sampler rxIcmAddr txIcmAddr =>
    .ok (gathered.setFinal .sampler (if env.rxRule then rxIcmAddr else txIcmAddr))
  | .vport vport =>
    -- A packet cannot be looped back to the wire.
    if env.rxRule && vport.num == wirePort then .error (.refused .inval)
    else .ok <| Gathered.setFinal
      { gathered with
        attr := { gathered.attr with hitGvmi := vport.vhcaGvmi }
        destAction := some (.vport vport) } .vport
      (if env.rxRule then vport.icmAddressRx else vport.icmAddressTx)
  | .popVlan =>
    .ok { gathered with attr := { gathered.attr with
      vlans := { gathered.attr.vlans with count := gathered.attr.vlans.count + 1 } } }
  | .pushVlan vlanHdr =>
    if gathered.attr.vlans.count = maxVlans then .error (.refused .inval)
    else if gathered.attr.vlans.headers.length ≤ gathered.attr.vlans.count then
      .error .outOfBounds
    else .ok { gathered with attr := { gathered.attr with
      vlans :=
        { count := gathered.attr.vlans.count + 1
          headers := gathered.attr.vlans.headers.set gathered.attr.vlans.count vlanHdr } } }
  | .insertHdr reformat => .ok (gathered.setReformat reformat)
  | .asoFlowMeter aso =>
    .ok { gathered with attr := { gathered.attr with asoFlowMeter := aso } }

def maxActionsType : DrActionType → Nat
  | .popVlan | .pushVlan => maxVlans
  | _ => 1

/-- The locals of the loop. Entry `i` of `seqSet` is `action_seq_set[i]`, as far as written. -/
structure ActionsBuild where
  typeSet : DrActionType → Nat
  seqSet : List DrActionType
  state : ActionState
  gathered : Gathered

namespace ActionsBuild

def begin (env : ActionEnv) : ActionsBuild where
  typeSet := fun _ => 0
  seqSet := []
  state := .noAction
  gathered := ⟨env.initialAttr, none, false, none⟩

def countType (typeSet : DrActionType → Nat) (type : DrActionType) : DrActionType → Nat :=
  Function.update typeSet type (typeSet type + 1)

def turn (env : ActionEnv) (build : ActionsBuild) (action : DrAction) : Except BuildStop ActionsBuild :=
  let type := action.actionType
  if DrActionType.max ≤ build.seqSet.length then .error .outOfBounds
  else
    match build.gathered.handle env action with
    | .error stop => .error stop
    | .ok gathered =>
      if maxActionsType type < build.typeSet type + 1 then .error (.refused .inval)
      else if nextActionState env.actionDomain build.state type = .err then
        .error (.refused .opNotSupp)
      else
        .ok
          { typeSet := countType build.typeSet type
            seqSet := build.seqSet ++ [type]
            state := nextActionState env.actionDomain build.state type
            gathered := gathered }

def turns (env : ActionEnv) (build : ActionsBuild) : List DrAction → Except BuildStop ActionsBuild
  | [] => .ok build
  | action :: rest =>
    match build.turn env action with
    | .error stop => .error stop
    | .ok next => next.turns env rest

end ActionsBuild

def drActionHandleCsRecalc (env : ActionEnv) (destAction : DrAction) (finalIcmAddr : Nat) :
    Except BuildStop Nat :=
  match destAction with
  | .ft (.fw _ _ rxIcmAddr _) => .ok rxIcmAddr
  | .ft (.sw _ _ _) => .error (.refused .inval)
  | .vport vport =>
    match env.recalcCsFtAddr vport.dmn vport.num with
    | .error errno => .error (.refused (.device errno))
    | .ok address => .ok address
  | _ => .ok finalIcmAddr

/-- What stands between the loop and the writing of the entries. -/
def Gathered.recalcChecksum (env : ActionEnv) (gathered : Gathered) : Except BuildStop Gathered :=
  match gathered.destAction with
  | some destAction =>
    if gathered.recalcCsRequired && env.rxRule then
      match drActionHandleCsRecalc env destAction gathered.attr.finalIcmAddr with
      | .error stop => .error stop
      | .ok address =>
        .ok { gathered with attr := { gathered.attr with finalIcmAddr := address } }
    else .ok gathered
  | none => .ok gathered

end MlnxOfed.Steering
