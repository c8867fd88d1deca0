/-
The actions of a rule: what they carry, the order each domain allows and what `mlx5dr_actions_build_ste_arr`
gathers from them.
-/

import MlnxOfed.Steering.ModifyMeaning

namespace MlnxOfed.Steering

/-! ### Types and the state machine -/

inductive DrActionType where
  | tnlL2ToL2
  | l2ToTnlL2
  | tnlL3ToL2
  | l2ToTnlL3
  | drop
  | qp
  | ft
  | ctr
  | tag
  | modifyHdr
  | vport
  | popVlan
  | pushVlan
  | sampler
  | insertHdr
  | asoFlowMeter
  deriving DecidableEq

namespace DrActionType

def all : List DrActionType :=
  [tnlL2ToL2, l2ToTnlL2, tnlL3ToL2, l2ToTnlL3, drop, qp, ft, ctr, tag, modifyHdr, vport, popVlan,
    pushVlan, sampler, insertHdr, asoFlowMeter]

theorem mem_all (type) : type ∈ all := by
  cases type <;> decide

def max : Nat := 16

def isDestination : DrActionType → Bool
  | drop | ft | vport | sampler => true
  | _ => false

/-- The types that put a header in front and share `attr.reformat`. -/
def isInsert : DrActionType → Bool
  | l2ToTnlL2 | l2ToTnlL3 | insertHdr => true
  | _ => false

def isDecap : DrActionType → Bool
  | tnlL2ToL2 | tnlL3ToL2 => true
  | _ => false

end DrActionType

inductive ActionDomain where
  | nicIngress
  | nicEgress
  | fdbIngress
  | fdbEgress
  deriving DecidableEq

def ActionDomain.all : List ActionDomain := [.nicIngress, .nicEgress, .fdbIngress, .fdbEgress]

theorem ActionDomain.mem_all (domain) : domain ∈ ActionDomain.all := by
  cases domain <;> decide

def drActionGetActionDomain : DomainType → NicType → ActionDomain
  | .nicRx, _ => .nicIngress
  | .nicTx, _ => .nicEgress
  | .fdb, .rx => .fdbIngress
  | .fdb, .tx => .fdbEgress

inductive ActionState where
  | err
  | noAction
  | encap
  | decap
  | modifyHdr
  | modifyVlan
  | nonTerm
  | term
  | aso
  deriving DecidableEq

def ActionState.all : List ActionState :=
  [.err, .noAction, .encap, .decap, .modifyHdr, .modifyVlan, .nonTerm, .term, .aso]

theorem ActionState.mem_all (state) : state ∈ ActionState.all := by
  cases state <;> decide

/-- The entries of `next_action_state` that are not `DR_ACTION_STATE_ERR`. -/
def nextActionStates : ActionDomain → ActionState → List (DrActionType × ActionState)
  | .nicIngress, .noAction =>
    [(.drop, .term), (.qp, .term), (.ft, .term), (.sampler, .term), (.tag, .nonTerm),
      (.ctr, .nonTerm), (.tnlL2ToL2, .decap), (.tnlL3ToL2, .decap), (.l2ToTnlL2, .encap),
      (.l2ToTnlL3, .encap), (.insertHdr, .encap), (.modifyHdr, .modifyHdr),
      (.popVlan, .modifyVlan), (.asoFlowMeter, .aso)]
  | .nicIngress, .decap =>
    [(.drop, .term), (.qp, .term), (.ft, .term), (.sampler, .term), (.tag, .decap),
      (.ctr, .decap), (.l2ToTnlL2, .encap), (.l2ToTnlL3, .encap), (.insertHdr, .encap),
      (.modifyHdr, .modifyHdr), (.popVlan, .modifyVlan), (.asoFlowMeter, .aso)]
  | .nicIngress, .encap =>
    [(.drop, .term), (.qp, .term), (.ft, .term), (.sampler, .term), (.tag, .encap),
      (.ctr, .encap), (.asoFlowMeter, .aso)]
  | .nicIngress, .modifyHdr =>
    [(.drop, .term), (.qp, .term), (.ft, .term), (.sampler, .term), (.tag, .modifyHdr),
      (.ctr, .modifyHdr), (.l2ToTnlL2, .encap), (.l2ToTnlL3, .encap), (.insertHdr, .encap),
      (.asoFlowMeter, .aso)]
  | .nicIngress, .modifyVlan =>
    [(.drop, .term), (.qp, .term), (.ft, .term), (.sampler, .term), (.tag, .modifyVlan),
      (.ctr, .modifyVlan), (.popVlan, .modifyVlan), (.modifyHdr, .modifyHdr),
      (.l2ToTnlL2, .encap), (.l2ToTnlL3, .encap), (.insertHdr, .encap), (.asoFlowMeter, .aso)]
  | .nicIngress, .nonTerm =>
    [(.drop, .term), (.qp, .term), (.ft, .term), (.sampler, .term), (.tag, .nonTerm),
      (.ctr, .nonTerm), (.tnlL2ToL2, .decap), (.tnlL3ToL2, .decap), (.l2ToTnlL2, .encap),
      (.l2ToTnlL3, .encap), (.insertHdr, .encap), (.modifyHdr, .modifyHdr),
      (.popVlan, .modifyVlan), (.asoFlowMeter, .aso)]
  | .nicIngress, .aso => [(.drop, .term), (.qp, .term), (.ft, .term), (.ctr, .aso)]
  | .nicIngress, .term => [(.ctr, .term)]
  | .nicEgress, .noAction =>
    [(.drop, .term), (.ft, .term), (.ctr, .nonTerm), (.l2ToTnlL2, .encap),
      (.l2ToTnlL3, .encap), (.insertHdr, .encap), (.modifyHdr, .modifyHdr),
      (.pushVlan, .modifyVlan), (.asoFlowMeter, .aso)]
  | .nicEgress, .encap => [(.drop, .term), (.ft, .term), (.ctr, .encap), (.asoFlowMeter, .aso)]
  | .nicEgress, .modifyHdr =>
    [(.drop, .term), (.ft, .term), (.ctr, .modifyHdr), (.l2ToTnlL2, .encap),
      (.l2ToTnlL3, .encap), (.insertHdr, .encap), (.pushVlan, .modifyVlan),
      (.asoFlowMeter, .aso)]
  | .nicEgress, .modifyVlan =>
    [(.drop, .term), (.ft, .term), (.ctr, .modifyVlan), (.pushVlan, .modifyVlan),
      (.l2ToTnlL2, .encap), (.l2ToTnlL3, .encap), (.insertHdr, .encap), (.asoFlowMeter, .aso)]
  | .nicEgress, .nonTerm =>
    [(.drop, .term), (.ft, .term), (.ctr, .nonTerm), (.l2ToTnlL2, .encap),
      (.l2ToTnlL3, .encap), (.insertHdr, .encap), (.modifyHdr, .modifyHdr),
      (.pushVlan, .modifyVlan), (.asoFlowMeter, .aso)]
  | .nicEgress, .aso =>
    [(.l2ToTnlL2, .encap), (.l2ToTnlL3, .encap), (.modifyHdr, .modifyHdr),
      (.pushVlan, .modifyVlan), (.ctr, .aso), (.drop, .term), (.ft, .term)]
  | .nicEgress, .term => [(.ctr, .term)]
  | .fdbIngress, .noAction =>
    [(.drop, .term), (.ft, .term), (.sampler, .term), (.ctr, .nonTerm), (.tnlL2ToL2, .decap),
      (.tnlL3ToL2, .decap), (.l2ToTnlL2, .encap), (.l2ToTnlL3, .encap), (.insertHdr, .encap),
      (.modifyHdr, .modifyHdr), (.popVlan, .modifyVlan), (.vport, .term), (.asoFlowMeter, .aso)]
  | .fdbIngress, .decap =>
    [(.drop, .term), (.ft, .term), (.sampler, .term), (.ctr, .decap), (.modifyHdr, .modifyHdr),
      (.popVlan, .modifyVlan), (.vport, .term), (.l2ToTnlL2, .encap), (.l2ToTnlL3, .encap),
      (.insertHdr, .encap), (.asoFlowMeter, .aso)]
  | .fdbIngress, .encap =>
    [(.drop, .term), (.qp, .term), (.ft, .term), (.sampler, .term), (.vport, .term),
      (.tag, .encap), (.ctr, .encap), (.asoFlowMeter, .aso)]
  | .fdbIngress, .modifyHdr =>
    [(.drop, .term), (.ft, .term), (.sampler, .term), (.ctr, .modifyHdr), (.vport, .term),
      (.l2ToTnlL2, .encap), (.l2ToTnlL3, .encap), (.insertHdr, .encap), (.asoFlowMeter, .aso)]
  | .fdbIngress, .modifyVlan =>
    [(.drop, .term), (.ft, .term), (.sampler, .term), (.popVlan, .modifyVlan),
      (.ctr, .modifyVlan), (.vport, .term), (.modifyHdr, .modifyHdr), (.l2ToTnlL2, .encap),
      (.l2ToTnlL3, .encap), (.insertHdr, .encap), (.asoFlowMeter, .aso)]
  | .fdbIngress, .nonTerm =>
    [(.drop, .term), (.ft, .term), (.sampler, .term), (.ctr, .nonTerm), (.tnlL2ToL2, .decap),
      (.tnlL3ToL2, .decap), (.l2ToTnlL2, .encap), (.l2ToTnlL3, .encap), (.insertHdr, .encap),
      (.modifyHdr, .modifyHdr), (.popVlan, .modifyVlan), (.vport, .term), (.asoFlowMeter, .aso)]
  | .fdbIngress, .aso => [(.drop, .term), (.ft, .term), (.vport, .term), (.ctr, .aso)]
  | .fdbIngress, .term => [(.ctr, .term)]
  | .fdbEgress, .noAction =>
    [(.drop, .term), (.ft, .term), (.sampler, .term), (.ctr, .nonTerm),
      (.modifyHdr, .modifyHdr), (.l2ToTnlL2, .encap), (.l2ToTnlL3, .encap),
      (.insertHdr, .encap), (.pushVlan, .modifyVlan), (.vport, .term), (.asoFlowMeter, .aso)]
  | .fdbEgress, .encap =>
    [(.drop, .term), (.ft, .term), (.sampler, .term), (.ctr, .encap), (.vport, .term), (.asoFlowMeter, .aso)]
  | .fdbEgress, .modifyHdr =>
    [(.drop, .term), (.ft, .term), (.sampler, .term), (.ctr, .modifyHdr), (.l2ToTnlL2, .encap),
      (.l2ToTnlL3, .encap), (.insertHdr, .encap), (.pushVlan, .modifyVlan), (.vport, .term),
      (.asoFlowMeter, .aso)]
  | .fdbEgress, .modifyVlan =>
    [(.drop, .term), (.ft, .term), (.sampler, .term), (.pushVlan, .modifyVlan),
      (.ctr, .modifyVlan), (.l2ToTnlL2, .encap), (.l2ToTnlL3, .encap), (.insertHdr, .encap),
      (.vport, .term), (.asoFlowMeter, .aso)]
  | .fdbEgress, .nonTerm =>
    [(.drop, .term), (.ft, .term), (.sampler, .term), (.ctr, .nonTerm),
      (.modifyHdr, .modifyHdr), (.l2ToTnlL2, .encap), (.l2ToTnlL3, .encap),
      (.insertHdr, .encap), (.pushVlan, .modifyVlan), (.vport, .term), (.asoFlowMeter, .aso)]
  | .fdbEgress, .aso =>
    [(.l2ToTnlL2, .encap), (.l2ToTnlL3, .encap), (.modifyHdr, .modifyHdr),
      (.pushVlan, .modifyVlan), (.drop, .term), (.ft, .term), (.vport, .term), (.ctr, .aso)]
  | .fdbEgress, .term => [(.ctr, .term)]
  | _, .err => []
  | .nicEgress, .decap | .fdbEgress, .decap => []

def nextActionState (domain : ActionDomain) (state : ActionState) (type : DrActionType) : ActionState :=
  ((nextActionStates domain state).lookup type).getD .err

def ActionDomain.refuses : ActionDomain → DrActionType → Bool
  | .nicIngress, .pushVlan | .fdbIngress, .pushVlan => true
  | .nicEgress, .popVlan | .fdbEgress, .popVlan => true
  | .nicEgress, .tag | .fdbEgress, .tag => true
  | .nicEgress, .tnlL2ToL2 | .fdbEgress, .tnlL2ToL2 => true
  | .nicEgress, .tnlL3ToL2 | .fdbEgress, .tnlL3ToL2 => true
  | _, _ => false

variable {domain : ActionDomain} {type : DrActionType} {state : ActionState}

theorem nextActionState_refuses (refused : domain.refuses type = true) :
    nextActionState domain state type = .err := by
  have table : ∀ domain ∈ ActionDomain.all, ∀ state ∈ ActionState.all,
      ∀ type ∈ DrActionType.all, domain.refuses type = true → nextActionState domain state type = .err := by
    decide +kernel
  exact table domain domain.mem_all state state.mem_all type type.mem_all refused

def ActionState.beforeDecap : ActionState → Bool
  | .noAction | .nonTerm => true
  | _ => false

theorem nextActionState_decap (ok : nextActionState domain state type ≠ .err)
    (decap : type.isDecap = true) :
    state.beforeDecap = true ∧ (nextActionState domain state type).beforeDecap = false := by
  have table : ∀ domain ∈ ActionDomain.all, ∀ state ∈ ActionState.all,
      ∀ type ∈ DrActionType.all, nextActionState domain state type ≠ .err → type.isDecap = true →
          state.beforeDecap = true ∧ (nextActionState domain state type).beforeDecap = false := by
    decide +kernel
  exact table domain domain.mem_all state state.mem_all type type.mem_all ok decap

theorem nextActionState_beforeDecap (old : (nextActionState domain state type).beforeDecap = true) :
    state.beforeDecap = true := by
  have table : ∀ domain ∈ ActionDomain.all, ∀ state ∈ ActionState.all,
      ∀ type ∈ DrActionType.all, (nextActionState domain state type).beforeDecap = true →
        state.beforeDecap = true := by
    decide +kernel
  exact table domain domain.mem_all state state.mem_all type type.mem_all old

theorem nextActionState_destination (ok : nextActionState domain state type ≠ .err)
    (destination : type.isDestination = true) :
    state ≠ .term ∧ nextActionState domain state type = .term := by
  have table : ∀ domain ∈ ActionDomain.all, ∀ state ∈ ActionState.all,
      ∀ type ∈ DrActionType.all, nextActionState domain state type ≠ .err → type.isDestination = true →
          state ≠ .term ∧ nextActionState domain state type = .term := by
    decide +kernel
  exact table domain domain.mem_all state state.mem_all type type.mem_all ok destination

theorem nextActionState_term (ok : nextActionState domain .term type ≠ .err) :
    nextActionState domain .term type = .term := by
  have table : ∀ domain ∈ ActionDomain.all, ∀ type ∈ DrActionType.all,
      nextActionState domain .term type ≠ .err → nextActionState domain .term type = .term := by
    decide +kernel
  exact table domain domain.mem_all type type.mem_all ok

end MlnxOfed.Steering
