/-
Compiling the actions of a rule: what the loop keeps while it gathers them, and the entries built from a
list it accepts.
-/

import Mathlib.Algebra.BigOperators.Group.List.Basic
import MlnxOfed.Steering.ActionPacking
import MlnxOfed.Steering.ActionFieldsV0

namespace MlnxOfed.Steering

open List Lib MlnxOfed.Lib.SpanChain DrAction DrActionType Gathered ActionEnv

def requests (actions : List DrAction) (type : DrActionType) : Nat :=
  (actions.map actionType).count type

def DrActionType.isPlain : DrActionType → Bool
  | tnlL2ToL2 | tnlL3ToL2 | ctr | tag | modifyHdr | insertHdr | asoFlowMeter => true
  | _ => false

structure Handled (env : ActionEnv) (type : DrActionType) (before after : Gathered) : Prop where
  supported : type ≠ .qp
  encap : env.format = .v0 → env.nicType = .rx → type ≠ .l2ToTnlL2 ∧ type ≠ .l2ToTnlL3
  final : after.finalType = if type.isDestination then some type else before.finalType
  count : after.attr.vlans.count = before.attr.vlans.count + if type = .popVlan ∨ type = .pushVlan then 1 else 0
  headers : after.attr.vlans.headers.length = before.attr.vlans.headers.length

variable {type : DrActionType}

theorem Handled.setFinal {env : ActionEnv} {old marked : Gathered} (destination : type.isDestination = true)
    (same : marked.attr.vlans = old.attr.vlans) (icmAddr) :
    Handled env type old (marked.setFinal type icmAddr) := by
  have final : type ≠ .qp ∧ (type ≠ .l2ToTnlL2 ∧ type ≠ .l2ToTnlL3) ∧
      ¬ (type = .popVlan ∨ type = .pushVlan) := by
    cases type <;> simp_all [isDestination]
  refine ⟨final.1, fun _ _ => final.2.1, ?_, ?_, ?_⟩
  · rw [if_pos destination]
    rfl
  · rw [if_neg final.2.2]
    exact congrArg VlanInfo.count same
  · exact congrArg (fun vlans => vlans.headers.length) same

variable {before after : Gathered}

private theorem handleFt_handled {env destTbl}
    (handled : old.handleFt env destTbl = .ok after) : Handled env .ft old after := by
  cases destTbl with
  | sw dmn rxIcmAddr txIcmAddr | fw type id rxIcmAddr txIcmAddr =>
    simp only [handleFt] at handled
    split at handled
    · cases handled
    · cases handled
      exact Handled.setFinal rfl (by rfl) _

theorem Handled.plain {env}
    (kind : type.isPlain = true) (same : after.attr.vlans = old.attr.vlans)
    (final : after.finalType = old.finalType) : Handled env type old after := by
  have unlike : type ≠ .qp ∧ (type ≠ .l2ToTnlL2 ∧ type ≠ .l2ToTnlL3) ∧
      type.isDestination = false ∧ ¬ (type = .popVlan ∨ type = .pushVlan) := by
    cases type <;> simp_all [isPlain, isDestination]
  refine ⟨unlike.1, fun _ _ => unlike.2.1, ?_, ?_, congrArg (fun vlans => vlans.headers.length) same⟩
  · rw [unlike.2.2.1]
    exact final
  · rw [if_neg unlike.2.2.2]
    exact congrArg VlanInfo.count same

private theorem handle_handled {env action} (handled : before.handle env action = .ok after) :
    Handled env action.actionType before after := by
  have encapped {type : DrActionType} {reformat : DrReformat} (encap : type = .l2ToTnlL2 ∨ type = .l2ToTnlL3)
      (ok : ¬ (env.rxRule && !env.allowRxEncap) = true) : Handled env type before
      (before.setReformat reformat) := by
    have unlike : type ≠ .qp ∧ type.isDestination = false ∧ ¬ (type = .popVlan ∨ type = .pushVlan) := by
      rcases encap with rfl | rfl <;> decide
    refine ⟨unlike.1, ?_, ?_, ?_, rfl⟩
    · intro old rx
      exact absurd (by simp [rxRule, allowRxEncap, rx, old]) ok
    · rw [unlike.2.1]
      rfl
    · rw [if_neg unlike.2.2]
      rfl
  cases action with
  | qp => cases handled
  | ft destTbl => exact handleFt_handled handled
  | drop | sampler rxIcmAddr txIcmAddr =>
    cases handled
    exact Handled.setFinal rfl rfl _
  | vport vport =>
    simp only [handle] at handled
    split at handled
    · cases handled
    · cases handled
      exact Handled.setFinal rfl (by rfl) _
  | l2ToTnlL2 reformat =>
    simp only [handle] at handled
    split at handled
    · cases handled
    · rename_i ok
      cases handled
      exact encapped (.inl rfl) ok
  | l2ToTnlL3 reformat =>
    simp only [handle] at handled
    split at handled
    · cases handled
    · rename_i ok
      cases handled
      exact encapped (.inr rfl) ok
  | popVlan =>
    cases handled
    exact ⟨by decide, fun _ _ => by decide, rfl, rfl, rfl⟩
  | pushVlan vlanHdr =>
    simp only [handle] at handled
    split at handled
    · cases handled
    · split at handled
      · cases handled
      · cases handled
        exact ⟨by simp [actionType], fun _ _ => by simp [actionType], rfl, rfl, length_set⟩
  | modifyHdr rewrite =>
    cases handled
    refine Handled.plain rfl ?_ rfl
    split <;> rfl
  | tnlL2ToL2 | tnlL3ToL2 _ | ctr _ _ | tag _ | insertHdr _ | asoFlowMeter _ =>
    cases handled
    exact Handled.plain rfl rfl rfl

private theorem handle_bounded (env) {gathered : Gathered} (count : gathered.attr.vlans.count ≤ maxVlans)
    (headers : gathered.attr.vlans.headers.length = maxVlans) (action) :
    gathered.handle env action ≠ .error .outOfBounds := by
  cases action with
  | pushVlan vlanHdr =>
    simp only [handle]
    split
    · simp
    · rename_i unfull
      rw [if_neg (by omega)]
      simp
  | ft destTbl =>
    cases destTbl with
    | sw dmn rxIcmAddr txIcmAddr | fw type id rxIcmAddr txIcmAddr =>
      simp only [handle, handleFt]
      split <;> simp
  | vport _ | l2ToTnlL2 _ | l2ToTnlL3 _ =>
    simp only [handle]
    split <;> simp
  | _ => simp [handle]

/-! ### The loop -/

private theorem requests_append (actions action type) : requests (actions ++ [action]) type =
      requests actions type + if action.actionType = type then 1 else 0 := by
  simp only [requests, map_append, map_cons, map_nil, count_append, count_cons, count_nil, beq_iff_eq, zero_add]

namespace ActionsBuild

private theorem countType_apply (typeSet : DrActionType → Nat) (type other) :
    countType typeSet type other = typeSet other + if type = other then 1 else 0 := by
  by_cases same : other = type
  · subst same
    simp [countType]
  · rw [countType, Function.update_of_ne same, if_neg (fun equal => same equal.symm)]
    rfl

/-- What holds before every turn, `done` being the actions behind it. -/
structure Gathers (env : ActionEnv) (done : List DrAction) (build : ActionsBuild) : Prop where
  seq : build.seqSet = done.map actionType
  counted : ∀ type, build.typeSet type = requests done type
  limited : ∀ type, build.typeSet type ≤ maxActionsType type
  refused : ∀ type, env.actionDomain.refuses type = true → build.typeSet type = 0
  unsupported : build.typeSet .qp = 0
  encap : env.format = .v0 → env.nicType = .rx → build.typeSet .l2ToTnlL2 = 0 ∧ build.typeSet .l2ToTnlL3 = 0
  vlans : build.gathered.attr.vlans.count = build.typeSet .popVlan + build.typeSet .pushVlan
  headers : build.gathered.attr.vlans.headers.length = maxVlans
  decap : build.typeSet .tnlL2ToL2 + build.typeSet .tnlL3ToL2 ≤ 1
  beforeDecap : build.state.beforeDecap = true → build.typeSet .tnlL2ToL2 + build.typeSet .tnlL3ToL2 = 0
  undecided : build.state ≠ .term → build.gathered.finalType = none
  final : ∀ type, type.isDestination = true →
    build.typeSet type = if build.gathered.finalType = some type then 1 else 0
  destination : ∀ type, build.gathered.finalType = some type → type.isDestination = true

theorem Gathers.begin (env) : Gathers env [] (begin env) := by
  constructor <;> simp [ActionsBuild.begin, requests, initialAttr, maxVlans]

variable {build next : ActionsBuild} {action : DrAction}

private theorem turn_ok {env} (turned : build.turn env action = .ok next) :
    ∃ gathered, build.gathered.handle env action = .ok gathered ∧
      build.typeSet action.actionType + 1 ≤ maxActionsType action.actionType ∧
      nextActionState env.actionDomain build.state action.actionType ≠ .err ∧
      next =
        { typeSet := countType build.typeSet action.actionType
          seqSet := build.seqSet ++ [action.actionType]
          state := nextActionState env.actionDomain build.state action.actionType
          gathered := gathered } := by
  simp only [turn] at turned
  split at turned
  · cases turned
  cases handled : build.gathered.handle env action with
  | error stop => simp [handled] at turned
  | ok gathered =>
    simp only [handled] at turned
    split at turned
    · cases turned
    rename_i limited
    split at turned
    · cases turned
    · rename_i allowed
      cases turned
      exact ⟨gathered, rfl, Nat.le_of_not_lt limited, allowed, rfl⟩

variable {done : List DrAction}

theorem Gathers.turn {env} (gathers : Gathers env done build)
    (turned : build.turn env action = .ok next) : Gathers env (done ++ [action]) next := by
  obtain ⟨gathered, handle, limited, ok, rfl⟩ := turn_ok turned
  have handled := handle_handled handle
  generalize typeEq : action.actionType = type at limited ok handled ⊢
  constructor <;> dsimp only
  · rw [gathers.seq, map_append, map_singleton, typeEq]
  · intro other
    rw [countType_apply, gathers.counted, requests_append, typeEq]
  · intro other
    rw [countType_apply]
    by_cases same : type = other
    · subst same
      rw [if_pos rfl]
      exact limited
    · rw [if_neg same]
      exact gathers.limited other
  · intro other refused
    rw [countType_apply, gathers.refused other refused]
    have unlike : type ≠ other := fun same =>
      ok (nextActionState_refuses (same ▸ refused))
    rw [if_neg unlike]
  · rw [countType_apply, gathers.unsupported, if_neg handled.supported]
  · intro old rx
    obtain ⟨noEncap, noEncapL3⟩ := handled.encap old rx
    rw [countType_apply, countType_apply, if_neg noEncap, if_neg noEncapL3]
    exact gathers.encap old rx
  · have counts := handled.count
    have before := gathers.vlans
    simp only [countType_apply]
    by_cases pop : type = .popVlan
    · subst pop
      simp at counts ⊢
      omega
    by_cases push : type = .pushVlan
    · subst push
      simp at counts ⊢
      omega
    · simp [pop, push] at counts ⊢
      omega
  · exact handled.headers.trans gathers.headers
  · have before := gathers.decap
    simp only [countType_apply]
    by_cases decap : type.isDecap = true
    · have none := gathers.beforeDecap (nextActionState_decap ok decap).1
      cases type <;> simp_all [isDecap]
    · cases type <;> simp_all [isDecap]
  · intro still
    have before := gathers.beforeDecap (nextActionState_beforeDecap still)
    simp only [countType_apply]
    have other : type.isDecap ≠ true := fun decap =>
      absurd still (Bool.eq_false_iff.mp (nextActionState_decap ok decap).2)
    cases type <;> simp_all [isDecap]
  · intro goesOn
    have other : type.isDestination ≠ true := fun destination =>
      goesOn (nextActionState_destination ok destination).2
    have before : build.state ≠ .term := by
      intro term
      rw [term] at ok goesOn
      exact goesOn (nextActionState_term ok)
    rw [handled.final, if_neg other]
    exact gathers.undecided before
  · intro other destination
    rw [countType_apply, gathers.final other destination, handled.final]
    by_cases chosen : type.isDestination = true
    · rw [if_pos chosen, gathers.undecided (nextActionState_destination ok chosen).1]
      simp
    · have unlike : type ≠ other := fun same => chosen (same ▸ destination)
      rw [if_neg chosen, if_neg unlike]
      rfl
  · intro other final
    rw [handled.final] at final
    by_cases chosen : type.isDestination = true
    · rw [if_pos chosen] at final
      cases final
      exact chosen
    · rw [if_neg chosen] at final
      exact gathers.destination other final

private theorem length_eq_counts (types : List DrActionType) :
    types.length = (all.map fun type => types.count type).sum := by
  induction types with
  | nil => rfl
  | cons type rest ih =>
    have once : (all.map fun other => if type = other then 1 else 0).sum = 1 := by
      cases type <;> rfl
    simp only [length_cons, count_cons, beq_iff_eq, sum_map_add, once, ih]

theorem Gathers.short {env build}
    (gathers : Gathers env done build) : build.seqSet.length < DrActionType.max := by
  have length := length_eq_counts (done.map actionType)
  have counted type : (done.map actionType).count type = build.typeSet type := (gathers.counted type).symm
  simp only [counted, DrActionType.all, map_cons, map_nil, sum_cons, sum_nil] at length
  rw [gathers.seq, length]
  have qp := gathers.unsupported
  have oneWay : build.typeSet .popVlan + build.typeSet .pushVlan ≤ 2 := by
    have pop := gathers.limited .popVlan
    have push := gathers.limited .pushVlan
    simp only [maxActionsType, maxVlans] at pop push
    cases domain : env.actionDomain
    · have none := gathers.refused .pushVlan (by rw [domain]; rfl)
      omega
    · have none := gathers.refused .popVlan (by rw [domain]; rfl)
      omega
    · have none := gathers.refused .pushVlan (by rw [domain]; rfl)
      omega
    · have none := gathers.refused .popVlan (by rw [domain]; rfl)
      omega
  have one type (notPop : type ≠ .popVlan) (notPush : type ≠ .pushVlan) : build.typeSet type ≤ 1 := by
    have limited := gathers.limited type
    cases type <;> first | exact limited | contradiction
  have tnlL2ToL2 := one .tnlL2ToL2 (by decide) (by decide)
  have l2ToTnlL2 := one .l2ToTnlL2 (by decide) (by decide)
  have tnlL3ToL2 := one .tnlL3ToL2 (by decide) (by decide)
  have l2ToTnlL3 := one .l2ToTnlL3 (by decide) (by decide)
  have drop := one .drop (by decide) (by decide)
  have ft := one .ft (by decide) (by decide)
  have ctr := one .ctr (by decide) (by decide)
  have tag := one .tag (by decide) (by decide)
  have modifyHdr := one .modifyHdr (by decide) (by decide)
  have vport := one .vport (by decide) (by decide)
  have sampler := one .sampler (by decide) (by decide)
  have insertHdr := one .insertHdr (by decide) (by decide)
  have asoFlowMeter := one .asoFlowMeter (by decide) (by decide)
  simp only [DrActionType.max]
  omega

theorem Gathers.vlans_le {env build}
    (gathers : Gathers env done build) : build.gathered.attr.vlans.count ≤ maxVlans := by
  rw [gathers.vlans]
  have pop := gathers.limited .popVlan
  have push := gathers.limited .pushVlan
  simp only [maxActionsType] at pop push
  cases domain : env.actionDomain
  · rw [gathers.refused .pushVlan (by rw [domain]; rfl)]
    exact pop
  · rw [gathers.refused .popVlan (by rw [domain]; rfl), zero_add]
    exact push
  · rw [gathers.refused .pushVlan (by rw [domain]; rfl)]
    exact pop
  · rw [gathers.refused .popVlan (by rw [domain]; rfl), zero_add]
    exact push

end ActionsBuild

namespace ActionsBuild

theorem Gathers.turn_bounded {env : ActionEnv} {done : List DrAction} {build : ActionsBuild}
    (gathers : Gathers env done build) (action) :
    build.turn env action ≠ .error .outOfBounds := by
  intro turned
  have bounded := handle_bounded env gathers.vlans_le gathers.headers action
  simp only [ActionsBuild.turn, if_neg (Nat.not_le_of_lt gathers.short)] at turned
  cases handled : build.gathered.handle env action with
  | error stop =>
    simp only [handled, Except.error.injEq] at turned
    exact bounded (turned ▸ handled)
  | ok gathered =>
    simp only [handled] at turned
    split at turned
    · cases turned
    · split at turned
      · cases turned
      · cases turned

theorem Gathers.turns {env done build}
    (gathers : Gathers env done build) (actions) :
    build.turns env actions ≠ .error .outOfBounds ∧
      ∀ final, build.turns env actions = .ok final → Gathers env (done ++ actions) final := by
  induction actions generalizing done build with
  | nil =>
    refine ⟨by simp [ActionsBuild.turns], fun final ended => ?_⟩
    cases ended
    rw [append_nil]
    exact gathers
  | cons action rest ih =>
    cases turned : build.turn env action with
    | error stop =>
      simp only [ActionsBuild.turns, turned]
      refine ⟨fun stopped => ?_, fun final ended => by cases ended⟩
      cases stopped
      exact gathers.turn_bounded action turned
    | ok next =>
      simp only [ActionsBuild.turns, turned]
      have later := ih (gathers.turn turned)
      rw [append_assoc] at later
      exact later

end ActionsBuild

theorem recalcChecksum_spec (env : ActionEnv) (gathered : Gathered) :
    gathered.recalcChecksum env ≠ .error .outOfBounds ∧ ∀ after, gathered.recalcChecksum env = .ok after →
        after.attr.vlans = gathered.attr.vlans ∧ after.finalType = gathered.finalType := by
  have recalc destAction address : drActionHandleCsRecalc env destAction address ≠ .error .outOfBounds := by
    unfold drActionHandleCsRecalc
    split
    · simp
    · simp
    · split <;> simp
    · simp
  unfold recalcChecksum
  split
  · rename_i destAction _
    split
    · cases res : drActionHandleCsRecalc env destAction gathered.attr.finalIcmAddr with
      | error stop =>
        refine ⟨fun stopped => ?_, fun after ended => by cases ended⟩
        cases stopped
        exact recalc _ _ res
      | ok address =>
        refine ⟨by simp, fun after ended => ?_⟩
        cases ended
        exact ⟨rfl, rfl⟩
    · refine ⟨by simp, fun after ended => ?_⟩
      cases ended
      exact ⟨rfl, rfl⟩
  · refine ⟨by simp, fun after ended => ?_⟩
    cases ended
    exact ⟨rfl, rfl⟩

theorem ActionEnv.ingress {env : ActionEnv} (rx : env.nicType = .rx) :
    env.actionDomain = .nicIngress ∨ env.actionDomain = .fdbIngress := by
  have has := env.has
  unfold actionDomain
  rw [rx] at has ⊢
  cases domain : env.domainType with
  | nicRx => exact .inl rfl
  | nicTx => simp [domain, DomainType.nics] at has
  | fdb => exact .inr rfl

theorem ActionEnv.egress {env : ActionEnv} (tx : env.nicType = .tx) :
    env.actionDomain = .nicEgress ∨ env.actionDomain = .fdbEgress := by
  have has := env.has
  unfold actionDomain
  rw [tx] at has ⊢
  cases domain : env.domainType with
  | nicRx => simp [domain, DomainType.nics] at has
  | nicTx => exact .inl rfl
  | fdb => exact .inr rfl

/-- What `set_actions` may rely on when the loop has accepted the list. -/
structure StePlan.Accepted (env : ActionEnv) (actions : List DrAction) (plan : StePlan) :
    Prop where
  counted : ∀ type, plan.typeSet type = requests actions type
  once : ∀ type, type ≠ .popVlan → type ≠ .pushVlan → requests actions type ≤ 1
  unsupported : requests actions .qp = 0
  rx : env.nicType = .rx → requests actions .pushVlan = 0
  tx : env.nicType = .tx → requests actions .popVlan = 0 ∧ requests actions .tag = 0 ∧
    requests actions .tnlL2ToL2 = 0 ∧ requests actions .tnlL3ToL2 = 0
  encap : env.format = .v0 → env.nicType = .rx →
    requests actions .l2ToTnlL2 = 0 ∧ requests actions .l2ToTnlL3 = 0
  decap : requests actions .tnlL2ToL2 + requests actions .tnlL3ToL2 ≤ 1
  vlans : plan.attr.vlans.count = requests actions .popVlan + requests actions .pushVlan
  fewVlans : plan.attr.vlans.count ≤ maxVlans
  final : ∀ type, times plan.finalType 1 (some type) = if type.isDestination then requests actions type else 0
  destination : ∀ type, plan.finalType = some type → type.isDestination = true

theorem ActionsBuild.Gathers.accepted {env actions}
    {build gathered} (gathers : Gathers env actions build)
    (vlans : gathered.attr.vlans = build.gathered.attr.vlans)
    (finalType : gathered.finalType = build.gathered.finalType) :
    (build.plan env gathered).Accepted env actions := by
  have refused type (refused : env.actionDomain.refuses type = true) : requests actions type = 0 :=
      (gathers.counted type).symm.trans (gathers.refused type refused)
  constructor
  · exact gathers.counted
  · intro type notPop notPush
    rw [← gathers.counted]
    have limited := gathers.limited type
    cases type <;> first | exact limited | contradiction
  · rw [← gathers.counted]
    exact gathers.unsupported
  · intro rx
    rcases ingress rx with domain | domain <;>
      exact refused .pushVlan (by rw [domain]; rfl)
  · intro tx
    rcases egress tx with domain | domain <;>
      exact ⟨refused .popVlan (by rw [domain]; rfl), refused .tag (by rw [domain]; rfl),
        refused .tnlL2ToL2 (by rw [domain]; rfl), refused .tnlL3ToL2 (by rw [domain]; rfl)⟩
  · intro old rx
    rw [← gathers.counted, ← gathers.counted]
    exact gathers.encap old rx
  · rw [← gathers.counted, ← gathers.counted]
    exact gathers.decap
  · rw [← gathers.counted, ← gathers.counted]
    exact (congrArg VlanInfo.count vlans).trans gathers.vlans
  · exact le_trans (le_of_eq (congrArg VlanInfo.count vlans)) gathers.vlans_le
  · intro type
    simp only [times, ActionsBuild.plan, finalType]
    by_cases destination : type.isDestination = true
    · rw [if_pos destination, ← gathers.counted, gathers.final type destination]
    · rw [if_neg destination, if_neg (fun final => destination (gathers.destination type final))]
  · intro type final
    exact gathers.destination type (finalType ▸ final)

namespace StePlan

variable {env : ActionEnv} {actions : List DrAction} {plan : StePlan}

variable (accepted : plan.Accepted env actions)

include accepted

theorem Accepted.has_iff (type) : plan.has type = true ↔ 0 < requests actions type := by
  rw [has, decide_eq_true_eq, accepted.counted]

theorem Accepted.uses_eq {type} (notPop : type ≠ .popVlan) (notPush : type ≠ .pushVlan) :
    plan.uses type = requests actions type := by
  have once := accepted.once type notPop notPush
  unfold uses
  split_ifs with here
  · have some := (accepted.has_iff type).mp here
    omega
  · have none := mt (accepted.has_iff type).mpr here
    omega

theorem Accepted.popWrites_eq (rx : env.nicType = .rx) :
    plan.vlanWrites .popVlan = requests actions .popVlan := by
  have vlans := accepted.vlans
  have noPush := accepted.rx rx
  unfold vlanWrites
  split_ifs with here
  · omega
  · have none := mt (accepted.has_iff .popVlan).mpr here
    omega

theorem Accepted.pushWrites_eq (tx : env.nicType = .tx) :
    plan.vlanWrites .pushVlan = requests actions .pushVlan := by
  have vlans := accepted.vlans
  have noPop := (accepted.tx tx).1
  unfold vlanWrites
  split_ifs with here
  · omega
  · have none := mt (accepted.has_iff .pushVlan).mpr here
    omega

omit accepted

end StePlan

end MlnxOfed.Steering
