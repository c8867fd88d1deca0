/-
Changes to an existing entry (fs_core.c): the actions of a rule added to it, and a rule's destination
replaced.

`add_rule_fg` compares the flags of the actions; their parameters stay those the entry was made with.
-/

import MlnxOfed.FsCore.FteRules

namespace MlnxOfed.FsCore

open List Function

structure FsVlan where
  ethtype : Nat
  vid : Nat
  prio : Nat

/-- The parameters in `struct mlx5_flow_act`; objects are known by a number. -/
structure ActionParams where
  modifyHdr : Option Nat
  pktReformat : Option Nat
  vlan : FsVlan
  vlan2 : FsVlan

inductive FlowAction where
  | drop
  | packetReformat
  | decap
  | modHdr
  | vlanPop
  | vlanPush
  | vlanPop2
  | vlanPush2

def FlowAction.flag : FlowAction → FlowActionBits
  | .drop => 0x2
  | .packetReformat => 0x10
  | .decap => 0x20
  | .modHdr => 0x40
  | .vlanPop => 0x80
  | .vlanPush => 0x100
  | .vlanPop2 => 0x400
  | .vlanPush2 => 0x800

def FlowAction.SameParams (action : FlowAction) (first second : ActionParams) : Prop :=
  match action with
  | .packetReformat => first.pktReformat = second.pktReformat
  | .modHdr => first.modifyHdr = second.modifyHdr
  | .vlanPush => first.vlan = second.vlan
  | .vlanPush2 => first.vlan2 = second.vlan2
  | _ => True

/-- An entry with all of its `struct mlx5_flow_act`. -/
structure ActFte where
  fte : Fte
  params : ActionParams

namespace ActFte

/-- `alloc_fte` copies the whole of the action. -/
def alloc (flowAct : FlowAct) (params : ActionParams) : ActFte :=
  ⟨Fte.alloc flowAct, params⟩

def addRuleFg (act : ActFte) (flowAct : FlowAct) (dests : List FlowDest) (commandFails : Bool) :
    ActFte × Option (List Nat) :=
  ({ act with fte := (act.fte.addRuleFg flowAct dests commandFails).1 },
    (act.fte.addRuleFg flowAct dests commandFails).2)

def Carries (act : ActFte) (flowAct : FlowAct) (params : ActionParams) : Prop :=
  ∀ action : FlowAction, flowAct.action &&& action.flag ≠ 0 →
    act.fte.action &&& action.flag ≠ 0 ∧ action.SameParams act.params params

end ActFte

private theorem addRuleFg_action {fte next : Fte} {flowAct : FlowAct} {dests : List FlowDest} {commandFails : Bool}
    {slots : List Nat} (added : fte.addRuleFg flowAct dests commandFails = (next, some slots)) :
    next.action = fte.action ||| flowAct.action := by
  unfold Fte.addRuleFg at added
  split at added
  · cases added
  dsimp only at added
  split at added
  · cases added
  rename_i made handle given
  cases added
  rw [(Fte.treeAddNodes_fields slots made).1]
  have handleAction := (Fte.createSlots_fields (Fte.slotDests dests)
    { fte with action := fte.action ||| flowAct.action }).1
  obtain ⟨-, ⟨-, same⟩ | ⟨command, -, same⟩⟩ := Fte.addRuleFte_some given
  · rw [same]
    exact handleAction
  · rw [same]
    exact handleAction

private theorem or_and_ne_zero {first second flag : FlowActionBits} (given : second &&& flag ≠ 0) :
    (first ||| second) &&& flag ≠ 0 := by
  intro none
  refine given ?_
  have both : (first &&& flag) ||| (second &&& flag) = 0 := by
    rw [← none]
    ext
    simp only [BitVec.getElem_or, BitVec.getElem_and]
    grind
  exact (BitVec.or_eq_zero_iff.mp both).2

/-- An accepted rule has its actions where the entry's have the same parameters. -/
theorem added_carries_iff (act next : ActFte) (flowAct : FlowAct) (params : ActionParams)
    (dests : List FlowDest) (commandFails : Bool) (slots : List Nat)
    (added : act.addRuleFg flowAct dests commandFails = (next, some slots)) :
    next.Carries flowAct params ↔ ∀ action : FlowAction, flowAct.action &&& action.flag ≠ 0 →
      action.SameParams act.params params := by
  have sameParams : next.params = act.params :=
    (congrArg (fun result => result.1.params) added).symm
  have inner : act.fte.addRuleFg flowAct dests commandFails = (next.fte, some slots) := by
    obtain ⟨sameFte, sameSlots⟩ := Prod.mk.injEq .. ▸ added
    exact Prod.ext (congrArg ActFte.fte sameFte) sameSlots
  unfold ActFte.Carries
  rw [sameParams]
  constructor
  · intro carries action asked
    exact (carries action asked).2
  · intro same action asked
    refine ⟨?_, same action asked⟩
    rw [addRuleFg_action inner]
    exact or_and_ne_zero asked

def forwardReformat : FlowAct := ⟨0x14, false, none⟩

def reformatParams (reformat : Nat) : ActionParams :=
  ⟨none, some reformat, ⟨0, 0, 0⟩, ⟨0, 0, 0⟩⟩

def reformatFte : ActFte :=
  ((ActFte.alloc forwardReformat (reformatParams 1)).addRuleFg forwardReformat [.tir 1] false).1

theorem added_carries_same_reformat :
    (reformatFte.addRuleFg forwardReformat [.tir 2] false).1.Carries forwardReformat
      (reformatParams 1) := by
  refine (added_carries_iff reformatFte _ forwardReformat (reformatParams 1) [.tir 2] false [1]
    (Prod.ext rfl (by decide +kernel))).mpr ?_
  intro action _asked
  cases action <;> trivial

/-- A rule with another reformat is accepted and gets that of the first rule. -/
theorem added_with_other_reformat : (reformatFte.addRuleFg forwardReformat [.tir 2] false).2 = some [1] ∧
      ¬ (reformatFte.addRuleFg forwardReformat [.tir 2] false).1.Carries forwardReformat
        (reformatParams 2) := by
  refine ⟨by decide +kernel, ?_⟩
  intro carries
  have same := (carries .packetReformat (by decide)).2
  have impossible : (some 1 : Option Nat) = some 2 := same
  cases impossible

/-! ### Another destination -/

/-- What the functions read and write: a rule's destination, and the action of its entry. -/
structure RuleHeap where
  destAttr : Nat → FlowDest
  action : Nat → FlowActionBits

def einval : Int := -22

/-- `_mlx5_modify_rule_destination`; `err` is what the update of the entry returns. -/
def modifyDestination (heap : RuleHeap) (err : Int) (rule : Nat) (dest : FlowDest) : Int × RuleHeap :=
  if heap.action rule &&& actionFwdDest = 0 then (einval, heap)
  else (err, { heap with destAttr := update heap.destAttr rule dest })

def mlx5ModifyRuleDestination (heap : RuleHeap) (err : Int) (rules : List Nat)
    (newDest : FlowDest) (oldDest : Option FlowDest) : Int × RuleHeap :=
  match oldDest with
  | none =>
    match rules with
    | [rule] => modifyDestination heap err rule newDest
    | _ => (einval, heap)
  | some _ =>
    match rules.find? fun rule => mlx5FlowDestsCmp newDest (heap.destAttr rule) with
    | some rule => modifyDestination heap err rule newDest
    | none => (einval, heap)

/-- With success a rule that had the old destination has the new one, others as they were; with none the
call is refused and nothing changes. -/
structure Replaces (heap : RuleHeap) (rules : List Nat) (newDest oldDest : FlowDest)
    (result : Int × RuleHeap) : Prop where
  replaced : result.1 = 0 → ∃ rule ∈ rules, mlx5FlowDestsCmp oldDest (heap.destAttr rule) = true ∧
      result.2.destAttr = update heap.destAttr rule newDest
  absent : (∀ rule ∈ rules, mlx5FlowDestsCmp oldDest (heap.destAttr rule) = false) →
    result.1 = einval ∧ result.2.destAttr = heap.destAttr

variable {heap : RuleHeap} {err : Int} {rules : List Nat} {newDest oldDest : FlowDest}

private theorem mlx5FlowDestsCmp_symm {first second}
    (same : mlx5FlowDestsCmp first second = true) : mlx5FlowDestsCmp second first = true := by
  cases first <;> cases second <;> simp_all [mlx5FlowDestsCmp]
  grind

private theorem mlx5FlowDestsCmp_trans {first second third}
    (left : mlx5FlowDestsCmp first second = true) (right : mlx5FlowDestsCmp second third = true) :
    mlx5FlowDestsCmp first third = true := by
  cases first <;> cases second <;> cases third <;> simp_all [mlx5FlowDestsCmp]
  grind

/-- The rule found, if any. The call does what is asked where there is none, where it is refused or fails on
a handle with the old destination, or where the destinations are the same. -/
def FindsOld (heap : RuleHeap) (err : Int) (rules : List Nat) (newDest oldDest : FlowDest) : Prop :=
  match rules.find? fun rule => mlx5FlowDestsCmp newDest (heap.destAttr rule) with
  | none => True
  | some rule => heap.action rule &&& actionFwdDest = 0 ∨ mlx5FlowDestsCmp oldDest newDest = true ∨
      err ≠ 0 ∧ ((∃ other ∈ rules, mlx5FlowDestsCmp oldDest (heap.destAttr other) = true) ∨
        err = einval ∧ heap.destAttr rule = newDest)

private theorem refused_replaces (heap rules newDest oldDest) :
    Replaces heap rules newDest oldDest (einval, heap) where
  replaced success := absurd (show einval = 0 from success) (by decide)
  absent _ := ⟨rfl, rfl⟩

theorem modify_rule_destination_iff (heap : RuleHeap) (err : Int) (rules : List Nat)
    (newDest oldDest : FlowDest) :
    Replaces heap rules newDest oldDest (mlx5ModifyRuleDestination heap err rules newDest (some oldDest)) ↔
      FindsOld heap err rules newDest oldDest := by
  unfold mlx5ModifyRuleDestination FindsOld
  dsimp only
  cases found : rules.find? fun rule => mlx5FlowDestsCmp newDest (heap.destAttr rule) with
  | none => exact iff_of_true (refused_replaces heap rules newDest oldDest) trivial
  | some rule =>
    have member := mem_of_find?_eq_some found
    have isNew : mlx5FlowDestsCmp newDest (heap.destAttr rule) = true := by
      simpa using find?_some found
    unfold modifyDestination
    dsimp only
    split_ifs with refused
    · exact iff_of_true (refused_replaces heap rules newDest oldDest) (.inl refused)
    constructor
    · intro replaces
      refine .inr ?_
      by_cases success : err = 0
      · obtain ⟨other, otherMember, isOld, same⟩ := replaces.replaced success
        dsimp only at same
        refine .inl ?_
        by_cases isRule : other = rule
        · rw [isRule] at isOld
          exact mlx5FlowDestsCmp_trans isOld (mlx5FlowDestsCmp_symm isNew)
        · have value := congrFun same other
          rw [update_of_ne isRule, update_self] at value
          rw [value] at isOld
          exact isOld
      · by_cases present : ∃ other ∈ rules, mlx5FlowDestsCmp oldDest (heap.destAttr other) = true
        · exact .inr ⟨success, .inl present⟩
        have none other (otherMember : other ∈ rules) : mlx5FlowDestsCmp oldDest (heap.destAttr other) =
            false := by
          rw [← Bool.not_eq_true]
          exact fun isOld => present ⟨other, otherMember, isOld⟩
        obtain ⟨isEinval, same⟩ := replaces.absent none
        have value := congrFun same rule
        dsimp only at value
        rw [update_self] at value
        exact .inr ⟨success, .inr ⟨isEinval, value.symm⟩⟩
    · rintro (never | sameDest | ⟨failed, reason⟩)
      · exact absurd never refused
      · have isOld := mlx5FlowDestsCmp_trans sameDest isNew
        refine ⟨fun _ => ⟨rule, member, isOld, rfl⟩, ?_⟩
        intro none
        rw [none rule member] at isOld
        cases isOld
      refine ⟨fun success => absurd success failed, ?_⟩
      intro none
      rcases reason with ⟨other, otherMember, isOld⟩ | ⟨isEinval, value⟩
      · rw [none other otherMember] at isOld
        cases isOld
      · refine ⟨isEinval, ?_⟩
        rw [← value, update_eq_self]

def twoTirs : RuleHeap :=
  ⟨fun rule => .tir rule, fun _ => actionFwdDest⟩

/-- Asked to replace the first TIR by the second, it writes the second rule. -/
theorem other_rule_modified : (mlx5ModifyRuleDestination twoTirs 0 [0, 1] (.tir 1) (some (.tir 0))).1 = 0 ∧
      (mlx5ModifyRuleDestination twoTirs 0 [0, 1] (.tir 1) (some (.tir 0))).2.destAttr 0 = .tir 0 ∧
      ¬ Replaces twoTirs [0, 1] (.tir 1) (.tir 0)
        (mlx5ModifyRuleDestination twoTirs 0 [0, 1] (.tir 1) (some (.tir 0))) := by
  refine ⟨by decide, by decide, ?_⟩
  intro replaces
  obtain ⟨rule, member, isOld, same⟩ := replaces.replaced (by decide)
  have isFirst : rule = 0 := by
    rcases mem_pair.mp member with first | second
    · exact first
    · rw [second] at isOld
      exact absurd isOld (by decide)
  have value := congrFun same 0
  rw [isFirst, update_self] at value
  exact absurd value (by decide)

end MlnxOfed.FsCore
