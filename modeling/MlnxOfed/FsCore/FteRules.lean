/-
The rules of one flow table entry (fs_core.c): what adding and deleting handles do to its destinations, its
references and the device.

A rule is known by a number not used again. `withDest`, which the source does not keep, records whether it
was created with a destination; one without gets a destination of zeros. `dests_size` is 32 bits wide and
wraps below zero; no entry has 2^32 rules.
-/

import MlnxOfed.Lib.KeyedList
import Mathlib.Data.List.Dedup

namespace MlnxOfed.FsCore

open Option List Lib

inductive FtType where
  | nicRx
  | nicTx
  | eswEgressAcl
  | eswIngressAcl
  | fdb
  | snifferRx
  | snifferTx
  | rdmaRx
  | rdmaTx
  | portSel
  deriving DecidableEq

/-- What `dest_is_valid` reads of a flow table. -/
structure DestTable where
  id : Nat
  type : FtType
  level : Nat
  deriving DecidableEq

/-- `struct mlx5_flow_destination`; the reformat of a vport is known by its id. -/
inductive FlowDest where
  | vport (num vhcaId reformatId : Nat) (flags : BitVec 8)
  | flowTable (ft : DestTable)
  | tir (tirNum : Nat)
  | flowSampler (samplerId : Nat)
  | uplink
  | port
  | counter (counterId : Nat)
  | flowTableNum (ftNum : Nat)
  deriving DecidableEq

def destVportVhcaId : BitVec 8 := 1

def destVportReformatId : BitVec 8 := 2

def mlx5FlowDestsCmp : FlowDest → FlowDest → Bool
  | .vport num vhcaId reformatId flags, .vport num' vhcaId' reformatId' flags' =>
    num = num' && flags = flags' && (flags &&& destVportVhcaId = 0 || vhcaId = vhcaId') &&
      (flags &&& destVportReformatId = 0 || reformatId = reformatId')
  | .flowTable ft, .flowTable ft' => ft = ft'
  | .tir tirNum, .tir tirNum' => tirNum = tirNum'
  | .flowTableNum ftNum, .flowTableNum ftNum' => ftNum = ftNum'
  | .flowSampler samplerId, .flowSampler samplerId' => samplerId = samplerId'
  | _, _ => false

abbrev FlowActionBits := BitVec 32

def actionAllow : FlowActionBits := 0x1
def actionDrop : FlowActionBits := 0x2
def actionFwdDest : FlowActionBits := 0x4
def actionCount : FlowActionBits := 0x8

/-- The flags of `check_conflicting_actions`: drop, reformat, decap, header and VLAN. -/
def conflictingActions : FlowActionBits :=
  0x2 ||| 0x10 ||| 0x20 ||| 0x40 ||| 0x80 ||| 0x100 ||| 0x400 ||| 0x800

def modifyAction : BitVec 32 := 1 <<< 0
def modifyDestinationList : BitVec 32 := 1 <<< 2
def modifyFlowCounters : BitVec 32 := 1 <<< 3

/-- `struct mlx5_flow_act` and the tag of the flow context, where it has one. -/
structure FlowAct where
  action : FlowActionBits
  ignoreFlowLevel : Bool
  flowTag : Option Nat

def counterIsValid (action : FlowActionBits) : Bool :=
  action &&& (actionDrop ||| actionAllow ||| actionFwdDest) ≠ 0

def destIsValid (dest : FlowDest) (flowAct : FlowAct) (ft : DestTable) : Bool :=
  match dest with
  | .counter _ => counterIsValid flowAct.action
  | .flowTable destFt =>
    if flowAct.action &&& actionFwdDest = 0 then true
    else if flowAct.ignoreFlowLevel then
      (ft.type = .fdb || ft.type = .nicRx) && ft.type = destFt.type
    else ft.level < destFt.level
  | _ =>
    if flowAct.action &&& actionFwdDest = 0 then true
    else !flowAct.ignoreFlowLevel || ft.type = .fdb || ft.type = .nicRx

def checkConflictingActions (action1 action2 : FlowActionBits) : Bool :=
  if action1 = actionCount || action2 = actionCount then false
  else (action1 ^^^ action2) &&& conflictingActions ≠ 0

/-- `struct mlx5_flow_rule`. -/
structure FteRule where
  id : Nat
  destAttr : FlowDest
  withDest : Bool
  refcount : Nat
  parentSet : Bool

inductive FteCommand where
  | createFte
  | updateFte (modifyMask : BitVec 32)
  | deleteFte
  deriving DecidableEq

/-- `struct fs_fte`, with the commands sent to the device for it. -/
structure Fte where
  action : FlowActionBits
  flowTag : Nat
  destsSize : Nat
  modifyMask : BitVec 32
  children : List FteRule
  refcount : Nat
  active : Bool
  existing : Bool
  locked : Bool
  inGroup : Bool
  nextRule : Nat
  commands : List FteCommand

/-- `alloc_fte` and `insert_fte`. -/
def Fte.alloc (flowAct : FlowAct) : Fte where
  action := flowAct.action
  flowTag := flowAct.flowTag.getD 0
  destsSize := 0
  modifyMask := 0
  children := []
  refcount := 1
  active := false
  existing := false
  locked := false
  inGroup := true
  nextRule := 0
  commands := []

def zeroDest : FlowDest :=
  .vport 0 0 0 0

def u32Dec (n : Nat) : Nat :=
  if n = 0 then 2 ^ 32 - 1 else n - 1

def FteRule.addRef (rule : FteRule) : FteRule :=
  { rule with refcount := rule.refcount + 1 }

def FteRule.dropRef (rule : FteRule) : FteRule :=
  { rule with refcount := rule.refcount - 1 }

def FteRule.setParent (rule : FteRule) : FteRule :=
  { rule with parentSet := true }

namespace Fte

def rule? (fte : Fte) (id : Nat) : Option FteRule :=
  findKey FteRule.id fte.children id

def findFlowRule (fte : Fte) (dest : FlowDest) : Option FteRule :=
  fte.children.find? fun rule => mlx5FlowDestsCmp rule.destAttr dest

/-- A new rule in `create_flow_handle`: flow tables are at the end of the list. -/
def newRule (fte : Fte) (dest : Option FlowDest) : Fte :=
  let rule : FteRule := ⟨fte.nextRule, dest.getD zeroDest, dest.isSome, 1, false⟩
  let children := match dest with
    | none => fte.children ++ [rule]
    | some (.flowTable _) => fte.children ++ [rule]
    | some _ => rule :: fte.children
  { fte with
    children := children
    destsSize := if dest.isSome then fte.destsSize + 1 else fte.destsSize
    nextRule := fte.nextRule + 1 }

/-- A slot of the handle: the entry, its rule, the modify mask bits, and whether the rule is new. -/
def createSlot (fte : Fte) (dest : Option FlowDest) : Fte × Nat × BitVec 32 × Bool :=
  match dest.bind fte.findFlowRule with
  | some rule =>
    ({ fte with children := updateKey FteRule.id fte.children rule.id FteRule.addRef }, rule.id, 0, false)
  | none =>
    (fte.newRule dest, fte.nextRule, match dest with
      | none => 0
      | some (.counter _) => modifyFlowCounters
      | some _ => modifyDestinationList, true)

def createSlots (fte : Fte) : List (Option FlowDest) → Fte × List Nat × BitVec 32 × Bool
  | [] => (fte, [], 0, false)
  | dest :: rest =>
    let (fte, id, mask, isNew) := fte.createSlot dest
    let (fte, ids, restMask, restNew) := fte.createSlots rest
    (fte, id :: ids, mask ||| restMask, isNew || restNew)

/-- What `create_flow_handle` reads of an array `dest` of `num_dest` destinations, [] being NULL: of one that
is given the first, even where `num_dest` is 0. -/
def destsRead (dest : List FlowDest) (numDest : Nat) : List FlowDest :=
  dest.take (max numDest 1)

/-- The slots for the destinations read; where `dest` is NULL, [], one rule is made without. -/
def slotDests (dests : List FlowDest) : List (Option FlowDest) :=
  if dests = [] then [none] else dests.map some

def createFlowHandle (fte : Fte) (dests : List FlowDest) : Fte × List Nat × BitVec 32 × Bool :=
  fte.createSlots (slotDests dests)

/-- One slot of `destroy_flow_handle`. -/
def destroySlot (fte : Fte) (id : Nat) : Fte :=
  match fte.rule? id with
  | none => fte
  | some rule =>
    if rule.refcount = 1 then
      { fte with children := removeKey FteRule.id fte.children id, destsSize := u32Dec fte.destsSize }
    else { fte with children := updateKey FteRule.id fte.children id FteRule.dropRef }

def destroyFlowHandle (fte : Fte) (slots : List Nat) : Fte :=
  slots.reverse.foldl destroySlot fte

/-- `add_rule_fte`; the command for the device may fail. -/
def addRuleFte (fte : Fte) (dests : List FlowDest) (updateAction commandFails : Bool) :
    Fte × Option (List Nat) :=
  let (fte, slots, mask, isNew) := fte.createFlowHandle dests
  if isNew = false then (fte, some slots)
  else if commandFails then (fte.destroyFlowHandle slots, none)
  else
    let mask := if updateAction then mask ||| modifyAction else mask
    let command := if fte.existing then .updateFte mask else .createFte
    ({ fte with active := true, existing := true, commands := fte.commands ++ [command] }, some slots)

def treeAddNode (fte : Fte) (id : Nat) : Fte :=
  match fte.rule? id with
  | none => fte
  | some rule =>
    if rule.refcount = 1 then
      { fte with
        children := updateKey FteRule.id fte.children id FteRule.setParent
        refcount := fte.refcount + 1 }
    else fte

def checkConflictingFtes (fte : Fte) (flowAct : FlowAct) : Bool :=
  checkConflictingActions flowAct.action fte.action ||
    match flowAct.flowTag with
    | none => false
    | some tag => fte.flowTag ≠ tag

/-- `add_rule_fg`: no handle where the addition is refused or the command fails. -/
def addRuleFg (fte : Fte) (flowAct : FlowAct) (dests : List FlowDest) (commandFails : Bool) :
    Fte × Option (List Nat) :=
  if fte.checkConflictingFtes flowAct then (fte, none)
  else
    let oldAction := fte.action
    match ({ fte with action := oldAction ||| flowAct.action }).addRuleFte dests
        (oldAction ≠ flowAct.action) commandFails with
    | (fte, none) => ({ fte with action := oldAction }, none)
    | (fte, some slots) => (slots.foldl treeAddNode fte, some slots)

/-- The last part of `del_sw_hw_rule`. -/
def delForward (fte : Fte) : Fte :=
  if fte.action &&& actionFwdDest = 0 then fte
  else if u32Dec fte.destsSize = 0 then { fte with destsSize := u32Dec fte.destsSize }
  else
    { fte with
      destsSize := u32Dec fte.destsSize
      modifyMask := fte.modifyMask ||| modifyDestinationList }

/-- `del_sw_hw_rule` for counters and ports, which goes on where the count is zero. -/
def delCounted (fte : Fte) (mask : BitVec 32) (flag : FlowActionBits) : Fte :=
  if u32Dec fte.destsSize = 0 then ({ fte with destsSize := u32Dec fte.destsSize }).delForward
  else
    { fte with
      destsSize := u32Dec fte.destsSize
      modifyMask := fte.modifyMask ||| mask
      action := fte.action &&& ~~~flag }

def delSwHwRule (fte : Fte) : FlowDest → Fte
  | .counter _ => fte.delCounted (modifyAction ||| modifyFlowCounters) actionCount
  | .port => fte.delCounted modifyAction actionAllow
  | _ => fte.delForward

/-- `tree_remove_node` of a rule, under the entry's lock; without a parent its last reference is a null
pointer. -/
def treeRemoveNode (fte : Fte) (id : Nat) : Option Fte :=
  match fte.rule? id with
  | none => none
  | some rule =>
    if 1 < rule.refcount then
      some { fte with children := updateKey FteRule.id fte.children id FteRule.dropRef }
    else if rule.parentSet then
      let fte := { fte with
        children := removeKey FteRule.id fte.children id
        refcount := fte.refcount - 1 }
      some (fte.delSwHwRule rule.destAttr)
    else none

/-- The loop of `mlx5_del_flow_rules`, from the last slot to the first. -/
def removeSlots (fte : Fte) : List Nat → Option Fte
  | [] => some fte
  | id :: rest => (fte.treeRemoveNode id).bind fun fte => fte.removeSlots rest

def modifyFte (fte : Fte) : Fte :=
  { fte with commands := fte.commands ++ [.updateFte fte.modifyMask], modifyMask := 0 }

def delHwFte (fte : Fte) : Fte :=
  if fte.active then
    { fte with active := false, commands := fte.commands ++ [.deleteFte] }
  else fte

/-- `tree_put_node` of an entry whose deletion in the device is done. -/
def treePutNode (fte : Fte) : Fte :=
  { fte with
    refcount := fte.refcount - 1
    inGroup := if fte.refcount = 1 then false else fte.inGroup }

/-- The end of `mlx5_del_flow_rules`. Where rules are left and none is counted, lock and reference are kept.
-/
def finishDeletion (fte : Fte) : Fte :=
  if fte.destsSize ≠ 0 then
    if fte.modifyMask ≠ 0 then fte.modifyFte else fte
  else if fte.children = [] then fte.delHwFte.treePutNode
  else { fte with locked := true, refcount := fte.refcount + 1 }

/-- `mlx5_del_flow_rules`. The entry is found through the first rule's parent. -/
def mlx5DelFlowRules (fte : Fte) (slots : List Nat) : Option Fte :=
  match (slots.head?.bind fte.rule?).map FteRule.parentSet with
  | some true => (fte.removeSlots slots.reverse).map finishDeletion
  | _ => none

end Fte

/-! ### References

`held` are the slots of the live handles, one number for each slot. -/

namespace Fte

structure Slots (fte : Fte) (held : List Nat) : Prop where
  distinct : (fte.children.map FteRule.id).Nodup
  older : ∀ rule ∈ fte.children, rule.id < fte.nextRule
  refs : ∀ rule ∈ fte.children, rule.refcount = held.count rule.id
  used : ∀ rule ∈ fte.children, rule.id ∈ held
  listed : ∀ id ∈ held, id ∈ fte.children.map FteRule.id
  attached : fte.refcount = 1 + fte.children.countP FteRule.parentSet

/-- `dests_size` is the number of rules that were created with a destination. -/
structure Sized (fte : Fte) : Prop where
  size : fte.destsSize = fte.children.countP FteRule.withDest
  zeros : ∀ rule ∈ fte.children, rule.withDest = false → rule.destAttr = zeroDest

variable {fte next : Fte} {held rest : List Nat} {rule : FteRule}

variable (slots : Slots fte held)

include slots

theorem Slots.rule_eq (mem : rule ∈ fte.children) : fte.rule? rule.id = some rule :=
  findKey_eq_some slots.distinct mem

variable {id : Nat}

theorem Slots.exists_rule (inHeld : id ∈ held) : ∃ rule ∈ fte.children, rule.id = id := by
  obtain ⟨rule, mem, same⟩ := mem_map.mp (slots.listed id inHeld)
  exact ⟨rule, mem, same⟩

theorem Slots.perm (same : held.Perm rest) : Slots fte rest :=
  { slots with
    older := slots.older
    refs rule member := by rw [← same.count_eq]; exact slots.refs rule member
    used rule member := same.mem_iff.mp (slots.used rule member)
    listed id inRest := slots.listed id (same.mem_iff.mpr inRest) }

theorem Slots.replace (mem : rule ∈ fte.children) (after)
    (children : next.children.Perm (after :: removeKey FteRule.id fte.children rule.id))
    (sameId : after.id = rule.id) (nextRule : next.nextRule = fte.nextRule)
    (refs : after.refcount = rest.count rule.id) (used : rule.id ∈ rest)
    (others : ∀ id, id ≠ rule.id → rest.count id = held.count id)
    (refcount : next.refcount + (if rule.parentSet then 1 else 0) =
      fte.refcount + (if after.parentSet then 1 else 0)) : Slots next rest := by
  have before := perm_cons_removeKey slots.distinct mem
  have sameIds : (next.children.map FteRule.id).Perm (fte.children.map FteRule.id) := by
    refine (children.map _).trans ((before.map _).trans ?_).symm
    rw [map_cons, map_cons, sameId]
  have cases other (inNext : other ∈ next.children) : other = after ∨ other ∈ fte.children ∧ other.id ≠
      rule.id := by
    rcases mem_cons.mp (children.mem_iff.mp inNext) with same | inRest
    · exact .inl same
    · exact .inr (mem_removeKey.mp inRest)
  exact
    { distinct := sameIds.nodup_iff.mpr slots.distinct
      older other inNext := by
        rw [nextRule]
        rcases cases other inNext with rfl | ⟨old, -⟩
        · rw [sameId]; exact slots.older rule mem
        · exact slots.older other old
      refs other inNext := by
        rcases cases other inNext with rfl | ⟨old, apart⟩
        · rw [sameId]; exact refs
        · rw [others _ apart]; exact slots.refs other old
      used other inNext := by
        rcases cases other inNext with rfl | ⟨old, apart⟩
        · rw [sameId]; exact used
        · rw [← count_pos_iff, others _ apart, count_pos_iff]
          exact slots.used other old
      listed id inRest := by
        rw [sameIds.mem_iff]
        by_cases same : id = rule.id
        · rw [same]; exact mem_map_of_mem mem
        · refine slots.listed id ?_
          rw [← count_pos_iff, ← others id same, count_pos_iff]
          exact inRest
      attached := by
        have now := children.countP_eq FteRule.parentSet
        have then_ := before.countP_eq FteRule.parentSet
        have attached := slots.attached
        rw [countP_cons] at now then_
        omega }

omit slots in
theorem Slots.remove (slots : Slots fte (rule.id :: rest)) (member : rule ∈ fte.children)
    (last : rule.id ∉ rest) (children : next.children = removeKey FteRule.id fte.children rule.id)
    (nextRule : next.nextRule = fte.nextRule)
    (refcount : next.refcount + (if rule.parentSet then 1 else 0) = fte.refcount) :
    Slots next rest := by
  have before := perm_cons_removeKey slots.distinct member
  have inside other (inNext : other ∈ next.children) : other ∈ fte.children ∧ other.id ≠ rule.id := by
    rw [children] at inNext
    exact mem_removeKey.mp inNext
  exact
    { distinct := by
        have distinct := (before.map FteRule.id).nodup_iff.mp slots.distinct
        rw [map_cons, nodup_cons] at distinct
        rw [children]
        exact distinct.2
      older other inNext := by
        rw [nextRule]
        exact slots.older other (inside other inNext).1
      refs other inNext := by
        rw [slots.refs other (inside other inNext).1, count_cons_of_ne (Ne.symm (inside other inNext).2)]
      used other inNext :=
        (mem_cons.mp (slots.used other (inside other inNext).1)).resolve_left (inside other inNext).2
      listed id inRest := by
        have listed := slots.listed id (.tail _ inRest)
        rw [(before.map FteRule.id).mem_iff, map_cons, mem_cons] at listed
        rw [children]
        exact listed.resolve_left (fun same => last (same ▸ inRest))
      attached := by
        have then_ := before.countP_eq FteRule.parentSet
        have attached := slots.attached
        rw [countP_cons] at then_
        rw [children]
        omega }

theorem Slots.insert (newRule)
    (children : next.children.Perm (newRule :: fte.children)) (isNext : newRule.id = fte.nextRule)
    (nextRule : next.nextRule = fte.nextRule + 1) (refs : newRule.refcount = 1)
    (noParent : newRule.parentSet = false) (refcount : next.refcount = fte.refcount) :
    Slots next (fte.nextRule :: held) := by
  have absent : fte.nextRule ∉ held := by
    intro inHeld
    obtain ⟨other, mem, same⟩ := slots.exists_rule inHeld
    have older := slots.older other mem
    omega
  have cases other (inNext : other ∈ next.children) : other = newRule ∨ other ∈ fte.children :=
      mem_cons.mp (children.mem_iff.mp inNext)
  exact
    { distinct := by
        rw [(children.map FteRule.id).nodup_iff, map_cons, nodup_cons]
        refine ⟨?_, slots.distinct⟩
        intro inOld
        obtain ⟨other, mem, same⟩ := mem_map.mp inOld
        have older := slots.older other mem
        omega
      older other inNext := by
        rw [nextRule]
        rcases cases other inNext with rfl | old
        · omega
        · have older := slots.older other old
          omega
      refs other inNext := by
        rcases cases other inNext with rfl | old
        · rw [refs, isNext, count_cons_self, count_eq_zero.mpr absent]
        · have older := slots.older other old
          rw [slots.refs other old, count_cons_of_ne (by omega)]
      used other inNext := by
        rcases cases other inNext with rfl | old
        · rw [isNext]; exact .head _
        · exact .tail _ (slots.used other old)
      listed id inHeld := by
        rw [(children.map FteRule.id).mem_iff, map_cons, mem_cons, isNext]
        exact (mem_cons.mp inHeld).imp_right (slots.listed id)
      attached := by
        have now := children.countP_eq FteRule.parentSet
        have attached := slots.attached
        rw [countP_cons, noParent] at now
        simp only [Bool.false_eq_true, if_false] at now
        omega }

omit slots

theorem Sized.update (sized : Sized fte) (change : FteRule → FteRule)
    (sameWith : ∀ rule, (change rule).withDest = rule.withDest)
    (sameDest : ∀ rule, (change rule).destAttr = rule.destAttr)
    (children : next.children = updateKey FteRule.id fte.children id change)
    (size : next.destsSize = fte.destsSize) : Sized next := by
  constructor
  · rw [size, sized.size, children, updateKey, countP_map]
    refine countP_congr ?_
    intro rule _
    simp only [Function.comp]
    split
    · rw [sameWith]
    · exact .rfl
  intro rule mem without
  rw [children, updateKey] at mem
  obtain ⟨old, inside, rfl⟩ := mem_map.mp mem
  split at without
  · rw [if_pos ‹_›, sameDest]
    rw [sameWith] at without
    exact sized.zeros old inside without
  · rw [if_neg ‹_›]
    exact sized.zeros old inside without

/-! ### What an addition does -/

theorem newRule_perm (fte : Fte) (dest) : (fte.newRule dest).children.Perm
      (⟨fte.nextRule, dest.getD zeroDest, dest.isSome, 1, false⟩ :: fte.children) := by
  unfold newRule
  dsimp only
  split
  · exact perm_append_singleton _ _
  · exact perm_append_singleton _ _
  · exact .refl _

variable {dest : Option FlowDest}

theorem createSlot_found (found : dest.bind fte.findFlowRule = some rule) :
    fte.createSlot dest = ({ fte with children := updateKey FteRule.id fte.children rule.id FteRule.addRef },
      rule.id, 0, false) := by
  simp [createSlot, found]

theorem createSlot_new (absent : dest.bind fte.findFlowRule = none) :
    (fte.createSlot dest).1 = fte.newRule dest ∧ (fte.createSlot dest).2.1 = fte.nextRule ∧
      (fte.createSlot dest).2.2.2 = true := by
  simp [createSlot, absent]

theorem mem_of_findFlowRule (found : dest.bind fte.findFlowRule = some rule) :
    rule ∈ fte.children ∧ ∃ given, dest = some given ∧ mlx5FlowDestsCmp rule.destAttr given = true := by
  cases dest with
  | none => cases found
  | some given =>
    have matching := find?_some (p := fun rule : FteRule => mlx5FlowDestsCmp rule.destAttr given) found
    exact ⟨mem_of_find?_eq_some found, given, rfl, matching⟩

theorem createSlot_slots (slots : Slots fte held) (dest) :
    Slots (fte.createSlot dest).1 ((fte.createSlot dest).2.1 :: held) := by
  cases found : dest.bind fte.findFlowRule with
  | some rule =>
    obtain ⟨mem, -⟩ := mem_of_findFlowRule found
    rw [createSlot_found found]
    refine slots.replace mem rule.addRef (updateKey_perm slots.distinct mem _) rfl rfl
      ?_ (.head _) (fun id other => count_cons_of_ne (Ne.symm other)) rfl
    rw [count_cons_self, ← slots.refs rule mem]
    rfl
  | none =>
    obtain ⟨added, isNext, -⟩ := createSlot_new found
    rw [added, isNext]
    exact slots.insert _ (newRule_perm fte dest) rfl rfl rfl rfl rfl

private theorem createSlot_sized (sized : Sized fte) (dest) : Sized (fte.createSlot dest).1 := by
  cases found : dest.bind fte.findFlowRule with
  | some rule =>
    rw [createSlot_found found]
    exact sized.update FteRule.addRef (fun _ => rfl) (fun _ => rfl) rfl rfl
  | none =>
    obtain ⟨added, -⟩ := createSlot_new found
    have perm := newRule_perm fte dest
    rw [added]
    constructor
    · rw [perm.countP_eq, countP_cons, ← sized.size]
      simp only [newRule]
      split <;> simp_all
    intro other inNext without
    rcases mem_cons.mp (perm.mem_iff.mp inNext) with rfl | old
    · cases dest with
      | none => rfl
      | some given => cases without
    · exact sized.zeros other old without

theorem createSlots_cons (fte : Fte) (dest : Option FlowDest) (dests : List (Option FlowDest)) :
    (fte.createSlots (dest :: dests)).1 = ((fte.createSlot dest).1.createSlots dests).1 ∧
      (fte.createSlots (dest :: dests)).2.1 =
        (fte.createSlot dest).2.1 :: ((fte.createSlot dest).1.createSlots dests).2.1 ∧
      (fte.createSlots (dest :: dests)).2.2.2 = ((fte.createSlot dest).2.2.2 ||
        ((fte.createSlot dest).1.createSlots dests).2.2.2) :=
  ⟨rfl, rfl, rfl⟩

variable (dests : List (Option FlowDest))

theorem createSlots_slots {fte held} (slots : Slots fte held) :
    Slots (fte.createSlots dests).1 ((fte.createSlots dests).2.1 ++ held) := by
  induction dests generalizing fte held with
  | nil => exact slots
  | cons dest rest ih =>
    obtain ⟨entry, ids, -⟩ := createSlots_cons fte dest rest
    rw [entry, ids]
    exact (ih (createSlot_slots slots dest)).perm perm_middle

private theorem createSlots_sized {fte} (sized : Sized fte) : Sized (fte.createSlots dests).1 := by
  induction dests generalizing fte with
  | nil => exact sized
  | cons dest rest ih =>
    rw [(createSlots_cons fte dest rest).1]
    exact ih (createSlot_sized sized dest)

/-- What only `add_rule_fg` and the deletions write is as before. -/
structure SameFields (fte next : Fte) : Prop where
  action : next.action = fte.action
  locked : next.locked = fte.locked
  inGroup : next.inGroup = fte.inGroup
  active : next.active = fte.active
  commands : next.commands = fte.commands

theorem SameFields.refl (fte) : SameFields fte fte := ⟨rfl, rfl, rfl, rfl, rfl⟩

theorem SameFields.trans {last} (first : SameFields fte next) (second : SameFields next last) :
    SameFields fte last :=
  ⟨second.action.trans first.action, second.locked.trans first.locked,
    second.inGroup.trans first.inGroup, second.active.trans first.active,
    second.commands.trans first.commands⟩

theorem SameFields.foldl {change} (same : ∀ fte id, SameFields fte (change fte id))
    (ids : List Nat) (fte : Fte) : SameFields fte (ids.foldl change fte) := by
  induction ids generalizing fte with
  | nil => exact .refl fte
  | cons id rest ih => exact (same fte id).trans (ih _)

theorem createSlots_fields (fte) : SameFields fte (fte.createSlots dests).1 := by
  induction dests generalizing fte with
  | nil => exact .refl fte
  | cons dest rest ih =>
    rw [(createSlots_cons fte dest rest).1]
    refine SameFields.trans ?_ (ih _)
    cases found : dest.bind fte.findFlowRule with
    | some rule => rw [createSlot_found found]; exact ⟨rfl, rfl, rfl, rfl, rfl⟩
    | none => rw [(createSlot_new found).1]; exact ⟨rfl, rfl, rfl, rfl, rfl⟩

def NewOnce (fte : Fte) (dests : List FlowDest) : Prop :=
  dests.Pairwise fun dest later =>
    mlx5FlowDestsCmp dest later = true → (fte.findFlowRule dest).isSome = true

instance (fte : Fte) (dests : List FlowDest) : Decidable (NewOnce fte dests) :=
  inferInstanceAs (Decidable (List.Pairwise _ dests))

structure FreshRules (fte : Fte) (dests : List FlowDest) : Prop where
  once : ∀ rule ∈ fte.children, rule.parentSet = false → rule.refcount = 1
  unmatched : ∀ rule ∈ fte.children, rule.parentSet = false →
    ∀ dest ∈ dests, mlx5FlowDestsCmp rule.destAttr dest = false

private theorem createSlot_freshRules {dest dests} (slots : Slots fte held) (fresh : FreshRules fte (dest :: dests))
    (apart : fte.findFlowRule dest = none → ∀ later ∈ dests, mlx5FlowDestsCmp dest later = false) :
    FreshRules (fte.createSlot (some dest)).1 dests := by
  cases found : (some dest).bind fte.findFlowRule with
  | some rule =>
    obtain ⟨mem, given, same, matching⟩ := mem_of_findFlowRule found
    cases same
    have hasParent : rule.parentSet ≠ false := by
      intro noParent
      have unmatched := fresh.unmatched rule mem noParent dest (.head _)
      rw [matching] at unmatched
      cases unmatched
    rw [createSlot_found found]
    have after := updateKey_perm slots.distinct mem FteRule.addRef
    have old other (inNext : other ∈ updateKey FteRule.id fte.children rule.id FteRule.addRef)
        (noParent : other.parentSet = false) : other ∈ fte.children := by
      rcases mem_cons.mp (after.mem_iff.mp inNext) with rfl | inRest
      · exact absurd noParent hasParent
      · exact (mem_removeKey.mp inRest).1
    constructor
    · intro other inNext noParent
      exact fresh.once other (old other inNext noParent) noParent
    · intro other inNext noParent later inRest
      exact fresh.unmatched other (old other inNext noParent) noParent later (.tail _ inRest)
  | none =>
    rw [(createSlot_new found).1]
    have perm := newRule_perm fte (some dest)
    constructor
    · intro other inNext noParent
      rcases mem_cons.mp (perm.mem_iff.mp inNext) with rfl | old
      · rfl
      · exact fresh.once other old noParent
    · intro other inNext noParent later inRest
      rcases mem_cons.mp (perm.mem_iff.mp inNext) with rfl | old
      · exact apart found later inRest
      · exact fresh.unmatched other old noParent later (.tail _ inRest)

private theorem findFlowRule_createSlot (slots : Slots fte held) {dest}
    (known : (fte.findFlowRule dest).isSome = true) (slotDest) :
    ((fte.createSlot slotDest).1.findFlowRule dest).isSome = true := by
  unfold findFlowRule at known ⊢
  rw [find?_isSome] at known ⊢
  obtain ⟨rule, mem, matching⟩ := known
  cases found : slotDest.bind fte.findFlowRule with
  | some other =>
    obtain ⟨inside, -⟩ := mem_of_findFlowRule found
    have after := updateKey_perm slots.distinct inside FteRule.addRef
    rw [createSlot_found found]
    by_cases same : rule.id = other.id
    · have isOther := inj_on_of_nodup_map slots.distinct mem inside same
      subst isOther
      exact ⟨rule.addRef, after.mem_iff.mpr (.head _), matching⟩
    · refine ⟨rule, after.mem_iff.mpr (.tail _ ?_), matching⟩
      exact mem_removeKey.mpr ⟨mem, same⟩
  | none =>
    rw [(createSlot_new found).1]
    have perm := newRule_perm fte slotDest
    exact ⟨rule, perm.mem_iff.mpr (.tail _ mem), matching⟩

private theorem createSlots_freshRules (known : FlowDest → Prop) (dests) {fte}
    {held} (slots : Slots fte held) (fresh : FreshRules fte dests)
    (found : ∀ dest, known dest → (fte.findFlowRule dest).isSome = true)
    (once : dests.Pairwise fun dest later => mlx5FlowDestsCmp dest later = true → known dest) :
    FreshRules (fte.createSlots (dests.map some)).1 [] := by
  induction dests generalizing fte held with
  | nil => exact fresh
  | cons dest rest ih =>
    rw [map_cons, (createSlots_cons fte _ _).1]
    rw [pairwise_cons] at once
    refine ih (createSlot_slots slots _) ?_ ?_ once.2
    · refine createSlot_freshRules slots fresh ?_
      intro absent later inRest
      by_contra matching
      have isKnown := found dest (once.1 later inRest (by simpa using matching))
      rw [absent] at isKnown
      cases isKnown
    · intro other isKnown
      exact findFlowRule_createSlot slots (found other isKnown) _

theorem createSlots_parents (old : List Nat) (dests : List (Option FlowDest)) {fte}
    {held} (slots : Slots fte held) (start : ∀ id ∈ old, id < fte.nextRule)
    (parents : ∀ rule ∈ fte.children, rule.parentSet = true ↔ rule.id ∈ old) :
    ∀ rule ∈ (fte.createSlots dests).1.children, rule.parentSet = true ↔ rule.id ∈ old := by
  induction dests generalizing fte held with
  | nil => exact parents
  | cons dest rest ih =>
    rw [(createSlots_cons fte dest rest).1]
    have next := createSlot_slots slots dest
    refine ih next ?_ ?_
    · cases found : dest.bind fte.findFlowRule with
      | some rule => rw [createSlot_found found]; exact start
      | none =>
        rw [(createSlot_new found).1]
        exact fun id isOld => Nat.lt_succ_of_lt (start id isOld)
    cases found : dest.bind fte.findFlowRule with
    | some rule =>
      obtain ⟨mem, -⟩ := mem_of_findFlowRule found
      have after := updateKey_perm slots.distinct mem FteRule.addRef
      rw [createSlot_found found]
      intro other inNext
      rcases mem_cons.mp (after.mem_iff.mp inNext) with rfl | inRest
      · exact parents rule mem
      · exact parents other (mem_removeKey.mp inRest).1
    | none =>
      rw [(createSlot_new found).1]
      intro other inNext
      rcases mem_cons.mp ((newRule_perm fte dest).mem_iff.mp inNext) with rfl | before
      · simp only [Bool.false_eq_true, false_iff]
        exact fun isOld => lt_irrefl _ (start _ isOld)
      · exact parents other before

variable (ids : List Nat)

private theorem treeAddNodes_slots {fte} (slots : Slots fte held)
    (once : ∀ rule ∈ fte.children, rule.refcount = 1 → ids.count rule.id ≤ 1)
    (unset : ∀ rule ∈ fte.children, rule.refcount = 1 → rule.id ∈ ids → rule.parentSet = false) :
    Slots (ids.foldl treeAddNode fte) held ∧
      ((∀ rule ∈ fte.children, rule.parentSet = false → rule.refcount = 1 ∧ rule.id ∈ ids) →
        ∀ rule ∈ (ids.foldl treeAddNode fte).children, rule.parentSet = true) := by
  induction ids generalizing fte with
  | nil =>
    refine ⟨slots, ?_⟩
    intro all rule mem
    by_contra noParent
    have absent := (all rule mem (by simpa using noParent)).2
    cases absent
  | cons id rest ih =>
    have later rule (mem : rule ∈ fte.children) (single : rule.refcount = 1) : rest.count rule.id ≤ 1 :=
        le_trans (count_le_count_cons) (once rule mem single)
    have skip (same : treeAddNode fte id = fte) (shared : ∀ rule ∈ fte.children, rule.id = id → rule.refcount
        ≠ 1) : Slots ((id :: rest).foldl treeAddNode fte) held ∧ ((∀ rule ∈ fte.children, rule.parentSet =
        false → rule.refcount = 1 ∧ rule.id ∈ id :: rest) → ∀ rule ∈ ((id :: rest).foldl treeAddNode
        fte).children, rule.parentSet = true) := by
      rw [foldl_cons, same]
      obtain ⟨nextSlots, nextAll⟩ := ih slots later (fun rule mem single inRest =>
        unset rule mem single (.tail _ inRest))
      refine ⟨nextSlots, fun all => nextAll ?_⟩
      intro rule mem noParent
      obtain ⟨single, inIds⟩ := all rule mem noParent
      exact ⟨single, (mem_cons.mp inIds).resolve_left (fun isId => shared rule mem isId single)⟩
    cases found : fte.rule? id with
    | none =>
      refine skip (by simp only [treeAddNode, found]) ?_
      intro rule mem isId
      rw [← isId, slots.rule_eq mem] at found
      cases found
    | some rule =>
      obtain ⟨mem, isId⟩ := mem_of_findKey found
      by_cases single : rule.refcount = 1
      · have noParent := unset rule mem single (isId ▸ mem_cons_self)
        have step : treeAddNode fte id = { fte with
            children := updateKey FteRule.id fte.children rule.id FteRule.setParent
            refcount := fte.refcount + 1 } := by
          simp only [treeAddNode, found, if_pos single, isId]
        have after := updateKey_perm slots.distinct mem FteRule.setParent
        have before := perm_cons_removeKey slots.distinct mem
        have nextSlots : Slots (treeAddNode fte id) held := by
          rw [step]
          refine slots.replace mem rule.setParent after rfl rfl (slots.refs rule mem)
            (slots.used rule mem) (fun _ _ => rfl) ?_
          simp [noParent, FteRule.setParent]
        have cases other (inNext : other ∈ (treeAddNode fte id).children) : other = rule.setParent ∨ other ∈
            fte.children ∧ other.id ≠ rule.id := by
          rw [step] at inNext
          rcases mem_cons.mp (after.mem_iff.mp inNext) with same | inRest
          · exact .inl same
          · exact .inr (mem_removeKey.mp inRest)
        have notLater : rule.id ∉ rest := by
          have count := once rule mem single
          rw [← isId, count_cons_self] at count
          exact count_eq_zero.mp (by omega)
        have nextOnce other (inNext : other ∈ (treeAddNode fte id).children) (otherSingle : other.refcount =
            1) : rest.count other.id ≤ 1 := by
          rcases cases other inNext with rfl | ⟨old, -⟩
          · exact later rule mem single
          · exact later other old otherSingle
        have nextUnset other (inNext : other ∈ (treeAddNode fte id).children) (otherSingle : other.refcount =
            1) (inRest : other.id ∈ rest) : other.parentSet = false := by
          rcases cases other inNext with rfl | ⟨old, -⟩
          · exact absurd inRest notLater
          · exact unset other old otherSingle (.tail _ inRest)
        rw [foldl_cons]
        obtain ⟨endSlots, endAll⟩ := ih nextSlots nextOnce nextUnset
        refine ⟨endSlots, fun all => endAll ?_⟩
        intro other inNext otherNoParent
        rcases cases other inNext with rfl | ⟨old, apart⟩
        · cases otherNoParent
        · obtain ⟨otherSingle, inIds⟩ := all other old otherNoParent
          refine ⟨otherSingle, (mem_cons.mp inIds).resolve_left ?_⟩
          rw [← isId]
          exact apart
      · refine skip (by simp only [treeAddNode, found, if_neg single]) ?_
        intro other inside otherId otherSingle
        have same := inj_on_of_nodup_map slots.distinct inside mem (otherId.trans isId.symm)
        rw [same] at otherSingle
        exact single otherSingle

private theorem treeAddNodes_sized {fte} (sized : Sized fte) : Sized (ids.foldl treeAddNode fte) := by
  induction ids generalizing fte with
  | nil => exact sized
  | cons id rest ih =>
    rw [foldl_cons]
    refine ih ?_
    unfold treeAddNode
    split
    · exact sized
    · split
      · exact sized.update FteRule.setParent (fun _ => rfl) (fun _ => rfl) rfl rfl
      · exact sized

theorem treeAddNodes_fields (fte) : SameFields fte (ids.foldl treeAddNode fte) := by
  refine SameFields.foldl (fun fte id => ?_) ids fte
  unfold treeAddNode
  split
  · exact .refl fte
  · split <;> exact ⟨rfl, rfl, rfl, rfl, rfl⟩

private theorem createSlots_length (fte : Fte) : (fte.createSlots dests).2.1.length = dests.length := by
  induction dests generalizing fte with
  | nil => rfl
  | cons dest rest ih =>
    rw [(createSlots_cons fte dest rest).2.1, length_cons, length_cons, ih]

private theorem createFlowHandle_ne_nil (fte : Fte) (dests : List FlowDest) :
    (fte.createFlowHandle dests).2.1 ≠ [] := by
  intro empty
  have length := createSlots_length (slotDests dests) fte
  rw [createFlowHandle] at empty
  rw [empty, slotDests] at length
  split at length
  · cases length
  · next some =>
    rw [length_map, length_nil] at length
    exact some (length_eq_zero_iff.mp length.symm)

private theorem createSlots_old {fte : Fte} (given : dests ≠ [])
    (old : (fte.createSlots dests).2.2.2 = false) : fte.children ≠ [] := by
  cases dests with
  | nil => exact absurd rfl given
  | cons dest rest =>
    rw [(createSlots_cons fte dest rest).2.2, Bool.or_eq_false_iff] at old
    cases found : dest.bind fte.findFlowRule with
    | some rule =>
      exact ne_nil_of_mem (mem_of_findFlowRule found).1
    | none =>
      rw [(createSlot_new found).2.2] at old
      cases old.1

private theorem createFlowHandle_old (dests) {fte : Fte}
    (old : (fte.createFlowHandle dests).2.2.2 = false) : fte.children ≠ [] := by
  refine createSlots_old (slotDests dests) ?_ old
  intro empty
  unfold slotDests at empty
  split at empty
  · cases empty
  · next some => exact some (map_eq_nil_iff.mp empty)

private theorem createFlowHandle_freshRules (slots : Slots fte held) {dests}
    (parents : ∀ rule ∈ fte.children, rule.parentSet = true) (once : NewOnce fte dests) :
    ∀ rule ∈ (fte.createFlowHandle dests).1.children, rule.parentSet = false → rule.refcount = 1 := by
  have allSet rule (mem : rule ∈ fte.children) : rule.parentSet ≠ false := by
    rw [parents rule mem]
    exact Bool.true_eq_false.mp
  have noneFresh : FreshRules fte dests := ⟨fun rule mem noParent => absurd noParent (allSet rule mem),
      fun rule mem noParent => absurd noParent (allSet rule mem)⟩
  unfold createFlowHandle slotDests
  split
  · intro rule mem noParent
    rcases mem_cons.mp ((newRule_perm fte none).mem_iff.mp mem) with rfl | old
    · rfl
    · exact noneFresh.once rule old noParent
  · exact (createSlots_freshRules _ dests slots noneFresh (fun _ => id) once).once

structure Added (fte next : Fte) (ids held : List Nat) : Prop where
  slots : Slots next (ids ++ held)
  sized : Sized fte → Sized next
  parents : ∀ rule ∈ next.children, rule.parentSet = true
  nonempty : ids ≠ []
  locked : next.locked = fte.locked
  inGroup : next.inGroup = fte.inGroup
  active : next.active = true ∨ next.active = fte.active ∧ fte.children ≠ []
  commands : next.commands = fte.commands ∨
    ∃ command, next.commands = fte.commands ++ [command] ∧ command ≠ .deleteFte

theorem Slots.congr (slots : Slots fte held) (children : next.children = fte.children)
    (nextRule : next.nextRule = fte.nextRule) (refcount : next.refcount = fte.refcount) :
    Slots next held :=
  ⟨children ▸ slots.distinct, by rw [children, nextRule]; exact slots.older,
    children ▸ slots.refs, children ▸ slots.used, children ▸ slots.listed,
    by rw [children, refcount]; exact slots.attached⟩

theorem Sized.congr (sized : Sized fte) (children : next.children = fte.children)
    (size : next.destsSize = fte.destsSize) : Sized next :=
  ⟨by rw [children, size]; exact sized.size, children ▸ sized.zeros⟩

private theorem treeAddNodes_handle {dests} (made : Fte) (slots : Slots fte held)
    (parents : ∀ rule ∈ fte.children, rule.parentSet = true) (once : NewOnce fte dests)
    (children : made.children = (fte.createFlowHandle dests).1.children)
    (nextRule : made.nextRule = (fte.createFlowHandle dests).1.nextRule)
    (refcount : made.refcount = (fte.createFlowHandle dests).1.refcount) :
    Slots ((fte.createFlowHandle dests).2.1.foldl treeAddNode made) ((fte.createFlowHandle dests).2.1 ++ held) ∧
      ∀ rule ∈ ((fte.createFlowHandle dests).2.1.foldl treeAddNode made).children, rule.parentSet = true := by
  have handleSlots := createSlots_slots (slotDests dests) slots
  have madeSlots := handleSlots.congr children nextRule refcount
  have fresh := createFlowHandle_freshRules slots parents once
  have oldHeld id (inHeld : id ∈ held) : id < fte.nextRule := by
    obtain ⟨rule, mem, isId⟩ := slots.exists_rule inHeld
    rw [← isId]
    exact slots.older rule mem
  have older := createSlots_parents held (slotDests dests) slots oldHeld
    (fun rule mem => ⟨fun _ => slots.used rule mem, fun _ => parents rule mem⟩)
  have single rule (mem : rule ∈ made.children) (isOne : rule.refcount = 1) : (fte.createFlowHandle
      dests).2.1.count rule.id + held.count rule.id = 1 := by
    rw [← isOne, madeSlots.refs rule mem, count_append]
    rfl
  have unset rule (mem : rule ∈ made.children) (isOne : rule.refcount = 1) (inIds : rule.id ∈
      (fte.createFlowHandle dests).2.1) : rule.parentSet = false := by
    have total := single rule mem isOne
    have positive := count_pos_iff.mpr inIds
    by_contra hasParent
    rw [children] at mem
    have isOld := (older rule mem).mp (by simpa using hasParent)
    have again := count_pos_iff.mpr isOld
    omega
  obtain ⟨endSlots, all⟩ := treeAddNodes_slots (fte.createFlowHandle dests).2.1
    madeSlots (fun rule mem isOne => by have total := single rule mem isOne; omega) unset
  refine ⟨endSlots, all ?_⟩
  intro rule mem noParent
  rw [children] at mem
  refine ⟨fresh rule mem noParent, ?_⟩
  refine (mem_append.mp (handleSlots.used rule mem)).resolve_right ?_
  intro inHeld
  have hasParent := (older rule mem).mpr inHeld
  rw [noParent] at hasParent
  cases hasParent

variable {updateAction commandFails : Bool}

/-- The entry of `add_rule_fte` with a handle: nothing was new, or the device was told. -/
theorem addRuleFte_some {dests ids}
    (added : fte.addRuleFte dests updateAction commandFails = (next, some ids)) :
    ids = (fte.createFlowHandle dests).2.1 ∧
      ((fte.createFlowHandle dests).2.2.2 = false ∧ next = (fte.createFlowHandle dests).1 ∨
        ∃ command, command ≠ .deleteFte ∧ next = { (fte.createFlowHandle dests).1 with
          active := true
          existing := true
          commands := (fte.createFlowHandle dests).1.commands ++ [command] }) := by
  unfold addRuleFte at added
  dsimp only at added
  split at added
  · next nothing =>
    cases added
    exact ⟨rfl, .inl ⟨nothing, rfl⟩⟩
  · split at added
    · cases added
    · cases added
      refine ⟨rfl, .inr ⟨_, ?_, rfl⟩⟩
      split <;> exact nofun

theorem addRuleFte_none {dests} (refused : fte.addRuleFte dests updateAction commandFails = (next, none)) :
    next = (fte.createFlowHandle dests).1.destroyFlowHandle (fte.createFlowHandle dests).2.1 := by
  unfold addRuleFte at refused
  dsimp only at refused
  split at refused
  · cases refused
  · split at refused
    · cases refused
      rfl
    · cases refused

variable {flowAct : FlowAct}

theorem addRuleFg_added {dests ids} (slots : Slots fte held)
    (parents : ∀ rule ∈ fte.children, rule.parentSet = true) (once : NewOnce fte dests)
    {commandFails} (added : fte.addRuleFg flowAct dests commandFails = (next, some ids)) :
    Added fte next ids held := by
  unfold addRuleFg at added
  split at added
  · cases added
  dsimp only at added
  split at added
  · cases added
  next made handle given =>
  cases added
  generalize withAction : ({ fte with action := fte.action ||| flowAct.action } : Fte) = start at given
  have startChildren : start.children = fte.children := by rw [← withAction]
  have startSlots : Slots start held := by
    rw [← withAction]
    exact slots.congr rfl rfl rfl
  have startSized (sized : Sized fte) : Sized (start.createFlowHandle dests).1 := by
    rw [← withAction]
    exact createSlots_sized (slotDests dests) (sized.congr rfl rfl)
  have startParents : ∀ rule ∈ start.children, rule.parentSet = true := by
    rw [startChildren]
    exact parents
  have startOnce : NewOnce start dests := by
    rw [← withAction]
    exact once
  have fields := createSlots_fields (slotDests dests) start
  have startFields : start.locked = fte.locked ∧ start.inGroup = fte.inGroup ∧
      start.active = fte.active ∧ start.commands = fte.commands := by
    rw [← withAction]
    exact ⟨rfl, rfl, rfl, rfl⟩
  have ended := treeAddNodes_fields ids made
  obtain ⟨sameIds, kind⟩ := addRuleFte_some given
  have same : made.children = (start.createFlowHandle dests).1.children ∧
      made.nextRule = (start.createFlowHandle dests).1.nextRule ∧
      made.refcount = (start.createFlowHandle dests).1.refcount ∧
      made.destsSize = (start.createFlowHandle dests).1.destsSize ∧
      made.locked = (start.createFlowHandle dests).1.locked ∧
      made.inGroup = (start.createFlowHandle dests).1.inGroup := by
    obtain ⟨-, rfl⟩ | ⟨_, -, rfl⟩ := kind <;> exact ⟨rfl, rfl, rfl, rfl, rfl, rfl⟩
  obtain ⟨children, nextRule, refcount, size, madeLocked, madeInGroup⟩ := same
  obtain ⟨endSlots, endParents⟩ := treeAddNodes_handle made startSlots startParents startOnce
    children nextRule refcount
  rw [← sameIds] at endSlots endParents
  refine ⟨endSlots, fun sized => treeAddNodes_sized ids ((startSized sized).congr children size),
    endParents, sameIds ▸ createFlowHandle_ne_nil start dests,
    ended.locked.trans (madeLocked.trans (fields.locked.trans startFields.1)),
    ended.inGroup.trans (madeInGroup.trans (fields.inGroup.trans startFields.2.1)), ?_, ?_⟩
  · rw [ended.active]
    obtain ⟨nothing, rfl⟩ | ⟨_, -, rfl⟩ := kind
    · exact .inr ⟨fields.active.trans startFields.2.2.1, startChildren ▸ createFlowHandle_old dests nothing⟩
    · exact .inl rfl
  · rw [ended.commands, ← startFields.2.2.2]
    obtain ⟨-, rfl⟩ | ⟨command, notDelete, rfl⟩ := kind
    · exact .inl fields.commands
    · exact .inr ⟨command, congrArg (· ++ [command]) fields.commands, notDelete⟩

private theorem destroySlot_slots (slots : Slots fte (id :: rest))
    (older : ∀ rule ∈ fte.children, rule.parentSet = true → rule.id ∈ rest) :
    Slots (fte.destroySlot id) rest ∧ ∀ rule ∈ (fte.destroySlot id).children, ∃ old ∈ fte.children,
        rule.id = old.id ∧ rule.parentSet = old.parentSet := by
  obtain ⟨rule, mem, rfl⟩ := slots.exists_rule (.head _)
  have refs := slots.refs rule mem
  rw [count_cons_self] at refs
  unfold destroySlot
  rw [slots.rule_eq mem]
  dsimp only
  split
  · next single =>
    have last : rule.id ∉ rest := count_eq_zero.mp (by omega)
    have noParent : rule.parentSet = false := by
      by_contra hasParent
      exact last (older rule mem (by simpa using hasParent))
    refine ⟨slots.remove mem last rfl rfl (by simp [noParent]), ?_⟩
    intro other inNext
    exact ⟨other, (mem_removeKey.mp inNext).1, rfl, rfl⟩
  next several =>
  have again : rule.id ∈ rest := count_pos_iff.mp (by omega)
  have after := updateKey_perm slots.distinct mem FteRule.dropRef
  refine ⟨slots.replace mem rule.dropRef after rfl rfl ?_ again ?_ rfl, ?_⟩
  · simp only [FteRule.dropRef]
    omega
  · intro other apart
    rw [count_cons_of_ne (Ne.symm apart)]
  · intro other inNext
    rcases mem_cons.mp (after.mem_iff.mp inNext) with rfl | inRest
    · exact ⟨rule, mem, rfl, rfl⟩
    · exact ⟨other, (mem_removeKey.mp inRest).1, rfl, rfl⟩

variable {others : List Nat}

private theorem destroySlots_slots {fte} (slots : Slots fte (ids ++ others))
    (older : ∀ rule ∈ fte.children, rule.parentSet = true ↔ rule.id ∈ others) :
    Slots (ids.foldl destroySlot fte) others ∧
      ∀ rule ∈ (ids.foldl destroySlot fte).children, rule.parentSet = true := by
  induction ids generalizing fte with
  | nil => exact ⟨slots, fun rule mem => (older rule mem).mpr (slots.used rule mem)⟩
  | cons id rest ih =>
    obtain ⟨nextSlots, kinds⟩ := destroySlot_slots slots (fun rule mem hasParent =>
      mem_append_right _ ((older rule mem).mp hasParent))
    rw [foldl_cons]
    refine ih nextSlots ?_
    intro rule mem
    obtain ⟨old, inside, sameId, sameParent⟩ := kinds rule mem
    rw [sameId, sameParent]
    exact older old inside

private theorem destroySlots_fields (fte) : SameFields fte (ids.foldl destroySlot fte) := by
  refine SameFields.foldl (fun fte id => ?_) ids fte
  unfold destroySlot
  split
  · exact .refl fte
  · split <;> exact ⟨rfl, rfl, rfl, rfl, rfl⟩

theorem addRuleFg_failed {dests} (slots : Slots fte held)
    (parents : ∀ rule ∈ fte.children, rule.parentSet = true) {commandFails}
    (failed : fte.addRuleFg flowAct dests commandFails = (next, none)) :
    Slots next held ∧ (∀ rule ∈ next.children, rule.parentSet = true) ∧
      next.locked = fte.locked ∧ next.inGroup = fte.inGroup := by
  unfold addRuleFg at failed
  split at failed
  · cases failed
    exact ⟨slots, parents, rfl, rfl⟩
  dsimp only at failed
  split at failed
  · next made given =>
    cases failed
    generalize withAction : ({ fte with action := fte.action ||| flowAct.action } : Fte) = start at given
    have startSlots : Slots start held := by
      rw [← withAction]
      exact slots.congr rfl rfl rfl
    have startParents : ∀ rule ∈ start.children, rule.parentSet = true := by
      rw [← withAction]
      exact parents
    have startFields : start.locked = fte.locked ∧ start.inGroup = fte.inGroup := by
      rw [← withAction]
      exact ⟨rfl, rfl⟩
    have undone := addRuleFte_none given
    have handleSlots := createSlots_slots (slotDests dests) startSlots
    have older := createSlots_parents held (slotDests dests) startSlots
      (fun id inHeld => by
        obtain ⟨rule, mem, rfl⟩ := startSlots.exists_rule inHeld
        exact startSlots.older rule mem)
      (fun rule mem =>
        ⟨fun _ => startSlots.used rule mem, fun _ => startParents rule mem⟩)
    have reversed := handleSlots.perm
      ((reverse_perm (start.createSlots (slotDests dests)).2.1).symm.append_right held)
    obtain ⟨endSlots, endParents⟩ := destroySlots_slots _ reversed older
    have fields := (createSlots_fields (slotDests dests) start).trans
      (destroySlots_fields (start.createFlowHandle dests).2.1.reverse _)
    rw [undone]
    exact ⟨endSlots.congr rfl rfl rfl, endParents, fields.locked.trans startFields.1,
      fields.inGroup.trans startFields.2⟩
  · cases failed

/-! ### What a removal does -/

def isCounterOrPort : FlowDest → Bool
  | .counter _ => true
  | .port => true
  | _ => false

def forwards (fte : Fte) : Bool :=
  fte.action &&& actionFwdDest ≠ 0

def sizeAfter (forward : Bool) (size : Nat) (dest : FlowDest) : Nat :=
  if isCounterOrPort dest = true ∧ u32Dec size ≠ 0 then u32Dec size
  else
    let size := if isCounterOrPort dest then u32Dec size else size
    if forward then u32Dec size else size

theorem delForward_eq (fte : Fte) : ∃ mask, fte.delForward = { fte with
      destsSize := if fte.forwards then u32Dec fte.destsSize else fte.destsSize
      modifyMask := mask } := by
  unfold delForward
  by_cases none : fte.action &&& actionFwdDest = 0
  · have still : fte.forwards = false := by rw [forwards, none]; rfl
    exact ⟨fte.modifyMask, by rw [if_pos none, still]; rfl⟩
  · have forward : fte.forwards = true := by simpa only [forwards, ne_eq, decide_eq_true_eq]
    rw [if_neg none, forward]
    by_cases zero : u32Dec fte.destsSize = 0
    · exact ⟨fte.modifyMask, by rw [if_pos zero]; rfl⟩
    · exact ⟨fte.modifyMask ||| modifyDestinationList, by rw [if_neg zero]; rfl⟩

private theorem delCounted_eq (fte : Fte) (mask : BitVec 32) (flag : FlowActionBits)
    (apart : ~~~flag &&& actionFwdDest = actionFwdDest) :
    ∃ newMask newAction, fte.delCounted mask flag = { fte with
      destsSize := if u32Dec fte.destsSize ≠ 0 then u32Dec fte.destsSize
        else if fte.forwards then u32Dec (u32Dec fte.destsSize) else u32Dec fte.destsSize
      modifyMask := newMask
      action := newAction } ∧ newAction &&& actionFwdDest = fte.action &&& actionFwdDest := by
  unfold delCounted
  by_cases zero : u32Dec fte.destsSize = 0
  · obtain ⟨newMask, same⟩ := delForward_eq { fte with destsSize := u32Dec fte.destsSize }
    refine ⟨newMask, fte.action, ?_, rfl⟩
    rw [if_pos zero, same, if_neg (not_not.mpr zero)]
    rfl
  · refine ⟨fte.modifyMask ||| mask, fte.action &&& ~~~flag, ?_, ?_⟩
    · rw [if_neg zero, if_pos zero]
    · rw [BitVec.and_assoc, apart]

theorem delSwHwRule_eq (fte : Fte) (dest : FlowDest) : ∃ mask action, fte.delSwHwRule dest =
    { fte with destsSize := sizeAfter fte.forwards fte.destsSize dest, modifyMask := mask, action := action } ∧
    action &&& actionFwdDest = fte.action &&& actionFwdDest := by
  cases kind : isCounterOrPort dest with
  | true =>
    obtain ⟨mask, flag, same, apart⟩ : ∃ mask flag, fte.delSwHwRule dest =
        fte.delCounted mask flag ∧ ~~~flag &&& actionFwdDest = actionFwdDest := by
      cases dest with
      | counter counterId => exact ⟨_, _, rfl, by decide⟩
      | port => exact ⟨_, _, rfl, by decide⟩
      | _ => cases kind
    obtain ⟨mask, action, counted, forward⟩ := delCounted_eq fte mask flag apart
    refine ⟨mask, action, ?_, forward⟩
    rw [same, counted]
    simp only [sizeAfter, kind, true_and, if_true]
  | false =>
    have same : fte.delSwHwRule dest = fte.delForward := by
      cases dest with
      | counter counterId => cases kind
      | port => cases kind
      | _ => rfl
    obtain ⟨mask, forward⟩ := delForward_eq fte
    refine ⟨mask, fte.action, ?_, rfl⟩
    rw [same, forward]
    simp [sizeAfter, kind]

/-- Removals the count follows: of a destination in an entry that forwards, but no counter or port last; in
another entry, of a counter, a port or a rule without destination. -/
def CountsRight (forward : Bool) (size : Nat) (dest : FlowDest) (withDest : Bool) : Prop :=
  if forward then withDest = true ∧ (size = 1 → isCounterOrPort dest = false)
  else withDest = true → isCounterOrPort dest = true

private theorem sizeAfter_eq {forward withDest size dest}
    (right : CountsRight forward size dest withDest) (pos : withDest = true → 0 < size)
    (zeros : withDest = false → dest = zeroDest) :
    sizeAfter forward size dest = if withDest then size - 1 else size := by
  have plain : isCounterOrPort zeroDest = false := rfl
  unfold CountsRight at right
  unfold sizeAfter u32Dec
  cases withDest with
  | false =>
    cases forward with
    | true => exact absurd right.1 Bool.false_ne_true
    | false => simp [zeros rfl, plain]
  | true =>
    have some := pos rfl
    cases forward with
    | true =>
      simp only [if_true, true_and] at right
      cases kind : isCounterOrPort dest with
      | true =>
        have several : size ≠ 1 := fun one => by
          rw [right one] at kind
          cases kind
        have more : size - 1 ≠ 0 := by omega
        simp [Nat.ne_of_gt some, more]
      | false => simp [Nat.ne_of_gt some]
    | false =>
      simp only [Bool.false_eq_true, if_false, forall_const] at right
      simp [right, Nat.ne_of_gt some]

def SameKind (rule other : FteRule) : Prop :=
  rule.id = other.id ∧ rule.destAttr = other.destAttr ∧ rule.withDest = other.withDest

structure Shrinks (fte next : Fte) : Prop where
  kinds : ∀ rule ∈ next.children, ∃ old ∈ fte.children, SameKind rule old
  forwards : next.forwards = fte.forwards
  locked : next.locked = fte.locked
  inGroup : next.inGroup = fte.inGroup
  active : next.active = fte.active
  commands : next.commands = fte.commands

theorem Shrinks.refl (fte) : Shrinks fte fte :=
  ⟨fun rule mem => ⟨rule, mem, rfl, rfl, rfl⟩, rfl, rfl, rfl, rfl, rfl⟩

theorem Shrinks.trans {last} (first : Shrinks fte next) (second : Shrinks next last) : Shrinks fte last where
  kinds rule member := by
    obtain ⟨middle, inside, id, dest, withDest⟩ := second.kinds rule member
    obtain ⟨old, inOld, id', dest', withDest'⟩ := first.kinds middle inside
    exact ⟨old, inOld, id.trans id', dest.trans dest', withDest.trans withDest'⟩
  forwards := second.forwards.trans first.forwards
  locked := second.locked.trans first.locked
  inGroup := second.inGroup.trans first.inGroup
  active := second.active.trans first.active
  commands := second.commands.trans first.commands

theorem treeRemoveNode_cases (slots : Slots fte (id :: rest))
    (parents : ∀ rule ∈ fte.children, rule.parentSet = true) :
    ∃ rule ∈ fte.children, rule.id = id ∧ (id ∈ rest ∧ fte.treeRemoveNode id =
          some { fte with children := updateKey FteRule.id fte.children rule.id FteRule.dropRef } ∨
        id ∉ rest ∧ fte.treeRemoveNode id = some (({ fte with
            children := removeKey FteRule.id fte.children rule.id
            refcount := fte.refcount - 1 } : Fte).delSwHwRule rule.destAttr)) := by
  obtain ⟨rule, mem, isId⟩ := slots.exists_rule (.head _)
  have found := slots.rule_eq mem
  have refs := slots.refs rule mem
  rw [isId] at found
  rw [isId, count_cons_self] at refs
  refine ⟨rule, mem, isId, ?_⟩
  by_cases again : id ∈ rest
  · have several : 1 < rule.refcount := by
      have positive := count_pos_iff.mpr again
      omega
    exact .inl ⟨again, by simp only [treeRemoveNode, found, if_pos several, isId]⟩
  · have single : ¬ 1 < rule.refcount := by
      have none := count_eq_zero.mpr again
      omega
    refine .inr ⟨again, ?_⟩
    simp only [treeRemoveNode, found, if_neg single, parents rule mem, if_true, isId]

theorem treeRemoveNode_slots (slots : Slots fte (id :: rest))
    (parents : ∀ rule ∈ fte.children, rule.parentSet = true) :
    ∃ next, fte.treeRemoveNode id = some next ∧ Slots next rest ∧
      (∀ rule ∈ next.children, rule.parentSet = true) ∧ Shrinks fte next := by
  obtain ⟨rule, mem, isId, ⟨again, removed⟩ | ⟨last, removed⟩⟩ := treeRemoveNode_cases slots parents
  · have after := updateKey_perm slots.distinct mem FteRule.dropRef
    have cases other (inNext : other ∈ updateKey FteRule.id fte.children rule.id FteRule.dropRef) : other =
        rule.dropRef ∨ other ∈ fte.children := by
      rcases mem_cons.mp (after.mem_iff.mp inNext) with same | inRest
      · exact .inl same
      · exact .inr (mem_removeKey.mp inRest).1
    refine ⟨_, removed, ?_, ?_, ?_, rfl, rfl, rfl, rfl, rfl⟩
    · refine slots.replace mem rule.dropRef after rfl rfl ?_ (isId ▸ again) ?_ rfl
      · have refs := slots.refs rule mem
        rw [← isId, count_cons_self] at refs
        simp only [FteRule.dropRef]
        omega
      · intro other apart
        rw [count_cons_of_ne (by rw [← isId]; exact Ne.symm apart)]
    · intro other inNext
      rcases cases other inNext with rfl | old
      · exact parents rule mem
      · exact parents other old
    · intro other inNext
      rcases cases other inNext with rfl | old
      · exact ⟨rule, mem, rfl, rfl, rfl⟩
      · exact ⟨other, old, rfl, rfl, rfl⟩
  · obtain ⟨mask, action, same, forward⟩ := delSwHwRule_eq { fte with
      children := removeKey FteRule.id fte.children rule.id
      refcount := fte.refcount - 1 } rule.destAttr
    rw [same] at removed
    have attached := slots.attached
    have before := perm_cons_removeKey slots.distinct mem
    rw [before.countP_eq, countP_cons, parents rule mem] at attached
    simp only [if_true] at attached
    refine ⟨_, removed, ?_, ?_, ?_, ?_, rfl, rfl, rfl, rfl⟩
    · rw [← isId] at slots last
      refine slots.remove mem last rfl rfl ?_
      simp only [parents rule mem, if_true]
      omega
    · intro other inNext
      exact parents other (mem_removeKey.mp inNext).1
    · intro other inNext
      exact ⟨other, (mem_removeKey.mp inNext).1, rfl, rfl, rfl⟩
    · simp [forwards, forward]

private theorem treeRemoveNode_sized (slots : Slots fte (id :: rest)) (sized : Sized fte)
    (parents : ∀ rule ∈ fte.children, rule.parentSet = true)
    (right : id ∉ rest → ∀ rule ∈ fte.children, rule.id = id →
      CountsRight fte.forwards fte.destsSize rule.destAttr rule.withDest)
    (removed : fte.treeRemoveNode id = some next) :
    Sized next ∧ (id ∈ rest → next.destsSize = fte.destsSize) ∧
      (id ∉ rest → ∀ rule ∈ fte.children, rule.id = id →
        next.destsSize = if rule.withDest then fte.destsSize - 1 else fte.destsSize) := by
  obtain ⟨rule, mem, isId, ⟨again, kept⟩ | ⟨last, gone⟩⟩ := treeRemoveNode_cases slots parents
  · rw [kept] at removed
    cases removed
    exact ⟨sized.update FteRule.dropRef (fun _ => rfl) (fun _ => rfl) rfl rfl, fun _ => rfl,
      fun last => absurd again last⟩
  obtain ⟨mask, action, same, -⟩ := delSwHwRule_eq { fte with
    children := removeKey FteRule.id fte.children rule.id
    refcount := fte.refcount - 1 } rule.destAttr
  have before := perm_cons_removeKey slots.distinct mem
  have size := sized.size
  rw [before.countP_eq, countP_cons] at size
  have counted := sizeAfter_eq (right last rule mem isId)
    (fun withDest => by rw [withDest] at size; simp only [if_true] at size; omega)
    (sized.zeros rule mem)
  have sameForward : forwards { fte with
    children := removeKey FteRule.id fte.children rule.id
    refcount := fte.refcount - 1 } = fte.forwards := rfl
  rw [gone, same, sameForward] at removed
  cases removed
  rw [counted]
  refine ⟨⟨?_, ?_⟩, fun again => absurd again last, ?_⟩
  · dsimp only
    split
    · next withDest => simp only [withDest, if_true] at size; omega
    · next without => simp only [without] at size; exact size
  · intro other inNext without
    exact sized.zeros other (mem_removeKey.mp inNext).1 without
  · intro _ other inside otherId
    rw [inj_on_of_nodup_map slots.distinct inside mem (otherId.trans isId.symm)]

theorem removeSlots_slots {fte} (slots : Slots fte (ids ++ others))
    (parents : ∀ rule ∈ fte.children, rule.parentSet = true) :
    ∃ next, fte.removeSlots ids = some next ∧ Slots next others ∧
      (∀ rule ∈ next.children, rule.parentSet = true) ∧ Shrinks fte next := by
  induction ids generalizing fte with
  | nil => exact ⟨fte, rfl, slots, parents, Shrinks.refl fte⟩
  | cons id rest ih =>
    obtain ⟨middle, removed, middleSlots, middleParents, first⟩ := treeRemoveNode_slots slots parents
    obtain ⟨next, rested, nextSlots, nextParents, second⟩ := ih middleSlots middleParents
    refine ⟨next, ?_, nextSlots, nextParents, first.trans second⟩
    rw [removeSlots, removed, bind_some]
    exact rested

def RemovesRight (forward : Bool) (kind : Nat → FlowDest × Bool) : Nat → List Nat → Prop
  | _, [] => True
  | size, id :: rest =>
    CountsRight forward size (kind id).1 (kind id).2 ∧
      RemovesRight forward kind (if (kind id).2 then size - 1 else size) rest

private theorem removeSlots_sized (kind : Nat → FlowDest × Bool) (ids) {fte}
    (slots : Slots fte (ids ++ others)) (sized : Sized fte)
    (parents : ∀ rule ∈ fte.children, rule.parentSet = true)
    (kinds : ∀ rule ∈ fte.children, kind rule.id = (rule.destAttr, rule.withDest))
    (right : RemovesRight fte.forwards kind fte.destsSize (ids.dedup.filter fun id => id ∉ others))
    (removed : fte.removeSlots ids = some next) : Sized next := by
  induction ids generalizing fte with
  | nil =>
    cases removed
    exact sized
  | cons id rest ih =>
    obtain ⟨middle, first, middleSlots, middleParents, shrinks⟩ := treeRemoveNode_slots slots parents
    rw [removeSlots, first, bind_some] at removed
    have middleKinds rule (mem : rule ∈ middle.children) : kind rule.id = (rule.destAttr, rule.withDest) := by
      obtain ⟨old, inside, sameId, sameDest, sameWith⟩ := shrinks.kinds rule mem
      rw [sameId, sameDest, sameWith]
      exact kinds old inside
    by_cases held : id ∈ rest ++ others
    · -- The rule stays, so that it is not among those that go.
      obtain ⟨middleSized, same, -⟩ := treeRemoveNode_sized slots sized parents
        (fun last => absurd held last) first
      refine ih middleSlots middleSized middleParents middleKinds ?_ removed
      rw [shrinks.forwards, same held]
      have sameGone : ((id :: rest).dedup.filter fun id => id ∉ others) =
          rest.dedup.filter fun id => id ∉ others := by
        by_cases again : id ∈ rest
        · rw [dedup_cons_of_mem again]
        · have inOthers := (mem_append.mp held).resolve_left again
          rw [dedup_cons_of_notMem again, filter_cons_of_neg (by simpa using inOthers)]
      rw [← sameGone]
      exact right
    · rw [mem_append, not_or] at held
      rw [dedup_cons_of_notMem held.1, filter_cons_of_pos (by simpa using held.2)] at right
      obtain ⟨now, later⟩ := right
      obtain ⟨rule, mem, isId⟩ := slots.exists_rule (.head _)
      have isKind := kinds rule mem
      rw [isId] at isKind
      rw [isKind] at now later
      have unique other (inside : other ∈ fte.children) (otherId : other.id = id) : other = rule :=
          inj_on_of_nodup_map slots.distinct inside mem (otherId.trans isId.symm)
      obtain ⟨middleSized, -, counted⟩ := treeRemoveNode_sized slots sized parents
        (fun _ other inside otherId => by rw [unique other inside otherId]; exact now) first
      refine ih middleSlots middleSized middleParents middleKinds ?_ removed
      rw [shrinks.forwards, counted (by simpa using held) rule mem isId]
      exact later

/-! ### Deletions that the count follows -/

def kindOf (fte : Fte) (id : Nat) : FlowDest × Bool :=
  match fte.rule? id with
  | some rule => (rule.destAttr, rule.withDest)
  | none => (zeroDest, false)

/-- The rules that go with a handle, which has all their references, in order of removal. -/
def goneRules (fte : Fte) (slots : List Nat) : List Nat :=
  slots.reverse.dedup.filter fun id =>
    (fte.rule? id).any fun rule => rule.refcount = slots.count id

/-- In an entry that forwards only rules with a destination go, no counter or port last; in another those
that go are counters or ports; and some destination stays, or nothing does. -/
@[mk_iff]
structure DeletesRight (fte : Fte) (slots : List Nat) : Prop where
  given : fte.forwards = true → ∀ id ∈ fte.goneRules slots, (fte.kindOf id).2 = true
  last : fte.forwards = true → (fte.goneRules slots).length = fte.destsSize →
    ∀ id ∈ (fte.goneRules slots).getLast?, isCounterOrPort (fte.kindOf id).1 = false
  counted : fte.forwards = false → ∀ id ∈ fte.goneRules slots,
    (fte.kindOf id).2 = true → isCounterOrPort (fte.kindOf id).1 = true
  left : (∀ rule ∈ fte.children, rule.id ∈ fte.goneRules slots) ∨
    ∃ rule ∈ fte.children, rule.withDest = true ∧ rule.id ∉ fte.goneRules slots

instance (fte : Fte) (slots : List Nat) : Decidable (DeletesRight fte slots) :=
  decidable_of_iff' _ (deletesRight_iff fte slots)

theorem kindOf_eq (slots : Slots fte held) (mem : rule ∈ fte.children) :
    fte.kindOf rule.id = (rule.destAttr, rule.withDest) := by
  simp [kindOf, slots.rule_eq mem]

theorem goneRules_eq {slots others} (held : Slots fte (slots ++ others)) :
    fte.goneRules slots = slots.reverse.dedup.filter fun id => id ∉ others := by
  refine filter_congr ?_
  intro id mem
  rw [mem_dedup, mem_reverse] at mem
  obtain ⟨rule, inside, isId⟩ := held.exists_rule (mem_append_left others mem)
  have refs := held.refs rule inside
  rw [← isId, held.rule_eq inside]
  rw [count_append] at refs
  rw [any_some, decide_eq_decide, ← count_eq_zero]
  omega

theorem mem_goneRules {slots others} (held : Slots fte (slots ++ others)) :
    id ∈ fte.goneRules slots ↔ id ∈ slots ∧ id ∉ others := by
  rw [goneRules_eq held, mem_filter, mem_dedup, mem_reverse, decide_eq_true_eq]

private theorem goneRules_length_le {slots others} (held : Slots fte (slots ++ others))
    (sized : Sized fte) (given : ∀ id ∈ fte.goneRules slots, (fte.kindOf id).2 = true) :
    (fte.goneRules slots).length ≤ fte.destsSize := by
  have apart : (fte.goneRules slots).Nodup := (nodup_dedup _).filter _
  have inside : fte.goneRules slots ⊆
      (fte.children.filter FteRule.withDest).map FteRule.id := by
    intro id mem
    obtain ⟨rule, inChildren, isId⟩ := held.exists_rule
      (mem_append_left others ((mem_goneRules held).mp mem).1)
    have isGiven := given id mem
    rw [← isId, kindOf_eq held inChildren] at isGiven
    rw [← isId]
    exact mem_map_of_mem (mem_filter.mpr ⟨inChildren, isGiven⟩)
  have bound := (subperm_of_subset apart inside).length_le
  rw [length_map, ← countP_eq_length_filter, ← sized.size] at bound
  exact bound

variable {kind : Nat → FlowDest × Bool}

private theorem removesRight_of_forward (ids size) (given : ∀ id ∈ ids, (kind id).2 = true) (few : ids.length ≤ size)
    (last : ids.length = size → ∀ id ∈ ids.getLast?, isCounterOrPort (kind id).1 = false) :
    RemovesRight true kind size ids := by
  induction ids generalizing size with
  | nil => trivial
  | cons id rest ih =>
    have isGiven := given id (.head _)
    rw [length_cons] at few last
    refine ⟨⟨isGiven, ?_⟩, ?_⟩
    · intro one
      have empty : rest = [] := length_eq_zero_iff.mp (by omega)
      subst empty
      exact last (by rw [one]; rfl) id rfl
    rw [isGiven, if_pos rfl]
    refine ih (size - 1) (fun other inRest => given other (.tail _ inRest)) (by omega) ?_
    intro all other isLast
    refine last (by omega) other ?_
    cases rest with
    | nil => cases isLast
    | cons head tail => rw [getLast?_cons_cons]; exact isLast

private theorem removesRight_of_still (ids size)
    (counted : ∀ id ∈ ids, (kind id).2 = true → isCounterOrPort (kind id).1 = true) :
    RemovesRight false kind size ids := by
  induction ids generalizing size with
  | nil => trivial
  | cons id rest ih =>
    exact ⟨counted id (.head _), ih _ (fun other inRest => counted other (.tail _ inRest))⟩

theorem DeletesRight.removesRight {slots others} (right : DeletesRight fte slots)
    (held : Slots fte (slots ++ others)) (sized : Sized fte) :
    RemovesRight fte.forwards fte.kindOf fte.destsSize (fte.goneRules slots) := by
  cases forward : fte.forwards with
  | true =>
    exact removesRight_of_forward _ _ (right.given forward)
      (goneRules_length_le held sized (right.given forward)) (right.last forward)
  | false => exact removesRight_of_still _ _ (right.counted forward)

theorem removeSlots_right {slots others} (right : DeletesRight fte slots)
    (held : Slots fte (slots ++ others)) (sized : Sized fte)
    (parents : ∀ rule ∈ fte.children, rule.parentSet = true) :
    ∃ next, fte.removeSlots slots.reverse = some next ∧ Slots next others ∧ Sized next ∧
      (∀ rule ∈ next.children, rule.parentSet = true) ∧ Shrinks fte next ∧
      (next.destsSize = 0 ↔ next.children = []) := by
  have reversed : Slots fte (slots.reverse ++ others) :=
    held.perm ((reverse_perm slots).symm.append_right others)
  obtain ⟨next, removed, nextSlots, nextParents, shrinks⟩ := removeSlots_slots _ reversed parents
  have removes := right.removesRight held sized
  rw [goneRules_eq held] at removes
  have nextSized := removeSlots_sized fte.kindOf _ reversed sized parents
    (fun rule mem => kindOf_eq held mem) removes removed
  refine ⟨next, removed, nextSlots, nextSized, nextParents, shrinks, ?_⟩
  constructor
  · intro none
    by_contra some
    obtain ⟨rule, mem⟩ := exists_mem_of_ne_nil _ some
    obtain ⟨old, inside, sameId, -⟩ := shrinks.kinds rule mem
    have inOthers := nextSlots.used rule mem
    rw [sameId] at inOthers
    rcases right.left with all | ⟨stays, inChildren, withDest, notGone⟩
    · exact ((mem_goneRules held).mp (all old inside)).2 inOthers
    -- A destination that stays is still counted.
    have stillHeld : stays.id ∈ others := by
      have inHeld := mem_append.mp (held.used stays inChildren)
      by_contra notHeld
      exact notGone ((mem_goneRules held).mpr ⟨inHeld.resolve_right notHeld, notHeld⟩)
    obtain ⟨now, inNext, isId⟩ := nextSlots.exists_rule stillHeld
    obtain ⟨before, inBefore, beforeId, -, sameWith⟩ := shrinks.kinds now inNext
    have same := inj_on_of_nodup_map held.distinct inBefore inChildren (beforeId.symm.trans isId)
    rw [same, withDest] at sameWith
    have positive := countP_pos_iff.mpr ⟨now, inNext, sameWith⟩
    have size := nextSized.size
    omega
  · intro empty
    rw [nextSized.size, empty, countP_nil]

end Fte

end MlnxOfed.FsCore
