/-
A failing addition to a flow table entry: what was made for the handle is undone slot by slot and the entry
is as before, unless the device refuses a handle without a destination: its only rule was not counted, and
is taken off the count. No destination, `[]`, is `dest = NULL`.
-/

import MlnxOfed.FsCore.FteAccounting

namespace MlnxOfed.FsCore

open Function List Lib FteRule Fte

inductive AddFailure where
  | allocHandle
  | allocRule (slot : Nat)
  | command

namespace Fte

/-- `create_flow_handle` where a slot's rule cannot be allocated; no failure where its destination has one.
-/
def createFlowHandleFails (fte : Fte) (dests : List FlowDest) (slot : Nat) : Option Fte :=
  match (slotDests dests)[slot]? with
  | none => none
  | some dest =>
    let made := fte.createSlots ((slotDests dests).take slot)
    match dest.bind made.1.findFlowRule with
    | some _ => none
    | none => some (made.1.destroyFlowHandle made.2.1)

/-- `add_rule_fte` where something fails; no command is sent where no rule is new. -/
def addRuleFteFails (fte : Fte) (dests : List FlowDest) (updateAction : Bool) : AddFailure → Option Fte
  | .allocHandle => some fte
  | .allocRule slot => fte.createFlowHandleFails dests slot
  | .command =>
    match fte.addRuleFte dests updateAction true with
    | (_, some _) => none
    | (next, none) => some next

/-- `add_rule_fg` where something fails. -/
def addRuleFgFails (fte : Fte) (flowAct : FlowAct) (dests : List FlowDest)
    (failure : AddFailure) : Option Fte :=
  if fte.checkConflictingFtes flowAct then none
  else
    let oldAction := fte.action
    (({ fte with action := oldAction ||| flowAct.action }).addRuleFteFails dests
      (oldAction ≠ flowAct.action) failure).map fun (next : Fte) => { next with action := oldAction }

/-! ### Rules and their numbers -/

structure Numbered (fte : Fte) : Prop where
  distinct : (fte.children.map FteRule.id).Nodup
  older : ∀ rule ∈ fte.children, rule.id < fte.nextRule
  referenced : ∀ rule ∈ fte.children, 1 ≤ rule.refcount

variable {fte next : Fte} {rule : FteRule}

variable (numbered : Numbered fte)

include numbered

theorem Numbered.congr (children : next.children = fte.children)
    (nextRule : next.nextRule = fte.nextRule) : Numbered next :=
  ⟨children ▸ numbered.distinct, by rw [children, nextRule]; exact numbered.older,
    children ▸ numbered.referenced⟩

variable {id : Nat}

theorem Numbered.update (change : FteRule → FteRule) (sameId : ∀ rule, (change rule).id = rule.id)
    (referenced : ∀ rule ∈ fte.children, rule.id = id → 1 ≤ (change rule).refcount)
    (children : next.children = updateKey FteRule.id fte.children id change)
    (nextRule : next.nextRule = fte.nextRule) : Numbered next := by
  have sameIds : next.children.map FteRule.id = fte.children.map FteRule.id := by
    rw [children, updateKey, map_map]
    refine map_congr_left ?_
    intro rule _
    simp only [comp]
    split
    · exact sameId rule
    · rfl
  constructor
  · rw [sameIds]
    exact numbered.distinct
  · intro rule mem
    have inOld : rule.id ∈ fte.children.map FteRule.id := sameIds ▸ mem_map_of_mem mem
    obtain ⟨old, inside, same⟩ := mem_map.mp inOld
    rw [← same, nextRule]
    exact numbered.older old inside
  intro rule mem
  rw [children, updateKey] at mem
  obtain ⟨old, inside, rfl⟩ := mem_map.mp mem
  split
  · exact referenced old inside ‹_›
  · exact numbered.referenced old inside

theorem Numbered.remove (children : next.children = removeKey FteRule.id fte.children id)
    (nextRule : next.nextRule = fte.nextRule) : Numbered next where
  distinct := by
    rw [children]
    exact numbered.distinct.sublist (filter_sublist.map _)
  older rule member := by
    rw [children] at member
    rw [nextRule]
    exact numbered.older rule (mem_removeKey.mp member).1
  referenced rule member := by
    rw [children] at member
    exact numbered.referenced rule (mem_removeKey.mp member).1

theorem Numbered.insert (newRule)
    (children : next.children.Perm (newRule :: fte.children)) (isNext : newRule.id = fte.nextRule)
    (nextRule : next.nextRule = fte.nextRule + 1) (referenced : 1 ≤ newRule.refcount) :
    Numbered next where
  distinct := by
    rw [(children.map FteRule.id).nodup_iff, map_cons, nodup_cons, isNext]
    refine ⟨?_, numbered.distinct⟩
    intro inOld
    obtain ⟨old, inside, same⟩ := mem_map.mp inOld
    have before := numbered.older old inside
    omega
  older rule member := by
    rw [nextRule]
    rcases mem_cons.mp (children.mem_iff.mp member) with rfl | old
    · omega
    · have before := numbered.older rule old
      omega
  referenced rule member := by
    rcases mem_cons.mp (children.mem_iff.mp member) with rfl | old
    · exact referenced
    · exact numbered.referenced rule old

variable (dest : Option FlowDest)

theorem Numbered.createSlot : Numbered (fte.createSlot dest).1 := by
  cases found : dest.bind fte.findFlowRule with
  | some rule =>
    rw [createSlot_found found]
    exact numbered.update addRef (fun _ => rfl) (fun _ _ _ => Nat.le_add_left 1 _)
      rfl rfl
  | none =>
    rw [(createSlot_new found).1]
    exact numbered.insert _ (newRule_perm fte dest) rfl rfl (Nat.le_refl 1)

omit numbered

theorem Numbered.createSlots (dests : List (Option FlowDest)) {fte}
    (numbered : Numbered fte) : Numbered (fte.createSlots dests).1 := by
  induction dests generalizing fte with
  | nil => exact numbered
  | cons dest rest ih =>
    rw [(createSlots_cons fte dest rest).1]
    exact ih (numbered.createSlot dest)

theorem Numbered.treeAddNodes (ids : List Nat) {fte} (numbered : Numbered fte) :
    Numbered (ids.foldl treeAddNode fte) := by
  induction ids generalizing fte with
  | nil => exact numbered
  | cons id rest ih =>
    rw [foldl_cons]
    refine ih ?_
    unfold treeAddNode
    split
    · exact numbered
    · split
      · exact numbered.update setParent (fun _ => rfl)
          (fun rule mem _ => numbered.referenced rule mem) rfl rfl
      · exact numbered

variable (numbered : Numbered fte)

include numbered

theorem Numbered.treeRemoveNode (removed : fte.treeRemoveNode id = some next) : Numbered next := by
  unfold Fte.treeRemoveNode at removed
  split at removed
  · cases removed
  next rule found =>
  obtain ⟨mem, isId⟩ := mem_of_findKey found
  split at removed
  · next several =>
    cases removed
    refine numbered.update FteRule.dropRef (fun _ => rfl) ?_ rfl rfl
    intro other inside same
    rw [inj_on_of_nodup_map numbered.distinct inside mem (same.trans isId.symm), FteRule.dropRef]
    dsimp only
    omega
  split at removed
  · cases removed
    obtain ⟨mask, action, same, -⟩ := delSwHwRule_eq { fte with
      children := removeKey FteRule.id fte.children id
      refcount := fte.refcount - 1 } rule.destAttr
    rw [same]
    exact numbered.remove rfl rfl
  · cases removed

omit numbered in
theorem Numbered.removeSlots (ids) {fte} (numbered : Numbered fte)
    (removed : fte.removeSlots ids = some next) : Numbered next := by
  induction ids generalizing fte with
  | nil =>
    cases removed
    exact numbered
  | cons id rest ih =>
    rw [Fte.removeSlots] at removed
    obtain ⟨middle, first, rested⟩ := Option.bind_eq_some_iff.mp removed
    exact ih (numbered.treeRemoveNode first) rested

theorem Numbered.finishDeletion : Numbered fte.finishDeletion := by
  unfold Fte.finishDeletion
  split
  · split
    · exact numbered.congr rfl rfl
    · exact numbered
  · split
    · unfold delHwFte treePutNode
      split <;> exact numbered.congr rfl rfl
    · exact numbered.congr rfl rfl

variable {slots : List Nat}

theorem Numbered.mlx5DelFlowRules (deleted : fte.mlx5DelFlowRules slots = some next) : Numbered next := by
  unfold Fte.mlx5DelFlowRules at deleted
  split at deleted
  · obtain ⟨removed, loop, rfl⟩ := Option.map_eq_some_iff.mp deleted
    exact (numbered.removeSlots _ loop).finishDeletion
  · cases deleted

variable {dests : List FlowDest} {flowAct : FlowAct}

theorem Numbered.addRuleFg (added : fte.addRuleFg flowAct dests false = (next, some slots)) :
    Numbered next := by
  unfold Fte.addRuleFg at added
  split at added
  · cases added
  dsimp only at added
  split at added
  · cases added
  next made handle given =>
  cases added
  refine Numbered.treeAddNodes slots ?_
  have start : Numbered { fte with action := fte.action ||| flowAct.action } :=
    numbered.congr rfl rfl
  obtain ⟨-, ⟨-, same⟩ | ⟨command, -, same⟩⟩ := addRuleFte_some given
  · rw [same]
    exact start.createSlots (slotDests dests)
  · rw [same]
    exact (start.createSlots (slotDests dests)).congr rfl rfl

/-! ### What a failure undoes -/

omit numbered in
def Undone (fte next : Fte) : Prop :=
  ∃ nextRule, fte.nextRule ≤ nextRule ∧ next = { fte with nextRule := nextRule }

omit numbered in
theorem Undone.refl (fte) : Undone fte fte := ⟨fte.nextRule, le_rfl, rfl⟩

theorem Numbered.of_undone (undone : Undone fte next) : Numbered next := by
  obtain ⟨nextRule, grown, rfl⟩ := undone
  exact { numbered with
    older rule member := lt_of_lt_of_le (numbered.older rule member) grown }

omit numbered in
private theorem destroySlot_nextRule (fte : Fte) (nextRule id : Nat) :
    ({ fte with nextRule := nextRule }).destroySlot id =
      { fte.destroySlot id with nextRule := nextRule } := by
  unfold destroySlot rule?
  dsimp only
  split
  · rfl
  · split <;> rfl

omit numbered in
private theorem updateKey_dropRef (children id) :
    updateKey FteRule.id (updateKey FteRule.id children id addRef) id dropRef = children := by
  rw [updateKey, updateKey, map_map]
  refine (map_congr_left ?_).trans (map_id _)
  intro rule _
  simp only [comp]
  by_cases same : rule.id = id
  · rw [if_pos same, if_pos (show rule.addRef.id = id from same)]
    rfl
  · rw [if_neg same, if_neg same]
    rfl

private theorem removeKey_newRule : removeKey FteRule.id (fte.newRule dest).children fte.nextRule = fte.children := by
  have absent : fte.nextRule ∉ fte.children.map FteRule.id := by
    intro inOld
    obtain ⟨old, inside, same⟩ := mem_map.mp inOld
    have before := numbered.older old inside
    omega
  have others := removeKey_of_not_mem absent
  unfold removeKey at others
  unfold newRule removeKey
  dsimp only
  split
  · rw [filter_append, others]
    simp
  · rw [filter_append, others]
    simp
  · rw [filter_cons_of_neg (by simp), others]

private theorem rule_newRule : (fte.newRule dest).rule? fte.nextRule =
      some ⟨fte.nextRule, dest.getD zeroDest, dest.isSome, 1, false⟩ := by
  have member := (newRule_perm fte dest).mem_iff.mpr (.head _)
  have fresh : Numbered (fte.newRule dest) :=
    numbered.insert _ (newRule_perm fte dest) rfl rfl (Nat.le_refl 1)
  exact findKey_eq_some fresh.distinct member

theorem destroySlot_newRule : (fte.newRule dest).destroySlot fte.nextRule = { fte with
        destsSize := u32Dec (if dest.isSome then fte.destsSize + 1 else fte.destsSize)
        nextRule := fte.nextRule + 1 } := by
  have gone := removeKey_newRule numbered dest
  unfold destroySlot
  rw [rule_newRule numbered dest]
  dsimp only
  rw [if_pos rfl, gone]
  rfl

private theorem destroySlot_createSlot (dest) :
    Undone fte ((fte.createSlot (some dest)).1.destroySlot (fte.createSlot (some dest)).2.1) := by
  cases found : (some dest).bind fte.findFlowRule with
  | some rule =>
    obtain ⟨mem, -⟩ := mem_of_findFlowRule found
    rw [createSlot_found found]
    have several := numbered.createSlot (some dest)
    rw [createSlot_found found] at several
    have inNext : rule.addRef ∈ updateKey FteRule.id fte.children rule.id addRef :=
      (updateKey_perm numbered.distinct mem _).mem_iff.mpr (.head _)
    have isRule : findKey FteRule.id (updateKey FteRule.id fte.children rule.id addRef)
        rule.id = some rule.addRef := findKey_eq_some several.distinct inNext
    have positive := numbered.referenced rule mem
    have shared : rule.addRef.refcount ≠ 1 := by
      simp only [addRef]
      omega
    unfold destroySlot rule?
    dsimp only
    rw [isRule]
    dsimp only
    rw [if_neg shared, updateKey_dropRef]
    exact Undone.refl fte
  | none =>
    obtain ⟨added, isNext, -⟩ := createSlot_new found
    rw [added, isNext, destroySlot_newRule numbered]
    exact ⟨fte.nextRule + 1, Nat.le_succ _, rfl⟩

omit numbered in
private theorem destroyFlowHandle_createSlots (dests : List FlowDest) {fte} (numbered : Numbered fte) :
    Undone fte ((fte.createSlots (dests.map some)).1.destroyFlowHandle
      (fte.createSlots (dests.map some)).2.1) := by
  induction dests generalizing fte with
  | nil => exact Undone.refl fte
  | cons dest rest ih =>
    rw [map_cons]
    obtain ⟨entry, ids, -⟩ := createSlots_cons fte (some dest) (rest.map some)
    obtain ⟨nextRule, grown, later⟩ := ih (numbered.createSlot (some dest))
    obtain ⟨firstRule, firstGrown, first⟩ := destroySlot_createSlot numbered dest
    rw [entry, ids]
    unfold destroyFlowHandle at later ⊢
    rw [reverse_cons, foldl_append, later, foldl_cons, foldl_nil, destroySlot_nextRule, first]
    refine ⟨nextRule, ?_, rfl⟩
    refine le_trans ?_ grown
    cases found : (some dest).bind fte.findFlowRule with
    | some rule => rw [createSlot_found found]
    | none =>
      rw [(createSlot_new found).1]
      exact Nat.le_succ _

variable {failure : AddFailure} {updateAction : Bool}

private theorem addRuleFteFails_given (given : dests ≠ [])
    (failed : fte.addRuleFteFails dests updateAction failure = some next) : Undone fte next := by
  have slots : slotDests dests = dests.map some := if_neg given
  cases failure with
  | allocHandle =>
    cases failed
    exact Undone.refl fte
  | allocRule slot =>
    simp only [addRuleFteFails, createFlowHandleFails, slots, ← map_take] at failed
    split at failed
    · cases failed
    · split at failed
      · cases failed
      · cases failed
        exact destroyFlowHandle_createSlots (dests.take slot) numbered
  | command =>
    simp only [addRuleFteFails] at failed
    split at failed
    · cases failed
    · next refused =>
      cases failed
      rw [addRuleFte_none refused, createFlowHandle, slots]
      exact destroyFlowHandle_createSlots dests numbered

private theorem addRuleFteFails_none (failed : fte.addRuleFteFails [] updateAction failure = some next) :
    (failure ≠ .command ∧ next = fte) ∨ failure = .command ∧ next = { fte with
        destsSize := u32Dec fte.destsSize
        nextRule := fte.nextRule + 1 } := by
  cases failure with
  | allocHandle =>
    cases failed
    exact .inl ⟨nofun, rfl⟩
  | allocRule slot =>
    refine .inl ⟨nofun, ?_⟩
    cases slot with
    | zero =>
      cases failed
      rfl
    | succ slot => cases failed
  | command =>
    refine .inr ⟨rfl, ?_⟩
    simp only [addRuleFteFails] at failed
    split at failed
    · cases failed
    · next refused =>
      cases failed
      rw [addRuleFte_none refused]
      exact destroySlot_newRule numbered none

omit numbered

private theorem u32Dec_ne (n) : u32Dec n ≠ n := by
  unfold u32Dec
  split <;> omega

/-- The rules with their references, the count, the action and the status. -/
structure Untouched (fte next : Fte) : Prop where
  children : next.children = fte.children
  destsSize : next.destsSize = fte.destsSize
  action : next.action = fte.action
  existing : next.existing = fte.existing
  active : next.active = fte.active

theorem addRuleFgFails_numbered (numbered : Numbered fte)
    (failed : fte.addRuleFgFails flowAct dests failure = some next) :
    Numbered next ∧ (Untouched fte next ↔ ¬ (dests = [] ∧ failure = .command)) := by
  obtain ⟨-, failed⟩ := Option.ite_none_left_eq_some.mp failed
  obtain ⟨made, failedFte, rfl⟩ := Option.map_eq_some_iff.mp failed
  have start : Numbered { fte with action := fte.action ||| flowAct.action } :=
    numbered.congr rfl rfl
  by_cases given : dests = []
  · subst given
    rcases addRuleFteFails_none start failedFte with ⟨other, same⟩ | ⟨isCommand, same⟩
    · rw [same]
      exact ⟨numbered, fun _ both => other both.2, fun _ => ⟨rfl, rfl, rfl, rfl, rfl⟩⟩
    rw [same]
    have numberUsed : Numbered { fte with nextRule := fte.nextRule + 1 } :=
      numbered.of_undone ⟨fte.nextRule + 1, Nat.le_succ _, rfl⟩
    refine ⟨numberUsed.congr rfl rfl, ?_, ?_⟩
    · intro still
      exact absurd still.destsSize (u32Dec_ne fte.destsSize)
    · intro apart
      exact absurd ⟨rfl, isCommand⟩ apart
  · obtain ⟨nextRule, grown, same⟩ := addRuleFteFails_given start given failedFte
    rw [same]
    exact ⟨numbered.of_undone ⟨nextRule, grown, rfl⟩, fun _ both => given both.1,
      fun _ => ⟨rfl, rfl, rfl, rfl, rfl⟩⟩

end Fte

namespace FteState

/-- A call of `_mlx5_add_flow_rules` that fails; no next state where it is refused before, or cannot fail
so. -/
def failedCall (ft : DestTable) (state : FteState) (flowAct : FlowAct) (dests : List FlowDest)
    (failure : AddFailure) : Option FteState :=
  if state.fte.locked || !state.fte.inGroup || !dests.all (destIsValid · flowAct ft) then none
  else (state.fte.addRuleFgFails flowAct dests failure).map fun fte => ⟨fte, state.handles⟩

/-- The states calls lead to, failed ones among them. `newRule` leaves out the wrap of a count back from
below zero. -/
inductive Reaches (ft : DestTable) (first : FlowAct) : FteState → Prop where
  | alloc : Reaches ft first (alloc first)
  | call {state next : FteState} (reached : Reaches ft first state) (fteCall : FteCall)
      (called : state.call ft fteCall = some next) : Reaches ft first next
  | failed {state next : FteState} (reached : Reaches ft first state) (flowAct : FlowAct)
      (dests : List FlowDest) (failure : AddFailure)
      (called : state.failedCall ft flowAct dests failure = some next) : Reaches ft first next
  | recounted {state : FteState} (reached : Reaches ft first state) (destsSize : Nat) :
      Reaches ft first ⟨{ state.fte with destsSize := destsSize }, state.handles⟩

variable {state next : FteState} {ft : DestTable} {first : FlowAct}

theorem failedCall_eq {flowAct dests failure}
    (failed : state.failedCall ft flowAct dests failure = some next) :
    state.fte.addRuleFgFails flowAct dests failure = some next.fte := by
  obtain ⟨-, failed⟩ := Option.ite_none_left_eq_some.mp failed
  obtain ⟨fte, failedFg, rfl⟩ := Option.map_eq_some_iff.mp failed
  exact failedFg

private theorem call_numbered (numbered : state.fte.Numbered) {fteCall}
    (called : state.call ft fteCall = some next) : next.fte.Numbered := by
  cases fteCall with
  | addFlowRules flowAct dest numDest =>
    obtain ⟨-, called⟩ := Option.ite_none_left_eq_some.mp called
    split at called
    · cases called
    · next added =>
      cases called
      exact numbered.addRuleFg added
  | delFlowRules slots =>
    obtain ⟨-, called⟩ := Option.ite_none_left_eq_some.mp called
    obtain ⟨fte, deleted, rfl⟩ := Option.map_eq_some_iff.mp called
    exact numbered.mlx5DelFlowRules deleted

theorem Reaches.numbered (reached : Reaches ft first state) : state.fte.Numbered := by
  induction reached with
  | alloc => exact ⟨nodup_nil, nofun, nofun⟩
  | call _ fteCall called ih => exact call_numbered ih called
  | failed _ flowAct dests failure called ih =>
    exact (addRuleFgFails_numbered ih (failedCall_eq called)).1
  | recounted _ destsSize ih => exact ih.congr rfl rfl

/-- A failed addition leaves the entry, unless no destination is given and the device refuses the rule. -/
theorem failed_addition_untouched (ft : DestTable) (first : FlowAct) (state next : FteState)
    (reached : Reaches ft first state) (flowAct : FlowAct) (dests : List FlowDest)
    (failure : AddFailure) (failed : state.failedCall ft flowAct dests failure = some next) :
    state.fte.Untouched next.fte ↔ ¬ (dests = [] ∧ failure = .command) :=
  (addRuleFgFails_numbered reached.numbered (failedCall_eq failed)).2

def oneTir : Option FteState :=
  (alloc countAndForward).call ⟨0, .nicRx, 0⟩ (.addFlowRules countAndForward [.tir 3] 1)

/-- A second rule cannot be allocated, after a reference to the first one was taken. -/
theorem failed_addition_untouched_shared : ∃ state next, oneTir = some state ∧
      state.failedCall ⟨0, .nicRx, 0⟩ countAndForward [.tir 3, .tir 4] (.allocRule 1) = some next ∧
      state.fte.Untouched next.fte := by
  have run : ∃ state next, oneTir = some state ∧
      state.failedCall ⟨0, .nicRx, 0⟩ countAndForward [.tir 3, .tir 4] (.allocRule 1) = some next :=
    ⟨_, _, rfl, rfl⟩
  obtain ⟨state, next, made, failed⟩ := run
  refine ⟨state, next, made, failed, ?_⟩
  exact (failed_addition_untouched _ _ _ _ (Reaches.alloc.call _ made) _ _ _ failed).mpr
    fun both => by cases both.1

/-- The device refuses a rule without a destination: the entry's TIR is no longer counted. -/
theorem refused_rule_uncounts : ¬ ∀ (ft : DestTable) (first : FlowAct) (state next : FteState),
      Reaches ft first state → ∀ (flowAct : FlowAct) (dests : List FlowDest)
        (failure : AddFailure), state.failedCall ft flowAct dests failure = some next →
        state.fte.Untouched next.fte := by
  intro always
  have run : ∃ state next, oneTir = some state ∧
      state.failedCall ⟨0, .nicRx, 0⟩ countAndForward [] .command = some next ∧
      state.fte.destsSize = 1 ∧ next.fte.destsSize = 0 := ⟨_, _, rfl, rfl, rfl, rfl⟩
  obtain ⟨state, next, made, failed, one, zero⟩ := run
  have same := (always _ _ _ _ (Reaches.alloc.call _ made) _ _ _ failed).destsSize
  rw [one, zero] at same
  cases same

end FteState

end MlnxOfed.FsCore
