/-
One flow table entry over successful calls of `_mlx5_add_flow_rules` and `mlx5_del_flow_rules`: where the
count of destinations follows each call it is right in every state, and the device's entry goes with the
last handle.
-/

import MlnxOfed.FsCore.FteRules

namespace MlnxOfed.FsCore

open Option List Fte

structure FteState where
  fte : Fte
  handles : List (List Nat)

inductive FteCall where
  | addFlowRules (flowAct : FlowAct) (dest : List FlowDest) (numDest : Nat)
  | delFlowRules (slots : List Nat)

namespace FteState

def alloc (flowAct : FlowAct) : FteState :=
  ⟨Fte.alloc flowAct, []⟩

/-- A call on a table's entry; no next state where it is refused, waits for the lock or uses a null pointer.
-/
def call (ft : DestTable) (state : FteState) : FteCall → Option FteState
  | .addFlowRules flowAct dest numDest =>
    -- only the destinations that are counted are checked
    if state.fte.locked || !state.fte.inGroup || !(dest.take numDest).all (destIsValid · flowAct ft) then none
    else
      match state.fte.addRuleFg flowAct (destsRead dest numDest) false with
      | (_, none) => none
      | (fte, some slots) => some ⟨fte, slots :: state.handles⟩
  | .delFlowRules slots =>
    if state.fte.locked || slots ∉ state.handles then none
    else (state.fte.mlx5DelFlowRules slots).map fun fte => ⟨fte, state.handles.erase slots⟩

def CountedCall (state : FteState) : FteCall → Prop
  | .addFlowRules _ dest numDest => state.fte.NewOnce (destsRead dest numDest)
  | .delFlowRules slots => state.fte.DeletesRight slots

def Reachable (ft : DestTable) (flowAct : FlowAct) (kind : FteState → FteCall → Prop) : FteState → Prop :=
  Relation.ReflTransGen
    (fun state next => ∃ call, kind state call ∧ state.call ft call = some next) (alloc flowAct)

/-- The count is that of the rules with a destination; handles can be deleted; the entry is in the device
while there are handles, and is deleted there and leaves its group with the last one. -/
structure Accounted (state : FteState) : Prop where
  size : state.fte.destsSize = state.fte.children.countP FteRule.withDest
  deletable : state.fte.locked = false ∧
    ∀ slots ∈ state.handles, (state.fte.mlx5DelFlowRules slots).isSome = true
  live : state.handles ≠ [] → state.fte.children ≠ [] ∧ state.fte.inGroup = true ∧
    state.fte.active = true ∧ FteCommand.deleteFte ∉ state.fte.commands
  gone : state.handles = [] → state.fte.children = [] ∧ (state.fte.commands = [] ∨
    state.fte.inGroup = false ∧ state.fte.active = false ∧ state.fte.commands.count .deleteFte = 1)

structure Inv (state : FteState) : Prop where
  slots : state.fte.Slots state.handles.flatten
  sized : state.fte.Sized
  parents : ∀ rule ∈ state.fte.children, rule.parentSet = true
  nonempty : ∀ slots ∈ state.handles, slots ≠ []
  free : state.fte.locked = false
  inGroup : state.fte.inGroup = true
  active : state.handles ≠ [] → state.fte.active = true
  kept : FteCommand.deleteFte ∉ state.fte.commands
  fresh : state.handles = [] → state.fte.commands = []

structure Deleted (state : FteState) : Prop where
  handles : state.handles = []
  children : state.fte.children = []
  size : state.fte.destsSize = 0
  free : state.fte.locked = false
  inGroup : state.fte.inGroup = false
  active : state.fte.active = false
  once : state.fte.commands.count .deleteFte = 1

variable {state next : FteState} {ft : DestTable}

theorem alloc_inv (flowAct) : Inv (alloc flowAct) where
  slots := ⟨nodup_nil, by simp [alloc, Fte.alloc], by simp [alloc, Fte.alloc],
    by simp [alloc, Fte.alloc], by simp [alloc], rfl⟩
  sized := ⟨rfl, by simp [alloc, Fte.alloc]⟩
  parents := by simp [alloc, Fte.alloc]
  nonempty := by simp [alloc]
  free := rfl
  inGroup := rfl
  active some := absurd rfl some
  kept := not_mem_nil
  fresh _ := rfl

theorem Inv.children_eq_nil_iff (inv : Inv state) : state.fte.children = [] ↔ state.handles = [] := by
  constructor
  · intro none
    by_contra some
    obtain ⟨slots, mem⟩ := exists_mem_of_ne_nil _ some
    obtain ⟨id, inSlots⟩ := exists_mem_of_ne_nil _ (inv.nonempty slots mem)
    obtain ⟨rule, inChildren, -⟩ := inv.slots.exists_rule (mem_flatten.mpr ⟨slots, mem, inSlots⟩)
    rw [none] at inChildren
    cases inChildren
  · intro none
    by_contra some
    obtain ⟨rule, mem⟩ := exists_mem_of_ne_nil _ some
    have used := inv.slots.used rule mem
    rw [none] at used
    cases used

variable {slots : List Nat}

theorem Inv.del_eq (inv : Inv state) (mem : slots ∈ state.handles) : state.fte.mlx5DelFlowRules slots =
      (state.fte.removeSlots slots.reverse).map finishDeletion := by
  obtain ⟨first, rest, isCons⟩ := exists_cons_of_ne_nil (inv.nonempty slots mem)
  have inHeld : first ∈ state.handles.flatten := mem_flatten.mpr ⟨slots, mem, isCons ▸ mem_cons_self⟩
  obtain ⟨rule, inChildren, isFirst⟩ := inv.slots.exists_rule inHeld
  have found := inv.slots.rule_eq inChildren
  rw [isFirst] at found
  unfold Fte.mlx5DelFlowRules
  simp [isCons, found, inv.parents rule inChildren]

theorem flatten_perm {handles : List (List Nat)} (mem : slots ∈ handles) :
    handles.flatten.Perm (slots ++ (handles.erase slots).flatten) :=
  (perm_cons_erase mem).flatten

theorem Inv.accounted (inv : Inv state) : Accounted state where
  size := inv.sized.size
  deletable := by
    refine ⟨inv.free, ?_⟩
    intro slots mem
    have reversed := inv.slots.perm ((flatten_perm mem).trans ((reverse_perm slots).symm.append_right _))
    obtain ⟨next, removed, -⟩ := removeSlots_slots _ reversed inv.parents
    rw [inv.del_eq mem, removed]
    rfl
  live some := ⟨fun none => some (inv.children_eq_nil_iff.mp none), inv.inGroup, inv.active some, inv.kept⟩
  gone none := ⟨inv.children_eq_nil_iff.mpr none, .inl (inv.fresh none)⟩

theorem Deleted.accounted (deleted : Deleted state) : Accounted state where
  size := by rw [deleted.size, deleted.children, countP_nil]
  deletable := ⟨deleted.free, by rw [deleted.handles]; exact fun _ mem => by cases mem⟩
  live some := absurd deleted.handles some
  gone _ := ⟨deleted.children, .inr ⟨deleted.inGroup, deleted.active, deleted.once⟩⟩

/-! ### The steps -/

variable {flowAct : FlowAct}

theorem addFlowRules_inv (inv : Inv state) {dest numDest} (once : state.fte.NewOnce (destsRead dest numDest))
    (called : state.call ft (.addFlowRules flowAct dest numDest) = some next) : Inv next := by
  unfold call at called
  dsimp only at called
  split at called
  · cases called
  split at called
  · cases called
  next fte slots added =>
  cases called
  have result := addRuleFg_added inv.slots inv.parents once added
  exact
    { result with
      sized := result.sized inv.sized
      nonempty other member := by
        rcases mem_cons.mp member with rfl | old
        · exact result.nonempty
        · exact inv.nonempty other old
      free := result.locked.trans inv.free
      inGroup := result.inGroup.trans inv.inGroup
      active _ := by
        rcases result.active with active | ⟨same, some⟩
        · exact active
        · rw [same]
          exact inv.active (fun none => some (inv.children_eq_nil_iff.mpr none))
      kept := by
        rcases result.commands with same | ⟨command, appended, notDelete⟩
        · rw [same]
          exact inv.kept
        · rw [appended, mem_append, mem_singleton, not_or]
          exact ⟨inv.kept, Ne.symm notDelete⟩
      fresh := nofun }

private theorem finishDeletion_modifies {fte : Fte} (counted : fte.destsSize ≠ 0) :
    fte.finishDeletion.children = fte.children ∧ fte.finishDeletion.nextRule = fte.nextRule ∧
      fte.finishDeletion.refcount = fte.refcount ∧
      fte.finishDeletion.destsSize = fte.destsSize ∧
      fte.finishDeletion.locked = fte.locked ∧ fte.finishDeletion.inGroup = fte.inGroup ∧
      fte.finishDeletion.active = fte.active ∧
      (FteCommand.deleteFte ∉ fte.commands → .deleteFte ∉ fte.finishDeletion.commands) := by
  unfold finishDeletion
  rw [if_pos counted]
  split
  · refine ⟨rfl, rfl, rfl, rfl, rfl, rfl, rfl, ?_⟩
    intro absent
    simp only [modifyFte, mem_append, mem_singleton, not_or]
    exact ⟨absent, nofun⟩
  · exact ⟨rfl, rfl, rfl, rfl, rfl, rfl, rfl, id⟩

private theorem finishDeletion_deletes {fte : Fte} (counted : fte.destsSize = 0)
    (empty : fte.children = []) (active : fte.active = true) (single : fte.refcount = 1) :
    fte.finishDeletion = { fte with
      active := false
      commands := fte.commands ++ [.deleteFte]
      refcount := 0
      inGroup := false } := by
  unfold finishDeletion
  rw [if_neg (not_not.mpr counted), if_pos empty, delHwFte, if_pos active]
  simp [treePutNode, single]

theorem delFlowRules_inv (inv : Inv state) (right : state.fte.DeletesRight slots)
    (called : state.call ft (.delFlowRules slots) = some next) : Inv next ∨ Deleted next := by
  unfold call at called
  dsimp only at called
  split at called
  · cases called
  next admitted =>
  have mem : slots ∈ state.handles := by
    by_contra absent
    exact admitted (by simp [absent])
  have held := inv.slots.perm (flatten_perm mem)
  obtain ⟨removed, loop, removedSlots, removedSized, removedParents, shrinks, zero⟩ :=
    removeSlots_right right held inv.sized inv.parents
  rw [inv.del_eq mem, loop] at called
  cases called
  have active := inv.active (ne_nil_of_mem mem)
  rw [← shrinks.active] at active
  have notDeleted := inv.kept
  rw [← shrinks.commands] at notDeleted
  have otherNonempty other (inRest : other ∈ state.handles.erase slots) : other ≠ [] :=
      inv.nonempty other (mem_of_mem_erase inRest)
  by_cases counted : removed.destsSize = 0
  · refine .inr ?_
    have empty := zero.mp counted
    have single : removed.refcount = 1 := by rw [removedSlots.attached, empty, countP_nil]
    have noHandle : state.handles.erase slots = [] := by
      by_contra some
      obtain ⟨other, inRest⟩ := exists_mem_of_ne_nil _ some
      obtain ⟨id, inOther⟩ := exists_mem_of_ne_nil _ (otherNonempty other inRest)
      obtain ⟨rule, inChildren, -⟩ := removedSlots.exists_rule (mem_flatten.mpr ⟨other, inRest, inOther⟩)
      rw [empty] at inChildren
      cases inChildren
    rw [finishDeletion_deletes counted empty active single]
    exact
      { handles := noHandle
        children := empty
        size := counted
        free := shrinks.locked.trans inv.free
        inGroup := rfl
        active := rfl
        once := by
          rw [count_append, count_eq_zero.mpr notDeleted]
          rfl }
  · refine .inl ?_
    obtain ⟨children, nextRule, refcount, size, locked, sameGroup, sameActive, commands⟩ :=
      finishDeletion_modifies counted
    exact
      { slots := removedSlots.congr children nextRule refcount
        sized := removedSized.congr children size
        parents := by
          dsimp only
          rw [children]
          exact removedParents
        nonempty := otherNonempty
        free := locked.trans (shrinks.locked.trans inv.free)
        inGroup := sameGroup.trans (shrinks.inGroup.trans inv.inGroup)
        active _ := sameActive.trans active
        kept := commands notDeleted
        fresh none := by
          dsimp only at none
          rw [none, flatten_nil] at removedSlots
          have some : removed.children ≠ [] := fun empty => counted (zero.mpr empty)
          obtain ⟨rule, inChildren⟩ := exists_mem_of_ne_nil _ some
          cases removedSlots.used rule inChildren }

theorem Deleted.no_call (deleted : Deleted state) (fteCall) : state.call ft fteCall = none := by
  cases fteCall with
  | addFlowRules flowAct dest numDest => simp [call, deleted.inGroup]
  | delFlowRules slots => simp [call, deleted.handles]

theorem reachable_inv (reachable : Reachable ft flowAct CountedCall state) : Inv state ∨ Deleted state := by
  induction reachable with
  | refl => exact .inl (alloc_inv flowAct)
  | tail _ step ih =>
    obtain ⟨fteCall, right, called⟩ := step
    rcases ih with inv | deleted
    · cases fteCall with
      | addFlowRules flowAct dest numDest => exact .inl (addFlowRules_inv inv right called)
      | delFlowRules slots => exact delFlowRules_inv inv right called
    · rw [deleted.no_call] at called
      cases called

/-- Where every call is one that the count follows, every state is accounted for. -/
theorem fte_dests_size_exact (ft : DestTable) (flowAct : FlowAct) (state : FteState)
    (reachable : Reachable ft flowAct CountedCall state) : Accounted state := by
  rcases reachable_inv reachable with inv | deleted
  · exact inv.accounted
  · exact deleted.accounted

def countAndForward : FlowAct :=
  ⟨actionFwdDest ||| actionCount, false, none⟩

/-- A counter that goes before the last TIR, after a destination that is given but not counted came and
went. -/
theorem fte_dests_size_exact_counter_first :
    ∃ state, Reachable ⟨0, .nicRx, 0⟩ countAndForward CountedCall state ∧
      state.fte.commands = [.createFte, .updateFte modifyDestinationList,
        .updateFte modifyDestinationList, .deleteFte] ∧ Accounted state := by
  have run : ∃ first second third last,
      (alloc countAndForward).call ⟨0, .nicRx, 0⟩
        (.addFlowRules countAndForward [.tir 3, .counter 7] 2) = some first ∧
      first.call ⟨0, .nicRx, 0⟩ (.addFlowRules countAndForward [.tir 4] 0) = some second ∧
      second.fte.destsSize = 3 ∧ second.fte.DeletesRight [2] ∧
      second.call ⟨0, .nicRx, 0⟩ (.delFlowRules [2]) = some third ∧ third.fte.DeletesRight [0, 1] ∧
      third.call ⟨0, .nicRx, 0⟩ (.delFlowRules [0, 1]) = some last ∧
      last.fte.commands = [.createFte, .updateFte modifyDestinationList,
        .updateFte modifyDestinationList, .deleteFte] :=
    ⟨_, _, _, _, rfl, rfl, rfl, by decide, rfl, by decide, rfl, rfl⟩
  obtain ⟨first, second, third, last, added, more, -, right, gone, lastRight, deleted, commands⟩ := run
  have once : (alloc countAndForward).CountedCall
      (.addFlowRules countAndForward [.tir 3, .counter 7] 2) := by
    unfold CountedCall
    decide
  have single : first.CountedCall (.addFlowRules countAndForward [.tir 4] 0) := pairwise_singleton _ _
  have reachable : Reachable ⟨0, .nicRx, 0⟩ countAndForward CountedCall last :=
    (((Relation.ReflTransGen.single ⟨_, once, added⟩).tail ⟨_, single, more⟩).tail
      ⟨.delFlowRules [2], right, gone⟩).tail ⟨.delFlowRules [0, 1], lastRight, deleted⟩
  exact ⟨last, reachable, commands, fte_dests_size_exact _ _ _ reachable⟩

/-- A counter that goes last is taken off twice: the count wraps, and the device keeps the entry. -/
theorem fte_dests_size_wraps : ¬ ∀ (ft : DestTable) (flowAct : FlowAct) (state : FteState),
      Reachable ft flowAct (fun _ _ => True) state → Accounted state := by
  intro always
  have run : ∃ added deleted, (alloc countAndForward).call ⟨0, .nicRx, 0⟩
      (.addFlowRules countAndForward [.counter 7, .tir 3] 2) = some added ∧
      added.call ⟨0, .nicRx, 0⟩ (.delFlowRules [0, 1]) = some deleted ∧
      deleted.fte.destsSize = 2 ^ 32 - 1 ∧ deleted.fte.children = [] := ⟨_, _, rfl, rfl, rfl, rfl⟩
  obtain ⟨added, deleted, first, second, wrapped, empty⟩ := run
  have reachable : Reachable ⟨0, .nicRx, 0⟩ countAndForward (fun _ _ => True) deleted :=
    (Relation.ReflTransGen.single ⟨_, trivial, first⟩).tail ⟨_, trivial, second⟩
  have size := (always _ _ _ reachable).size
  rw [wrapped, empty] at size
  cases size

end FteState

end MlnxOfed.FsCore
