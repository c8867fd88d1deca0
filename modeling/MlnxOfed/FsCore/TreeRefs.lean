/-
The counts of the steering tree (fs_core.c): a priority, its tables, their groups and entries, over
creations and deletions whose device commands may fail.

An operation is one step; what it takes and gives back on the way is left out. Which group has room for an
entry, and whether a table has room for a group, are arguments, as is which of several entries of one value
a search finds.
-/

import MlnxOfed.FsCore.FteRules
import MlnxOfed.Lib.RefTree

namespace MlnxOfed.FsCore

open Option List Lib RefTree Fte

/-- What a node is, with what the search for an entry reads of it. -/
inductive FsAttr where
  | prio
  | flowTable (table : DestTable) (autogroup : Bool)
  | flowGroup (matchCriteria : Nat)
  deriving DecidableEq

structure FteEntry where
  id : Nat
  group : Nat
  matchValue : Nat
  fte : Fte

/-- `owned` are the nodes whose creator still has its reference, `handles` the entry and slots of live
handles. -/
structure FsNodeTree where
  nodes : List (RefNode FsAttr)
  owned : List Nat
  entries : List FteEntry
  handles : List (Nat × List Nat)
  nextId : Nat

/-- What `_mlx5_add_flow_rules` is given, `noAppend` being FLOW_ACT_NO_APPEND, and how it comes out: the
entry found, a group with room, room for a new group, the commands that fail. -/
structure AddCall where
  ft : Nat
  matchCriteria : Nat
  matchValue : Nat
  flowAct : FlowAct
  noAppend : Bool
  dest : List FlowDest
  numDest : Nat
  found : Nat
  groupRoom : Option Nat
  autoRoom : Bool
  groupFails : Bool
  entryFails : Bool

def AddCall.dests (call : AddCall) : List FlowDest :=
  destsRead call.dest call.numDest

namespace FsNodeTree

def init : FsNodeTree :=
  { nodes := [⟨0, none, 1, .prio⟩]
    owned := [0]
    entries := []
    handles := []
    nextId := 1 }

/-- `__mlx5_create_flow_table`: a managed table is the priority's child; one whose command fails never was.
-/
def createFlowTable (tree : FsNodeTree) (table : DestTable) (unmanaged autogroup : Bool)
    (commandFails : Bool) : FsNodeTree :=
  if commandFails then tree
  else
    { tree with
      nodes := insert tree.nodes tree.nextId (if unmanaged then none else some 0) (.flowTable table autogroup)
      owned := tree.nextId :: tree.owned
      nextId := tree.nextId + 1 }

/-- `tree_remove_node` of a table or a group. -/
def treeRemoveNode (tree : FsNodeTree) (id : Nat) : FsNodeTree :=
  { tree with nodes := put tree.nodes id, owned := tree.owned.erase id }

def destroyFlowTable (tree : FsNodeTree) (id : Nat) (disconnectFails : Bool) : FsNodeTree :=
  if disconnectFails then tree else tree.treeRemoveNode id

def insertFlowGroup (tree : FsNodeTree) (ft matchCriteria : Nat) : FsNodeTree :=
  { tree with
    nodes := insert tree.nodes tree.nextId (some ft) (.flowGroup matchCriteria)
    nextId := tree.nextId + 1 }

def createFlowGroup (tree : FsNodeTree) (ft matchCriteria : Nat) (commandFails : Bool) : FsNodeTree :=
  let group := tree.nextId
  let tree := tree.insertFlowGroup ft matchCriteria
  if commandFails then { tree with nodes := put tree.nodes group }
  else { tree with owned := group :: tree.owned }

/-- `build_match_list`. -/
def matchedGroups (tree : FsNodeTree) (ft matchCriteria : Nat) : List Nat :=
  (tree.nodes.filter fun node =>
    node.parent = some ft && node.attr = .flowGroup matchCriteria).map RefNode.id

/-- The entries of the value that is searched, several where FLOW_ACT_NO_APPEND made one. -/
def sameValue (tree : FsNodeTree) (call : AddCall) : List FteEntry :=
  tree.entries.filter fun entry =>
    entry.group ∈ tree.matchedGroups call.ft call.matchCriteria &&
      entry.matchValue = call.matchValue

/-- The search of `try_add_to_existing_fg`, which FLOW_ACT_NO_APPEND skips. -/
def lookupFte (tree : FsNodeTree) (call : AddCall) : Option FteEntry :=
  if call.noAppend then none
  else (tree.sameValue call)[call.found % (tree.sameValue call).length]?

/-- `alloc_fte`, `insert_fte` and `add_rule_fg`; an entry whose rules are refused is put. -/
def insertFte (tree : FsNodeTree) (group : Nat) (call : AddCall) : FsNodeTree :=
  let nodes := get tree.nodes group
  match (alloc call.flowAct).addRuleFg call.flowAct call.dests call.entryFails with
  | (_, none) => { tree with nodes := put nodes group }
  | (fte, some slots) =>
    { tree with
      nodes := nodes
      entries := ⟨tree.nextId, group, call.matchValue, fte⟩ :: tree.entries
      handles := (tree.nextId, slots) :: tree.handles
      nextId := tree.nextId + 1 }

/-- `_mlx5_add_flow_rules` with a new group for the entry, whose reference it gives up. -/
def insertAuto (tree : FsNodeTree) (call : AddCall) : FsNodeTree :=
  let group := tree.nextId
  let tree := tree.insertFlowGroup call.ft call.matchCriteria
  if call.groupFails then { tree with nodes := put tree.nodes group }
  else
    let tree := tree.insertFte group call
    { tree with nodes := put tree.nodes group }

/-- More rules for an entry that is there. -/
def extendFte (tree : FsNodeTree) (entry : FteEntry) (call : AddCall) : FsNodeTree :=
  match entry.fte.addRuleFg call.flowAct call.dests call.entryFails with
  | (fte, none) =>
    { tree with
      entries := updateKey FteEntry.id tree.entries entry.id fun entry =>
        { entry with fte := fte } }
  | (fte, some slots) =>
    { tree with
      entries := updateKey FteEntry.id tree.entries entry.id fun entry =>
        { entry with fte := fte }
      handles := (entry.id, slots) :: tree.handles }

/-- `_mlx5_add_flow_rules`: no next state where it waits for the lock of the entry. -/
def addFlowRules (tree : FsNodeTree) (call : AddCall) : Option FsNodeTree :=
  match (findKey RefNode.id tree.nodes call.ft).map RefNode.attr with
  | some (.flowTable table autogroup) =>
    if (call.dest.take call.numDest).all (destIsValid · call.flowAct table) then
      match tree.lookupFte call with
      | some entry => if entry.fte.locked then none else some (tree.extendFte entry call)
      | none =>
        match call.groupRoom with
        | some group =>
          if group ∈ tree.matchedGroups call.ft call.matchCriteria then
            some (tree.insertFte group call)
          else none
        | none =>
          if autogroup && call.autoRoom then some (tree.insertAuto call) else some tree
    else some tree
  | _ => none

/-- `mlx5_del_flow_rules`: no next state where it waits or uses a null pointer. -/
def delFlowRules (tree : FsNodeTree) (handle : Nat × List Nat) : Option FsNodeTree :=
  match findKey FteEntry.id tree.entries handle.1 with
  | none => none
  | some entry =>
    if entry.fte.locked then none
    else
      match entry.fte.mlx5DelFlowRules handle.2 with
      | none => none
      | some fte =>
        let handles := tree.handles.erase handle
        if fte.inGroup then
          some { tree with
            entries := updateKey FteEntry.id tree.entries entry.id fun entry =>
              { entry with fte := fte }
            handles := handles }
        else
          some { tree with
            entries := removeKey FteEntry.id tree.entries entry.id
            handles := handles
            nodes := put tree.nodes entry.group }

def hitFte (tree : FsNodeTree) (call : AddCall) : Fte :=
  ((tree.lookupFte call).map FteEntry.fte).getD (alloc call.flowAct)

def GivesNewOnce (tree : FsNodeTree) (call : AddCall) : Prop :=
  (tree.hitFte call).NewOnce call.dests

instance (tree : FsNodeTree) (call : AddCall) : Decidable (tree.GivesNewOnce call) :=
  inferInstanceAs (Decidable ((tree.hitFte call).NewOnce call.dests))

end FsNodeTree

inductive FsStep (guard : FsNodeTree → AddCall → Prop) : FsNodeTree → FsNodeTree → Prop where
  | createTable (tree : FsNodeTree) (table : DestTable) (unmanaged autogroup fails : Bool) :
      FsStep guard tree (tree.createFlowTable table unmanaged autogroup fails)
  | destroyTable (tree : FsNodeTree) (id : Nat) (fails : Bool) (owned : id ∈ tree.owned)
      (notPrio : id ≠ 0) : FsStep guard tree (tree.destroyFlowTable id fails)
  | createGroup (tree : FsNodeTree) (ft matchCriteria : Nat) (fails : Bool)
      (listed : ft ∈ tree.nodes.map RefNode.id) :
      FsStep guard tree (tree.createFlowGroup ft matchCriteria fails)
  | destroyGroup (tree : FsNodeTree) (id : Nat) (owned : id ∈ tree.owned) (notPrio : id ≠ 0) :
      FsStep guard tree (tree.treeRemoveNode id)
  | addRules (tree next : FsNodeTree) (call : AddCall) (right : guard tree call)
      (added : tree.addFlowRules call = some next) : FsStep guard tree next
  | delRules (tree next : FsNodeTree) (handle : Nat × List Nat) (live : handle ∈ tree.handles)
      (deleted : tree.delFlowRules handle = some next) : FsStep guard tree next

def FsReachable (guard : FsNodeTree → AddCall → Prop) : FsNodeTree → Prop :=
  Relation.ReflTransGen (FsStep guard) FsNodeTree.init

namespace FsNodeTree

def heldBy (handles : List (Nat × List Nat)) (entry : Nat) : List Nat :=
  (handles.filter fun handle => handle.1 = entry).flatMap Prod.snd

structure EntryOk (handles : List (Nat × List Nat)) (entry : FteEntry) : Prop where
  slots : entry.fte.Slots (heldBy handles entry.id)
  parents : ∀ rule ∈ entry.fte.children, rule.parentSet = true
  inGroup : entry.fte.inGroup = true

/-- The references of creators and of entries, and those that an operation has in hand. -/
structure Inv (extra : List Nat) (tree : FsNodeTree) : Prop where
  balanced : RefTree.Balanced tree.nodes (extra ++ (tree.owned ++ tree.entries.map FteEntry.group))
  ownedOnce : tree.owned.Nodup
  prio : 0 ∈ tree.owned
  newest : ∀ id ∈ tree.nodes.map RefNode.id, id < tree.nextId
  distinct : (tree.entries.map FteEntry.id).Nodup
  entryNewest : ∀ entry ∈ tree.entries, entry.id < tree.nextId
  entryOk : ∀ entry ∈ tree.entries, entry.fte.locked = false → EntryOk tree.handles entry
  handleOk : ∀ handle ∈ tree.handles, handle.1 ∈ tree.entries.map FteEntry.id ∧ handle.2 ≠ []

variable {tree next : FsNodeTree} {extra : List Nat}

theorem init_inv : Inv [] init where
  balanced :=
    { distinct := by simp [init]
      parents := by simp [init]
      refs := by simp [init, childCount]
      used := by simp [init]
      listed := by simp [init] }
  ownedOnce := by simp [init]
  prio := mem_singleton_self 0
  newest := by simp [init]
  distinct := by simp [init]
  entryNewest := by simp [init]
  entryOk := by simp [init]
  handleOk := by simp [init]

variable {id : Nat}

theorem Inv.owned_lt (inv : Inv extra tree) (owned : id ∈ tree.owned) : id < tree.nextId :=
  inv.newest id (inv.balanced.listed id (mem_append_right _ (mem_append_left _ owned)))

theorem Inv.put (inv : Inv (id :: extra) tree) : Inv extra { tree with nodes := put tree.nodes id } :=
  { inv with
    balanced := inv.balanced.put
    newest other inside := inv.newest other (mem_ids_of_put inside) }

theorem Inv.get (inv : Inv extra tree) (listed : id ∈ tree.nodes.map RefNode.id) :
    Inv (id :: extra) { tree with nodes := get tree.nodes id } :=
  { inv with
    balanced := inv.balanced.get listed
    newest := by
      rw [get_ids]
      exact inv.newest }

theorem Inv.disown (inv : Inv extra tree) (owned : id ∈ tree.owned) (notPrio : id ≠ 0) :
    Inv (id :: extra) { tree with owned := tree.owned.erase id } :=
  { inv with
    balanced := by
      refine inv.balanced.perm ?_
      have perm := (perm_cons_erase owned).append_right (tree.entries.map FteEntry.group)
      exact (perm.append_left extra).trans perm_middle
    ownedOnce := inv.ownedOnce.erase id
    prio := (mem_erase_of_ne (Ne.symm notPrio)).mpr inv.prio }

theorem Inv.own (inv : Inv (id :: extra) tree) (new : id ∉ tree.owned) :
    Inv extra { tree with owned := id :: tree.owned } :=
  { inv with
    balanced := inv.balanced.perm perm_middle.symm
    ownedOnce := nodup_cons.mpr ⟨new, inv.ownedOnce⟩
    prio := mem_cons_of_mem _ inv.prio }

theorem Inv.insert (inv : Inv extra tree) (parent attr)
    (listed : ∀ up, parent = some up → up ∈ tree.nodes.map RefNode.id) :
    Inv (tree.nextId :: extra) { tree with
      nodes := insert tree.nodes tree.nextId parent attr
      nextId := tree.nextId + 1 } :=
  { inv with
    balanced := inv.balanced.insert attr inv.newest listed
    newest other inside := by
      rw [insert_ids] at inside
      rcases mem_cons.mp inside with rfl | old
      · exact Nat.lt_succ_self _
      · exact Nat.lt_succ_of_lt (inv.newest other old)
    entryNewest entry member := Nat.lt_succ_of_lt (inv.entryNewest entry member) }

theorem Inv.prio_listed (inv : Inv extra tree) : 0 ∈ tree.nodes.map RefNode.id :=
  inv.balanced.listed 0 (mem_append_right _ (mem_append_left _ inv.prio))

theorem createFlowTable_inv (inv : Inv [] tree) (table unmanaged autogroup fails) :
    Inv [] (tree.createFlowTable table unmanaged autogroup fails) := by
  unfold createFlowTable
  split
  · exact inv
  have inserted := inv.insert (if unmanaged then none else some 0) (.flowTable table autogroup)
    (fun up isUp => by
      obtain ⟨-, isUp⟩ := ite_none_left_eq_some.mp isUp
      cases isUp
      exact inv.prio_listed)
  exact inserted.own (fun owned => lt_irrefl _ (inv.owned_lt owned))

theorem treeRemoveNode_inv (inv : Inv [] tree) (owned : id ∈ tree.owned)
    (notPrio : id ≠ 0) : Inv [] (tree.treeRemoveNode id) :=
  (inv.disown owned notPrio).put

theorem createFlowGroup_inv (inv : Inv [] tree) {ft}
    (listed : ft ∈ tree.nodes.map RefNode.id) (matchCriteria fails) :
    Inv [] (tree.createFlowGroup ft matchCriteria fails) := by
  have inserted := inv.insert (some ft) (.flowGroup matchCriteria) (fun up isUp => by cases isUp; exact listed)
  unfold createFlowGroup
  dsimp only
  split
  · exact inserted.put
  · exact inserted.own (fun owned => lt_irrefl _ (inv.owned_lt owned))

/-! ### Rules -/

variable (handles : List (Nat × List Nat))

theorem heldBy_cons_self (entry slots) :
    heldBy ((entry, slots) :: handles) entry = slots ++ heldBy handles entry := by
  simp [heldBy]

theorem heldBy_cons_other {entry other} (slots) (apart : entry ≠ other) :
    heldBy ((entry, slots) :: handles) other = heldBy handles other := by
  simp [heldBy, apart]

variable {handle : Nat × List Nat}

private theorem heldBy_erase {handles} (live : handle ∈ handles) (entry) : (heldBy handles entry).Perm
      ((if handle.1 = entry then handle.2 else []) ++ heldBy (handles.erase handle) entry) := by
  have perm := ((perm_cons_erase live).filter fun other => other.1 = entry).flatMap_right Prod.snd
  refine perm.trans (Perm.of_eq ?_)
  by_cases same : handle.1 = entry
  · simp [heldBy, same]
  · simp [heldBy, same]

private theorem heldBy_eq_nil {handles entry}
    (none : ∀ handle ∈ handles, handle.1 ≠ entry) : heldBy handles entry = [] := by
  have empty : (handles.filter fun handle => handle.1 = entry) = [] := by
    refine filter_eq_nil_iff.mpr ?_
    intro handle mem same
    exact none handle mem (by simpa using same)
  rw [heldBy, empty, flatMap_nil]

private theorem alloc_slots (flowAct) : (alloc flowAct).Slots [] where
  distinct := by simp [alloc]
  older := by simp [alloc]
  refs := by simp [alloc]
  used := by simp [alloc]
  listed := by simp
  attached := rfl

variable {call : AddCall}

theorem insertFte_inv (inv : Inv extra tree) {group} (listed : group ∈ tree.nodes.map RefNode.id)
    (once : (alloc call.flowAct).NewOnce call.dests) :
    Inv extra (tree.insertFte group call) := by
  have held := inv.get listed
  unfold insertFte
  dsimp only
  split
  · exact held.put
  next fte slots added =>
  have result := addRuleFg_added (alloc_slots call.flowAct) (fun rule member => by cases member) once added
  have newHandles : ∀ handle ∈ tree.handles, handle.1 ≠ tree.nextId := by
    intro handle member same
    obtain ⟨entry, inEntries, isEntry⟩ := mem_map.mp (inv.handleOk handle member).1
    have older := inv.entryNewest entry inEntries
    omega
  exact
    { inv with
      balanced := by
        refine held.balanced.perm ?_
        rw [map_cons]
        refine .trans ?_ (perm_middle.symm.append_left extra)
        exact perm_middle.symm
      newest id inside := Nat.lt_succ_of_lt (held.newest id inside)
      distinct := by
        rw [map_cons, nodup_cons]
        refine ⟨?_, inv.distinct⟩
        intro inside
        obtain ⟨entry, inEntries, isEntry⟩ := mem_map.mp inside
        have older := inv.entryNewest entry inEntries
        dsimp only at isEntry
        omega
      entryNewest entry member := by
        rcases mem_cons.mp member with rfl | old
        · exact Nat.lt_succ_self _
        · exact Nat.lt_succ_of_lt (inv.entryNewest entry old)
      entryOk entry member unlocked := by
        rcases mem_cons.mp member with rfl | old
        · refine { result with slots := ?_ }
          rw [heldBy_cons_self, heldBy_eq_nil newHandles]
          exact result.slots
        · have older := inv.entryNewest entry old
          obtain ⟨entrySlots, parents, inGroup⟩ := inv.entryOk entry old unlocked
          refine ⟨?_, parents, inGroup⟩
          rw [heldBy_cons_other _ _ (by omega)]
          exact entrySlots
      handleOk handle member := by
        rw [map_cons]
        rcases mem_cons.mp member with rfl | old
        · exact ⟨.head _, result.nonempty⟩
        · obtain ⟨inEntries, nonempty⟩ := inv.handleOk handle old
          exact ⟨.tail _ inEntries, nonempty⟩ }

theorem insertAuto_inv (inv : Inv [] tree) (listed : call.ft ∈ tree.nodes.map RefNode.id)
    (once : (alloc call.flowAct).NewOnce call.dests) :
    Inv [] (tree.insertAuto call) := by
  have inserted := inv.insert (some call.ft) (.flowGroup call.matchCriteria)
    (fun up isUp => by cases isUp; exact listed)
  unfold insertAuto
  dsimp only
  split
  · exact inserted.put
  · refine (insertFte_inv inserted ?_ once).put
    rw [insert_ids]
    exact .head _

variable {entry : FteEntry}

theorem Inv.update (inv : Inv extra tree) (mem : entry ∈ tree.entries) (fte)
    (handles : List (Nat × List Nat)) (ok : fte.locked = false → EntryOk handles { entry with fte := fte })
    (others : ∀ other, other ≠ entry.id → (heldBy tree.handles other).Perm (heldBy handles other))
    (handleOk : ∀ handle ∈ handles, handle.1 ∈ tree.entries.map FteEntry.id ∧ handle.2 ≠ []) :
    Inv extra { tree with
      entries := updateKey FteEntry.id tree.entries entry.id fun entry => { entry with fte := fte }
      handles := handles } := by
  have before := perm_cons_removeKey inv.distinct mem
  have after := updateKey_perm inv.distinct mem fun entry => { entry with fte := fte }
  have sameIds : ((updateKey FteEntry.id tree.entries entry.id fun entry =>
      { entry with fte := fte }).map FteEntry.id).Perm (tree.entries.map FteEntry.id) :=
    (after.map FteEntry.id).trans (before.map FteEntry.id).symm
  have sameGroups : ((updateKey FteEntry.id tree.entries entry.id fun entry =>
      { entry with fte := fte }).map FteEntry.group).Perm (tree.entries.map FteEntry.group) :=
    (after.map FteEntry.group).trans (before.map FteEntry.group).symm
  have cases : ∀ other ∈ updateKey FteEntry.id tree.entries entry.id (fun entry => { entry with fte := fte }),
      other = { entry with fte := fte } ∨ other ∈ tree.entries ∧ other.id ≠ entry.id := by
    intro other inNext
    rcases mem_cons.mp (after.mem_iff.mp inNext) with same | old
    · exact .inl same
    · exact .inr (mem_removeKey.mp old)
  exact
    { inv with
      balanced := inv.balanced.perm ((sameGroups.symm.append_left _).append_left _)
      distinct := sameIds.nodup_iff.mpr inv.distinct
      entryNewest other inNext := by
        rcases cases other inNext with rfl | ⟨old, -⟩
        · exact inv.entryNewest entry mem
        · exact inv.entryNewest other old
      entryOk other inNext unlocked := by
        rcases cases other inNext with rfl | ⟨old, apart⟩
        · exact ok unlocked
        · obtain ⟨slots, parents, inGroup⟩ := inv.entryOk other old unlocked
          exact ⟨slots.perm (others _ apart), parents, inGroup⟩
      handleOk handle live := by
        rw [sameIds.mem_iff]
        exact handleOk handle live }

theorem Inv.drop (inv : Inv extra tree) (mem : entry ∈ tree.entries) {handles}
    (others : ∀ other, other ≠ entry.id → (heldBy tree.handles other).Perm (heldBy handles other))
    (handleOk : ∀ handle ∈ handles, handle.1 ∈ tree.entries.map FteEntry.id ∧ handle.2 ≠ [] ∧
      handle.1 ≠ entry.id) :
    Inv (entry.group :: extra) { tree with
      entries := removeKey FteEntry.id tree.entries entry.id
      handles := handles } := by
  have before := perm_cons_removeKey inv.distinct mem
  exact
    { inv with
      balanced := by
        refine inv.balanced.perm ?_
        have groups := before.map FteEntry.group
        rw [map_cons] at groups
        refine ((groups.append_left tree.owned).append_left extra).trans ?_
        refine (perm_middle.append_left extra).trans ?_
        exact perm_middle
      distinct := by
        have distinct := (before.map FteEntry.id).nodup_iff.mp inv.distinct
        rw [map_cons, nodup_cons] at distinct
        exact distinct.2
      entryNewest other inNext := inv.entryNewest other (mem_removeKey.mp inNext).1
      entryOk other inNext unlocked := by
        obtain ⟨old, apart⟩ := mem_removeKey.mp inNext
        obtain ⟨slots, parents, inGroup⟩ := inv.entryOk other old unlocked
        exact ⟨slots.perm (others _ apart), parents, inGroup⟩
      handleOk handle live := by
        obtain ⟨inEntries, nonempty, apart⟩ := handleOk handle live
        obtain ⟨other, old, isEntry⟩ := mem_map.mp inEntries
        refine ⟨?_, nonempty⟩
        rw [← isEntry] at apart ⊢
        exact mem_map_of_mem (mem_removeKey.mpr ⟨old, apart⟩) }

theorem extendFte_inv (inv : Inv extra tree) (mem : entry ∈ tree.entries)
    (unlocked : entry.fte.locked = false)
    (once : entry.fte.NewOnce call.dests) : Inv extra (tree.extendFte entry call) := by
  obtain ⟨slots, parents, inGroup⟩ := inv.entryOk entry mem unlocked
  unfold extendFte
  split
  · next fte failed =>
    obtain ⟨endSlots, endParents, -, endInGroup⟩ := addRuleFg_failed slots parents failed
    exact inv.update mem fte tree.handles
      (fun _ => ⟨endSlots, endParents, endInGroup.trans inGroup⟩) (fun _ _ => .refl _)
      inv.handleOk
  next fte ids added =>
  have result := addRuleFg_added slots parents once added
  refine inv.update mem fte _ (fun _ => ⟨?_, result.parents, result.inGroup.trans inGroup⟩) ?_ ?_
  · dsimp only
    rw [heldBy_cons_self]
    exact result.slots
  · intro other apart
    rw [heldBy_cons_other _ _ (Ne.symm apart)]
  · intro handle live
    rcases mem_cons.mp live with rfl | old
    · exact ⟨mem_map_of_mem mem, result.nonempty⟩
    · exact inv.handleOk handle old

private theorem finishDeletion_slots {fte : Fte} {held : List Nat} (slots : fte.Slots held)
    (parents : ∀ rule ∈ fte.children, rule.parentSet = true) (inGroup : fte.inGroup = true) :
    fte.finishDeletion.inGroup = false ∧ held = [] ∨
      fte.finishDeletion.inGroup = true ∧ (fte.finishDeletion.locked = false → fte.finishDeletion.Slots held ∧
          ∀ rule ∈ fte.finishDeletion.children, rule.parentSet = true) := by
  unfold finishDeletion
  split
  · split
    · exact .inr ⟨inGroup, fun _ => ⟨slots.congr rfl rfl rfl, parents⟩⟩
    · exact .inr ⟨inGroup, fun _ => ⟨slots, parents⟩⟩
  split
  · next empty =>
    have single : fte.refcount = 1 := by rw [slots.attached, empty, countP_nil]
    have hwRefcount : fte.delHwFte.refcount = 1 := by
      unfold delHwFte
      split <;> exact single
    refine .inl ⟨?_, ?_⟩
    · simp [treePutNode, hwRefcount]
    · refine eq_nil_iff_forall_not_mem.mpr ?_
      intro id inHeld
      obtain ⟨rule, mem, -⟩ := slots.exists_rule inHeld
      rw [empty] at mem
      cases mem
  · exact .inr ⟨inGroup, nofun⟩

theorem delFlowRules_inv (inv : Inv extra tree)
    (live : handle ∈ tree.handles) (deleted : tree.delFlowRules handle = some next) :
    Inv extra next := by
  unfold delFlowRules at deleted
  split at deleted
  · cases deleted
  next entry found =>
  obtain ⟨mem, isEntry⟩ := mem_of_findKey found
  split at deleted
  · cases deleted
  next unlocked =>
  obtain ⟨slots, parents, inGroup⟩ := inv.entryOk entry mem (by simpa using unlocked)
  have heldPerm := heldBy_erase live entry.id
  rw [if_pos isEntry.symm] at heldPerm
  have reversed := slots.perm (heldPerm.trans ((reverse_perm handle.2).symm.append_right _))
  obtain ⟨removed, loop, removedSlots, removedParents, shrinks⟩ := removeSlots_slots _ reversed parents
  have finish := finishDeletion_slots removedSlots removedParents (shrinks.inGroup.trans inGroup)
  split at deleted
  · cases deleted
  next fte res =>
  have isFinish : fte = removed.finishDeletion := by
    unfold Fte.mlx5DelFlowRules at res
    split at res
    · rw [loop] at res
      exact (some.inj res).symm
    · cases res
  have othersPerm other (apart : other ≠ entry.id) : (heldBy tree.handles other).Perm
      (heldBy (tree.handles.erase handle) other) := by
    have perm := heldBy_erase live other
    rwa [if_neg (by rw [← isEntry]; exact Ne.symm apart), nil_append] at perm
  have handleOk other (inRest : other ∈ tree.handles.erase handle) : other.1 ∈ tree.entries.map
      FteEntry.id ∧ other.2 ≠ [] := inv.handleOk other (mem_of_mem_erase inRest)
  rw [← isFinish] at finish
  rcases finish with ⟨goes, noSlot⟩ | ⟨stays, ok⟩
  · rw [if_neg (by simp [goes])] at deleted
    cases deleted
    refine (inv.drop mem othersPerm ?_).put
    intro other inRest
    obtain ⟨inEntries, nonempty⟩ := handleOk other inRest
    refine ⟨inEntries, nonempty, ?_⟩
    intro same
    refine nonempty (eq_nil_iff_forall_not_mem.mpr ?_)
    intro id inSlots
    have inHeld : id ∈ heldBy (tree.handles.erase handle) entry.id :=
      mem_flatMap.mpr ⟨other, mem_filter.mpr ⟨inRest, by simpa using same⟩, inSlots⟩
    rw [noSlot] at inHeld
    cases inHeld
  · rw [if_pos stays] at deleted
    cases deleted
    refine inv.update mem fte _ (fun free => ?_) othersPerm handleOk
    obtain ⟨endSlots, endParents⟩ := ok free
    exact ⟨endSlots, endParents, stays⟩

private theorem mem_of_lookupFte (found : tree.lookupFte call = some entry) : entry ∈ tree.entries := by
  obtain ⟨-, found⟩ := ite_none_left_eq_some.mp found
  exact (mem_filter.mp (mem_of_getElem? found)).1

theorem addFlowRules_inv (inv : Inv [] tree) (once : tree.GivesNewOnce call)
    (added : tree.addFlowRules call = some next) : Inv [] next := by
  unfold addFlowRules at added
  split at added
  · next table autogroup isTable =>
    have listed : call.ft ∈ tree.nodes.map RefNode.id := by
      obtain ⟨node, found, -⟩ := map_eq_some_iff.mp isTable
      obtain ⟨member, isFt⟩ := mem_of_findKey found
      rw [← isFt]
      exact mem_map_of_mem member
    split at added
    · split at added
      · next entry found =>
        have member := mem_of_lookupFte found
        obtain ⟨-, added⟩ := ite_none_left_eq_some.mp added
        next unlocked =>
        cases added
        refine extendFte_inv inv member (by simpa using unlocked) ?_
        simpa only [GivesNewOnce, hitFte, found, map_some, getD_some] using once
      next absent =>
      have newOnce : (alloc call.flowAct).NewOnce call.dests := by
        simpa only [GivesNewOnce, hitFte, absent, map_none, getD_none] using once
      split at added
      · next group _ =>
        split at added
        · next isMatch =>
          cases added
          refine insertFte_inv inv ?_ newOnce
          obtain ⟨node, inFilter, rfl⟩ := mem_map.mp isMatch
          exact mem_map_of_mem (mem_filter.mp inFilter).1
        · cases added
      · split at added
        · cases added
          exact insertAuto_inv inv listed newOnce
        · cases added
          exact inv
    · cases added
      exact inv
  · cases added

theorem reachable_inv (reachable : FsReachable GivesNewOnce tree) : Inv [] tree := by
  induction reachable with
  | refl => exact init_inv
  | tail _ step inv =>
    cases step with
    | createTable table unmanaged autogroup fails =>
      exact createFlowTable_inv inv table unmanaged autogroup fails
    | destroyTable id fails owned notPrio =>
      unfold destroyFlowTable
      split
      · exact inv
      · exact treeRemoveNode_inv inv owned notPrio
    | createGroup ft matchCriteria fails isNode =>
      exact createFlowGroup_inv inv isNode matchCriteria fails
    | destroyGroup id owned notPrio => exact treeRemoveNode_inv inv owned notPrio
    | addRules _ call right added => exact addFlowRules_inv inv right added
    | delRules _ handle live deleted => exact delFlowRules_inv inv live deleted

end FsNodeTree

open FsNodeTree in
/-- Where no call gives a new destination twice, counts are those of live children, plus the creator's
reference while it has it, and no node stays without one; each entry no deletion left locked counts its
rules and itself; and the rules of a handle have its entry as parent and count the slots that hold them. -/
theorem tree_refcounts_exact (tree : FsNodeTree) (reachable : FsReachable GivesNewOnce tree) :
    (∀ node ∈ tree.nodes, node.refcount = tree.owned.count node.id +
        (childCount tree.nodes node.id + (tree.entries.map FteEntry.group).count node.id) ∧
      0 < node.refcount ∧ tree.owned.count node.id ≤ 1) ∧
    (∀ id ∈ tree.owned, id ∈ tree.nodes.map RefNode.id) ∧
    (∀ node ∈ tree.nodes, ∀ up, node.parent = some up → up ∈ tree.nodes.map RefNode.id) ∧
    (∀ entry ∈ tree.entries, entry.group ∈ tree.nodes.map RefNode.id ∧
      (entry.fte.locked = false → entry.fte.refcount = 1 + entry.fte.children.length ∧
        ∀ rule ∈ entry.fte.children, rule.parentSet = true ∧
          rule.refcount = (heldBy tree.handles entry.id).count rule.id ∧ 0 < rule.refcount)) ∧
    (∀ handle ∈ tree.handles, ∃ entry ∈ tree.entries, entry.id = handle.1 ∧
      (entry.fte.locked = false → ∀ id ∈ handle.2,
        ∃ rule ∈ entry.fte.children, rule.id = id ∧ rule.parentSet = true)) := by
  have inv := reachable_inv reachable
  have balanced := inv.balanced
  rw [nil_append] at balanced
  refine ⟨?_, ?_, ?_, ?_, ?_⟩
  · intro node member
    have refs := balanced.refs node member
    rw [count_append] at refs
    exact ⟨by omega, balanced.used node member, nodup_iff_count_le_one.mp inv.ownedOnce _⟩
  · exact fun id owned => balanced.listed id (mem_append_left _ owned)
  · exact fun node member up isUp => (balanced.parents node member up isUp).2
  · intro entry member
    refine ⟨balanced.listed _ (mem_append_right _ (mem_map_of_mem member)), ?_⟩
    intro unlocked
    obtain ⟨slots, parents, -⟩ := inv.entryOk entry member unlocked
    refine ⟨?_, ?_⟩
    · rw [slots.attached, countP_eq_length.mpr parents]
    · intro rule inChildren
      refine ⟨parents rule inChildren, slots.refs rule inChildren, ?_⟩
      rw [slots.refs rule inChildren]
      exact count_pos_iff.mpr (slots.used rule inChildren)
  · intro handle live
    obtain ⟨entry, member, isEntry⟩ := mem_map.mp (inv.handleOk handle live).1
    refine ⟨entry, member, isEntry, ?_⟩
    intro unlocked id inSlots
    obtain ⟨slots, parents, -⟩ := inv.entryOk entry member unlocked
    have inHeld : id ∈ heldBy tree.handles entry.id :=
      mem_flatMap.mpr ⟨handle, mem_filter.mpr ⟨live, by simpa using isEntry.symm⟩, inSlots⟩
    obtain ⟨rule, inChildren, isId⟩ := slots.exists_rule inHeld
    exact ⟨rule, inChildren, isId, parents rule inChildren⟩

/-- Rules on a new table that makes its groups itself. -/
def autoGroupedCall : AddCall where
  ft := 1
  matchCriteria := 5
  matchValue := 7
  flowAct := ⟨actionFwdDest, false, none⟩
  noAppend := false
  dest := [.tir 3, .tir 4]
  numDest := 2
  found := 0
  groupRoom := none
  autoRoom := true
  groupFails := false
  entryFails := false

/-- A second entry of the same value in the group, with a destination that is not counted. -/
def duplicateCall : AddCall :=
  { autoGroupedCall with noAppend := true, dest := [.tir 3], numDest := 0, groupRoom := some 2 }

/-- The table is destroyed and the first entry's rules are deleted; the second entry keeps group and table. -/
theorem tree_refcounts_exact_auto_grouped :
    ∃ tree, FsReachable FsNodeTree.GivesNewOnce tree ∧ tree.owned = [0] ∧ tree.handles = [(4, [0])] ∧
      tree.nodes.map (fun node => (node.id, node.refcount)) = [(2, 1), (1, 1), (0, 2)] ∧
      ∀ node ∈ tree.nodes, node.refcount = tree.owned.count node.id +
        (childCount tree.nodes node.id + (tree.entries.map FteEntry.group).count node.id) := by
  have run : ∃ first second third, (FsNodeTree.init.createFlowTable ⟨0, .nicRx, 0⟩ false true false).addFlowRules
        autoGroupedCall = some first ∧ first.GivesNewOnce duplicateCall ∧
      first.addFlowRules duplicateCall = some second ∧ (3, [0, 1]) ∈ second.handles ∧ 1 ∈ second.owned ∧
      (second.destroyFlowTable 1 false).delFlowRules (3, [0, 1]) = some third ∧
      third.owned = [0] ∧ third.handles = [(4, [0])] ∧
      third.nodes.map (fun node => (node.id, node.refcount)) = [(2, 1), (1, 1), (0, 2)] :=
    ⟨_, _, _, rfl, by decide, rfl, by decide, by decide, rfl, rfl, rfl, rfl⟩
  obtain ⟨first, second, third, added, once, again, live, owned, deleted, left⟩ := run
  have reachable : FsReachable FsNodeTree.GivesNewOnce third :=
    ((((Relation.ReflTransGen.single (.createTable _ _ _ _ _)).tail
      (.addRules _ _ autoGroupedCall (by decide) added)).tail (.addRules _ _ duplicateCall once again)).tail
      (.destroyTable _ 1 false owned (by decide))).tail (.delRules (second.destroyFlowTable 1 false) _ _ live deleted)
  exact ⟨third, reachable, left.1, left.2.1, left.2.2,
    fun node member => ((tree_refcounts_exact third reachable).1 node member).1⟩

/-- The group that was made for an entry is kept by the entry alone. -/
theorem auto_group_has_no_creation_reference :
    ¬ ∀ tree, FsReachable (fun _ _ => True) tree → ∀ node ∈ tree.nodes,
      node.refcount = 1 + (childCount tree.nodes node.id +
        (tree.entries.map FteEntry.group).count node.id) := by
  intro always
  have first : FsStep (fun _ _ => True) FsNodeTree.init
      (FsNodeTree.init.createFlowTable ⟨0, .nicRx, 0⟩ false true false) := .createTable _ _ _ _ _
  have run : ∃ next, (FsNodeTree.init.createFlowTable ⟨0, .nicRx, 0⟩ false true false).addFlowRules
      autoGroupedCall = some next ∧ ⟨2, some 1, 1, .flowGroup 5⟩ ∈ next.nodes ∧
      next.entries.map FteEntry.group = [2] := ⟨_, rfl, by decide, rfl⟩
  obtain ⟨next, added, isGroup, groups⟩ := run
  have reachable : FsReachable (fun _ _ => True) next :=
    (Relation.ReflTransGen.single first).tail (.addRules _ _ autoGroupedCall trivial added)
  have counted := always next reachable _ isGroup
  rw [groups] at counted
  dsimp only at counted
  rw [count_singleton_self] at counted
  omega

end MlnxOfed.FsCore
