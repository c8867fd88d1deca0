/-
The miss chain of one root namespace over table creations and destructions.

Both patch the chain at the closest previous priority only, and only when the first table of a priority
changes. Where that is enough, the device's next pointers agree with the search after every step, and the
root table has the lowest level.
-/

import Mathlib.Data.List.Nodup
import MlnxOfed.FsCore.ClosestTable

namespace MlnxOfed.FsCore

open Option Function List Lib FsTree RootNs

/-- Tables sit in leaf priorities, sorted by level within the priority's range, told apart by address. -/
structure RootNs.Placed (tree : FsTree) (root : RootNs) : Prop where
  leaf : ∀ prio, root.tables prio ≠ [] → prio ∈ tree.root.leaves
  owner : ∀ prio, ∀ ft ∈ root.tables prio, ft.prio = prio
  levels : ∀ prio, ∀ ft ∈ root.tables prio, ∀ attrs ∈ tree.attrs, attrs.prio = prio →
    attrs.startLevel ≤ ft.level ∧ ft.level < attrs.startLevel + attrs.numLevels
  sorted : ∀ prio, (root.tables prio).Pairwise fun left right => left.level ≤ right.level
  nodup : ∀ prio, (root.tables prio).Nodup
  distinct : ∀ prio, ∀ ft ∈ root.tables prio, ∀ other, ∀ ft' ∈ root.tables other, ft.id = ft'.id → ft = ft'

theorem FsTree.attrs_prio (tree : FsTree) : tree.attrs.map PrioAttrs.prio = tree.root.leaves :=
  (setPrioAttrs_spec tree.warnFree (.inl rfl)).2.1

variable {left right : PrioAttrs}

theorem FsTree.attrs_ordered (tree : FsTree) (leftIn : left ∈ tree.attrs)
    (rightIn : right ∈ tree.attrs) (old : left.prio < right.prio) :
    left.startLevel + left.numLevels ≤ right.startLevel := by
  have ordered := (setPrioAttrs_spec tree.warnFree (.inl rfl)).2.2.2
  have numbered := tree.numbered
  rw [← tree.attrs_prio, pairwise_map] at numbered
  rw [pairwise_iff_getElem] at ordered numbered
  obtain ⟨i, iBound, rfl⟩ := mem_iff_getElem.mp leftIn
  obtain ⟨j, jBound, rfl⟩ := mem_iff_getElem.mp rightIn
  rcases Nat.lt_trichotomy i j with early | same | late
  · exact ordered i j iBound jBound early
  · subst same
    exact absurd old (lt_irrefl _)
  · exact absurd (numbered j i jBound iBound late) (Nat.not_lt_of_lt old)

theorem FsTree.attrs_unique (tree : FsTree) (leftIn : left ∈ tree.attrs)
    (rightIn : right ∈ tree.attrs) (same : left.prio = right.prio) : left = right := by
  have nodup : (tree.attrs.map PrioAttrs.prio).Nodup := by
    rw [tree.attrs_prio]
    exact tree.numbered.imp fun old => Nat.ne_of_lt old
  exact inj_on_of_nodup_map nodup leftIn rightIn same

section Placed

variable {tree : FsTree} {root : RootNs}

theorem RootNs.Placed.attrs_of (placed : root.Placed tree) {prio ft}
    (mem : ft ∈ root.tables prio) : ∃ attrs ∈ tree.attrs, attrs.prio = prio := by
  have isLeaf := placed.leaf prio (ne_nil_of_mem mem)
  rw [← tree.attrs_prio] at isLeaf
  exact mem_map.mp isLeaf

theorem RootNs.Placed.level_lt (placed : root.Placed tree) {left right}
    {ft ft'} (leftIn : ft ∈ root.tables left) (rightIn : ft' ∈ root.tables right)
    (old : left < right) : ft.level < ft'.level := by
  obtain ⟨leftAttrs, leftMember, rfl⟩ := placed.attrs_of leftIn
  obtain ⟨rightAttrs, rightMember, rfl⟩ := placed.attrs_of rightIn
  have apart := tree.attrs_ordered leftMember rightMember old
  have leftLevel := placed.levels _ ft leftIn leftAttrs leftMember rfl
  have rightLevel := placed.levels _ ft' rightIn rightAttrs rightMember rfl
  omega

theorem RootNs.Placed.head_le (placed : root.Placed tree) {prio first ft}
    (isFirst : (root.tables prio).head? = some first) (mem : ft ∈ root.tables prio) :
    first.level ≤ ft.level := by
  have sorted := placed.sorted prio
  cases list : root.tables prio with
  | nil =>
    rw [list] at mem
    cases mem
  | cons head rest =>
    rw [list] at isFirst mem sorted
    cases isFirst
    rcases mem_cons.mp mem with rfl | later
    · exact le_rfl
    · exact (pairwise_cons.mp sorted).1 ft later

end Placed

def FsTree.firstFt (tree : FsTree) (tables : Nat → List FlowTable) : Option FlowTable :=
  tree.root.leaves.findSome? fun prio => (tables prio).head?

variable {tables : Nat → List FlowTable}

theorem FsTree.firstFt_some (tree : FsTree) {ft} (found : tree.firstFt tables = some ft) :
    ∃ prio ∈ tree.root.leaves, (tables prio).head? = some ft ∧
      ∀ other ∈ tree.root.leaves, tables other ≠ [] → prio ≤ other := by
  obtain ⟨prio, mem, head, least⟩ := findSome?_ordered tree.numbered found
  refine ⟨prio, mem, head, ?_⟩
  intro other otherIn occupied
  have here : (tables other).head? ≠ none := by
    rw [ne_eq, head?_eq_none_iff]
    exact occupied
  rcases least other otherIn here with same | before
  · exact le_of_eq same.symm
  · exact le_of_lt before

theorem FsTree.firstFt_none (tree) {root : RootNs} (placed : root.Placed tree)
    (missing : tree.firstFt root.tables = none) (prio) : root.tables prio = [] := by
  by_contra occupied
  rw [firstFt, findSome?_eq_none_iff] at missing
  exact occupied (head?_eq_none_iff.mp (missing prio (placed.leaf prio occupied)))

theorem FsTree.firstFt_eq (tree : FsTree) {prio}
    {ft} (mem : prio ∈ tree.root.leaves) (head : (tables prio).head? = some ft)
    (least : ∀ other ∈ tree.root.leaves, tables other ≠ [] → prio ≤ other) :
    tree.firstFt tables = some ft := by
  have occupied : tables prio ≠ [] := ne_nil_of_mem (mem_of_mem_head? head)
  cases found : tree.firstFt tables with
  | none =>
    rw [firstFt, findSome?_eq_none_iff] at found
    exact absurd (head?_eq_none_iff.mp (found prio mem)) occupied
  | some hit =>
    obtain ⟨other, otherIn, otherHead, otherLeast⟩ := tree.firstFt_some found
    have otherOccupied : tables other ≠ [] := ne_nil_of_mem (mem_of_mem_head? otherHead)
    have same := le_antisymm (least other otherIn otherOccupied) (otherLeast prio mem occupied)
    rw [← same, head] at otherHead
    exact otherHead.symm

section ListAdd

variable (ft : FlowTable) (list : List FlowTable)

theorem mem_listAddFlowTable {other} : other ∈ listAddFlowTable ft list ↔ other = ft ∨ other ∈ list := by
  induction list with
  | nil => simp [listAddFlowTable]
  | cons head rest ih =>
    unfold listAddFlowTable
    split
    · simp
    · rw [mem_cons, ih, mem_cons]
      tauto

private theorem listAddFlowTable_sorted (sorted : list.Pairwise fun left right => left.level ≤ right.level) :
    (listAddFlowTable ft list).Pairwise fun left right => left.level ≤ right.level := by
  induction list with
  | nil => simp [listAddFlowTable]
  | cons head rest ih =>
    obtain ⟨least, others⟩ := pairwise_cons.mp sorted
    unfold listAddFlowTable
    split
    · rename_i old
      refine pairwise_cons.mpr ⟨?_, sorted⟩
      intro other mem
      rcases mem_cons.mp mem with rfl | later
      · omega
      · have bound := least other later
        omega
    · rename_i notBefore
      refine pairwise_cons.mpr ⟨?_, ih others⟩
      intro other mem
      rcases (mem_listAddFlowTable ft rest).mp mem with rfl | later
      · omega
      · exact least other later

theorem listAddFlowTable_nodup (nodup : list.Nodup) (fresh : ft ∉ list) : (listAddFlowTable ft list).Nodup := by
  induction list with
  | nil => simp [listAddFlowTable]
  | cons head rest ih =>
    obtain ⟨absent, others⟩ := nodup_cons.mp nodup
    unfold listAddFlowTable
    split
    · exact nodup_cons.mpr ⟨fresh, nodup⟩
    refine nodup_cons.mpr ⟨?_, ih others fun mem =>
      fresh (.tail _ mem)⟩
    intro mem
    rcases (mem_listAddFlowTable ft rest).mp mem with same | later
    · exact fresh (same ▸ mem_cons_self)
    · exact absent later

theorem listAddFlowTable_head : (listAddFlowTable ft list).head? = match list.head? with
      | some first => if first.level > ft.level then some ft else some first
      | none => some ft := by
  cases list with
  | nil => rfl
  | cons head rest =>
    simp only [listAddFlowTable, head?_cons]
    split <;> rfl

end ListAdd

section Frame

variable (tree : FsTree) (root : RootNs)

variable (newNext oldNext : Option FlowTable)

@[simp]
theorem connectFwdRules_tables : (connectFwdRules tree root newNext oldNext).tables = root.tables := by
  unfold connectFwdRules
  split <;> rfl

@[simp]
theorem connectFwdRules_nextFt : (connectFwdRules tree root newNext oldNext).nextFt = root.nextFt := by
  unfold connectFwdRules
  split <;> rfl

@[simp]
theorem connectFwdRules_rootFt : (connectFwdRules tree root newNext oldNext).rootFt = root.rootFt := by
  unfold connectFwdRules
  split <;> rfl

theorem connectFwdRules_rules_nil (none : root.rules = []) :
    (connectFwdRules tree root newNext oldNext).rules = [] := by
  unfold connectFwdRules
  split
  · simp [none]
  · exact none

@[simp]
theorem connectPrevFts_tables (ft prio) : (connectPrevFts tree root ft prio).tables = root.tables := by
  unfold connectPrevFts
  split <;> rfl

@[simp]
theorem connectPrevFts_rootFt (ft prio) : (connectPrevFts tree root ft prio).rootFt = root.rootFt := by
  unfold connectPrevFts
  split <;> rfl

@[simp]
theorem connectPrevFts_rules (ft prio) : (connectPrevFts tree root ft prio).rules = root.rules := by
  unfold connectPrevFts
  split <;> rfl

variable (ft : FlowTable)

include ft

@[simp]
theorem updateRootFtCreate_tables : (updateRootFtCreate root ft).tables = root.tables := by
  unfold updateRootFtCreate
  split
  · split <;> rfl
  · rfl

@[simp]
theorem updateRootFtCreate_nextFt : (updateRootFtCreate root ft).nextFt = root.nextFt := by
  unfold updateRootFtCreate
  split
  · split <;> rfl
  · rfl

@[simp]
theorem updateRootFtCreate_rules : (updateRootFtCreate root ft).rules = root.rules := by
  unfold updateRootFtCreate
  split
  · split <;> rfl
  · rfl

@[simp]
theorem updateRootFtDestroy_tables : (updateRootFtDestroy tree root ft).tables = root.tables := by
  unfold updateRootFtDestroy
  split <;> rfl

@[simp]
theorem updateRootFtDestroy_nextFt : (updateRootFtDestroy tree root ft).nextFt = root.nextFt := by
  unfold updateRootFtDestroy
  split <;> rfl

@[simp]
theorem updateRootFtDestroy_rules : (updateRootFtDestroy tree root ft).rules = root.rules := by
  unfold updateRootFtDestroy
  split <;> rfl

omit ft

end Frame

section Patch

variable {tree : FsTree} {root : RootNs} {prio : Nat}

theorem connectPrevFts_prev (placed : root.Placed tree) (member : prio ∈ tree.root.leaves)
    {prev} (isPrev : tree.follows.IsPrev (tree.occupied root.tables) prio prev)
    (next) {ft} (ftIn : ft ∈ root.tables prev) :
    (connectPrevFts tree root next prio).nextFt ft.id = next := by
  unfold connectPrevFts
  cases found : findPrevChainedFt tree root.tables prio with
  | none => exact absurd isPrev.rel (findPrevChainedFt_none member found isPrev.member)
  | some prevFt =>
    obtain ⟨other, isOther, otherIn⟩ := findPrevChainedFt_some member found
    have same : other = prev := le_antisymm (isPrev.greatest other isOther.member isOther.rel)
      (isOther.greatest prev isPrev.member isPrev.rel)
    have owner := placed.owner other prevFt otherIn
    simp only [connectFtsInPrio, owner, same]
    rw [if_pos (mem_map_of_mem ftIn)]

theorem connectPrevFts_other (placed : root.Placed tree) (mem : prio ∈ tree.root.leaves) (next) {id}
    (elsewhere : ∀ prev, tree.follows.IsPrev (tree.occupied root.tables) prio prev →
      ∀ ft ∈ root.tables prev, ft.id ≠ id) :
    (connectPrevFts tree root next prio).nextFt id = root.nextFt id := by
  unfold connectPrevFts
  cases found : findPrevChainedFt tree root.tables prio with
  | none => rfl
  | some prevFt =>
    obtain ⟨prev, isPrev, prevIn⟩ := findPrevChainedFt_some mem found
    have owner := placed.owner prev prevFt prevIn
    simp only [connectFtsInPrio, owner]
    rw [if_neg]
    intro listed
    obtain ⟨ft, ftIn, same⟩ := mem_map.mp listed
    exact elsewhere prev isPrev ft ftIn same

theorem connectPrevFts_not_prev (placed : root.Placed tree) (mem : prio ∈ tree.root.leaves)
    (next) {other ft} (ftIn : ft ∈ root.tables other)
    (notPrev : ¬ tree.follows.IsPrev (tree.occupied root.tables) prio other) :
    (connectPrevFts tree root next prio).nextFt ft.id = root.nextFt ft.id := by
  apply connectPrevFts_other placed mem
  intro prev isPrev prevFt prevIn same
  have sameFt := placed.distinct prev prevFt prevIn other ft ftIn same
  have samePrio : prev = other := by
    rw [← placed.owner prev prevFt prevIn, ← placed.owner other ft ftIn, sameFt]
  exact notPrev (samePrio ▸ isPrev)

private theorem not_isPrev_self (occupied : Set Nat) : ¬ tree.follows.IsPrev occupied prio prio :=
  fun isPrev => lt_irrefl _ (tree.follows.lt isPrev.rel)

end Patch

/-! ### The invariant -/

structure RootNs.ChainValid (tree : FsTree) (root : RootNs) : Prop where
  placed : root.Placed tree
  next : ∀ prio, ∀ ft ∈ root.tables prio, root.nextFt ft.id = findNextChainedFt tree root.tables prio
  rootFirst : root.rootFt = tree.firstFt root.tables
  noRules : root.rules = []

private theorem createRootNs_placed (tree) : createRootNs.Placed tree := by
  refine ⟨?_, ?_, ?_, ?_, ?_, ?_⟩ <;> simp [createRootNs]

private theorem createRootNs_chainValid (tree) : createRootNs.ChainValid tree where
  placed := createRootNs_placed tree
  next := by simp [createRootNs]
  rootFirst := by
    symm
    change tree.root.leaves.findSome? _ = none
    rw [findSome?_eq_none_iff]
    intro prio _
    rfl
  noRules := rfl

/-- The source's `list_first_entry_or_null` test: the new table becomes first of its priority. -/
def RootNs.BecomesFirst (root : RootNs) (prio level : Nat) : Prop :=
  ∀ first, (root.tables prio).head? = some first → level < first.level

section BecomesFirst

variable {root : RootNs} {ft : FlowTable}

private theorem listAddFlowTable_first (first : root.BecomesFirst ft.prio ft.level) :
    (listAddFlowTable ft (root.tables ft.prio)).head? = some ft := by
  rw [listAddFlowTable_head]
  cases old : (root.tables ft.prio).head? with
  | none => rfl
  | some iter => exact if_pos (first iter old)

private theorem listAddFlowTable_later (later : ¬ root.BecomesFirst ft.prio ft.level) :
    (listAddFlowTable ft (root.tables ft.prio)).head? = (root.tables ft.prio).head? := by
  rw [listAddFlowTable_head]
  cases old : (root.tables ft.prio).head? with
  | none => exact absurd (fun iter some => by rw [old] at some; cases some) later
  | some iter =>
    apply if_neg
    intro before
    apply later
    intro other isIter
    rw [old] at isIter
    cases isIter
    exact before

end BecomesFirst

/-- Where `connect_flow_table` starts: the device has the new table with its next pointer. -/
def RootNs.withNewFt (tree : FsTree) (root : RootNs) (id prio : Nat) : RootNs :=
  { root with
    nextFt := update root.nextFt id (findNextChainedFt tree root.tables prio)
    fwdRules := update root.fwdRules id [] }

section Create

variable {tree : FsTree} {root after : RootNs} {id prio level : Nat} {modifyRoot : Bool}

theorem mlx5CreateFlowTable_some
    (made : mlx5CreateFlowTable tree modifyRoot root id prio level = some after) :
    ∃ attrs ∈ tree.attrs, ∃ ft : FlowTable, id = ft.id ∧ prio = ft.prio ∧ attrs.prio = ft.prio ∧
      ft.level = level + attrs.startLevel ∧ level < attrs.numLevels ∧
      ∃ connected, connected = connectFlowTable tree modifyRoot (root.withNewFt tree ft.id ft.prio) ft ft.prio ∧
        after = { connected with
          tables := update connected.tables ft.prio (listAddFlowTable ft (connected.tables ft.prio)) } := by
  unfold mlx5CreateFlowTable at made
  split at made
  · cases made
  rename_i attrs found
  split at made
  · cases made
  · rename_i inRange
    have named := find?_some found
    simp only [decide_eq_true_eq] at named
    exact ⟨attrs, mem_of_find?_eq_some found, ⟨id, prio, level + attrs.startLevel⟩, rfl, rfl,
      named, rfl, by omega, _, rfl, (some.inj made).symm⟩

def RootNs.withRootFt (modifyRoot : Bool) (root : RootNs) (ft : FlowTable) : RootNs :=
  if modifyRoot then updateRootFtCreate root ft else root

theorem connectFlowTable_first {ft} (first : root.BecomesFirst prio ft.level) :
    connectFlowTable tree modifyRoot root ft prio =
      (connectFwdRules tree (connectPrevFts tree root (some ft) prio) (some ft)
        ((root.tables prio).head?.or (findNextChainedFt tree root.tables prio))).withRootFt
          modifyRoot ft := by
  unfold connectFlowTable
  cases head : (root.tables prio).head? with
  | none =>
    simp only [if_true, connectPrevFts_tables, none_or]
    rfl
  | some iter =>
    have before := first iter head
    simp only [gt_iff_lt, before, decide_true, if_true, some_or]
    rfl

theorem connectFlowTable_later {ft} (later : ¬ root.BecomesFirst prio ft.level) :
    connectFlowTable tree modifyRoot root ft prio = root.withRootFt modifyRoot ft := by
  unfold connectFlowTable
  cases head : (root.tables prio).head? with
  | none => exact absurd (fun iter same => by rw [head] at same; cases same) later
  | some iter =>
    have notBefore : ¬ ft.level < iter.level := by
      intro old
      apply later
      intro other same
      rw [head] at same
      cases same
      exact old
    simp only [gt_iff_lt, notBefore, decide_false, Bool.false_eq_true, if_false]
    rfl

variable (ft : FlowTable)

include ft

@[simp]
theorem RootNs.withRootFt_tables : (root.withRootFt modifyRoot ft).tables = root.tables := by
  unfold withRootFt
  split <;> simp

@[simp]
theorem RootNs.withRootFt_nextFt : (root.withRootFt modifyRoot ft).nextFt = root.nextFt := by
  unfold withRootFt
  split <;> simp

@[simp]
theorem RootNs.withRootFt_rules : (root.withRootFt modifyRoot ft).rules = root.rules := by
  unfold withRootFt
  split <;> simp

theorem RootNs.withRootFt_rootFt : (root.withRootFt true ft).rootFt = match root.rootFt with
      | some rootFt => if ft.level ≥ rootFt.level then some rootFt else some ft
      | none => some ft := by
  simp only [withRootFt, if_true, updateRootFtCreate]
  cases current : root.rootFt with
  | none => rfl
  | some rootFt =>
    simp only
    split
    · exact current
    · rfl

theorem RootNs.withRootFt_congr {other : RootNs} (same : other.rootFt = root.rootFt) :
    (other.withRootFt true ft).rootFt = (root.withRootFt true ft).rootFt := by
  rw [withRootFt_rootFt, withRootFt_rootFt, same]

@[simp]
theorem connectFlowTable_tables : (connectFlowTable tree modifyRoot root ft prio).tables = root.tables := by
  by_cases first : root.BecomesFirst prio ft.level
  · simp [connectFlowTable_first first]
  · simp [connectFlowTable_later first]

private theorem connectFlowTable_rootFt :
    (connectFlowTable tree true root ft prio).rootFt = (root.withRootFt true ft).rootFt := by
  by_cases first : root.BecomesFirst prio ft.level
  · rw [connectFlowTable_first first]
    exact withRootFt_congr ft (by simp)
  · rw [connectFlowTable_later first]

private theorem connectFlowTable_rules_nil (none : root.rules = []) :
    (connectFlowTable tree modifyRoot root ft prio).rules = [] := by
  by_cases first : root.BecomesFirst prio ft.level
  · simp [connectFlowTable_first first, connectFwdRules_rules_nil, none]
  · simp [connectFlowTable_later first, none]

omit ft

theorem RootNs.Placed.create (placed : root.Placed tree) {attrs new}
    (attrsIn : attrs ∈ tree.attrs) (named : attrs.prio = new.prio) (inRange : level < attrs.numLevels)
    (isLevel : new.level = level + attrs.startLevel) (fresh : ∀ other, ∀ ft ∈ root.tables other, ft.id ≠ new.id)
    (tables : after.tables = update root.tables new.prio (listAddFlowTable new (root.tables new.prio))) :
    after.Placed tree := by
  have isLeaf : new.prio ∈ tree.root.leaves := by
    rw [← tree.attrs_prio, ← named]
    exact mem_map_of_mem attrsIn
  -- A table of the new state is the new one or an old one.
  have cases other ft (mem : ft ∈ after.tables other) : (other = new.prio ∧ ft = new) ∨ ft ∈ root.tables
      other := by
    rw [tables] at mem
    by_cases same : other = new.prio
    · subst same
      rw [update_self, mem_listAddFlowTable] at mem
      rcases mem with new | old
      · exact .inl ⟨rfl, new⟩
      · exact .inr old
    · rw [update_of_ne same] at mem
      exact .inr mem
  refine ⟨?_, ?_, ?_, ?_, ?_, ?_⟩
  · intro other nonempty
    obtain ⟨ft, mem⟩ := exists_mem_of_ne_nil _ nonempty
    rcases cases other ft mem with ⟨rfl, _⟩ | old
    · exact isLeaf
    · exact placed.leaf other (ne_nil_of_mem old)
  · intro other ft mem
    rcases cases other ft mem with ⟨rfl, rfl⟩ | old
    · rfl
    · exact placed.owner other ft old
  · intro other ft mem otherAttrs otherIn otherNamed
    rcases cases other ft mem with ⟨rfl, rfl⟩ | old
    · have unique := tree.attrs_unique otherIn attrsIn (otherNamed.trans named.symm)
      subst unique
      omega
    · exact placed.levels other ft old otherAttrs otherIn otherNamed
  · intro other
    rw [tables]
    by_cases same : other = new.prio
    · subst same
      rw [update_self]
      exact listAddFlowTable_sorted _ _ (placed.sorted _)
    · rw [update_of_ne same]
      exact placed.sorted other
  · intro other
    rw [tables]
    by_cases same : other = new.prio
    · subst same
      rw [update_self]
      refine listAddFlowTable_nodup _ _ (placed.nodup _) ?_
      intro mem
      exact fresh _ _ mem rfl
    · rw [update_of_ne same]
      exact placed.nodup other
  · intro other ft mem other' ft' member' same
    rcases cases other ft mem with ⟨_, rfl⟩ | old
    · rcases cases other' ft' member' with ⟨_, rfl⟩ | old'
      · rfl
      · exact absurd same.symm (fresh other' ft' old')
    · rcases cases other' ft' member' with ⟨_, rfl⟩ | old'
      · exact absurd same (fresh other ft old)
      · exact placed.distinct other ft old other' ft' old' same

private theorem rootFirst_create (placed : root.Placed tree) {ft}
    (isLeaf : ft.prio ∈ tree.root.leaves) (afterPlaced : after.Placed tree)
    (rootFirst : root.rootFt = tree.firstFt root.tables)
    (tables : after.tables = update root.tables ft.prio (listAddFlowTable ft (root.tables ft.prio))) :
    (root.withRootFt true ft).rootFt = tree.firstFt after.tables := by
  have here : after.tables ft.prio = listAddFlowTable ft (root.tables ft.prio) := by rw [tables, update_self]
  have elsewhere other (apart : other ≠ ft.prio) : after.tables other = root.tables other := by
    rw [tables, update_of_ne apart]
  have ftIn : ft ∈ after.tables ft.prio := by
    rw [here, mem_listAddFlowTable]
    exact .inl rfl
  have head := listAddFlowTable_head ft (root.tables ft.prio)
  rw [← here] at head
  rw [withRootFt_rootFt]
  cases current : root.rootFt with
  | none =>
    rw [rootFirst] at current
    have empty := tree.firstFt_none placed current
    rw [empty ft.prio] at head
    symm
    refine tree.firstFt_eq isLeaf head ?_
    intro other _ occupied
    by_contra early
    rw [elsewhere other (fun same => early (le_of_eq same.symm)), empty] at occupied
    exact occupied rfl
  | some rootFt =>
    have isRoot := current
    rw [rootFirst] at isRoot
    obtain ⟨place, placeLeaf, placeHead, least⟩ := tree.firstFt_some isRoot
    have rootIn : rootFt ∈ root.tables place := mem_of_mem_head? placeHead
    symm
    simp only
    rcases Nat.lt_trichotomy ft.prio place with old | same | behind
    · -- In front of everything: the priority was empty and its levels are lower.
      have lower : ft.level < rootFt.level := by
        refine afterPlaced.level_lt ftIn ?_ old
        rw [elsewhere place (Nat.ne_of_gt old)]
        exact rootIn
      have empty : root.tables ft.prio = [] := by
        by_contra occupied
        exact absurd (least ft.prio isLeaf occupied) (Nat.not_le_of_lt old)
      rw [empty] at head
      rw [if_neg (Nat.not_le_of_lt lower)]
      refine tree.firstFt_eq isLeaf head ?_
      intro other otherLeaf occupied
      by_cases sameOther : other = ft.prio
      · exact le_of_eq sameOther.symm
      · rw [elsewhere other sameOther] at occupied
        exact le_trans (le_of_lt old) (least other otherLeaf occupied)
    · -- In the first priority itself: the list decides as the root update does.
      subst same
      rw [placeHead] at head
      have leastAfter other (otherLeaf : other ∈ tree.root.leaves) (occupied : after.tables other ≠ []) :
          ft.prio ≤ other := by
        by_cases sameOther : other = ft.prio
        · exact le_of_eq sameOther.symm
        · rw [elsewhere other sameOther] at occupied
          exact least other otherLeaf occupied
      by_cases lower : rootFt.level > ft.level
      · simp only [if_pos lower] at head
        rw [if_neg (by omega)]
        exact tree.firstFt_eq isLeaf head leastAfter
      · simp only [if_neg lower] at head
        rw [if_pos (by omega)]
        exact tree.firstFt_eq isLeaf head leastAfter
    · -- Behind it: the root table stays.
      have higher : rootFt.level < ft.level := by
        refine afterPlaced.level_lt ?_ ftIn behind
        rw [elsewhere place (Nat.ne_of_lt behind)]
        exact rootIn
      rw [if_pos (le_of_lt higher)]
      refine tree.firstFt_eq placeLeaf ?_ ?_
      · rw [elsewhere place (Nat.ne_of_lt behind)]
        exact placeHead
      · intro other otherLeaf occupied
        by_cases sameOther : other = ft.prio
        · exact sameOther ▸ le_of_lt behind
        · rw [elsewhere other sameOther] at occupied
          exact least other otherLeaf occupied

/-- A creation that changes a priority's first table can be patched at the previous one. -/
def SafeCreate (tree : FsTree) (root : RootNs) (prio level : Nat) : Prop :=
  ∀ attrs ∈ tree.attrs, attrs.prio = prio → root.BecomesFirst prio (level + attrs.startLevel) →
    tree.follows.Patchable (tree.occupied root.tables) prio

section NewTable

variable {ft : FlowTable} {changed : Nat → List FlowTable}

theorem RootNs.withNewFt_new : (root.withNewFt tree ft.id ft.prio).nextFt ft.id =
      findNextChainedFt tree root.tables ft.prio :=
  update_self _ _ _

variable {item : FlowTable} {other : Nat}

theorem RootNs.withNewFt_old (fresh : ∀ other, ∀ item ∈ root.tables other, item.id ≠ ft.id)
    (mem : item ∈ root.tables other) :
    (root.withNewFt tree ft.id ft.prio).nextFt item.id = root.nextFt item.id :=
  update_of_ne (fresh other item mem) _ _

private theorem next_create_first (valid : root.ChainValid tree)
    (fresh : ∀ other, ∀ item ∈ root.tables other, item.id ≠ ft.id) (isLeaf : ft.prio ∈ tree.root.leaves)
    (patchable : tree.follows.Patchable (tree.occupied root.tables) ft.prio)
    (first : root.BecomesFirst ft.prio ft.level)
    (here : changed ft.prio = listAddFlowTable ft (root.tables ft.prio))
    (agree : ∀ other, other ≠ ft.prio → changed other = root.tables other) (mem : item ∈ changed other) :
    (connectPrevFts tree (root.withNewFt tree ft.id ft.prio) (some ft) ft.prio).nextFt item.id =
      findNextChainedFt tree changed other := by
  have startPlaced : (root.withNewFt tree ft.id ft.prio).Placed tree := { valid.placed with }
  have newHead : (changed ft.prio).head? = some ft := by rw [here, listAddFlowTable_first first]
  by_cases same : other = ft.prio
  · subst same
    rw [next_self_unchanged isLeaf agree]
    rw [here, mem_listAddFlowTable] at mem
    rcases mem with rfl | old
    · rw [connectPrevFts_other startPlaced isLeaf _ fun prev _ prevFt prevIn =>
        fresh prev prevFt prevIn]
      exact withNewFt_new
    · rw [connectPrevFts_not_prev startPlaced isLeaf _ old (not_isPrev_self _), withNewFt_old fresh old]
      exact valid.next _ item old
  rw [agree other same] at mem
  by_cases isPrev : tree.follows.IsPrev (tree.occupied root.tables) ft.prio other
  · rw [connectPrevFts_prev startPlaced isLeaf isPrev _ mem,
      next_of_prev patchable isLeaf agree isPrev, newHead]
    rw [here]
    exact ne_nil_of_mem ((mem_listAddFlowTable ft _).mpr (.inl rfl))
  · have occupied : other ∈ tree.occupied root.tables :=
      ⟨valid.placed.leaf other (ne_nil_of_mem mem), ne_nil_of_mem mem⟩
    rw [connectPrevFts_not_prev startPlaced isLeaf _ mem isPrev,
      withNewFt_old fresh mem, next_unchanged patchable isLeaf agree occupied isPrev]
    exact valid.next _ item mem

private theorem next_create_later (valid : root.ChainValid tree)
    (fresh : ∀ other, ∀ item ∈ root.tables other, item.id ≠ ft.id)
    (later : ¬ root.BecomesFirst ft.prio ft.level)
    (here : changed ft.prio = listAddFlowTable ft (root.tables ft.prio))
    (agree : ∀ other, other ≠ ft.prio → changed other = root.tables other) (mem : item ∈ changed other) :
    (root.withNewFt tree ft.id ft.prio).nextFt item.id = findNextChainedFt tree changed other := by
  have sameHeads other : (changed other).head? = (root.tables other).head? := by
    by_cases same : other = ft.prio
    · subst same
      rw [here, listAddFlowTable_later later]
    · rw [agree other same]
  rw [next_of_same_heads sameHeads]
  by_cases same : other = ft.prio
  · subst same
    rw [here, mem_listAddFlowTable] at mem
    rcases mem with rfl | old
    · exact withNewFt_new
    · rw [withNewFt_old fresh old]
      exact valid.next _ item old
  · rw [agree other same] at mem
    rw [withNewFt_old fresh mem]
    exact valid.next _ item mem

end NewTable

theorem RootNs.ChainValid.create (valid : root.ChainValid tree)
    (fresh : ∀ other, ∀ ft ∈ root.tables other, ft.id ≠ id) (safe : SafeCreate tree root prio level)
    (made : mlx5CreateFlowTable tree true root id prio level = some after) :
    after.ChainValid tree := by
  obtain ⟨attrs, attrsIn, ft, rfl, rfl, named, isLevel, inRange, connected, isConnected, rfl⟩ :=
    mlx5CreateFlowTable_some made
  have isLeaf : ft.prio ∈ tree.root.leaves := by
    rw [← tree.attrs_prio, ← named]
    exact mem_map_of_mem attrsIn
  have sameTables : connected.tables = root.tables := by rw [isConnected]; simp; rfl
  rw [sameTables]
  have here := update_self ft.prio (listAddFlowTable ft (root.tables ft.prio)) root.tables
  have agree other (apart : other ≠ ft.prio) : update root.tables ft.prio (listAddFlowTable ft
      (root.tables ft.prio)) other = root.tables other := update_of_ne apart _ _
  have afterPlaced : ({ connected with
      tables := update root.tables ft.prio (listAddFlowTable ft (root.tables ft.prio)) } :
      RootNs).Placed tree :=
    valid.placed.create attrsIn named inRange isLevel fresh rfl
  have rootEq := rootFirst_create valid.placed isLeaf afterPlaced valid.rootFirst rfl
  refine ⟨afterPlaced, ?_, ?_, ?_⟩
  · intro other item mem
    by_cases first : root.BecomesFirst ft.prio ft.level
    · have patchable := safe attrs attrsIn named (isLevel ▸ first)
      have firstHere : (root.withNewFt tree ft.id ft.prio).BecomesFirst ft.prio ft.level := first
      rw [isConnected, connectFlowTable_first firstHere, withRootFt_nextFt, connectFwdRules_nextFt]
      exact next_create_first valid fresh isLeaf patchable first here agree mem
    · have laterHere : ¬ (root.withNewFt tree ft.id ft.prio).BecomesFirst ft.prio ft.level := first
      rw [isConnected, connectFlowTable_later laterHere, withRootFt_nextFt]
      exact next_create_later valid fresh first here agree mem
  · rw [← rootEq]
    rw [isConnected, connectFlowTable_rootFt]
    exact @withRootFt_congr root ft (root.withNewFt tree ft.id ft.prio) rfl
  · change connected.rules = []
    rw [isConnected]
    exact connectFlowTable_rules_nil _ valid.noRules

end Create

/-! ### Destruction -/

/-- A destruction that changes a priority's first table can be patched at the previous one; where it empties
the priority, whatever follows that one, or the root table, also follows this. -/
structure SafeDestroy (tree : FsTree) (root : RootNs) (ft : FlowTable) : Prop where
  patchable : (root.tables ft.prio).head? = some ft → tree.follows.Patchable (tree.occupied root.tables) ft.prio
  onward : root.tables ft.prio = [ft] → ∀ prev, tree.follows.IsPrev (tree.occupied root.tables) ft.prio prev →
      ∀ other ∈ tree.occupied root.tables, ft.prio < other →
        tree.follows.rel prev other → tree.follows.rel ft.prio other
  rootOnward : root.tables ft.prio = [ft] → root.rootFt = some ft →
    ∀ other ∈ tree.occupied root.tables, ft.prio < other → tree.follows.rel ft.prio other

section Destroy

variable {tree : FsTree} {root after : RootNs} {ft : FlowTable}

theorem RootNs.Placed.erase (placed : root.Placed tree) (tables : after.tables =
      update root.tables ft.prio ((root.tables ft.prio).erase ft)) :
    after.Placed tree := by
  have sublist other : (after.tables other).Sublist (root.tables other) := by
    rw [tables]
    by_cases same : other = ft.prio
    · subst same
      rw [update_self]
      exact erase_sublist
    · rw [update_of_ne same]
  refine ⟨?_, ?_, ?_, ?_, ?_, ?_⟩
  · intro other nonempty
    refine placed.leaf other fun empty => nonempty ?_
    have none := sublist other
    rw [empty] at none
    exact sublist_nil.mp none
  · intro other item mem
    exact placed.owner other item ((sublist other).subset mem)
  · intro other item mem
    exact placed.levels other item ((sublist other).subset mem)
  · intro other
    exact (placed.sorted other).sublist (sublist other)
  · intro other
    exact (placed.nodup other).sublist (sublist other)
  · intro other item mem other' item' member'
    exact placed.distinct other item ((sublist other).subset mem) other' item'
      ((sublist other').subset member')

theorem erase_head {list : List FlowTable} (later : list.head? ≠ some ft) :
    (list.erase ft).head? = list.head? := by
  cases list with
  | nil => rfl
  | cons first rest =>
    have apart : ¬ (first == ft) = true := by
      intro same
      exact later (congrArg some (beq_iff_eq.mp same))
    rw [erase_cons_tail apart]
    rfl

theorem findNextFt_head (isFirst : (root.tables ft.prio).head? = some ft) : findNextFt tree root.tables ft =
      ((root.tables ft.prio).erase ft).head?.or (findNextChainedFt tree root.tables ft.prio) := by
  unfold findNextFt
  cases list : root.tables ft.prio with
  | nil =>
    rw [list] at isFirst
    cases isFirst
  | cons head rest =>
    rw [list] at isFirst
    cases isFirst
    simp only [listNextFt, if_true, erase_cons_head]
    cases rest.head? <;> rfl

private theorem next_destroy_first (valid : root.ChainValid tree) (live : ft ∈ root.tables ft.prio)
    (safe : SafeDestroy tree root ft) (isFirst : (root.tables ft.prio).head? = some ft)
    {changed} (here : changed ft.prio = (root.tables ft.prio).erase ft)
    (agree : ∀ other, other ≠ ft.prio → changed other = root.tables other) {other item}
    (mem : item ∈ changed other) {start} (sameTables : start.tables = root.tables)
    (sameNext : start.nextFt = root.nextFt) :
    (connectPrevFts tree start (findNextFt tree root.tables ft) ft.prio).nextFt item.id =
      findNextChainedFt tree changed other := by
  have isLeaf := valid.placed.leaf ft.prio (ne_nil_of_mem live)
  have patchable := safe.patchable isFirst
  have startPlaced : start.Placed tree := by
    obtain ⟨leaf, owner, levels, sorted, nodup, apart⟩ := valid.placed
    rw [← sameTables] at leaf owner levels sorted nodup apart
    exact ⟨leaf, owner, levels, sorted, nodup, apart⟩
  have old : item ∈ root.tables other := by
    by_cases same : other = ft.prio
    · subst same
      rw [here] at mem
      exact mem_of_mem_erase mem
    · rw [← agree other same]
      exact mem
  have startIn : item ∈ start.tables other := by rw [sameTables]; exact old
  by_cases isPrev : tree.follows.IsPrev (tree.occupied root.tables) ft.prio other
  · rw [connectPrevFts_prev startPlaced isLeaf (by rw [sameTables]; exact isPrev) _ startIn,
      findNextFt_head isFirst, ← here]
    by_cases empty : changed ft.prio = []
    · have single : root.tables ft.prio = [ft] := by
        cases list : root.tables ft.prio with
        | nil =>
          rw [list] at isFirst
          cases isFirst
        | cons head rest =>
          rw [list] at isFirst here
          cases isFirst
          rw [erase_cons_head, empty] at here
          rw [← here]
      rw [empty, next_of_prev_vacated patchable isLeaf agree isPrev (safe.onward single other isPrev) empty]
      rfl
    · rw [next_of_prev patchable isLeaf agree isPrev empty]
      cases head : (changed ft.prio).head? with
      | none => exact absurd (head?_eq_none_iff.mp head) empty
      | some next => rfl
  · rw [connectPrevFts_not_prev startPlaced isLeaf _ startIn (by rw [sameTables]; exact isPrev),
      sameNext, valid.next other item old]
    by_cases same : other = ft.prio
    · subst same
      rw [next_self_unchanged isLeaf agree]
    · have occupied : other ∈ tree.occupied root.tables :=
        ⟨valid.placed.leaf other (ne_nil_of_mem old), ne_nil_of_mem old⟩
      rw [next_unchanged patchable isLeaf agree occupied isPrev]

private theorem rootFirst_destroy (valid : root.ChainValid tree) (live : ft ∈ root.tables ft.prio)
    (safe : SafeDestroy tree root ft) {changed}
    (here : changed ft.prio = (root.tables ft.prio).erase ft)
    (agree : ∀ other, other ≠ ft.prio → changed other = root.tables other) :
    (updateRootFtDestroy tree root ft).rootFt = tree.firstFt changed := by
  have isLeaf := valid.placed.leaf ft.prio (ne_nil_of_mem live)
  have rootFirst := valid.rootFirst
  cases current : root.rootFt with
  | none =>
    rw [current] at rootFirst
    rw [tree.firstFt_none valid.placed rootFirst.symm ft.prio] at live
    cases live
  | some rootFt =>
    rw [current] at rootFirst
    obtain ⟨place, placeLeaf, head, least⟩ := tree.firstFt_some rootFirst.symm
    have owner := valid.placed.owner place rootFt (mem_of_mem_head? head)
    -- Whatever is left lies where it was.
    have remains other (_ : other ∈ tree.root.leaves) (nonempty : changed other ≠ []) : root.tables other ≠
        [] := by
      by_cases same : other = ft.prio
      · subst same
        exact ne_nil_of_mem live
      · rw [← agree other same]
        exact nonempty
    have leastAfter other (otherLeaf : other ∈ tree.root.leaves) (nonempty : changed other ≠ []) : place ≤
        other := least other otherLeaf (remains other otherLeaf nonempty)
    unfold updateRootFtDestroy
    by_cases isRoot : rootFt = ft
    · subst isRoot
      rw [if_pos current]
      rw [← owner] at head leastAfter
      change findNextFt tree root.tables rootFt = _
      rw [findNextFt_head head, ← here]
      symm
      cases left : (changed rootFt.prio).head? with
      | some next => exact tree.firstFt_eq isLeaf left leastAfter
      | none =>
        have empty := head?_eq_none_iff.mp left
        have single : root.tables rootFt.prio = [rootFt] := by
          cases list : root.tables rootFt.prio with
          | nil =>
            rw [list] at head
            cases head
          | cons first rest =>
            rw [list] at head here
            cases head
            rw [erase_cons_head, empty] at here
            rw [← here]
        have onward other (otherLeaf : other ∈ tree.root.leaves) (nonempty : changed other ≠ []) :
            tree.follows.rel rootFt.prio other ∧ other ∈ tree.occupied root.tables := by
          have occupied := remains other otherLeaf nonempty
          have apart : rootFt.prio ≠ other := fun same => nonempty (same ▸ empty)
          have behind := Nat.lt_of_le_of_ne (leastAfter other otherLeaf nonempty) apart
          exact ⟨safe.rootOnward single current other ⟨otherLeaf, occupied⟩ behind, otherLeaf, occupied⟩
        rw [none_or]
        cases next : findNextChainedFt tree root.tables rootFt.prio with
        | some nextFt =>
          obtain ⟨prio, isNext, nextHead⟩ := findNextChainedFt_some isLeaf next
          have apart : prio ≠ rootFt.prio := Nat.ne_of_gt (tree.follows.lt isNext.rel)
          refine tree.firstFt_eq isNext.member.1 (by rw [agree prio apart]; exact nextHead) ?_
          intro other otherLeaf nonempty
          obtain ⟨related, occupied⟩ := onward other otherLeaf nonempty
          exact isNext.least other occupied related
        | none =>
          cases hit : tree.firstFt changed with
          | none => rfl
          | some first =>
            obtain ⟨prio, prioLeaf, prioHead, prioLeast⟩ := tree.firstFt_some hit
            have nonempty : changed prio ≠ [] := ne_nil_of_mem (mem_of_mem_head? prioHead)
            obtain ⟨related, occupied⟩ := onward prio prioLeaf nonempty
            refine absurd ⟨occupied, related, ?_⟩ (findNextChainedFt_none isLeaf next prio)
            intro other otherOccupied otherRelated
            refine prioLeast other otherOccupied.1 ?_
            rw [agree other (Nat.ne_of_gt (tree.follows.lt otherRelated))]
            exact otherOccupied.2
    · rw [if_neg (by rw [current]; simpa using isRoot), current]
      symm
      refine tree.firstFt_eq placeLeaf ?_ leastAfter
      by_cases same : place = ft.prio
      · subst same
        rw [here, erase_head (by rw [head]; simpa using isRoot)]
        exact head
      · rw [agree place same]
        exact head

private theorem disconnectFlowTable_rules_nil (tree ft) (none : root.rules = []) :
    (disconnectFlowTable tree root ft).rules = [] := by
  unfold disconnectFlowTable
  simp only
  split
  · simp [none]
  · simp [connectFwdRules_rules_nil, none]

theorem disconnectFlowTable_tables (tree root ft) :
    (disconnectFlowTable tree root ft).tables = root.tables := by
  unfold disconnectFlowTable
  simp only
  split <;> simp

private theorem disconnectFlowTable_rootFt (tree root ft) :
    (disconnectFlowTable tree root ft).rootFt = (updateRootFtDestroy tree root ft).rootFt := by
  unfold disconnectFlowTable
  simp only
  split <;> simp

private theorem mlx5DestroyFlowTable_freed (noOwn : ∀ rule ∈ (disconnectFlowTable tree root ft).rules, rule.ft ≠ ft) :
    mlx5DestroyFlowTable tree root ft = { disconnectFlowTable tree root ft with
      tables := update root.tables ft.prio ((root.tables ft.prio).erase ft) } := by
  unfold mlx5DestroyFlowTable putFlowTable
  have freed : ft ∈ ft :: (disconnectFlowTable tree root ft).released ∧
      (disconnectFlowTable tree root ft).rules.all (·.ft ≠ ft) = true :=
    ⟨.head _, all_eq_true.mpr fun rule mem => decide_eq_true (noOwn rule mem)⟩
  simp only [if_pos freed, erase_cons_head, disconnectFlowTable_tables]

private theorem next_destroy_later (valid : root.ChainValid tree)
    (later : (root.tables ft.prio).head? ≠ some ft) {changed}
    (here : changed ft.prio = (root.tables ft.prio).erase ft)
    (agree : ∀ other, other ≠ ft.prio → changed other = root.tables other)
    {other item} (mem : item ∈ changed other) :
    root.nextFt item.id = findNextChainedFt tree changed other := by
  have sameHeads place : (changed place).head? = (root.tables place).head? := by
    by_cases same : place = ft.prio
    · subst same
      rw [here]
      exact erase_head later
    · rw [agree place same]
  rw [next_of_same_heads sameHeads]
  by_cases same : other = ft.prio
  · subst same
    rw [here] at mem
    exact valid.next _ item (mem_of_mem_erase mem)
  · rw [agree other same] at mem
    exact valid.next _ item mem

theorem RootNs.ChainValid.destroy (valid : root.ChainValid tree) (live : ft ∈ root.tables ft.prio)
    (safe : SafeDestroy tree root ft) : (mlx5DestroyFlowTable tree root ft).ChainValid tree := by
  have noRules := disconnectFlowTable_rules_nil tree ft valid.noRules
  have sameTables := disconnectFlowTable_tables tree root ft
  have sameRoot := disconnectFlowTable_rootFt tree root ft
  have here := update_self ft.prio ((root.tables ft.prio).erase ft) root.tables
  have agree other (apart : other ≠ ft.prio) : update root.tables ft.prio ((root.tables ft.prio).erase ft)
      other = root.tables other := update_of_ne apart _ _
  have noOwn : ∀ rule ∈ (disconnectFlowTable tree root ft).rules, rule.ft ≠ ft := by simp [noRules]
  rw [mlx5DestroyFlowTable_freed noOwn]
  refine ⟨valid.placed.erase rfl, ?_, ?_, noRules⟩
  · intro other item mem
    unfold disconnectFlowTable
    by_cases isFirst : (root.tables ft.prio).head? = some ft
    · simp only [updateRootFtDestroy_tables, isFirst, ne_eq, not_true_eq_false, if_false]
      exact next_destroy_first valid live safe isFirst here agree mem (by simp) (by simp)
    · simp only [updateRootFtDestroy_tables, ne_eq, isFirst, not_false_eq_true, if_true,
        updateRootFtDestroy_nextFt]
      exact next_destroy_later valid isFirst here agree mem
  · change (disconnectFlowTable tree root ft).rootFt = _
    rw [sameRoot]
    exact rootFirst_destroy valid live safe here agree

end Destroy

/-! ### Runs -/

/-- Successful calls on managed tables; new tables get fresh addresses, and guards restrict the calls. -/
inductive FlowTableStep (tree : FsTree) (modifyRoot : Bool)
    (createGuard : RootNs → Nat → Nat → Prop) (destroyGuard : RootNs → FlowTable → Prop) :
    RootNs → RootNs → Prop where
  | create (root after : RootNs) (id prio level : Nat) (fresh : ∀ other, ∀ ft ∈ root.tables other, ft.id ≠ id)
      (guarded : createGuard root prio level)
      (created : mlx5CreateFlowTable tree modifyRoot root id prio level = some after) :
      FlowTableStep tree modifyRoot createGuard destroyGuard root after
  | destroy (root : RootNs) (ft : FlowTable) (live : ft ∈ root.tables ft.prio)
      (guarded : destroyGuard root ft) :
      FlowTableStep tree modifyRoot createGuard destroyGuard root (mlx5DestroyFlowTable tree root ft)

def FlowTableReachable (tree : FsTree) (modifyRoot : Bool)
    (createGuard : RootNs → Nat → Nat → Prop) (destroyGuard : RootNs → FlowTable → Prop) :
    RootNs → Prop :=
  Relation.ReflTransGen (FlowTableStep tree modifyRoot createGuard destroyGuard) createRootNs

/-- The device's next pointers are the search's results: the lowest tables of the closest following
non-empty priorities; the root table has the lowest level. -/
structure RootNs.MissChain (tree : FsTree) (root : RootNs) : Prop where
  next : ∀ prio, ∀ ft ∈ root.tables prio, root.nextFt ft.id = findNextChainedFt tree root.tables prio
  closest : ∀ prio ∈ tree.root.leaves, ∀ nextFt, findNextChainedFt tree root.tables prio = some nextFt →
      ∃ next, tree.follows.IsNext (tree.occupied root.tables) prio next ∧
        nextFt ∈ root.tables next ∧ ∀ ft ∈ root.tables next, nextFt.level ≤ ft.level
  noRoot : root.rootFt = none → ∀ prio, root.tables prio = []
  lowest : ∀ rootFt, root.rootFt = some rootFt →
    rootFt ∈ root.tables rootFt.prio ∧ ∀ prio, ∀ ft ∈ root.tables prio, rootFt.level ≤ ft.level

theorem RootNs.ChainValid.missChain {tree : FsTree} {root : RootNs} (valid : root.ChainValid tree) :
    root.MissChain tree where
  next := valid.next
  closest prio mem nextFt found := by
    obtain ⟨next, isNext, head⟩ := findNextChainedFt_some mem found
    exact ⟨next, isNext, mem_of_mem_head? head, fun ft ftIn => valid.placed.head_le head ftIn⟩
  noRoot missing := by
    rw [valid.rootFirst] at missing
    exact tree.firstFt_none valid.placed missing
  lowest rootFt isRoot := by
    rw [valid.rootFirst] at isRoot
    obtain ⟨place, _, head, least⟩ := tree.firstFt_some isRoot
    have rootIn := mem_of_mem_head? head
    have owner := valid.placed.owner place rootFt rootIn
    refine ⟨owner ▸ rootIn, ?_⟩
    intro prio ft mem
    have nonempty := ne_nil_of_mem mem
    rcases Nat.eq_or_lt_of_le (least prio (valid.placed.leaf prio nonempty) nonempty) with
      same | before
    · subst same
      exact valid.placed.head_le head mem
    · exact le_of_lt (valid.placed.level_lt rootIn mem before)

theorem FlowTableReachable.chainValid {tree root}
    (reachable : FlowTableReachable tree true (SafeCreate tree) (SafeDestroy tree) root) :
    root.ChainValid tree := by
  induction reachable with
  | refl => exact createRootNs_chainValid tree
  | tail _ step ih =>
    cases step with
    | create _ id prio level fresh guarded made => exact ih.create fresh guarded made
    | destroy ft live guarded => exact ih.destroy live guarded

/-- Where devices can modify the root, the miss chain is right after runs of creations and destructions that
can be patched at the previous priority. -/
theorem miss_chain_of_safe_steps (tree : FsTree) (root : RootNs)
    (reachable : FlowTableReachable tree true (SafeCreate tree) (SafeDestroy tree) root) :
    root.MissChain tree :=
  reachable.chainValid.missChain

section Fresh

variable {tree : FsTree} {root after : RootNs} {id prio level new : Nat} {modifyRoot : Bool}

theorem mlx5CreateFlowTable_tables
    (made : mlx5CreateFlowTable tree modifyRoot root id prio level = some after) :
    ∃ ft : FlowTable, ft.id = id ∧ after.tables =
      update root.tables prio (listAddFlowTable ft (root.tables prio)) := by
  obtain ⟨attrs, _, ft, rfl, rfl, _, _, _, connected, isConnected, rfl⟩ := mlx5CreateFlowTable_some made
  have sameTables : connected.tables = root.tables := by rw [isConnected]; simp; rfl
  refine ⟨ft, rfl, ?_⟩
  rw [sameTables]

theorem fresh_create (made : mlx5CreateFlowTable tree modifyRoot root id prio level = some after)
    (fresh : ∀ other, ∀ ft ∈ root.tables other, ft.id ≠ new) (apart : id ≠ new) :
    ∀ other, ∀ ft ∈ after.tables other, ft.id ≠ new := by
  obtain ⟨ft, rfl, tables⟩ := mlx5CreateFlowTable_tables made
  intro other item mem
  rw [tables] at mem
  by_cases same : other = prio
  · subst same
    rw [update_self, mem_listAddFlowTable] at mem
    rcases mem with rfl | old
    · exact apart
    · exact fresh _ item old
  · rw [update_of_ne same] at mem
    exact fresh other item mem

end Fresh

private theorem patchable_of_subsingleton {tree : FsTree} {occupied : Set Nat}
    (single : occupied.Subsingleton) (prio) : tree.follows.Patchable occupied prio where
  clear prev isPrev other member related := by
    have same := single isPrev.member member
    exact absurd (tree.follows.lt related) (same ▸ lt_irrefl _)
  relay prev isPrev other member _ apart := by exact absurd (single member isPrev.member) apart

/-- A run: a table in the bypass priority of the FDB and one in its first chain, linked to each other. -/
theorem miss_chain_of_safe_steps_first_chain :
    ∃ root, FlowTableReachable fdb true (SafeCreate fdb) (SafeDestroy fdb)
      root ∧ (root.nextFt 10).map FlowTable.id = some 11 ∧ root.MissChain fdb := by
  have ran : (do
      let first ← mlx5CreateFlowTable fdb true createRootNs 10 0 0
      let second ← mlx5CreateFlowTable fdb true first 11 3 0
      pure ((second.nextFt 10).map FlowTable.id)) = some (some 11) := by decide +kernel
  simp only [Option.bind_eq_bind, Option.bind_eq_some_iff, Option.pure_def, Option.some.injEq]
    at ran
  obtain ⟨first, createdFirst, second, createdSecond, next⟩ := ran
  have noTables : ∀ id, ∀ other, ∀ ft ∈ createRootNs.tables other, ft.id ≠ id := by
    simp [createRootNs]
  have only prio (occupied : prio ∈ fdb.occupied first.tables) : prio = 0 := by
    obtain ⟨ft, _, tables⟩ := mlx5CreateFlowTable_tables createdFirst
    by_contra different
    apply occupied.2
    rw [tables, update_of_ne different]
    rfl
  have none : fdb.occupied createRootNs.tables = ∅ :=
    Set.eq_empty_of_forall_notMem fun prio occupied => occupied.2 rfl
  have safeFirst : SafeCreate fdb createRootNs 0 0 := fun _ _ _ _ =>
    patchable_of_subsingleton (none ▸ Set.subsingleton_empty) _
  have safeSecond : SafeCreate fdb first 3 0 := fun _ _ _ _ =>
    patchable_of_subsingleton
      (fun left leftIn right rightIn => (only left leftIn).trans (only right rightIn).symm) _
  have reached : FlowTableReachable fdb true (SafeCreate fdb) (SafeDestroy fdb) second :=
    (Relation.ReflTransGen.refl.tail (.create _ _ _ _ _ (noTables 10) safeFirst createdFirst)).tail
      (.create _ _ _ _ _ (fresh_create createdFirst (noTables 11) (by decide)) safeSecond
        createdSecond)
  exact ⟨second, reached, next, miss_chain_of_safe_steps _ _ reached⟩

/-- Tables in the bypass priority and in the FDB's first and second chain: the bypass table points at the
second chain, though the search gives the first. -/
theorem miss_chain_broken_by_second_chain :
    ¬ ∀ root, FlowTableReachable fdb true (fun _ _ _ => True) (fun _ _ => True) root →
      root.MissChain fdb := by
  intro claim
  have ran : (do
      let first ← mlx5CreateFlowTable fdb true createRootNs 10 0 0
      let second ← mlx5CreateFlowTable fdb true first 11 3 0
      let third ← mlx5CreateFlowTable fdb true second 12 19 0
      pure ((third.tables 0).map FlowTable.id, (third.nextFt 10).map FlowTable.id,
        (findNextChainedFt fdb third.tables 0).map FlowTable.id)) =
      some ([10], some 12, some 11) := by decide +kernel
  simp only [Option.bind_eq_bind, Option.bind_eq_some_iff, Option.pure_def, Option.some.injEq,
    Prod.mk.injEq] at ran
  obtain ⟨first, createdFirst, second, createdSecond, third, createdThird, listed, next, search⟩ :=
    ran
  have noTables : ∀ id, ∀ other, ∀ ft ∈ createRootNs.tables other, ft.id ≠ id := by
    simp [createRootNs]
  have fresh := fresh_create createdSecond (fresh_create createdFirst (noTables 12) (by decide)) (by decide)
  have reached : FlowTableReachable fdb true (fun _ _ _ => True) (fun _ _ => True) third :=
    ((Relation.ReflTransGen.refl.tail (.create _ _ _ _ _ (noTables 10) trivial createdFirst)).tail
      (.create _ _ _ _ _ (fresh_create createdFirst (noTables 11) (by decide)) trivial
        createdSecond)).tail
      (.create _ _ _ _ _ fresh trivial createdThird)
  obtain ⟨ft, member, isTen⟩ := mem_map.mp (listed ▸ mem_singleton_self 10)
  have linked := (claim third reached).next 0 ft member
  rw [isTen] at linked
  rw [linked, search] at next
  exact absurd next (by decide)

end MlnxOfed.FsCore
