/-
The levels that `set_prio_attrs` (fs_core.c) gives to all priorities, and what they say about the table a
managed table passes a packet on to.

A chains priority puts the levels of its namespaces one after the other, an ordinary one gives them all the
same. The searches of `FlowTables` see the leaf priorities only; here every priority and namespace keeps its
range.
-/

import Mathlib.Data.List.Chain
import MlnxOfed.FsCore.MissChain

namespace MlnxOfed.FsCore

open Function List FsNodes

/-- `FsNodes` with levels. A namespace ranges from the level it starts at to the one `set_prio_attrs_in_ns`
returns. -/
inductive PlacedNodes where
  | nil
  | leaf (prio startLevel numLevels : Nat) (rest : PlacedNodes)
  | node (type : FsNodeType) (startLevel numLevels : Nat) (children rest : PlacedNodes)

structure LevelRange where
  startLevel : Nat
  numLevels : Nat
  deriving DecidableEq

def LevelRange.endLevel (range : LevelRange) : Nat := range.startLevel + range.numLevels

def LevelRange.Before (left right : LevelRange) : Prop := left.endLevel ≤ right.startLevel

instance : Trans LevelRange.Before LevelRange.Before LevelRange.Before where
  trans {_ middle _} first second :=
    le_trans first (le_trans (Nat.le_add_right _ middle.numLevels) second)

mutual

def setPrioAttrsInNs (accLevel : Nat) : FsNodes → PlacedNodes × Nat
  | .nil => (.nil, accLevel)
  | .leaf prio numLevels rest =>
    let later := setPrioAttrsInNs (accLevel + numLevels) rest
    (.leaf prio accLevel numLevels later.1, later.2)
  | .node type numLevels namespaces rest =>
    let inner := setPrioAttrsInPrio type accLevel accLevel namespaces
    let levels := if numLevels = 0 then inner.2 - accLevel else numLevels
    let later := setPrioAttrsInNs (accLevel + levels) rest
    (.node type accLevel levels inner.1 later.1, later.2)

/-- The loop of `set_prio_attrs_in_prio` over the namespaces of a priority of the type. -/
def setPrioAttrsInPrio (type : FsNodeType) (accLevel accLevelNs : Nat) : FsNodes → PlacedNodes × Nat
  | .nil => (.nil, accLevelNs)
  | .leaf _ _ rest => setPrioAttrsInPrio type accLevel accLevelNs rest
  | .node _ _ prios rest =>
    let inner := setPrioAttrsInNs accLevel prios
    let later := setPrioAttrsInPrio type (if type = .prioChains then inner.2 else accLevel)
      inner.2 rest
    (.node .ns accLevel (inner.2 - accLevel) inner.1 later.1, later.2)

end

/-- `set_prio_attrs`. -/
def FsNodes.placed (root : FsNodes) : PlacedNodes := (setPrioAttrsInNs 0 root).1

namespace PlacedNodes

def ranges : PlacedNodes → List LevelRange
  | .nil => []
  | .leaf _ startLevel numLevels rest => ⟨startLevel, numLevels⟩ :: rest.ranges
  | .node _ startLevel numLevels _ rest => ⟨startLevel, numLevels⟩ :: rest.ranges

def childLists : PlacedNodes → List (FsNodeType × List LevelRange)
  | .nil => []
  | .leaf _ _ _ rest => rest.childLists
  | .node type _ _ children rest =>
    (type, children.ranges) :: children.childLists ++ rest.childLists

def prioRanges : PlacedNodes → List LevelRange
  | .nil => []
  | .leaf _ startLevel numLevels rest => ⟨startLevel, numLevels⟩ :: rest.prioRanges
  | .node type startLevel numLevels children rest =>
    (if type = .ns then [] else [⟨startLevel, numLevels⟩]) ++ children.prioRanges ++ rest.prioRanges

def ancestry : PlacedNodes → List (LevelRange × LevelRange)
  | .nil => []
  | .leaf _ _ _ rest => rest.ancestry
  | .node type startLevel numLevels children rest =>
    (if type = .ns then []
      else children.prioRanges.map fun range => (⟨startLevel, numLevels⟩, range)) ++
    children.ancestry ++ rest.ancestry

def leafAttrs : PlacedNodes → List PrioAttrs
  | .nil => []
  | .leaf prio startLevel numLevels rest => ⟨prio, startLevel, numLevels⟩ :: rest.leafAttrs
  | .node _ _ _ children rest => children.leafAttrs ++ rest.leafAttrs

end PlacedNodes

namespace FsNodes

def Alternates (parent : FsNodeType) : FsNodes → Prop
  | .nil => True
  | .leaf _ _ rest => parent = .ns ∧ rest.Alternates parent
  | .node type _ children rest =>
    (type = .ns ↔ parent ≠ .ns) ∧ children.Alternates type ∧ rest.Alternates parent

def SingleNamespace (parent : FsNodeType) : FsNodes → Prop
  | .nil => True
  | .leaf _ _ rest => rest.SingleNamespace parent
  | .node type _ children rest =>
    (parent = .prio → rest = .nil) ∧ children.SingleNamespace type ∧ rest.SingleNamespace parent

/-- The levels children take: the namespaces of an ordinary priority share theirs. -/
def levelsNeeded (parent : FsNodeType) : FsNodes → Nat
  | .nil => 0
  | .leaf _ numLevels rest => numLevels + rest.levelsNeeded parent
  | .node type numLevels children rest =>
    let inner := children.levelsNeeded type
    let own := if type = .ns ∨ numLevels = 0 then inner else numLevels
    if parent = .prio then max own (rest.levelsNeeded parent)
    else own + rest.levelsNeeded parent

/-- A declared number of levels is at least what the namespaces of the priority need. -/
def LevelsSuffice : FsNodes → Prop
  | .nil => True
  | .leaf _ _ rest => rest.LevelsSuffice
  | .node type numLevels children rest =>
    (type ≠ .ns → numLevels ≠ 0 → children.levelsNeeded type ≤ numLevels) ∧
      children.LevelsSuffice ∧ rest.LevelsSuffice

def decideAlternates (parent : FsNodeType) : (nodes : FsNodes) → Decidable (nodes.Alternates parent)
  | .nil => .isTrue trivial
  | .leaf _ _ rest =>
    haveI := decideAlternates parent rest
    inferInstanceAs (Decidable (_ ∧ _))
  | .node type _ children rest =>
    haveI := decideAlternates type children
    haveI := decideAlternates parent rest
    inferInstanceAs (Decidable (_ ∧ _ ∧ _))

def decideSingleNamespace (parent : FsNodeType) : (nodes : FsNodes) → Decidable (nodes.SingleNamespace parent)
  | .nil => .isTrue trivial
  | .leaf _ _ rest => decideSingleNamespace parent rest
  | .node type _ children rest =>
    haveI := decideSingleNamespace type children
    haveI := decideSingleNamespace parent rest
    inferInstanceAs (Decidable (_ ∧ _ ∧ _))

def decideLevelsSuffice : (nodes : FsNodes) → Decidable nodes.LevelsSuffice
  | .nil => .isTrue trivial
  | .leaf _ _ rest => decideLevelsSuffice rest
  | .node _ _ children rest =>
    haveI := decideLevelsSuffice children
    haveI := decideLevelsSuffice rest
    inferInstanceAs (Decidable (_ ∧ _ ∧ _))

instance (parent : FsNodeType) (nodes : FsNodes) : Decidable (nodes.Alternates parent) :=
  decideAlternates parent nodes

instance (parent : FsNodeType) (nodes : FsNodes) : Decidable (nodes.SingleNamespace parent) :=
  decideSingleNamespace parent nodes

instance (nodes : FsNodes) : Decidable nodes.LevelsSuffice := decideLevelsSuffice nodes

/-- `find_next_chained_ft` in a tree of any shape. -/
def findNextChainedFt (root : FsNodes) (tables : Nat → List FlowTable) (prio : Nat) : Option FlowTable :=
  findClosestFt tables false ((framesFrom prio .ns .nil root).getD [])

end FsNodes

/-- Managed tables after any creations and destructions, as `__mlx5_create_flow_table` checks and moves
their levels. -/
inductive ManagedTables (root : FsNodes) : (Nat → List FlowTable) → Prop
  | init : ManagedTables root fun _ => []
  | create {tables : Nat → List FlowTable} {attrs : PrioAttrs} (id level : Nat) :
      ManagedTables root tables → attrs ∈ root.placed.leafAttrs → level < attrs.numLevels →
      ManagedTables root (update tables attrs.prio
        (listAddFlowTable ⟨id, attrs.prio, level + attrs.startLevel⟩ (tables attrs.prio)))
  | destroy {tables : Nat → List FlowTable} (ft : FlowTable) : ManagedTables root tables →
      ManagedTables root (update tables ft.prio ((tables ft.prio).erase ft))

def Consecutive (siblings : List LevelRange) : Prop :=
  siblings.IsChain fun left right => right.startLevel = left.endLevel

variable {siblings : List LevelRange}

theorem Consecutive.cons {first} (starts : ∀ next ∈ siblings.head?, next.startLevel = first.endLevel)
    (consecutive : Consecutive siblings) : Consecutive (first :: siblings) :=
  List.IsChain.cons consecutive starts

theorem Consecutive.disjoint (consecutive : Consecutive siblings) : siblings.Pairwise LevelRange.Before := by
  have old : siblings.IsChain LevelRange.Before :=
    List.IsChain.imp (fun _ _ next => le_of_eq next.symm) consecutive
  exact old.pairwise

/-- Priorities are consecutive, and so are the namespaces of a chains priority. -/
def PlacedNodes.SiblingsConsecutive (placed : PlacedNodes) : Prop :=
  ∀ lists ∈ placed.childLists, lists.1 ≠ .prio → Consecutive lists.2

section Placing

variable {nodes : FsNodes}

private theorem setPrioAttrsInNs_le (nodes accLevel) : accLevel ≤ (setPrioAttrsInNs accLevel nodes).2 := by
  induction nodes generalizing accLevel with
  | nil => exact le_rfl
  | leaf prio numLevels rest ih =>
    exact le_trans (Nat.le_add_right _ _) (ih (accLevel + numLevels))
  | node type numLevels namespaces rest _ ih =>
    rw [setPrioAttrsInNs]
    exact le_trans (Nat.le_add_right _ _) (ih _)

private theorem setPrioAttrsInNs_head (nodes accLevel first) (isFirst : first ∈
    (setPrioAttrsInNs accLevel nodes).1.ranges.head?) : first.startLevel = accLevel := by
  cases nodes with
  | nil => cases isFirst
  | leaf prio numLevels rest =>
    cases isFirst
    rfl
  | node type numLevels namespaces rest =>
    cases isFirst
    rfl

private theorem setPrioAttrsInPrio_head (nodes type accLevel accLevelNs first)
    (isFirst : first ∈ (setPrioAttrsInPrio type accLevel accLevelNs nodes).1.ranges.head?) : first.startLevel
    = accLevel := by
  induction nodes with
  | nil => cases isFirst
  | leaf prio numLevels rest ih => exact ih isFirst
  | node other numLevels prios rest =>
    cases isFirst
    rfl

private theorem placed_consecutive (nodes) : (nodes.Alternates .ns → ∀ accLevel,
      let placed := (setPrioAttrsInNs accLevel nodes).1
      Consecutive placed.ranges ∧ placed.SiblingsConsecutive) ∧
    (∀ type, type ≠ .ns → nodes.Alternates type → ∀ accLevel accLevelNs,
      let placed := (setPrioAttrsInPrio type accLevel accLevelNs nodes).1
      (type = .prioChains → Consecutive placed.ranges) ∧ placed.SiblingsConsecutive) := by
  induction nodes with
  | nil =>
    refine ⟨fun _ accLevel => ⟨.nil, ?_⟩, fun type _ _ accLevel accLevelNs => ⟨fun _ => .nil, ?_⟩⟩
    · intro lists mem
      cases mem
    · intro lists mem
      cases mem
  | leaf prio numLevels rest ih =>
    refine ⟨?_, fun type isPrio shape => absurd shape.1 isPrio⟩
    intro shape accLevel
    obtain ⟨consecutive, below⟩ := ih.1 shape.2 (accLevel + numLevels)
    exact ⟨consecutive.cons (setPrioAttrsInNs_head rest _), below⟩
  | node type numLevels children rest ihChildren ihRest =>
    constructor
    · intro shape accLevel
      obtain ⟨isPrio, childrenShape, restShape⟩ := shape
      have isPrio : type ≠ .ns := fun isNs => isPrio.mp isNs rfl
      obtain ⟨consecutive, below⟩ := ihRest.1 restShape
        (accLevel + if numLevels = 0 then (setPrioAttrsInPrio type accLevel accLevel children).2 -
          accLevel else numLevels)
      obtain ⟨chained, inside⟩ := ihChildren.2 type isPrio childrenShape accLevel accLevel
      refine ⟨consecutive.cons (setPrioAttrsInNs_head rest _), ?_⟩
      intro lists mem notShared
      rw [setPrioAttrsInNs, PlacedNodes.childLists, mem_append, mem_cons] at mem
      rcases mem with (rfl | deeper) | later
      · cases type with
        | ns => exact absurd rfl isPrio
        | prio => exact absurd rfl notShared
        | prioChains => exact chained rfl
      · exact inside lists deeper notShared
      · exact below lists later notShared
    · intro parent isPrio shape accLevel accLevelNs
      obtain ⟨isNs, childrenShape, restShape⟩ := shape
      have isNs := isNs.mpr isPrio
      subst isNs
      obtain ⟨prios, inside⟩ := ihChildren.1 childrenShape accLevel
      have grows := setPrioAttrsInNs_le children accLevel
      obtain ⟨chained, below⟩ := ihRest.2 parent isPrio restShape
        (if parent = .prioChains then (setPrioAttrsInNs accLevel children).2 else accLevel)
        (setPrioAttrsInNs accLevel children).2
      constructor
      · intro isChains
        subst isChains
        apply (chained rfl).cons
        intro next isNext
        rw [setPrioAttrsInPrio_head rest _ _ _ next isNext, if_pos rfl]
        exact (Nat.add_sub_cancel' grows).symm
      · intro lists mem notShared
        rw [setPrioAttrsInPrio, PlacedNodes.childLists, mem_append, mem_cons] at mem
        rcases mem with (rfl | deeper) | later
        · exact prios
        · exact inside lists deeper notShared
        · exact below lists later notShared

end Placing

def LevelRange.Within (inner outer : LevelRange) : Prop :=
  outer.startLevel ≤ inner.startLevel ∧ inner.endLevel ≤ outer.endLevel

def PlacedNodes.Nested (placed : PlacedNodes) : Prop :=
  ∀ pair ∈ placed.ancestry, pair.2.Within pair.1

/-- What siblings that start at `accLevel` and take `levels` levels keep. -/
structure PlacedNodes.Fits (accLevel levels : Nat) (result : PlacedNodes × Nat) : Prop where
  ends : result.2 = accLevel + levels
  inside : ∀ range ∈ result.1.prioRanges, range.Within ⟨accLevel, levels⟩
  nested : result.1.Nested

theorem LevelRange.Within.widen {range : LevelRange} {start levels start' levels' : Nat}
    (within : range.Within ⟨start, levels⟩) (low : start' ≤ start)
    (high : start + levels ≤ start' + levels') : range.Within ⟨start', levels'⟩ :=
  ⟨le_trans low within.1, le_trans within.2 high⟩

section Fits

variable {accLevel own innerLevels laterLevels : Nat} {inner later : PlacedNodes × Nat}

theorem PlacedNodes.Fits.leaf (prio) (fits : Fits (accLevel + own) laterLevels later) :
    Fits accLevel (own + laterLevels) (.leaf prio accLevel own later.1, later.2) where
  ends := by rw [fits.ends, add_assoc]
  inside range member := by
    rcases mem_cons.mp member with rfl | below
    · exact ⟨le_rfl, Nat.add_le_add_left (Nat.le_add_right _ _) _⟩
    · exact (fits.inside range below).widen (Nat.le_add_right _ _) (by omega)
  nested := fits.nested

theorem PlacedNodes.Fits.prio {type} (isPrio : type ≠ .ns)
    (namespaces : Fits accLevel innerLevels inner) (enough : innerLevels ≤ own)
    (fits : Fits (accLevel + own) laterLevels later) :
    Fits accLevel (own + laterLevels) (.node type accLevel own inner.1 later.1, later.2) where
  ends := by rw [fits.ends, add_assoc]
  inside range member := by
    rw [PlacedNodes.prioRanges, if_neg isPrio, singleton_append, cons_append, mem_cons, mem_append] at member
    rcases member with rfl | deeper | after
    · exact ⟨le_rfl, Nat.add_le_add_left (Nat.le_add_right _ _) _⟩
    · exact (namespaces.inside range deeper).widen le_rfl (by omega)
    · exact (fits.inside range after).widen (Nat.le_add_right _ _) (by omega)
  nested pair member := by
    rw [PlacedNodes.ancestry, if_neg isPrio, mem_append, mem_append, mem_map] at member
    rcases member with (⟨range, below, rfl⟩ | deeper) | after
    · exact (namespaces.inside range below).widen le_rfl (by omega)
    · exact namespaces.nested pair deeper
    · exact fits.nested pair after

theorem PlacedNodes.Fits.namespace (levels) (prios : Fits accLevel innerLevels inner)
    (fits : Fits (accLevel + innerLevels) laterLevels later) :
    Fits accLevel (innerLevels + laterLevels) (.node .ns accLevel levels inner.1 later.1, later.2) where
  ends := by rw [fits.ends, add_assoc]
  inside range member := by
    rw [PlacedNodes.prioRanges, if_pos rfl, nil_append, mem_append] at member
    rcases member with deeper | after
    · exact (prios.inside range deeper).widen le_rfl (by omega)
    · exact (fits.inside range after).widen (Nat.le_add_right _ _) (by omega)
  nested pair member := by
    rw [PlacedNodes.ancestry, if_pos rfl, nil_append, mem_append] at member
    rcases member with deeper | after
    · exact prios.nested pair deeper
    · exact fits.nested pair after

theorem PlacedNodes.Fits.nil (accLevel) : Fits accLevel 0 (.nil, accLevel) where
  ends := rfl
  inside range member := by
    cases member
  nested pair member := by
    cases member

end Fits

theorem setPrioAttrs_fits (nodes) :
    (nodes.Alternates .ns → nodes.SingleNamespace .ns → nodes.LevelsSuffice → ∀ accLevel,
      PlacedNodes.Fits accLevel (nodes.levelsNeeded .ns) (setPrioAttrsInNs accLevel nodes)) ∧
    (∀ type, type ≠ .ns → nodes.Alternates type → nodes.SingleNamespace type → nodes.LevelsSuffice → ∀ accLevel,
      PlacedNodes.Fits accLevel (nodes.levelsNeeded type)
        (setPrioAttrsInPrio type accLevel accLevel nodes)) := by
  induction nodes with
  | nil => exact ⟨fun _ _ _ => PlacedNodes.Fits.nil, fun _ _ _ _ _ => PlacedNodes.Fits.nil⟩
  | leaf prio numLevels rest ih =>
    refine ⟨?_, fun type isPrio shape => absurd shape.1 isPrio⟩
    intro shape single ample accLevel
    exact (ih.1 shape.2 single ample (accLevel + numLevels)).leaf prio
  | node type numLevels children rest ihChildren ihRest =>
    constructor
    · intro shape single ample accLevel
      obtain ⟨isPrio, childrenShape, restShape⟩ := shape
      obtain ⟨_, childrenSingle, restSingle⟩ := single
      obtain ⟨enough, childrenAmple, restAmple⟩ := ample
      have isPrio : type ≠ .ns := fun isNs => isPrio.mp isNs rfl
      have inner := ihChildren.2 type isPrio childrenShape childrenSingle childrenAmple accLevel
      have needed : (node type numLevels children rest).levelsNeeded .ns =
          (if numLevels = 0 then children.levelsNeeded type else numLevels) + rest.levelsNeeded .ns := by
        simp [levelsNeeded, isPrio]
      have fits : children.levelsNeeded type ≤
          if numLevels = 0 then children.levelsNeeded type else numLevels := by
        split
        · exact le_rfl
        · exact enough isPrio (by assumption)
      rw [setPrioAttrsInNs, inner.ends, Nat.add_sub_cancel_left, needed]
      exact PlacedNodes.Fits.prio isPrio inner fits (ihRest.1 restShape restSingle restAmple _)
    · intro parent isPrio shape single ample accLevel
      obtain ⟨isNs, childrenShape, restShape⟩ := shape
      obtain ⟨alone, childrenSingle, restSingle⟩ := single
      obtain ⟨_, childrenAmple, restAmple⟩ := ample
      have isNs := isNs.mpr isPrio
      subst isNs
      have inner := ihChildren.1 childrenShape childrenSingle childrenAmple accLevel
      rw [setPrioAttrsInPrio, inner.ends, Nat.add_sub_cancel_left]
      cases parent with
      | ns => exact absurd rfl isPrio
      | prio =>
        have last := alone rfl
        subst last
        have needed : (node .ns numLevels children .nil).levelsNeeded .prio =
            children.levelsNeeded .ns + 0 := by
          simp [levelsNeeded]
        rw [needed]
        exact inner.namespace _ (PlacedNodes.Fits.nil _)
      | prioChains =>
        have needed : (node .ns numLevels children rest).levelsNeeded .prioChains =
            children.levelsNeeded .ns + rest.levelsNeeded .prioChains := by
          simp [levelsNeeded]
        rw [if_pos rfl, needed]
        exact inner.namespace _ (ihRest.2 .prioChains isPrio restShape restSingle restAmple _)

theorem leafAttrs_eq (nodes) : (nodes.Alternates .ns → ∀ accLevel accLevelNs,
      (setPrioAttrsInNs accLevel nodes).1.leafAttrs = (setPrioAttrs .ns accLevel accLevelNs nodes).1 ∧
        (setPrioAttrsInNs accLevel nodes).2 = (setPrioAttrs .ns accLevel accLevelNs nodes).2) ∧
    (∀ type, type ≠ .ns → nodes.Alternates type → ∀ accLevel accLevelNs,
      (setPrioAttrsInPrio type accLevel accLevelNs nodes).1.leafAttrs =
          (setPrioAttrs type accLevel accLevelNs nodes).1 ∧
        (setPrioAttrsInPrio type accLevel accLevelNs nodes).2 =
          (setPrioAttrs type accLevel accLevelNs nodes).2) := by
  induction nodes with
  | nil =>
    refine ⟨fun _ _ _ => ⟨rfl, rfl⟩, fun type isPrio _ _ _ => ⟨rfl, ?_⟩⟩
    exact (if_neg isPrio).symm
  | leaf prio numLevels rest ih =>
    refine ⟨?_, fun type isPrio shape => absurd shape.1 isPrio⟩
    intro shape accLevel accLevelNs
    obtain ⟨attrs, ends⟩ := ih.1 shape.2 (accLevel + numLevels) accLevelNs
    exact ⟨congrArg (cons _) attrs, ends⟩
  | node type numLevels children rest ihChildren ihRest =>
    constructor
    · intro shape accLevel accLevelNs
      obtain ⟨isPrio, childrenShape, restShape⟩ := shape
      have isPrio : type ≠ .ns := fun isNs => isPrio.mp isNs rfl
      obtain ⟨innerAttrs, innerEnds⟩ := ihChildren.2 type isPrio childrenShape accLevel accLevel
      obtain ⟨attrs, ends⟩ := ihRest.1 restShape
        (accLevel + if numLevels = 0 then (setPrioAttrs type accLevel accLevel children).2 -
          accLevel else numLevels) accLevelNs
      rw [setPrioAttrsInNs, setPrioAttrs, if_neg isPrio, innerEnds]
      exact ⟨congrArg₂ _ innerAttrs attrs, ends⟩
    intro parent isPrio shape accLevel accLevelNs
    obtain ⟨isNs, childrenShape, restShape⟩ := shape
    have isNs := isNs.mpr isPrio
    subst isNs
    obtain ⟨innerAttrs, innerEnds⟩ := ihChildren.1 childrenShape accLevel accLevel
    obtain ⟨attrs, ends⟩ := ihRest.2 parent isPrio restShape
      (if parent = .prioChains then (setPrioAttrs .ns accLevel accLevel children).2
        else accLevel) (setPrioAttrs .ns accLevel accLevel children).2
    rw [setPrioAttrsInPrio, setPrioAttrs, if_pos rfl, innerEnds]
    exact ⟨congrArg₂ _ innerAttrs attrs, ends⟩

theorem FsNodes.placed_leafAttrs {root} (shape : root.Alternates .ns) :
    root.placed.leafAttrs = (setPrioAttrs .ns 0 0 root).1 :=
  ((leafAttrs_eq root).1 shape 0 0).1

private theorem warnFree_of_suffice (nodes) :
    (nodes.Alternates .ns → nodes.SingleNamespace .ns → nodes.LevelsSuffice →
      ∀ accLevel accLevelNs, WarnFree .ns accLevel accLevelNs nodes) ∧
    (∀ type, type ≠ .ns → nodes.Alternates type → nodes.SingleNamespace type →
      nodes.LevelsSuffice → ∀ accLevel, WarnFree type accLevel accLevel nodes) := by
  induction nodes with
  | nil => exact ⟨fun _ _ _ _ _ => trivial, fun _ _ _ _ _ _ => trivial⟩
  | leaf prio numLevels rest ih =>
    refine ⟨?_, fun type isPrio shape => absurd shape.1 isPrio⟩
    intro shape single ample accLevel accLevelNs
    exact ⟨rfl, ih.1 shape.2 single ample _ _⟩
  | node type numLevels children rest ihChildren ihRest =>
    constructor
    · intro shape single ample accLevel accLevelNs
      obtain ⟨isPrio, childrenShape, restShape⟩ := shape
      obtain ⟨_, childrenSingle, restSingle⟩ := single
      obtain ⟨enough, childrenAmple, restAmple⟩ := ample
      have isPrio : type ≠ .ns := fun isNs => isPrio.mp isNs rfl
      have childrenFree := ihChildren.2 type isPrio childrenShape childrenSingle childrenAmple accLevel
      have ends := ((setPrioAttrs_fits children).2 type isPrio childrenShape childrenSingle
        childrenAmple accLevel).ends
      rw [((leafAttrs_eq children).2 type isPrio childrenShape accLevel accLevel).2] at ends
      rw [WarnFree]
      refine ⟨childrenFree, ?_⟩
      rw [if_neg isPrio]
      refine ⟨rfl, ?_, ihRest.1 restShape restSingle restAmple _ _⟩
      rw [ends, Nat.add_sub_cancel_left]
      split
      · exact le_rfl
      · exact enough isPrio (by assumption)
    · intro parent isPrio shape single ample accLevel
      obtain ⟨isNs, childrenShape, restShape⟩ := shape
      obtain ⟨alone, childrenSingle, restSingle⟩ := single
      obtain ⟨_, childrenAmple, restAmple⟩ := ample
      have isNs := isNs.mpr isPrio
      subst isNs
      rw [WarnFree]
      refine ⟨ihChildren.1 childrenShape childrenSingle childrenAmple _ _, ?_⟩
      rw [if_pos rfl]
      refine ⟨isPrio, alone, ?_⟩
      cases parent with
      | ns => exact absurd rfl isPrio
      | prio =>
        rw [alone rfl]
        trivial
      | prioChains =>
        rw [if_pos rfl]
        exact ihRest.2 .prioChains isPrio restShape restSingle restAmple _

section Tables

variable {root : FsNodes} {tables : Nat → List FlowTable}

theorem ManagedTables.level (managed : ManagedTables root tables) {prio ft} (listed : ft ∈ tables prio) :
    ∃ attrs ∈ root.placed.leafAttrs, attrs.prio = prio ∧ attrs.startLevel ≤ ft.level ∧
      ft.level < attrs.startLevel + attrs.numLevels := by
  induction managed generalizing prio ft with
  | init => cases listed
  | @create tables attrs id level _ placed fits ih =>
    by_cases same : prio = attrs.prio
    · subst same
      rw [update_self, mem_listAddFlowTable] at listed
      rcases listed with rfl | old
      · exact ⟨attrs, placed, rfl, Nat.le_add_left _ _, by simp only; omega⟩
      · exact ih old
    · rw [update_of_ne same] at listed
      exact ih listed
  | @destroy tables gone _ ih =>
    by_cases same : prio = gone.prio
    · subst same
      rw [update_self] at listed
      exact ih (mem_of_mem_erase listed)
    · rw [update_of_ne same] at listed
      exact ih listed

end Tables

namespace FsNodes

def LevelsIncrease (root : FsNodes) : Prop :=
  ∀ tables, ManagedTables root tables → ∀ prio, ∀ ft ∈ tables prio, ∀ next,
    root.findNextChainedFt tables prio = some next → ft.level < next.level

private theorem levelsIncrease {root : FsNodes} (shape : root.Alternates .ns) (single : root.SingleNamespace .ns)
    (ample : root.LevelsSuffice) (numbered : root.leaves.Pairwise (· < ·)) : root.LevelsIncrease := by
  intro tables managed prio ft listed next found
  let tree : FsTree := ⟨root, numbered, (warnFree_of_suffice root).1 shape single ample 0 0⟩
  have attrsEq : root.placed.leafAttrs = tree.attrs := placed_leafAttrs shape
  obtain ⟨attrs, mem, rfl, _, below⟩ := managed.level listed
  rw [attrsEq] at mem
  have isLeaf : attrs.prio ∈ tree.root.leaves := tree.attrs_prio ▸ mem_map_of_mem mem
  obtain ⟨later, isNext, head⟩ := @findNextChainedFt_some tree tables attrs.prio isLeaf next found
  obtain ⟨laterAttrs, laterMember, rfl, above, _⟩ := managed.level (mem_of_head? head)
  rw [attrsEq] at laterMember
  have apart := tree.attrs_ordered mem laterMember (tree.follows.lt isNext.rel)
  omega

end FsNodes

section RootNs

variable {tree : FsTree} {root after : RootNs}

end RootNs

namespace FsNodes

/-- Sibling priorities get consecutive ranges, as the namespaces of a chains priority do. With one namespace
to an ordinary priority, priorities contain those below, and levels increase from a table to the next. -/
theorem placed_levels (root : FsNodes) (shape : root.Alternates .ns) :
    (∀ lists ∈ (FsNodeType.ns, root.placed.ranges) :: root.placed.childLists,
      lists.1 ≠ .prio → Consecutive lists.2 ∧ lists.2.Pairwise LevelRange.Before) ∧
    (root.LevelsSuffice → root.SingleNamespace .ns →
      root.placed.Nested ∧ (root.leaves.Pairwise (· < ·) → root.LevelsIncrease)) := by
  obtain ⟨consecutive, below⟩ := (placed_consecutive root).1 shape 0
  constructor
  · intro lists member notShared
    rcases mem_cons.mp member with rfl | deeper
    · exact ⟨consecutive, consecutive.disjoint⟩
    · have siblings := below lists deeper notShared
      exact ⟨siblings, siblings.disjoint⟩
  · intro ample single
    exact ⟨((setPrioAttrs_fits root).1 shape single ample 0).nested, levelsIncrease shape single ample⟩

/-- The FDB tree. -/
theorem placed_levels_fdb : initFdbRootNs.placed.Nested ∧ initFdbRootNs.LevelsIncrease := by
  have shape : initFdbRootNs.Alternates .ns := by decide +kernel
  obtain ⟨nested, increase⟩ := (placed_levels initFdbRootNs shape).2 (by decide +kernel) (by decide +kernel)
  exact ⟨nested, increase FsTree.fdb.numbered⟩

def twoNamespaces : FsNodes :=
  .node .prio 0 (.node .ns 0 (.leaf 0 5 .nil) (.node .ns 0 (.leaf 1 2 .nil) .nil)) (.leaf 2 1 .nil)

/-- The priority gets only its second namespace's levels, and a packet goes from level 4 in the first to
level 0 in the second. -/
theorem twoNamespaces_levels : twoNamespaces.Alternates .ns ∧ twoNamespaces.LevelsSuffice ∧
      twoNamespaces.leaves.Pairwise (· < ·) ∧
      ¬ twoNamespaces.placed.Nested ∧ ¬ twoNamespaces.LevelsIncrease := by
  refine ⟨by decide, by decide, by decide, ?_, ?_⟩
  · intro nested
    have inside := nested (⟨0, 2⟩, ⟨0, 5⟩) (by decide)
    exact absurd inside.2 (by decide)
  intro increase
  have first : ManagedTables twoNamespaces _ :=
    ManagedTables.init.create 10 4 (show ⟨0, 0, 5⟩ ∈ twoNamespaces.placed.leafAttrs by decide) (by decide)
  have second := first.create 11 0 (show ⟨1, 0, 2⟩ ∈ twoNamespaces.placed.leafAttrs by decide) (by decide)
  have higher := increase _ second 0 ⟨10, 0, 4⟩ (by decide) ⟨11, 1, 0⟩ (by decide +kernel)
  exact absurd higher (by decide)

end FsNodes

end MlnxOfed.FsCore
