/-
The steering tree of a root namespace (fs_core.c): priorities and namespaces in turn, with the flow tables
at the bottom.

The tree is fixed once the init functions have built it. Siblings hang on one list, every node has a list of
children, and the way from a priority up to the root is its list of frames.
-/

import Mathlib.Algebra.Order.Ring.Int
import Mathlib.Data.List.Basic

namespace MlnxOfed.FsCore

open List

/-- `FS_TYPE_NAMESPACE`, `FS_TYPE_PRIO`, `FS_TYPE_PRIO_CHAINS`. -/
inductive FsNodeType where
  | ns
  | prio
  | prioChains
  deriving DecidableEq

/-- A list of siblings. A `leaf` is a priority with flow tables, numbered along the tree. -/
inductive FsNodes where
  | nil
  | leaf (prio numLevels : Nat) (rest : FsNodes)
  | node (type : FsNodeType) (numLevels : Nat) (children rest : FsNodes)
  deriving DecidableEq

namespace FsNodes

def append : FsNodes → FsNodes → FsNodes
  | .nil, right => right
  | .leaf prio numLevels rest, right => .leaf prio numLevels (rest.append right)
  | .node type numLevels children rest, right =>
    .node type numLevels children (rest.append right)

def leaves : FsNodes → List Nat
  | .nil => []
  | .leaf prio _ rest => prio :: rest.leaves
  | .node _ _ children rest => children.leaves ++ rest.leaves

private theorem leaves_append (left right : FsNodes) : (left.append right).leaves = left.leaves ++ right.leaves := by
  induction left with
  | nil => rfl
  | leaf prio numLevels rest ih =>
    change prio :: (rest.append right).leaves = prio :: rest.leaves ++ right.leaves
    rw [ih]
    rfl
  | node type numLevels children rest _ ih =>
    change children.leaves ++ (rest.append right).leaves = children.leaves ++ rest.leaves ++ right.leaves
    rw [ih, append_assoc]

end FsNodes

/-- One step up: the parent's type, and the siblings on both sides. -/
structure Frame where
  parent : FsNodeType
  before : FsNodes
  after : FsNodes

/-- The frames from a leaf priority to the root, innermost first. -/
def framesFrom (prio : Nat) (parent : FsNodeType) (before : FsNodes) : FsNodes → Option (List Frame)
  | .nil => none
  | .leaf other numLevels rest =>
    if other = prio then some [⟨parent, before, rest⟩]
    else framesFrom prio parent (before.append (.leaf other numLevels .nil)) rest
  | .node type numLevels children rest =>
    match framesFrom prio type .nil children with
    | some frames => some (frames ++ [⟨parent, before, rest⟩])
    | none => framesFrom prio parent (before.append (.node type numLevels children .nil)) rest

/-- What `set_prio_attrs` writes into a leaf priority. -/
structure PrioAttrs where
  prio : Nat
  startLevel : Nat
  numLevels : Nat
  deriving DecidableEq

/-- `set_prio_attrs_in_ns` and the loop of `set_prio_attrs_in_prio`; `accLevelNs` is the end of the last
namespace. -/
def setPrioAttrs (parent : FsNodeType) (accLevel accLevelNs : Nat) : FsNodes → List PrioAttrs × Nat
  | .nil => ([], if parent = .ns then accLevel else accLevelNs)
  | .leaf prio numLevels rest =>
    let later := setPrioAttrs parent (accLevel + numLevels) accLevelNs rest
    (⟨prio, accLevel, numLevels⟩ :: later.1, later.2)
  | .node type numLevels children rest =>
    let inner := setPrioAttrs type accLevel accLevel children
    if type = .ns then
      let later := setPrioAttrs parent (if parent = .prioChains then inner.2 else accLevel)
        inner.2 rest
      (inner.1 ++ later.1, later.2)
    else
      let levels := if numLevels = 0 then inner.2 - accLevel else numLevels
      let later := setPrioAttrs parent (accLevel + levels) accLevelNs rest
      (inner.1 ++ later.1, later.2)

/-- The trees of the init functions: an ordinary priority has one namespace, and `set_prio_attrs_in_prio`
has no warning. -/
def WarnFree (parent : FsNodeType) (accLevel accLevelNs : Nat) : FsNodes → Prop
  | .nil => True
  | .leaf _ numLevels rest =>
    parent = .ns ∧ WarnFree parent (accLevel + numLevels) accLevelNs rest
  | .node type numLevels children rest =>
    let inner := setPrioAttrs type accLevel accLevel children
    WarnFree type accLevel accLevel children ∧
    if type = .ns then
      parent ≠ .ns ∧ (parent = .prio → rest = .nil) ∧
        WarnFree parent (if parent = .prioChains then inner.2 else accLevel) inner.2 rest
    else
      let levels := if numLevels = 0 then inner.2 - accLevel else numLevels
      parent = .ns ∧ inner.2 - accLevel ≤ levels ∧ WarnFree parent (accLevel + levels) accLevelNs rest

def decideWarnFree (parent : FsNodeType) (accLevel accLevelNs : Nat) :
    (nodes : FsNodes) → Decidable (WarnFree parent accLevel accLevelNs nodes)
  | .nil => .isTrue trivial
  | .leaf _ numLevels rest =>
    haveI := decideWarnFree parent (accLevel + numLevels) accLevelNs rest
    inferInstanceAs (Decidable (_ ∧ _))
  | .node type numLevels children rest =>
    let inner := setPrioAttrs type accLevel accLevel children
    let levels := if numLevels = 0 then inner.2 - accLevel else numLevels
    haveI := decideWarnFree type accLevel accLevel children
    haveI := decideWarnFree parent (if parent = .prioChains then inner.2 else accLevel)
      inner.2 rest
    haveI := decideWarnFree parent (accLevel + levels) accLevelNs rest
    inferInstanceAs (Decidable (_ ∧ if type = .ns then _ ∧ _ ∧ _ else _ ∧ _ ∧ _))

instance (parent : FsNodeType) (accLevel accLevelNs : Nat) (nodes : FsNodes) :
    Decidable (WarnFree parent accLevel accLevelNs nodes) :=
  decideWarnFree parent accLevel accLevelNs nodes

structure FsTree where
  root : FsNodes
  numbered : root.leaves.Pairwise (· < ·)
  warnFree : WarnFree .ns 0 0 root

def fdbTcMaxChain : Nat := 3

def fdbTcMaxPrio : Nat := 16

def fdbTcLevelsPerPrio : Nat := 2

/-- `count` leaf priorities of equal size, numbered from `first`. -/
def createLeafPrios (first numLevels : Nat) : Nat → FsNodes
  | 0 => .nil
  | count + 1 => .leaf first numLevels (createLeafPrios (first + 1) numLevels count)

/-- The namespaces of `create_fdb_chains`, each with its priorities. -/
def createFdbSubNsPrioChains (first : Nat) : Nat → FsNodes
  | 0 => .nil
  | chains + 1 =>
    .node .ns 0 (createLeafPrios first fdbTcLevelsPerPrio fdbTcMaxPrio)
      (createFdbSubNsPrioChains (first + fdbTcMaxPrio) chains)

def createFdbChains (first chains : Nat) (rest : FsNodes) : FsNodes :=
  .node .prioChains (fdbTcLevelsPerPrio * fdbTcMaxPrio * chains) (createFdbSubNsPrioChains first chains) rest

/-- `init_fdb_root_ns`: bypass, crypto ingress and E2E cache, the tc and ft chains,
miss meter, slow path, crypto egress and the per-vport priority. -/
def initFdbRootNs : FsNodes :=
  .leaf 0 1 (.leaf 1 2 (.leaf 2 2 (createFdbChains 3 (fdbTcMaxChain + 1) (createFdbChains 67 1
        (.leaf 83 2 (.leaf 84 1 (.leaf 85 2 (.leaf 86 1 .nil))))))))

def FsTree.fdb : FsTree where
  root := initFdbRootNs
  numbered := by decide +kernel
  warnFree := by decide +kernel

def FsTree.attrs (tree : FsTree) : List PrioAttrs := (setPrioAttrs .ns 0 0 tree.root).1

def FsTree.frames (tree : FsTree) (prio : Nat) : List Frame :=
  (framesFrom prio .ns .nil tree.root).getD []

/-! ### Which priority may follow which -/

/-- `right` comes later in the tree, not in a parallel namespace of a chains priority. -/
def Chained (left right : Nat) (parent : FsNodeType) : FsNodes → Prop
  | .nil => False
  | .leaf prio _ rest =>
    (prio = left ∧ parent ≠ .prioChains ∧ right ∈ rest.leaves) ∨ Chained left right parent rest
  | .node type _ children rest =>
    Chained left right type children ∨ (left ∈ children.leaves ∧ parent ≠ .prioChains ∧ right ∈ rest.leaves) ∨
        Chained left right parent rest

section Order

variable {left middle right prio : Nat} {parent : FsNodeType} {nodes : FsNodes}

theorem Chained.mem_left (chained : Chained left right parent nodes) : left ∈ nodes.leaves := by
  induction nodes generalizing parent with
  | nil => cases chained
  | leaf other numLevels rest ih =>
    rcases chained with ⟨same, _⟩ | later
    · exact same ▸ mem_cons_self
    · exact .tail _ (ih later)
  | node type numLevels children rest ihChildren ihRest =>
    rcases chained with inside | ⟨mem, _⟩ | later
    · exact mem_append_left _ (ihChildren inside)
    · exact mem_append_left _ mem
    · exact mem_append_right _ (ihRest later)

theorem Chained.mem_right (chained : Chained left right parent nodes) : right ∈ nodes.leaves := by
  induction nodes generalizing parent with
  | nil => cases chained
  | leaf other numLevels rest ih =>
    rcases chained with ⟨_, _, mem⟩ | later
    · exact .tail _ mem
    · exact .tail _ (ih later)
  | node type numLevels children rest ihChildren ihRest =>
    rcases chained with inside | ⟨_, _, mem⟩ | later
    · exact mem_append_left _ (ihChildren inside)
    · exact mem_append_right _ mem
    · exact mem_append_right _ (ihRest later)

theorem Chained.lt (numbered : nodes.leaves.Pairwise (· < ·))
    (chained : Chained left right parent nodes) : left < right := by
  induction nodes generalizing parent with
  | nil => cases chained
  | leaf other numLevels rest ih =>
    obtain ⟨first, others⟩ := pairwise_cons.mp numbered
    rcases chained with ⟨same, _, mem⟩ | later
    · exact same ▸ first right mem
    · exact ih others later
  | node type numLevels children rest ihChildren ihRest =>
    obtain ⟨inner, others, across⟩ := pairwise_append.mp numbered
    rcases chained with inside | ⟨leftIn, _, rightIn⟩ | later
    · exact ihChildren inner inside
    · exact across left leftIn right rightIn
    · exact ihRest others later

theorem Chained.trans (numbered : nodes.leaves.Pairwise (· < ·))
    (first : Chained left middle parent nodes) (second : Chained middle right parent nodes) :
    Chained left right parent nodes := by
  induction nodes generalizing parent with
  | nil => cases first
  | leaf other numLevels rest ih =>
    obtain ⟨least, others⟩ := pairwise_cons.mp numbered
    have middleIn : middle ∈ rest.leaves := by
      rcases first with ⟨_, _, mem⟩ | later
      · exact mem
      · exact later.mem_right
    have secondLater : Chained middle right parent rest := by
      rcases second with ⟨same, _⟩ | later
      · exact absurd (least middle middleIn) (same ▸ lt_irrefl _)
      · exact later
    rcases first with ⟨same, serial, _⟩ | later
    · exact .inl ⟨same, serial, secondLater.mem_right⟩
    · exact .inr (ih others later secondLater)
  | node type numLevels children rest ihChildren ihRest =>
    obtain ⟨inner, others, across⟩ := pairwise_append.mp numbered
    have apart : ∀ {prio}, prio ∈ children.leaves → prio ∉ rest.leaves := fun early late =>
      lt_irrefl _ (across _ early _ late)
    rcases first with inside | ⟨leftIn, serial, middleIn⟩ | later
    · rcases second with inside' | ⟨_, serial, rightIn⟩ | later'
      · exact .inl (ihChildren inner inside inside')
      · exact .inr (.inl ⟨inside.mem_left, serial, rightIn⟩)
      · exact absurd later'.mem_left (apart inside.mem_right)
    · rcases second with inside' | ⟨middleEarly, _⟩ | later'
      · exact absurd middleIn (apart inside'.mem_left)
      · exact absurd middleIn (apart middleEarly)
      · exact .inr (.inl ⟨leftIn, serial, later'.mem_right⟩)
    · rcases second with inside' | ⟨middleEarly, _⟩ | later'
      · exact absurd later.mem_right (apart inside'.mem_left)
      · exact absurd later.mem_right (apart middleEarly)
      · exact .inr (.inr (ihRest others later later'))

def succs (frames : List Frame) : List Nat :=
  frames.flatMap fun frame => if frame.parent = .prioChains then [] else frame.after.leaves

def preds (frames : List Frame) : List Nat :=
  frames.flatMap fun frame =>
    if frame.parent = .prioChains then [] else frame.before.leaves.reverse

private theorem framesFrom_eq_none (old) (absent : prio ∉ nodes.leaves) :
    framesFrom prio parent old nodes = none := by
  induction nodes generalizing parent old with
  | nil => rfl
  | leaf other numLevels rest ih =>
    have apart : other ≠ prio := fun same => absent (same ▸ mem_cons_self)
    rw [framesFrom, if_neg apart]
    exact ih _ fun mem => absent (.tail _ mem)
  | node type numLevels children rest ihChildren ihRest =>
    rw [framesFrom, ihChildren _ fun mem => absent (mem_append_left _ mem)]
    exact ihRest _ fun mem => absent (mem_append_right _ mem)

/-- Walking up from a leaf meets the priorities that may follow it, or that it may follow, in order. -/
theorem framesFrom_spec (numbered : nodes.leaves.Pairwise (· < ·)) (old) (mem : prio ∈ nodes.leaves) :
    ∃ frames, framesFrom prio parent old nodes = some frames ∧
      (∀ other, other ∈ succs frames ↔ Chained prio other parent nodes) ∧
      (succs frames).Sublist nodes.leaves ∧
      (∀ other, other ∈ preds frames ↔
        Chained other prio parent nodes ∨ (parent ≠ .prioChains ∧ other ∈ old.leaves)) ∧
      (preds frames).reverse.Sublist (old.leaves ++ nodes.leaves) := by
  induction nodes generalizing parent old with
  | nil => cases mem
  | leaf other numLevels rest ih =>
    obtain ⟨least, others⟩ := pairwise_cons.mp numbered
    by_cases same : other = prio
    · subst same
      have absent : other ∉ rest.leaves := fun late => lt_irrefl _ (least other late)
      refine ⟨[⟨parent, old, rest⟩], by rw [framesFrom, if_pos rfl], ?_, ?_, ?_, ?_⟩
      · intro next
        have notLater : ¬ Chained other next parent rest := fun later => absent later.mem_left
        by_cases parallel : parent = .prioChains
        · simp [succs, Chained, parallel]
          exact parallel ▸ notLater
        · simp [succs, Chained, parallel, notLater]
      · by_cases parallel : parent = .prioChains
        · simp [succs, parallel]
        · simp [succs, parallel, FsNodes.leaves]
      · intro next
        have notLater : ¬ Chained next other parent rest := fun later => absent later.mem_right
        by_cases parallel : parent = .prioChains
        · simp [preds, Chained, parallel]
          exact parallel ▸ notLater
        · simp [preds, Chained, parallel, notLater, absent]
      · by_cases parallel : parent = .prioChains
        · simp [preds, parallel]
        · simp [preds, parallel]
    · have inRest : prio ∈ rest.leaves := by
        rcases mem_cons.mp mem with here | there
        · exact absurd here.symm same
        · exact there
      obtain ⟨frames, found, next, nextOrder, prev, prevOrder⟩ :=
        ih others (old.append (.leaf other numLevels .nil)) inRest
      rw [FsNodes.leaves_append] at prev prevOrder
      refine ⟨frames, by rw [framesFrom, if_neg same, found], ?_, nextOrder.cons _, ?_, ?_⟩
      · intro candidate
        rw [next]
        simp [Chained, same]
      · intro candidate
        rw [prev]
        simp only [Chained, FsNodes.leaves, mem_append, mem_singleton]
        grind
      · rw [append_assoc] at prevOrder
        exact prevOrder
  | node type numLevels children rest ihChildren ihRest =>
    obtain ⟨inner, others, across⟩ := pairwise_append.mp numbered
    by_cases inside : prio ∈ children.leaves
    · have absent : prio ∉ rest.leaves := fun late => lt_irrefl _ (across _ inside _ late)
      obtain ⟨frames, found, next, nextOrder, prev, prevOrder⟩ :=
        @ihChildren type inner .nil inside
      refine ⟨frames ++ [⟨parent, old, rest⟩], by rw [framesFrom, found], ?_, ?_, ?_, ?_⟩
      · intro candidate
        have notLater : ¬ Chained prio candidate parent rest := fun later =>
          absent later.mem_left
        simp only [succs, flatMap_append, flatMap_cons, flatMap_nil, append_nil, mem_append, Chained] at next ⊢
        rw [next]
        by_cases parallel : parent = .prioChains <;> simp [parallel, inside] <;> grind
      · simp only [succs, flatMap_append, flatMap_cons, flatMap_nil, append_nil] at nextOrder ⊢
        apply nextOrder.append
        split
        · exact nil_sublist _
        · exact Sublist.refl _
      · intro candidate
        have notLater : ¬ Chained candidate prio parent rest := fun later =>
          absent later.mem_right
        simp only [preds, flatMap_append, flatMap_cons, flatMap_nil,
          append_nil, mem_append, Chained, FsNodes.leaves, not_mem_nil,
          and_false, or_false] at prev ⊢
        rw [prev]
        by_cases parallel : parent = .prioChains <;> simp [parallel, absent] <;> grind
      · simp only [preds, flatMap_append, flatMap_cons, flatMap_nil,
          append_nil, reverse_append, FsNodes.leaves, nil_append] at prevOrder ⊢
        refine Sublist.append ?_ (prevOrder.trans (sublist_append_left _ _))
        split
        · exact nil_sublist _
        · rw [reverse_reverse]
    · have inRest : prio ∈ rest.leaves := (mem_append.mp mem).resolve_left inside
      obtain ⟨frames, found, next, nextOrder, prev, prevOrder⟩ :=
        ihRest others (old.append (.node type numLevels children .nil)) inRest
      rw [FsNodes.leaves_append] at prev prevOrder
      refine ⟨frames, ?_, ?_, nextOrder.trans (sublist_append_right _ _), ?_, ?_⟩
      · rw [framesFrom, framesFrom_eq_none _ inside]
        exact found
      · intro candidate
        have notInside : ¬ Chained prio candidate type children := fun early =>
          inside early.mem_left
        rw [next]
        simp [Chained, inside, notInside]
      · intro candidate
        have notInside : ¬ Chained candidate prio type children := fun early =>
          inside early.mem_right
        rw [prev]
        simp only [Chained, FsNodes.leaves, append_nil, mem_append]
        grind
      · simpa [FsNodes.leaves] using prevOrder

end Order

/-- Level ranges of leaf priorities lie in the list's range, one after the other. -/
theorem setPrioAttrs_spec {parent accLevel accLevelNs nodes}
    (warnFree : WarnFree parent accLevel accLevelNs nodes) (grows : parent = .ns ∨ accLevel ≤ accLevelNs) :
    let result := setPrioAttrs parent accLevel accLevelNs nodes
    accLevel ≤ result.2 ∧ result.1.map PrioAttrs.prio = nodes.leaves ∧ (∀ attrs ∈ result.1,
        accLevel ≤ attrs.startLevel ∧ attrs.startLevel + attrs.numLevels ≤ result.2) ∧
      result.1.Pairwise fun left right => left.startLevel + left.numLevels ≤ right.startLevel := by
  induction nodes generalizing parent accLevel accLevelNs with
  | nil =>
    refine ⟨?_, rfl, by simp [setPrioAttrs], by simp [setPrioAttrs]⟩
    simp only [setPrioAttrs]
    split
    · exact le_rfl
    · rename_i notNs
      exact grows.resolve_left notNs
  | leaf prio numLevels rest ih =>
    obtain ⟨isNs, restFree⟩ := warnFree
    obtain ⟨ends, names, bounds, apart⟩ := ih restFree (.inl isNs)
    simp only [setPrioAttrs]
    refine ⟨by omega, by rw [map_cons, names]; rfl, ?_, ?_⟩
    · intro attrs mem
      rcases mem_cons.mp mem with rfl | later
      · exact ⟨le_rfl, ends⟩
      · have bound := bounds attrs later
        omega
    · exact pairwise_cons.mpr ⟨fun attrs later => (bounds attrs later).1, apart⟩
  | node type numLevels children rest ihChildren ihRest =>
    obtain ⟨childrenFree, warnFree⟩ := warnFree
    obtain ⟨innerEnds, innerNames, innerBounds, innerApart⟩ := ihChildren childrenFree (.inr le_rfl)
    simp only [setPrioAttrs]
    -- Both kinds of node put the rest of the list behind the children.
    have joined (start : Nat) (later : List PrioAttrs × Nat) (low : accLevel ≤ start) :
        (start ≤ later.2 ∧ later.1.map PrioAttrs.prio = rest.leaves ∧ (∀ attrs ∈ later.1, start ≤
        attrs.startLevel ∧ attrs.startLevel + attrs.numLevels ≤ later.2) ∧ later.1.Pairwise fun left right =>
        left.startLevel + left.numLevels ≤ right.startLevel) → ((setPrioAttrs type accLevel accLevel
        children).2 ≤ start ∨ (later.1 = [] ∧ (setPrioAttrs type accLevel accLevel children).2 ≤ later.2)) →
        accLevel ≤ later.2 ∧ ((setPrioAttrs type accLevel accLevel children).1 ++ later.1).map PrioAttrs.prio
        = (FsNodes.node type numLevels children rest).leaves ∧ (∀ attrs ∈ (setPrioAttrs type accLevel accLevel
        children).1 ++ later.1, accLevel ≤ attrs.startLevel ∧ attrs.startLevel + attrs.numLevels ≤ later.2) ∧
        ((setPrioAttrs type accLevel accLevel children).1 ++ later.1).Pairwise fun left right =>
        left.startLevel + left.numLevels ≤ right.startLevel := by
      intro ⟨ends, names, bounds, apart⟩ behind
      refine ⟨by omega, by rw [map_append, innerNames, names]; rfl, ?_, ?_⟩
      · intro attrs mem
        rcases mem_append.mp mem with inside | outside
        · have bound := innerBounds attrs inside
          omega
        · have bound := bounds attrs outside
          omega
      · refine pairwise_append.mpr ⟨innerApart, apart, ?_⟩
        intro left leftIn right rightIn
        rcases behind with late | ⟨empty, _⟩
        · exact le_trans (innerBounds left leftIn).2 (le_trans late (bounds right rightIn).1)
        · rw [empty] at rightIn
          cases rightIn
    by_cases isNs : type = .ns
    · rw [if_pos isNs] at warnFree
      obtain ⟨notNs, single, restFree⟩ := warnFree
      rw [if_pos isNs]
      cases parent with
      | ns => exact absurd rfl notNs
      | prio =>
        have last := single rfl
        subst last
        have later := ihRest restFree (.inr innerEnds)
        exact joined accLevel _ le_rfl later (.inr ⟨rfl, le_rfl⟩)
      | prioChains =>
        have later := ihRest restFree (.inr le_rfl)
        exact joined _ _ innerEnds later (.inl le_rfl)
    · rw [if_neg isNs] at warnFree
      obtain ⟨inNs, enough, restFree⟩ := warnFree
      rw [if_neg isNs]
      have later := ihRest restFree (.inl inNs)
      exact joined _ _ (Nat.le_add_right _ _) later (.inl (by omega))

end MlnxOfed.FsCore
