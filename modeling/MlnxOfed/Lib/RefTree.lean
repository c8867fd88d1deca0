/-
Trees of counted nodes: a node is kept by its children and outside references, and with the last of them
gives up its reference to the parent, and so on up. Nodes are numbered, a parent is older than its children.
-/

import MlnxOfed.Lib.KeyedList

namespace MlnxOfed.Lib

open List

structure RefNode (Attr : Type*) where
  id : Nat
  parent : Option Nat
  refcount : Nat
  attr : Attr
  deriving DecidableEq

namespace RefTree

variable {Attr : Type*}

def addRef (node : RefNode Attr) : RefNode Attr :=
  { node with refcount := node.refcount + 1 }

def dropRef (node : RefNode Attr) : RefNode Attr :=
  { node with refcount := node.refcount - 1 }

def childCount (nodes : List (RefNode Attr)) (id : Nat) : Nat :=
  nodes.countP fun node => node.parent = some id

def get (nodes : List (RefNode Attr)) (id : Nat) : List (RefNode Attr) :=
  updateKey RefNode.id nodes id addRef

def insert (nodes : List (RefNode Attr)) (id : Nat) (parent : Option Nat) (attr : Attr) : List (RefNode Attr) :=
  ⟨id, parent, 1, attr⟩ :: match parent with
    | none => nodes
    | some up => get nodes up

/-- One reference less, on the way up as far as nodes go. -/
def putFrom : Nat → List (RefNode Attr) → Nat → List (RefNode Attr)
  | 0, nodes, _ => nodes
  | steps + 1, nodes, id =>
    match findKey RefNode.id nodes id with
    | none => nodes
    | some node =>
      if node.refcount = 1 then
        match node.parent with
        | none => removeKey RefNode.id nodes id
        | some up => putFrom steps (removeKey RefNode.id nodes id) up
      else updateKey RefNode.id nodes id dropRef

def put (nodes : List (RefNode Attr)) (id : Nat) : List (RefNode Attr) :=
  putFrom (id + 1) nodes id

/-- Each count is that of the outer references and of the children, and none is zero. -/
structure Balanced (nodes : List (RefNode Attr)) (held : List Nat) : Prop where
  distinct : (nodes.map RefNode.id).Nodup
  parents : ∀ node ∈ nodes, ∀ up, node.parent = some up → up < node.id ∧ up ∈ nodes.map RefNode.id
  refs : ∀ node ∈ nodes, node.refcount = held.count node.id + childCount nodes node.id
  used : ∀ node ∈ nodes, 0 < node.refcount
  listed : ∀ id ∈ held, id ∈ nodes.map RefNode.id

variable {nodes next : List (RefNode Attr)} {held rest : List Nat} {node : RefNode Attr}

theorem Balanced.perm (balanced : Balanced nodes held) (same : held.Perm rest) : Balanced nodes rest where
  distinct := balanced.distinct
  parents := balanced.parents
  refs node member := by rw [← same.count_eq]; exact balanced.refs node member
  used := balanced.used
  listed id inRest := balanced.listed id (same.mem_iff.mpr inRest)

theorem childCount_perm (same : nodes.Perm next) (id) : childCount nodes id = childCount next id :=
  same.countP_eq _

theorem Balanced.recount (balanced : Balanced nodes held) (mem : node ∈ nodes)
    (change : RefNode Attr → RefNode Attr) (sameId : (change node).id = node.id)
    (sameParent : (change node).parent = node.parent)
    (refs : (change node).refcount = rest.count node.id + childCount nodes node.id)
    (pos : 0 < (change node).refcount) (inRest : ∀ id ∈ rest, id ∈ node.id :: held)
    (others : ∀ id, id ≠ node.id → rest.count id = held.count id) :
    Balanced (updateKey RefNode.id nodes node.id change) rest := by
  have before := perm_cons_removeKey balanced.distinct mem
  have after := updateKey_perm balanced.distinct mem change
  have sameIds : ((updateKey RefNode.id nodes node.id change).map RefNode.id).Perm
      (nodes.map RefNode.id) := by
    refine (after.map _).trans ((before.map _).trans ?_).symm
    rw [map_cons, map_cons, sameId]
  have sameChildren id : childCount (updateKey RefNode.id nodes node.id change) id = childCount nodes id := by
    rw [childCount_perm after, childCount_perm before, childCount, childCount, countP_cons,
      countP_cons, sameParent]
  have cases other (inNext : other ∈ updateKey RefNode.id nodes node.id change) : other = change node ∨ other
      ∈ nodes ∧ other.id ≠ node.id := by
    rcases mem_cons.mp (after.mem_iff.mp inNext) with same | old
    · exact .inl same
    · exact .inr (mem_removeKey.mp old)
  exact
    { distinct := sameIds.nodup_iff.mpr balanced.distinct
      parents other inNext up isUp := by
        rw [sameIds.mem_iff]
        rcases cases other inNext with rfl | ⟨old, -⟩
        · rw [sameId]
          exact balanced.parents node mem up (sameParent ▸ isUp)
        · exact balanced.parents other old up isUp
      refs other inNext := by
        rw [sameChildren]
        rcases cases other inNext with rfl | ⟨old, apart⟩
        · rw [sameId]
          exact refs
        · rw [others _ apart]
          exact balanced.refs other old
      used other inNext := by
        rcases cases other inNext with rfl | ⟨old, -⟩
        · exact pos
        · exact balanced.used other old
      listed id isHeld := by
        rw [sameIds.mem_iff]
        rcases mem_cons.mp (inRest id isHeld) with rfl | old
        · exact mem_map_of_mem mem
        · exact balanced.listed id old }

variable {id : Nat}

theorem Balanced.get (balanced : Balanced nodes held)
    (inside : id ∈ nodes.map RefNode.id) : Balanced (get nodes id) (id :: held) := by
  obtain ⟨node, mem, rfl⟩ := mem_map.mp inside
  refine balanced.recount mem addRef rfl rfl ?_ (Nat.succ_pos _) (fun _ => id)
    (fun other apart => count_cons_of_ne (Ne.symm apart))
  have refs := balanced.refs node mem
  rw [count_cons_self]
  simp only [addRef]
  omega

theorem Balanced.remove (balanced : Balanced nodes (node.id :: held)) (mem : node ∈ nodes)
    (single : node.refcount = 1) :
    Balanced (removeKey RefNode.id nodes node.id) (node.parent.toList ++ held) := by
  have before := perm_cons_removeKey balanced.distinct mem
  have refs := balanced.refs node mem
  rw [count_cons_self] at refs
  have noHeld : node.id ∉ held := count_eq_zero.mp (by omega)
  have noChild : childCount nodes node.id = 0 := by omega
  have inside other (inNext : other ∈ removeKey RefNode.id nodes node.id) : other ∈ nodes ∧ other.id ≠ node.id :=
      mem_removeKey.mp inNext
  have ids id (isId : id ∈ nodes.map RefNode.id) (apart : id ≠ node.id) : id ∈ (removeKey RefNode.id nodes
      node.id).map RefNode.id := by
    obtain ⟨other, inNodes, rfl⟩ := mem_map.mp isId
    exact mem_map_of_mem (mem_removeKey.mpr ⟨inNodes, apart⟩)
  have children id : childCount nodes id = childCount (removeKey RefNode.id nodes node.id) id +
      node.parent.toList.count id := by
    rw [childCount_perm before, childCount, childCount, countP_cons]
    cases node.parent with
    | none => simp
    | some up =>
      by_cases same : up = id
      · simp [same]
      · simp [same]
  exact
    { distinct := by
        have distinct := (before.map RefNode.id).nodup_iff.mp balanced.distinct
        rw [map_cons, nodup_cons] at distinct
        exact distinct.2
      parents other inNext up isUp := by
        obtain ⟨old, -⟩ := inside other inNext
        obtain ⟨older, listed⟩ := balanced.parents other old up isUp
        refine ⟨older, ids up listed ?_⟩
        intro isNode
        have pos : 0 < childCount nodes node.id := countP_pos_iff.mpr ⟨other, old, by rw [isUp, isNode]; simp⟩
        omega
      refs other inNext := by
        obtain ⟨old, apart⟩ := inside other inNext
        have otherRefs := balanced.refs other old
        have otherChildren := children other.id
        rw [count_cons_of_ne (Ne.symm apart)] at otherRefs
        rw [count_append]
        omega
      used other inNext := balanced.used other (inside other inNext).1
      listed id isHeld := by
        rcases mem_append.mp isHeld with isParent | inHeld
        · have isUp : node.parent = some id := by
            cases parent : node.parent with
            | none => rw [parent] at isParent; cases isParent
            | some up =>
              rw [parent] at isParent
              rw [mem_singleton.mp isParent]
          obtain ⟨older, listed⟩ := balanced.parents node mem id isUp
          exact ids id listed (by omega)
        · refine ids id (balanced.listed id (.tail _ inHeld)) ?_
          exact fun same => noHeld (same ▸ inHeld) }

theorem Balanced.putFrom (steps) {nodes : List (RefNode Attr)}
    (balanced : Balanced nodes (id :: held)) (enough : id < steps) :
    Balanced (putFrom steps nodes id) held := by
  induction steps generalizing nodes id with
  | zero => omega
  | succ steps ih =>
    obtain ⟨node, mem, rfl⟩ := mem_map.mp (balanced.listed id (.head _))
    rw [RefTree.putFrom, findKey_eq_some balanced.distinct mem]
    dsimp only
    split
    · next single =>
      have removed := balanced.remove mem single
      cases parent : node.parent with
      | none =>
        rw [parent] at removed
        exact removed
      | some up =>
        rw [parent] at removed
        obtain ⟨older, -⟩ := balanced.parents node mem up parent
        exact ih removed (by omega)
    next several =>
    have refs := balanced.refs node mem
    have used := balanced.used node mem
    rw [count_cons_self] at refs
    refine balanced.recount mem dropRef rfl rfl ?_ ?_
      (fun _ inRest => mem_cons_of_mem _ (.tail _ inRest))
      (fun other apart => (count_cons_of_ne (Ne.symm apart)).symm)
    · simp only [dropRef]
      omega
    · simp only [dropRef]
      omega

theorem Balanced.put (balanced : Balanced nodes (id :: held)) : Balanced (put nodes id) held :=
  balanced.putFrom _ (Nat.lt_succ_self _)

variable {parent : Option Nat}

theorem Balanced.cons (balanced : Balanced nodes (parent.toList ++ held)) (attr)
    (newest : ∀ other ∈ nodes.map RefNode.id, other < id) :
    Balanced (⟨id, parent, 1, attr⟩ :: nodes) (id :: held) := by
  have absent : id ∉ nodes.map RefNode.id := fun inside => lt_irrefl _ (newest id inside)
  have noHeld : id ∉ held := fun inHeld =>
    absent (balanced.listed id (mem_append_right _ inHeld))
  have children other : childCount (⟨id, parent, 1, attr⟩ :: nodes) other = childCount nodes other +
      parent.toList.count other := by
    rw [childCount, childCount, countP_cons]
    cases parent with
    | none => simp
    | some up =>
      by_cases same : up = other
      · simp [same]
      · simp [same]
  have noChild : childCount nodes id = 0 := by
    refine countP_eq_zero.mpr ?_
    intro other member isChild
    exact absent (balanced.parents other member id (by simpa using isChild)).2
  have parentListed up (isUp : parent = some up) : up ∈ nodes.map RefNode.id := by
    refine balanced.listed up (mem_append_left _ ?_)
    rw [isUp]
    exact mem_singleton_self up
  have noParent : parent.toList.count id = 0 := by
    refine count_eq_zero.mpr ?_
    intro isParent
    exact absent (balanced.listed id (mem_append_left _ isParent))
  exact
    { distinct := nodup_cons.mpr ⟨absent, balanced.distinct⟩
      parents other member up isUp := by
        rw [map_cons]
        rcases mem_cons.mp member with rfl | old
        · have listed := parentListed up isUp
          exact ⟨newest up listed, mem_cons_of_mem _ listed⟩
        · obtain ⟨older, listed⟩ := balanced.parents other old up isUp
          exact ⟨older, mem_cons_of_mem _ listed⟩
      refs other member := by
        have otherChildren := children other.id
        rcases mem_cons.mp member with rfl | old
        · rw [count_cons_self, count_eq_zero.mpr noHeld]
          dsimp only at otherChildren ⊢
          omega
        · have refs := balanced.refs other old
          have older := newest other.id (mem_map_of_mem old)
          rw [count_append] at refs
          rw [count_cons_of_ne (by omega)]
          omega
      used other member := by
        rcases mem_cons.mp member with rfl | old
        · exact Nat.one_pos
        · exact balanced.used other old
      listed other isHeld := by
        rw [map_cons]
        rcases mem_cons.mp isHeld with rfl | inHeld
        · exact .head _
        · exact .tail _ (balanced.listed other (mem_append_right _ inHeld)) }

theorem get_ids (nodes : List (RefNode Attr)) (id) :
    (RefTree.get nodes id).map RefNode.id = nodes.map RefNode.id := by
  rw [RefTree.get, updateKey, map_map]
  refine map_congr_left ?_
  intro other _
  simp only [Function.comp]
  split <;> rfl

private theorem mem_ids_of_putFrom (steps) {nodes : List (RefNode Attr)} {id other : Nat}
    (inside : other ∈ (putFrom steps nodes id).map RefNode.id) :
    other ∈ nodes.map RefNode.id := by
  induction steps generalizing nodes id with
  | zero => exact inside
  | succ steps ih =>
    have removed gone (isId : other ∈ (removeKey RefNode.id nodes gone).map RefNode.id) : other ∈ nodes.map
        RefNode.id := by
      obtain ⟨node, mem, rfl⟩ := mem_map.mp isId
      exact mem_map_of_mem (mem_removeKey.mp mem).1
    rw [RefTree.putFrom] at inside
    split at inside
    · exact inside
    split at inside
    · split at inside
      · exact removed _ inside
      · exact removed _ (ih inside)
    obtain ⟨node, mem, rfl⟩ := mem_map.mp inside
    obtain ⟨old, inNodes, rfl⟩ := mem_map.mp mem
    have sameId : (dropRef old).id = old.id := rfl
    split
    · rw [sameId]
      exact mem_map_of_mem inNodes
    · exact mem_map_of_mem inNodes

theorem mem_ids_of_put {id other} (inside : other ∈ (RefTree.put nodes id).map RefNode.id) :
    other ∈ nodes.map RefNode.id :=
  mem_ids_of_putFrom _ inside

theorem insert_ids (nodes : List (RefNode Attr)) (id parent attr) :
    (RefTree.insert nodes id parent attr).map RefNode.id = id :: nodes.map RefNode.id := by
  cases parent with
  | none => rfl
  | some up => rw [RefTree.insert, map_cons, get_ids]

theorem Balanced.insert (balanced : Balanced nodes held)
    (attr) (newest : ∀ other ∈ nodes.map RefNode.id, other < id)
    (listed : ∀ up, parent = some up → up ∈ nodes.map RefNode.id) :
    Balanced (insert nodes id parent attr) (id :: held) := by
  cases parent with
  | none => exact balanced.cons attr newest
  | some up =>
    refine Balanced.cons (balanced.get (listed up rfl)) attr ?_
    rw [get_ids]
    exact newest

end RefTree

end MlnxOfed.Lib
