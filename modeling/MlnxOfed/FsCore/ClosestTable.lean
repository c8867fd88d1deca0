/-
The recursive searches for the closest flow table, as successor and predecessor in the order of the tree,
where parallel namespaces of a chains priority do not follow each other; and what a change in one priority
does to the forward search.
-/

import MlnxOfed.FsCore.FlowTables
import MlnxOfed.Lib.PatchedChain

namespace MlnxOfed.FsCore

open List Lib FsNodes FsTree

section Search

variable (tables : Nat → List FlowTable)

private theorem findClosestFtRecursive_forward (nodes) : findClosestFtRecursive tables false true nodes =
      nodes.leaves.findSome? fun prio => (tables prio).head? := by
  induction nodes with
  | nil => rfl
  | leaf prio numLevels rest ih =>
    simp only [findClosestFtRecursive, ih, leaves, findSome?_cons]
    cases (tables prio).head? <;> rfl
  | node type numLevels children rest ihChildren ihRest =>
    simp [findClosestFtRecursive, ihChildren, ihRest, leaves, findSome?_append]

private theorem findClosestFtRecursive_reverse (nodes) : findClosestFtRecursive tables true true nodes =
      nodes.leaves.reverse.findSome? fun prio => (tables prio).getLast? := by
  induction nodes with
  | nil => rfl
  | leaf prio numLevels rest ih =>
    simp [findClosestFtRecursive, ih, leaves, findSome?_append]
  | node type numLevels children rest ihChildren ihRest =>
    simp [findClosestFtRecursive, ihChildren, ihRest, leaves, findSome?_append]

theorem findClosestFt_forward (frames) : findClosestFt tables false frames =
      (succs frames).findSome? fun prio => (tables prio).head? := by
  induction frames with
  | nil => rfl
  | cons frame parents ih =>
    by_cases parallel : frame.parent = .prioChains
    · simpa [findClosestFt, Frame.findClosestFt, succs, parallel] using ih
    · simp only [findClosestFt, Frame.findClosestFt, parallel, ih, succs, flatMap_cons,
        findSome?_append, findClosestFtRecursive_forward, ne_eq, not_false_eq_true,
        decide_true, Bool.true_eq_false, and_false, if_false, Bool.false_eq_true]
      cases frame.after.leaves.findSome? fun prio => (tables prio).head? <;> rfl

theorem findClosestFt_reverse (frames) : findClosestFt tables true frames =
      (preds frames).findSome? fun prio => (tables prio).getLast? := by
  induction frames with
  | nil => rfl
  | cons frame parents ih =>
    by_cases parallel : frame.parent = .prioChains
    · simpa [findClosestFt, Frame.findClosestFt, preds, parallel] using ih
    · simp only [findClosestFt, Frame.findClosestFt, parallel, ih, preds, flatMap_cons,
        findSome?_append, findClosestFtRecursive_reverse, ne_eq, not_false_eq_true,
        decide_true, Bool.true_eq_false, and_false, if_false, if_true]
      cases frame.before.leaves.reverse.findSome? fun prio => (tables prio).getLast? <;> rfl

end Search

theorem findSome?_ordered {α : Type*} {old : Nat → Nat → Prop} {list : List Nat}
    (ordered : list.Pairwise old) {f : Nat → Option α} {res : α}
    (found : list.findSome? f = some res) :
    ∃ hit ∈ list, f hit = some res ∧ ∀ other ∈ list, f other ≠ none → other = hit ∨ old hit other := by
  induction list with
  | nil => cases found
  | cons head rest ih =>
    obtain ⟨first, others⟩ := pairwise_cons.mp ordered
    rw [findSome?_cons] at found
    cases here : f head with
    | some value =>
      rw [here] at found
      cases found
      refine ⟨head, .head _, here, ?_⟩
      intro other mem _
      rcases mem_cons.mp mem with same | later
      · exact .inl same
      · exact .inr (first other later)
    | none =>
      rw [here] at found
      obtain ⟨hit, mem, value, least⟩ := ih others found
      refine ⟨hit, mem_cons_of_mem _ mem, value, ?_⟩
      intro other otherIn present
      rcases mem_cons.mp otherIn with same | later
      · exact absurd (same ▸ here) present
      · exact least other later present

def FsTree.follows (tree : FsTree) : Follows Nat where
  rel left right := Chained left right .ns tree.root
  lt := Chained.lt tree.numbered
  trans := Chained.trans tree.numbered

def FsTree.occupied (tree : FsTree) (tables : Nat → List FlowTable) : Set Nat :=
  { prio | prio ∈ tree.root.leaves ∧ tables prio ≠ [] }

section Order

variable {tree : FsTree} {tables : Nat → List FlowTable} {prio : Nat}

variable (member : prio ∈ tree.root.leaves)

include member

theorem FsTree.frames_spec : (∀ other, other ∈ succs (tree.frames prio) ↔ tree.follows.rel prio other) ∧
      (succs (tree.frames prio)).Pairwise (· < ·) ∧
      (∀ other, other ∈ preds (tree.frames prio) ↔ tree.follows.rel other prio) ∧
      (preds (tree.frames prio)).Pairwise (· > ·) := by
  obtain ⟨frames, found, next, nextOrder, prev, prevOrder⟩ :=
    @framesFrom_spec prio .ns tree.root tree.numbered .nil member
  have same : tree.frames prio = frames := by rw [FsTree.frames, found]; rfl
  rw [same]
  refine ⟨next, tree.numbered.sublist nextOrder, ?_, ?_⟩
  · intro other
    rw [prev other]
    simp [FsTree.follows, FsNodes.leaves]
  · exact pairwise_reverse.mp (tree.numbered.sublist prevOrder)

variable {list : List FlowTable}

omit member in
private theorem head?_ne_none : list.head? ≠ none ↔ list ≠ [] := by
  cases list <;> simp

omit member in
private theorem getLast?_ne_none : list.getLast? ≠ none ↔ list ≠ [] := by simp

theorem findNextChainedFt_some {ft} (found : findNextChainedFt tree tables prio = some ft) :
    ∃ next, tree.follows.IsNext (tree.occupied tables) prio next ∧ (tables next).head? = some ft := by
  obtain ⟨rel, ordered, _, _⟩ := tree.frames_spec member
  rw [findNextChainedFt, findClosestFt_forward] at found
  obtain ⟨next, listed, head, least⟩ := findSome?_ordered ordered found
  have related := (rel next).mp listed
  refine ⟨next, ⟨⟨Chained.mem_right related, ?_⟩, related, ?_⟩, head⟩
  · exact head?_ne_none.mp (by rw [head]; exact Option.some_ne_none _)
  · intro other occupied otherRelated
    rcases least other ((rel other).mpr otherRelated) (head?_ne_none.mpr occupied.2) with same | after
    · exact le_of_eq same.symm
    · exact le_of_lt after

theorem findNextChainedFt_none (missing : findNextChainedFt tree tables prio = none) (next) :
    ¬ tree.follows.IsNext (tree.occupied tables) prio next := by
  intro isNext
  obtain ⟨rel, _⟩ := tree.frames_spec member
  rw [findNextChainedFt, findClosestFt_forward, findSome?_eq_none_iff] at missing
  exact head?_ne_none.mpr isNext.member.2 (missing next ((rel next).mpr isNext.rel))

theorem findNextChainedFt_of_isNext {next} (isNext : tree.follows.IsNext (tree.occupied tables) prio next) :
    findNextChainedFt tree tables prio = (tables next).head? := by
  cases found : findNextChainedFt tree tables prio with
  | none => exact absurd isNext (findNextChainedFt_none member found next)
  | some ft =>
    obtain ⟨other, isOther, head⟩ := findNextChainedFt_some member found
    rw [isNext.unique isOther, head]

theorem findNextChainedFt_of_not_isNext
    (noNext : ∀ next, ¬ tree.follows.IsNext (tree.occupied tables) prio next) :
    findNextChainedFt tree tables prio = none := by
  cases found : findNextChainedFt tree tables prio with
  | none => rfl
  | some ft =>
    obtain ⟨next, isNext, _⟩ := findNextChainedFt_some member found
    exact absurd isNext (noNext next)

theorem findPrevChainedFt_some {ft} (found : findPrevChainedFt tree tables prio = some ft) :
    ∃ prev, tree.follows.IsPrev (tree.occupied tables) prio prev ∧ ft ∈ tables prev := by
  obtain ⟨_, _, rel, ordered⟩ := tree.frames_spec member
  rw [findPrevChainedFt, findClosestFt_reverse] at found
  obtain ⟨prev, listed, last, greatest⟩ := findSome?_ordered ordered found
  have related := (rel prev).mp listed
  refine ⟨prev, ⟨⟨Chained.mem_left related, ?_⟩, related, ?_⟩, mem_of_getLast? last⟩
  · exact ne_nil_of_mem (mem_of_getLast? last)
  · intro other occupied otherRelated
    rcases greatest other ((rel other).mpr otherRelated) (getLast?_ne_none.mpr occupied.2) with
      same | after
    · exact le_of_eq same
    · exact le_of_lt after

theorem findPrevChainedFt_none (missing : findPrevChainedFt tree tables prio = none) {other}
    (occupied : other ∈ tree.occupied tables) : ¬ tree.follows.rel other prio := by
  intro related
  obtain ⟨_, _, rel, _⟩ := tree.frames_spec member
  rw [findPrevChainedFt, findClosestFt_reverse, findSome?_eq_none_iff] at missing
  exact getLast?_ne_none.mpr occupied.2 (missing other ((rel other).mpr related))

omit member

end Order

section Change

variable {tree : FsTree} {tables changed : Nat → List FlowTable} {prio : Nat}

private theorem next_congr (mem : prio ∈ tree.root.leaves)
    (sameNext : ∀ next, tree.follows.IsNext (tree.occupied changed) prio next ↔
      tree.follows.IsNext (tree.occupied tables) prio next)
    (sameHead : ∀ next, tree.follows.IsNext (tree.occupied tables) prio next →
      (changed next).head? = (tables next).head?) :
    findNextChainedFt tree changed prio = findNextChainedFt tree tables prio := by
  by_cases exists_ : ∃ next, tree.follows.IsNext (tree.occupied tables) prio next
  · obtain ⟨next, isNext⟩ := exists_
    rw [findNextChainedFt_of_isNext mem isNext,
      findNextChainedFt_of_isNext mem ((sameNext next).mpr isNext), sameHead next isNext]
  · have noNext next : ¬ tree.follows.IsNext (tree.occupied tables) prio next :=
        fun isNext => exists_ ⟨next, isNext⟩
    rw [findNextChainedFt_of_not_isNext mem noNext, findNextChainedFt_of_not_isNext mem fun next isNext =>
        noNext next ((sameNext next).mp isNext)]

variable {point : Nat}

private theorem occupied_cases (mem : point ∈ tree.root.leaves)
    (agree : ∀ other, other ≠ point → changed other = tables other) :
    (changed point ≠ [] ∧ tree.occupied changed = insert point (tree.occupied tables)) ∨
      (changed point = [] ∧ tree.occupied changed = tree.occupied tables \ {point}) := by
  by_cases empty : changed point = []
  · refine .inr ⟨empty, Set.ext fun other => ?_⟩
    by_cases same : other = point
    · subst same
      simp [occupied, empty]
    · simp [occupied, agree other same, same]
  · refine .inl ⟨empty, Set.ext fun other => ?_⟩
    by_cases same : other = point
    · subst same
      simp [occupied, empty, mem]
    · simp [occupied, agree other same, same]

private theorem vacant_eq (occupied : Set Nat) (absent : point ∉ occupied) : occupied \ {point} = occupied := by
  ext other
  simp only [Set.mem_sdiff, Set.mem_singleton_iff, and_iff_left_iff_imp]
  exact fun here same => absent (same ▸ here)

/-- A property blind to whether `point` is occupied is the same before and after. -/
private theorem isNext_changed {left next} (mem : point ∈ tree.root.leaves)
    (agree : ∀ other, other ≠ point → changed other = tables other)
    (blind : tree.follows.IsNext (insert point (tree.occupied tables)) left next ↔
      tree.follows.IsNext (tree.occupied tables \ {point}) left next) :
    (tree.follows.IsNext (tree.occupied changed) left next ↔
        tree.follows.IsNext (tree.occupied tables \ {point}) left next) ∧
      (tree.follows.IsNext (tree.occupied tables) left next ↔
        tree.follows.IsNext (tree.occupied tables \ {point}) left next) := by
  constructor
  · rcases occupied_cases mem agree with ⟨_, same⟩ | ⟨_, same⟩
    · rw [same]
      exact blind
    · rw [same]
  · by_cases here : point ∈ tree.occupied tables
    · rw [Set.insert_eq_of_mem here] at blind
      exact blind
    · rw [vacant_eq _ here]

variable (patchable : tree.follows.Patchable (tree.occupied tables) point)

include patchable

variable (member : point ∈ tree.root.leaves)

include member

variable (agree : ∀ other, other ≠ point → changed other = tables other)

include agree

theorem next_unchanged (occupied : prio ∈ tree.occupied tables)
    (notPrev : ¬ tree.follows.IsPrev (tree.occupied tables) point prio) :
    findNextChainedFt tree changed prio = findNextChainedFt tree tables prio := by
  have hasPrev (related : tree.follows.rel prio point) : ∃ prev, tree.follows.IsPrev (tree.occupied tables)
      point prev := by
    cases found : findPrevChainedFt tree tables point with
    | none => exact absurd related (findPrevChainedFt_none member found occupied)
    | some ft =>
      obtain ⟨prev, isPrev, _⟩ := findPrevChainedFt_some member found
      exact ⟨prev, isPrev⟩
  have same := fun next =>
    isNext_changed member agree (patchable.next_insert_iff occupied notPrev hasPrev next)
  refine next_congr occupied.1 (fun next => (same next).1.trans (same next).2.symm) ?_
  intro next isNext
  rw [agree next ((same next).2.mp isNext).member.2]

omit patchable in
theorem next_self_unchanged : findNextChainedFt tree changed point = findNextChainedFt tree tables point := by
  have same := fun next =>
    isNext_changed member agree (Follows.next_self_iff tree.follows (tree.occupied tables) point next)
  refine next_congr member (fun next => (same next).1.trans (same next).2.symm) ?_
  intro next isNext
  rw [agree next ((same next).2.mp isNext).member.2]

theorem next_of_prev (isPrev : tree.follows.IsPrev (tree.occupied tables) point prio)
    (nonempty : changed point ≠ []) :
    findNextChainedFt tree changed prio = (changed point).head? := by
  have same := (occupied_cases member agree).resolve_right fun vacant => nonempty vacant.1
  apply findNextChainedFt_of_isNext isPrev.member.1
  rw [same.2]
  exact patchable.next_of_prev isPrev

theorem next_of_prev_vacated (isPrev : tree.follows.IsPrev (tree.occupied tables) point prio)
    (onward : ∀ other ∈ tree.occupied tables, point < other →
      tree.follows.rel prio other → tree.follows.rel point other)
    (empty : changed point = []) :
    findNextChainedFt tree changed prio = findNextChainedFt tree tables point := by
  rw [← next_self_unchanged member agree]
  have vacated := (occupied_cases member agree).resolve_left fun occupied => occupied.1 empty
  have bypass := fun next => patchable.next_bypass isPrev onward next
  rw [← vacated.2] at bypass
  by_cases exists_ : ∃ next, tree.follows.IsNext (tree.occupied changed) point next
  · obtain ⟨next, isNext⟩ := exists_
    rw [findNextChainedFt_of_isNext member isNext,
      findNextChainedFt_of_isNext isPrev.member.1 ((bypass next).mpr isNext)]
  · have noNext := fun next isNext => exists_ ⟨next, isNext⟩
    rw [findNextChainedFt_of_not_isNext member noNext,
      findNextChainedFt_of_not_isNext isPrev.member.1 fun next isNext =>
        noNext next ((bypass next).mp isNext)]

omit agree

omit member

omit patchable

theorem next_of_same_heads (same : ∀ other, (changed other).head? = (tables other).head?) :
    findNextChainedFt tree changed prio = findNextChainedFt tree tables prio := by
  rw [findNextChainedFt, findNextChainedFt, findClosestFt_forward, findClosestFt_forward]
  congr 1
  funext other
  exact same other

end Change

end MlnxOfed.FsCore
