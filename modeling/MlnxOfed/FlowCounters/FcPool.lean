/-
The pool of flow counters (fs_counters.c): bulks of counters with consecutive ids, on three lists by how
many of their counters are free.

A bulk is known by its address. Its creation may fail; else the device gives it ids no other bulk has.
Numbers of counters are not wrapped: all counters are records in host memory.
-/

import Mathlib.Algebra.Order.Ring.Int
import Mathlib.Data.List.Nodup
import Mathlib.Algebra.BigOperators.Group.List.Basic

namespace MlnxOfed.FlowCounters

open Option List

/-! ### State -/

def fcBulkSizeFactor : Nat := 128

def fcPoolMaxThreshold : Int := 2 ^ 18

def fcPoolUsedBuffRatio : Int := 10

def fcBulkNumFcs (allocBitmask : Nat) : Nat :=
  fcBulkSizeFactor * allocBitmask

/-- A counter of a bulk: `bulk` and `id` of `struct mlx5_fc`. -/
structure Fc where
  bulk : Nat
  id : Nat
  deriving DecidableEq

/-- `struct mlx5_fc_bulk`. A bit is set while its counter is free. -/
structure FcBulk where
  baseId : Nat
  bulkLen : Nat
  bitmask : List Bool
  sized : bitmask.length = bulkLen

inductive FcList where
  | fullyUsed
  | partiallyUsed
  | unused
  deriving DecidableEq

/-- `struct mlx5_fc_pool`, with the bulks that are in memory. -/
structure FcPool where
  bulk : Nat → Option FcBulk
  lists : FcList → List Nat
  availableFcs : Int
  usedFcs : Int
  threshold : Int

namespace FcBulk

def getFreeFcsAmount (bulk : FcBulk) : Nat :=
  bulk.bitmask.count true

/-- `mlx5_fc_bulk_create` where nothing fails. -/
def create (allocBitmask baseId : Nat) : FcBulk where
  baseId := baseId
  bulkLen := if 0 < allocBitmask then fcBulkNumFcs allocBitmask else 1
  bitmask := replicate (if 0 < allocBitmask then fcBulkNumFcs allocBitmask else 1) true
  sized := by simp

def setBit (bulk : FcBulk) (index : Nat) (bit : Bool) : FcBulk :=
  { bulk with
    bitmask := bulk.bitmask.set index bit
    sized := by rw [length_set, bulk.sized] }

/-- `mlx5_fc_bulk_acquire_fc`: the index of the counter. -/
def acquireFc (bulk : FcBulk) : Option (Nat × FcBulk) :=
  let freeFcIndex := bulk.bitmask.findIdx id
  if bulk.bulkLen ≤ freeFcIndex then none
  else some (freeFcIndex, bulk.setBit freeFcIndex false)

/-- `mlx5_fc_bulk_release_fc`; none stands for an error. -/
def releaseFc (bulk : FcBulk) (fc : Fc) : Option FcBulk :=
  let fcIndex := fc.id - bulk.baseId
  if bulk.bitmask[fcIndex]? = some true then none
  else some (bulk.setBit fcIndex true)

end FcBulk

namespace FcPool

def init : FcPool where
  bulk := fun _ => none
  lists := fun _ => []
  availableFcs := 0
  usedFcs := 0
  threshold := 0

def setBulk (pool : FcPool) (addr : Nat) (bulk : Option FcBulk) : FcPool :=
  { pool with bulk := fun other => if other = addr then bulk else pool.bulk other }

/-- `list_del`, from the list the bulk is on. -/
def listDel (pool : FcPool) (addr : Nat) : FcPool :=
  { pool with lists := fun list => (pool.lists list).erase addr }

def listAdd (pool : FcPool) (addr : Nat) (list : FcList) : FcPool :=
  { pool with lists := fun other => if other = list then addr :: pool.lists list
    else pool.lists other }

def listAddTail (pool : FcPool) (addr : Nat) (list : FcList) : FcPool :=
  { pool with lists := fun other => if other = list then pool.lists list ++ [addr]
    else pool.lists other }

def updateThreshold (pool : FcPool) : FcPool :=
  { pool with threshold := min fcPoolMaxThreshold (pool.usedFcs / fcPoolUsedBuffRatio) }

/-- `mlx5_fc_bulk_destroy`; a bulk with a counter in use is kept in memory. -/
def bulkDestroy (pool : FcPool) (addr : Nat) (bulk : FcBulk) : FcPool :=
  if bulk.getFreeFcsAmount < bulk.bulkLen then pool else pool.setBulk addr none

def freeBulk (pool : FcPool) (addr : Nat) (bulk : FcBulk) : FcPool :=
  (({ pool with availableFcs := pool.availableFcs - bulk.bulkLen }).bulkDestroy
    addr bulk).updateThreshold

def acquireFromList (pool : FcPool) (srcList nextList : FcList) (moveNonFullBulk : Bool) : FcPool × Option Fc :=
  match pool.lists srcList with
  | [] => (pool, none)
  | addr :: _ =>
    match pool.bulk addr with
    | none => (pool, none)
    | some bulk =>
      let (after, fc) := match bulk.acquireFc with
        | none => (bulk, none)
        | some (index, taken) => (taken, some (⟨addr, bulk.baseId + index⟩ : Fc))
      let pool := pool.setBulk addr (some after)
      if moveNonFullBulk || after.getFreeFcsAmount == 0 then
        ((pool.listDel addr).listAdd addr nextList, fc)
      else (pool, fc)

/-- The counters that `mlx5_fc_pool_acquire_counter` accounts for, once it has one. -/
def countAcquired (pool : FcPool) : FcPool :=
  { pool with availableFcs := pool.availableFcs - 1, usedFcs := pool.usedFcs + 1 }

/-- `mlx5_fc_pool_acquire_counter`; `created` is the address and first id of a new bulk, if any. -/
def acquireCounter (pool : FcPool) (allocBitmask : Nat) (created : Option (Nat × Nat)) : FcPool × Option Fc :=
  match pool.acquireFromList .partiallyUsed .fullyUsed false with
  | (pool, some fc) => (pool.countAcquired, some fc)
  | (pool, none) =>
    match pool.acquireFromList .unused .partiallyUsed true with
    | (pool, some fc) => (pool.countAcquired, some fc)
    | (pool, none) =>
      match created with
      | none => (pool.updateThreshold, none)
      | some (addr, baseId) =>
        let newBulk := FcBulk.create allocBitmask baseId
        let pool := ({ pool with
          availableFcs := pool.availableFcs + newBulk.bulkLen }).updateThreshold
        match newBulk.acquireFc with
        | none => (((pool.setBulk addr (some newBulk)).listAdd addr .partiallyUsed).countAcquired, none)
        | some (index, taken) =>
          (((pool.setBulk addr (some taken)).listAdd addr .partiallyUsed).countAcquired,
            some ⟨addr, baseId + index⟩)

/-- `mlx5_fc_pool_release_counter`; false where the counter was not acquired. -/
def releaseCounter (pool : FcPool) (bulk : FcBulk) (fc : Fc) : FcPool × Bool :=
  match bulk.releaseFc fc with
  | none => (pool, false)
  | some after =>
    let pool := { pool.setBulk fc.bulk (some after) with
      availableFcs := pool.availableFcs + 1
      usedFcs := pool.usedFcs - 1 }
    let bulkFreeFcsAmount := after.getFreeFcsAmount
    let pool := if bulkFreeFcsAmount = 1 then
      (pool.listDel fc.bulk).listAddTail fc.bulk .partiallyUsed else pool
    if bulkFreeFcsAmount = after.bulkLen then
      let pool := pool.listDel fc.bulk
      if pool.threshold < pool.availableFcs then (pool.freeBulk fc.bulk after, true)
      else (pool.listAdd fc.bulk .unused, true)
    else (pool, true)

end FcPool

structure FcRun where
  pool : FcPool
  held : List Fc

/-- A new bulk: its 32 bit ids are in no bulk not yet freed, and its record is new. -/
def FcPool.Creatable (pool : FcPool) (allocBitmask : Nat) (addr baseId : Nat) : Prop :=
  pool.bulk addr = none ∧ baseId + fcBulkNumFcs allocBitmask ≤ 2 ^ 32 ∧
    ∀ other bulk, pool.bulk other = some bulk →
      baseId + fcBulkNumFcs allocBitmask ≤ bulk.baseId ∨ bulk.baseId + bulk.bulkLen ≤ baseId

/-- The pool needs bulks of the device (`mlx5_fc_acquire`). A released counter belongs to a bulk in memory,
but need not have been acquired. -/
inductive FcStep (allocBitmask : Nat) : FcRun → FcRun → Prop where
  | acquire (run : FcRun) (created : Option (Nat × Nat)) (bulks : allocBitmask ≠ 0)
      (device : ∀ addr baseId, created = some (addr, baseId) → run.pool.Creatable allocBitmask addr baseId) :
      FcStep allocBitmask run
        { pool := (run.pool.acquireCounter allocBitmask created).1
          held := (run.pool.acquireCounter allocBitmask created).2.toList ++ run.held }
  | release (run : FcRun) (fc : Fc) (bulk : FcBulk) (inMemory : run.pool.bulk fc.bulk = some bulk)
      (low : bulk.baseId ≤ fc.id) (high : fc.id < bulk.baseId + bulk.bulkLen) :
      FcStep allocBitmask run
        { pool := (run.pool.releaseCounter bulk fc).1
          held := if (run.pool.releaseCounter bulk fc).2 then run.held.erase fc else run.held }

def FcReachable (allocBitmask : Nat) : FcRun → Prop :=
  Relation.ReflTransGen (FcStep allocBitmask) ⟨FcPool.init, []⟩

def FcList.Fits (list : FcList) (bulk : FcBulk) : Prop :=
  match list with
  | .fullyUsed => bulk.getFreeFcsAmount = 0
  | .partiallyUsed => 0 < bulk.getFreeFcsAmount ∧ bulk.getFreeFcsAmount < bulk.bulkLen
  | .unused => bulk.getFreeFcsAmount = bulk.bulkLen

namespace FcPool

def onLists (pool : FcPool) : List Nat :=
  pool.lists .fullyUsed ++ pool.lists .partiallyUsed ++ pool.lists .unused

def freeAt (pool : FcPool) (addr : Nat) : Nat :=
  match pool.bulk addr with
  | some bulk => bulk.getFreeFcsAmount
  | none => 0

def freeFcs (pool : FcPool) : Nat :=
  (pool.onLists.map pool.freeAt).sum

end FcPool

structure FcRun.Sound (allocBitmask : Nat) (run : FcRun) : Prop where
  nodup : run.pool.onLists.Nodup
  inMemory : ∀ addr, addr ∈ run.pool.onLists ↔ ∃ bulk, run.pool.bulk addr = some bulk
  place : ∀ list addr bulk, addr ∈ run.pool.lists list → run.pool.bulk addr = some bulk → list.Fits bulk
  size : ∀ addr bulk, run.pool.bulk addr = some bulk → allocBitmask ≠ 0 ∧
    bulk.bulkLen = fcBulkNumFcs allocBitmask
  apart : ∀ addr bulk other otherBulk, run.pool.bulk addr = some bulk →
    run.pool.bulk other = some otherBulk → addr ≠ other → bulk.baseId + bulk.bulkLen ≤ otherBulk.baseId ∨
        otherBulk.baseId + otherBulk.bulkLen ≤ bulk.baseId
  holds : ∀ fc, fc ∈ run.held ↔ ∃ bulk, run.pool.bulk fc.bulk = some bulk ∧
    bulk.baseId ≤ fc.id ∧ bulk.bitmask[fc.id - bulk.baseId]? = some false
  once : run.held.Nodup
  available : run.pool.availableFcs = run.pool.freeFcs
  used : run.pool.usedFcs = run.held.length

namespace FcPool

variable {pool : FcPool} {addr : Nat} {list : FcList}

theorem mem_onLists : addr ∈ pool.onLists ↔ ∃ list, addr ∈ pool.lists list := by
  constructor
  · intro mem
    rcases mem_append.mp mem with first | third
    · rcases mem_append.mp first with first | second
      · exact ⟨_, first⟩
      · exact ⟨_, second⟩
    · exact ⟨_, third⟩
  · rintro ⟨list, mem⟩
    cases list with
    | fullyUsed => simp [onLists, mem]
    | partiallyUsed => simp [onLists, mem]
    | unused => simp [onLists, mem]

theorem count_onLists (pool : FcPool) (addr : Nat) : pool.onLists.count addr =
    (pool.lists .fullyUsed).count addr + (pool.lists .partiallyUsed).count addr +
      (pool.lists .unused).count addr := by
  simp only [onLists, count_append]

theorem listDel_onLists (nodup : pool.onLists.Nodup) :
    (pool.listDel addr).onLists.Perm (pool.onLists.erase addr) := by
  rw [perm_iff_count]
  intro other
  have bound := nodup_iff_count_le_one.mp nodup other
  rw [count_onLists] at bound
  rw [count_erase, count_onLists, count_onLists]
  simp only [listDel, count_erase]
  split
  · omega
  · omega

theorem listAdd_onLists (pool : FcPool) (addr list) :
    (pool.listAdd addr list).onLists.Perm (addr :: pool.onLists) := by
  rw [perm_iff_count]
  intro other
  rw [count_cons, count_onLists, count_onLists]
  cases list with
  | fullyUsed => simp [listAdd, count_cons]; omega
  | partiallyUsed => simp [listAdd, count_cons]; omega
  | unused => simp [listAdd, count_cons]; omega

private theorem listAddTail_onLists (pool : FcPool) (addr list) :
    (pool.listAddTail addr list).onLists.Perm (addr :: pool.onLists) := by
  rw [perm_iff_count]
  intro other
  rw [count_cons, count_onLists, count_onLists]
  cases list with
  | fullyUsed | partiallyUsed | unused => simp [listAddTail, count_append, count_cons]; omega

private theorem list_unique {other} (nodup : pool.onLists.Nodup) (mem : addr ∈ pool.lists list)
    (otherMember : addr ∈ pool.lists other) : list = other := by
  have bound := nodup_iff_count_le_one.mp nodup addr
  rw [count_onLists] at bound
  have positive := count_pos_iff.mpr mem
  have otherPositive := count_pos_iff.mpr otherMember
  cases list <;> cases other <;> first | rfl | omega

theorem listDel_notMem (nodup : pool.onLists.Nodup) (list) : addr ∉ (pool.listDel addr).lists list := by
  intro mem
  have onLists := mem_onLists.mpr ⟨list, mem⟩
  rw [(listDel_onLists nodup).mem_iff] at onLists
  exact nodup.not_mem_erase onLists

theorem move_spec (pool : FcPool) (list : FcList) (nodup : pool.onLists.Nodup) (mem : addr ∈ pool.onLists) :
    ((pool.listDel addr).listAdd addr list).onLists.Perm pool.onLists ∧
      (∀ other, addr ∈ ((pool.listDel addr).listAdd addr list).lists other → other = list) ∧
      ∀ target other, other ≠ addr → other ∈ ((pool.listDel addr).listAdd addr list).lists target →
          other ∈ pool.lists target := by
  refine ⟨?_, ?_, ?_⟩
  · exact (listAdd_onLists _ _ _).trans (((listDel_onLists nodup).cons addr).trans (perm_cons_erase mem).symm)
  · intro other inside
    by_contra apart
    simp only [listAdd, if_neg apart] at inside
    exact listDel_notMem nodup other inside
  intro target other away inside
  by_cases same : target = list
  · subst same
    simp only [listAdd, if_true, mem_cons, away, false_or] at inside
    exact mem_of_mem_erase inside
  · simp only [listAdd, if_neg same] at inside
    exact mem_of_mem_erase inside

private theorem listDel_move (nodup : pool.onLists.Nodup) :
    (((pool.listDel addr).listAdd addr list).listDel addr).lists = (pool.listDel addr).lists := by
  funext other
  have gone : addr ∉ (pool.listDel addr).lists other := listDel_notMem nodup other
  by_cases same : other = list
  · subst same
    simp [listDel, listAdd]
  · simp only [listDel, listAdd, if_neg same] at gone ⊢
    exact erase_of_not_mem gone

private theorem moveTail_spec (pool : FcPool) (list : FcList) (nodup : pool.onLists.Nodup)
    (mem : addr ∈ pool.onLists) : ((pool.listDel addr).listAddTail addr list).onLists.Perm pool.onLists ∧
      (∀ other, addr ∈ ((pool.listDel addr).listAddTail addr list).lists other → other = list) ∧
      ∀ target other, other ≠ addr → other ∈ ((pool.listDel addr).listAddTail addr list).lists target →
          other ∈ pool.lists target := by
  refine ⟨?_, ?_, ?_⟩
  · exact (listAddTail_onLists _ _ _).trans (((listDel_onLists nodup).cons addr).trans
      (perm_cons_erase mem).symm)
  · intro other inside
    by_contra apart
    simp only [listAddTail, if_neg apart] at inside
    exact listDel_notMem nodup other inside
  intro target other away inside
  by_cases same : target = list
  · subst same
    simp only [listAddTail, if_true, mem_append, mem_singleton, away, or_false] at inside
    exact mem_of_mem_erase inside
  · simp only [listAddTail, if_neg same] at inside
    exact mem_of_mem_erase inside

end FcPool

theorem FcPool.freeBulk_of_free {pool : FcPool} {addr : Nat} {bulk : FcBulk}
    (free : bulk.getFreeFcsAmount = bulk.bulkLen) : pool.freeBulk addr bulk =
      (({ pool with availableFcs := pool.availableFcs - bulk.bulkLen }).setBulk addr
        none).updateThreshold := by
  simp [freeBulk, bulkDestroy, free]

namespace FcBulk

variable {bulk : FcBulk} {index : Nat}

theorem setBit_false (isFree : bulk.bitmask[index]? = some true) :
    (bulk.setBit index false).getFreeFcsAmount + 1 = bulk.getFreeFcsAmount := by
  obtain ⟨inside, atIndex⟩ := List.getElem?_eq_some_iff.mp isFree
  have pos : 0 < bulk.bitmask.count true := count_pos_iff.mpr (mem_of_getElem? isFree)
  simp only [getFreeFcsAmount, setBit, count_set inside, atIndex]
  simp
  omega

private theorem setBit_true (inUse : bulk.bitmask[index]? = some false) :
    (bulk.setBit index true).getFreeFcsAmount = bulk.getFreeFcsAmount + 1 := by
  obtain ⟨inside, atIndex⟩ := List.getElem?_eq_some_iff.mp inUse
  simp only [getFreeFcsAmount, setBit, count_set inside, atIndex]
  simp

private theorem getFreeFcsAmount_le (bulk : FcBulk) : bulk.getFreeFcsAmount ≤ bulk.bulkLen := by
  rw [getFreeFcsAmount, ← bulk.sized]
  exact count_le_length

theorem acquireFc_of_free (bulk : FcBulk) (free : 0 < bulk.getFreeFcsAmount) :
    ∃ index, bulk.bitmask[index]? = some true ∧ bulk.acquireFc = some (index, bulk.setBit index false) := by
  have inside : bulk.bitmask.findIdx id < bulk.bitmask.length :=
    findIdx_lt_length.mpr ⟨true, count_pos_iff.mp free, rfl⟩
  refine ⟨bulk.bitmask.findIdx id, ?_, ?_⟩
  · rw [getElem?_eq_getElem inside]
    have isFree : id bulk.bitmask[bulk.bitmask.findIdx id] = true := findIdx_getElem
    exact congrArg some isFree
  · rw [acquireFc, if_neg]
    rw [← bulk.sized]
    omega

private theorem create_bulkLen {allocBitmask} (bulks : allocBitmask ≠ 0) (baseId) :
    (create allocBitmask baseId).bulkLen = fcBulkNumFcs allocBitmask := by
  simp [create, Nat.pos_of_ne_zero bulks]

private theorem create_free (allocBitmask baseId) :
    (create allocBitmask baseId).getFreeFcsAmount = (create allocBitmask baseId).bulkLen := by
  simp [create, getFreeFcsAmount]

end FcBulk

theorem one_lt_fcBulkNumFcs {allocBitmask} (bulks : allocBitmask ≠ 0) : 1 < fcBulkNumFcs allocBitmask := by
  simp only [fcBulkNumFcs, fcBulkSizeFactor]
  omega

/-! ### Steps -/

namespace FcRun.Sound

variable {allocBitmask addr : Nat} {run next : FcRun} {before : FcBulk}

theorem freeAt_of_some {pool : FcPool} (isBulk : pool.bulk addr = some old) :
    pool.freeAt addr = old.getFreeFcsAmount := by
  rw [FcPool.freeAt, isBulk]

variable (sound : run.Sound allocBitmask)

include sound

variable (isBulk : run.pool.bulk addr = some before)

include isBulk

theorem freeFcs_erase : run.pool.freeFcs =
      before.getFreeFcsAmount + ((run.pool.onLists.erase addr).map run.pool.freeAt).sum := by
  have member := (sound.inMemory addr).mpr ⟨before, isBulk⟩
  rw [FcPool.freeFcs, ((perm_cons_erase member).map _).sum_eq, map_cons, sum_cons, freeAt_of_some isBulk]

theorem change (after) (bulks : next.pool.bulk = fun other => if other = addr then some after
      else run.pool.bulk other)
    (base : after.baseId = before.baseId) (len : after.bulkLen = before.bulkLen)
    (order : next.pool.onLists.Perm run.pool.onLists)
    (others : ∀ list other, other ≠ addr → other ∈ next.pool.lists list → other ∈ run.pool.lists list)
    (fits : ∀ list, addr ∈ next.pool.lists list → list.Fits after)
    (holds : ∀ fc, fc ∈ next.held ↔ if fc.bulk = addr then after.baseId ≤ fc.id ∧
      after.bitmask[fc.id - after.baseId]? = some false else fc ∈ run.held)
    (once : next.held.Nodup)
    (available : next.pool.availableFcs + before.getFreeFcsAmount =
      run.pool.availableFcs + after.getFreeFcsAmount)
    (used : next.pool.usedFcs = next.held.length) : next.Sound allocBitmask where
  nodup := order.nodup_iff.mpr sound.nodup
  inMemory other := by
    rw [order.mem_iff, sound.inMemory, bulks]
    by_cases same : other = addr
    · simp [same, isBulk]
    · simp [same]
  place list other bulk member isOther := by
    rw [bulks] at isOther
    by_cases same : other = addr
    · subst same
      simp only [if_true, some.injEq] at isOther
      exact isOther ▸ fits list member
    · simp only [if_neg same] at isOther
      exact sound.place list other bulk (others list other same member) isOther
  size other bulk isOther := by
    rw [bulks] at isOther
    by_cases same : other = addr
    · simp only [same, if_true, some.injEq] at isOther
      rw [← isOther, len]
      exact sound.size addr before isBulk
    · simp only [if_neg same] at isOther
      exact sound.size other bulk isOther
  apart := by
    -- the ids of a bulk do not change
    have ids other bulk (isOther : next.pool.bulk other = some bulk) : ∃ old, run.pool.bulk other = some old ∧
        old.baseId = bulk.baseId ∧ old.bulkLen = bulk.bulkLen := by
      rw [bulks] at isOther
      by_cases same : other = addr
      · simp only [same, if_true, some.injEq] at isOther
        exact ⟨before, by rw [same, isBulk], by rw [← isOther, base], by rw [← isOther, len]⟩
      · simp only [if_neg same] at isOther
        exact ⟨bulk, isOther, rfl, rfl⟩
    intro first firstBulk second secondBulk isFirst isSecond different
    obtain ⟨firstOld, firstWas, firstBase, firstLen⟩ := ids first firstBulk isFirst
    obtain ⟨secondOld, secondWas, secondBase, secondLen⟩ := ids second secondBulk isSecond
    rw [← firstBase, ← firstLen, ← secondBase, ← secondLen]
    exact sound.apart first firstOld second secondOld firstWas secondWas different
  holds fc := by
    rw [holds fc, bulks]
    by_cases same : fc.bulk = addr
    · simp [same]
    · simp only [if_neg same]
      exact sound.holds fc
  once := once
  available := by
    have total := sound.freeFcs_erase isBulk
    have newTotal : next.pool.freeFcs = after.getFreeFcsAmount +
        ((run.pool.onLists.erase addr).map run.pool.freeAt).sum := by
      have member := (sound.inMemory addr).mpr ⟨before, isBulk⟩
      have atAddr : next.pool.freeAt addr = after.getFreeFcsAmount := freeAt_of_some (by rw [bulks]; simp)
      rw [FcPool.freeFcs, ((order.trans (perm_cons_erase member)).map _).sum_eq, map_cons, sum_cons, atAddr]
      refine congrArg _ (congrArg sum (map_congr_left fun other inside => ?_))
      have away : other ≠ addr := (sound.nodup.mem_erase_iff.mp inside).1
      simp only [FcPool.freeAt, bulks, if_neg away]
    have old := sound.available
    omega
  used := used

theorem holds_acquired {index} (isFree : before.bitmask[index]? = some true) (fc) :
    fc ∈ (⟨addr, before.baseId + index⟩ : Fc) :: run.held ↔ if fc.bulk = addr then before.baseId ≤ fc.id ∧
        (before.setBit index false).bitmask[fc.id - before.baseId]? = some false
      else fc ∈ run.held := by
  obtain ⟨inside, _⟩ := List.getElem?_eq_some_iff.mp isFree
  split_ifs with same
  · rw [mem_cons, sound.holds fc, same, isBulk]
    simp only [some.injEq, exists_eq_left', FcBulk.setBit]
    have isFc : fc = ⟨addr, before.baseId + index⟩ ↔ fc.id = before.baseId + index := by
      constructor
      · exact congrArg Fc.id
      · intro sameId
        rw [← same, ← sameId]
    rw [isFc]
    constructor
    · rintro (sameId | ⟨low, bit⟩)
      · refine ⟨by omega, ?_⟩
        rw [sameId, Nat.add_sub_cancel_left, getElem?_set_self inside]
      · refine ⟨low, ?_⟩
        rw [getElem?_set_ne _, bit]
        intro atIndex
        rw [← atIndex, isFree] at bit
        simp at bit
    · rintro ⟨low, bit⟩
      by_cases sameId : fc.id = before.baseId + index
      · exact .inl sameId
      · rw [getElem?_set_ne (by omega)] at bit
        exact .inr ⟨low, bit⟩
  · rw [mem_cons]
    refine ⟨fun either => either.resolve_left ?_, .inr⟩
    exact fun isFc => same (congrArg Fc.bulk isFc)

theorem notHeld_of_free {index} (isFree : before.bitmask[index]? = some true) :
    (⟨addr, before.baseId + index⟩ : Fc) ∉ run.held := by
  rw [sound.holds]
  rintro ⟨bulk, isAlso, _, inUse⟩
  rw [isBulk, some.injEq] at isAlso
  rw [← isAlso, Nat.add_sub_cancel_left, isFree] at inUse
  simp at inUse

omit isBulk

private theorem acquireFromList (bulks : allocBitmask ≠ 0) {src target moveNonFullBulk rest}
    (list : run.pool.lists src = addr :: rest)
    (which : (src = .partiallyUsed ∧ target = .fullyUsed ∧ moveNonFullBulk = false) ∨
      (src = .unused ∧ target = .partiallyUsed ∧ moveNonFullBulk = true)) :
    ∃ pool fc, run.pool.acquireFromList src target moveNonFullBulk = (pool, some fc) ∧
      Sound allocBitmask ⟨pool.countAcquired, fc :: run.held⟩ := by
  have inList : addr ∈ run.pool.lists src := by simp [list]
  have onLists := FcPool.mem_onLists.mpr ⟨src, inList⟩
  obtain ⟨bulk, isBulk⟩ := (sound.inMemory addr).mp onLists
  have size := (sound.size addr bulk isBulk).2
  have many := one_lt_fcBulkNumFcs bulks
  have place := sound.place src addr bulk inList isBulk
  have free : 0 < bulk.getFreeFcsAmount := by
    rcases which with ⟨rfl, _, _⟩ | ⟨rfl, _, _⟩
    · exact place.1
    · have all : bulk.getFreeFcsAmount = bulk.bulkLen := place
      omega
  obtain ⟨index, isFree, acquired⟩ := FcBulk.acquireFc_of_free bulk free
  have fewer := FcBulk.setBit_false isFree
  have sameLen : (bulk.setBit index false).bulkLen = bulk.bulkLen := rfl
  have sound_of (pool : FcPool) (isNext : pool.bulk = (fun other => if other = addr then some
      (bulk.setBit index false) else run.pool.bulk other)) (order : pool.onLists.Perm run.pool.onLists)
      (others : ∀ list other, other ≠ addr → other ∈ pool.lists list → other ∈ run.pool.lists list)
      (fits : ∀ list, addr ∈ pool.lists list → list.Fits (bulk.setBit index false))
      (available : pool.availableFcs = run.pool.availableFcs) (used : pool.usedFcs = run.pool.usedFcs) : Sound
      allocBitmask ⟨pool.countAcquired, ⟨addr, bulk.baseId + index⟩ :: run.held⟩ := by
    refine sound.change isBulk (bulk.setBit index false) isNext rfl rfl order others fits ?_ ?_ ?_ ?_
    · exact sound.holds_acquired isBulk isFree
    · exact nodup_cons.mpr ⟨sound.notHeld_of_free isBulk isFree, sound.once⟩
    · simp only [FcPool.countAcquired]
      omega
    · have old := sound.used
      simp only [FcPool.countAcquired, length_cons]
      omega
  simp only [FcPool.acquireFromList, list, isBulk, acquired]
  split_ifs with moves
  · obtain ⟨order, isTarget, others⟩ := FcPool.move_spec
      (run.pool.setBulk addr (some (bulk.setBit index false))) target sound.nodup onLists
    refine ⟨_, _, rfl, sound_of _ rfl order others (fun other inside => ?_) rfl rfl⟩
    rw [isTarget other inside]
    rcases which with ⟨_, rfl, rfl⟩ | ⟨rfl, rfl, _⟩
    · have none : (bulk.setBit index false).getFreeFcsAmount = 0 := by simpa using moves
      exact none
    · have all : bulk.getFreeFcsAmount = bulk.bulkLen := place
      refine ⟨by omega, by omega⟩
  · refine ⟨_, _, rfl, sound_of _ rfl (.refl _) (fun _ _ _ inside => inside) (fun other inside => ?_) rfl rfl⟩
    rw [FcPool.list_unique sound.nodup inside inList]
    rcases which with ⟨rfl, _, rfl⟩ | ⟨_, _, rfl⟩
    · have some_ : (bulk.setBit index false).getFreeFcsAmount ≠ 0 := by simpa using moves
      exact ⟨by omega, by have := place.2; omega⟩
    · simp at moves

omit sound

private theorem acquireFromList_nil {pool : FcPool} {src : FcList} (list : pool.lists src = [])
    (target moveNonFullBulk) :
    pool.acquireFromList src target moveNonFullBulk = (pool, none) := by
  simp only [FcPool.acquireFromList, list]

variable (sound : run.Sound allocBitmask)

include sound

private theorem addBulk (some_ : allocBitmask ≠ 0) (isNew : FcBulk) {baseId}
    (device : run.pool.Creatable allocBitmask addr baseId) (base : isNew.baseId = baseId)
    (len : isNew.bulkLen = fcBulkNumFcs allocBitmask) (free : isNew.getFreeFcsAmount = isNew.bulkLen) :
    Sound allocBitmask ⟨(({ run.pool with
      availableFcs := run.pool.availableFcs + isNew.bulkLen }).setBulk addr (some isNew)).listAdd
        addr .unused, run.held⟩ := by
  obtain ⟨fresh, _, outside⟩ := device
  have bulks : ∀ other, ((({ run.pool with
      availableFcs := run.pool.availableFcs + isNew.bulkLen }).setBulk addr (some isNew)).listAdd
        addr .unused).bulk other = if other = addr then some isNew else run.pool.bulk other :=
    fun other => rfl
  have notOn : addr ∉ run.pool.onLists := fun inside => by
    obtain ⟨bulk, isBulk⟩ := (sound.inMemory addr).mp inside
    rw [fresh] at isBulk
    exact absurd isBulk (by simp)
  have order : ((({ run.pool with
      availableFcs := run.pool.availableFcs + isNew.bulkLen }).setBulk addr (some isNew)).listAdd
        addr .unused).onLists.Perm (addr :: run.pool.onLists) :=
    FcPool.listAdd_onLists _ _ _
  have outside_addr : ∀ bulk, run.pool.bulk addr ≠ some bulk := by simp [fresh]
  refine ⟨?_, ?_, ?_, ?_, ?_, ?_, sound.once, ?_, sound.used⟩
  · exact order.nodup_iff.mpr (nodup_cons.mpr ⟨notOn, sound.nodup⟩)
  · intro other
    rw [order.mem_iff, mem_cons, sound.inMemory, bulks]
    by_cases same : other = addr
    · simp [same]
    · simp [same]
  · intro list other bulk mem isOther
    rw [bulks] at isOther
    by_cases same : other = addr
    · subst same
      simp only [if_true, some.injEq] at isOther
      have isUnused : list = .unused := by
        by_contra apart
        simp only [FcPool.listAdd, if_neg apart] at mem
        exact notOn (FcPool.mem_onLists.mpr ⟨list, mem⟩)
      rw [isUnused, ← isOther]
      exact free
    · rw [if_neg same] at isOther
      refine sound.place list other bulk ?_ isOther
      by_cases isUnused : list = .unused
      · simp only [isUnused, FcPool.listAdd, if_true, mem_cons, same, false_or] at mem
        exact isUnused ▸ mem
      · simp only [FcPool.listAdd, if_neg isUnused] at mem
        exact mem
  · intro other bulk isOther
    rw [bulks] at isOther
    by_cases same : other = addr
    · simp only [same, if_true, some.injEq] at isOther
      exact ⟨some_, by rw [← isOther, len]⟩
    · rw [if_neg same] at isOther
      exact sound.size other bulk isOther
  · intro first firstBulk second secondBulk isFirst isSecond apart
    rw [bulks] at isFirst isSecond
    by_cases firstNew : first = addr
    · have secondOld : second ≠ addr := fun same => apart (firstNew.trans same.symm)
      rw [if_neg secondOld] at isSecond
      simp only [firstNew, if_true, some.injEq] at isFirst
      rw [← isFirst, base, len]
      exact outside second secondBulk isSecond
    rw [if_neg firstNew] at isFirst
    by_cases secondNew : second = addr
    · simp only [secondNew, if_true, some.injEq] at isSecond
      rw [← isSecond, base, len]
      exact (outside first firstBulk isFirst).symm
    · rw [if_neg secondNew] at isSecond
      exact sound.apart first firstBulk second secondBulk isFirst isSecond apart
  · intro fc
    rw [sound.holds fc, bulks]
    by_cases same : fc.bulk = addr
    · -- no counter of the new bulk is in use
      simp only [same, if_true, some.injEq, exists_eq_left', fresh]
      refine iff_of_false (by simp) ?_
      rintro ⟨_, inUse⟩
      have all : isNew.bitmask.count true = isNew.bitmask.length := free.trans isNew.sized.symm
      rw [count_eq_length] at all
      exact absurd (all false (mem_of_getElem? inUse)) (by simp)
    · rw [if_neg same]
  · have total : FcPool.freeFcs ((({ run.pool with
        availableFcs := run.pool.availableFcs + isNew.bulkLen }).setBulk addr (some isNew)).listAdd
          addr .unused) = isNew.bulkLen + run.pool.freeFcs := by
      have atAddr := bulks addr
      rw [if_pos rfl] at atAddr
      rw [FcPool.freeFcs, (order.map _).sum_eq, map_cons, sum_cons, freeAt_of_some atAddr, free, FcPool.freeFcs]
      refine congrArg _ (congrArg sum (map_congr_left fun other inside => ?_))
      have away : other ≠ addr := fun same => notOn (same ▸ inside)
      simp only [FcPool.freeAt, bulks, if_neg away]
    have old := sound.available
    rw [total]
    simp only [FcPool.listAdd, FcPool.setBulk]
    omega

private theorem acquireNew (bulks : allocBitmask ≠ 0) {baseId}
    (device : run.pool.Creatable allocBitmask addr baseId) :
    ∃ index, (FcBulk.create allocBitmask baseId).acquireFc =
        some (index, (FcBulk.create allocBitmask baseId).setBit index false) ∧
      Sound allocBitmask ⟨(((({ run.pool with availableFcs := run.pool.availableFcs +
        (FcBulk.create allocBitmask baseId).bulkLen }).updateThreshold).setBulk addr
          (some ((FcBulk.create allocBitmask baseId).setBit index false))).listAdd addr
            .partiallyUsed).countAcquired, ⟨addr, baseId + index⟩ :: run.held⟩ := by
  have len := FcBulk.create_bulkLen bulks baseId
  have many := one_lt_fcBulkNumFcs bulks
  have allFree := FcBulk.create_free allocBitmask baseId
  have added := sound.addBulk bulks (FcBulk.create allocBitmask baseId) device rfl len allFree
  have fresh : run.pool.bulk addr = none := device.1
  have notOn : addr ∉ run.pool.onLists := fun inside => by
    obtain ⟨bulk, isBulk⟩ := (sound.inMemory addr).mp inside
    rw [fresh] at isBulk
    exact absurd isBulk (by simp)
  obtain ⟨index, isFree, acquired⟩ := FcBulk.acquireFc_of_free (FcBulk.create allocBitmask baseId) (by omega)
  have fewer := FcBulk.setBit_false isFree
  have isNew : ((({ run.pool with availableFcs := run.pool.availableFcs +
      (FcBulk.create allocBitmask baseId).bulkLen }).setBulk addr
        (some (FcBulk.create allocBitmask baseId))).listAdd addr .unused).bulk addr =
          some (FcBulk.create allocBitmask baseId) := by
    simp [FcPool.listAdd, FcPool.setBulk]
  have sameLen : ((FcBulk.create allocBitmask baseId).setBit index false).bulkLen =
    (FcBulk.create allocBitmask baseId).bulkLen := rfl
  refine ⟨index, acquired, added.change isNew
    ((FcBulk.create allocBitmask baseId).setBit index false) ?_ rfl sameLen ?_ ?_ ?_ ?_ ?_ ?_ ?_⟩
  · funext other
    by_cases same : other = addr
    · simp [FcPool.countAcquired, FcPool.listAdd, FcPool.setBulk, same]
    · simp [FcPool.countAcquired, FcPool.listAdd, FcPool.setBulk, FcPool.updateThreshold, same]
  · exact (FcPool.listAdd_onLists run.pool addr .partiallyUsed).trans
      (FcPool.listAdd_onLists run.pool addr .unused).symm
  · intro list other away inside
    have old : other ∈ run.pool.lists list := by
      by_cases isPartially : list = .partiallyUsed
      · subst isPartially
        simpa [FcPool.countAcquired, FcPool.listAdd, FcPool.setBulk, FcPool.updateThreshold, away] using inside
      · simpa [FcPool.countAcquired, FcPool.listAdd, FcPool.setBulk, FcPool.updateThreshold,
          isPartially] using inside
    by_cases isUnused : list = .unused
    · subst isUnused
      simp [FcPool.listAdd, FcPool.setBulk, old]
    · simpa [FcPool.listAdd, FcPool.setBulk, isUnused] using old
  · intro list inside
    by_cases isPartially : list = .partiallyUsed
    · subst isPartially
      exact ⟨by omega, by omega⟩
    · have old : addr ∈ run.pool.lists list := by
        simpa [FcPool.countAcquired, FcPool.listAdd, FcPool.setBulk, FcPool.updateThreshold,
          isPartially] using inside
      exact absurd (FcPool.mem_onLists.mpr ⟨list, old⟩) notOn
  · exact added.holds_acquired isNew isFree
  · exact nodup_cons.mpr ⟨added.notHeld_of_free isNew isFree, sound.once⟩
  · simp only [FcPool.countAcquired, FcPool.listAdd, FcPool.setBulk, FcPool.updateThreshold]
    omega
  · have old := sound.used
    simp only [FcPool.countAcquired, FcPool.listAdd, FcPool.setBulk, FcPool.updateThreshold, length_cons]
    omega

private theorem acquireCounter (bulks : allocBitmask ≠ 0) {created}
    (device : ∀ addr baseId, created = some (addr, baseId) → run.pool.Creatable allocBitmask addr baseId) :
    Sound allocBitmask ⟨(run.pool.acquireCounter allocBitmask created).1,
      (run.pool.acquireCounter allocBitmask created).2.toList ++ run.held⟩ := by
  cases partially : run.pool.lists .partiallyUsed with
  | cons addr rest =>
    obtain ⟨pool, fc, acquired, next⟩ := sound.acquireFromList bulks partially (.inl ⟨rfl, rfl, rfl⟩)
    simp only [FcPool.acquireCounter, acquired]
    exact next
  | nil =>
    have none := acquireFromList_nil partially .fullyUsed false
    cases free : run.pool.lists .unused with
    | cons addr rest =>
      obtain ⟨pool, fc, acquired, next⟩ := sound.acquireFromList bulks free (.inr ⟨rfl, rfl, rfl⟩)
      simp only [FcPool.acquireCounter, none, acquired]
      exact next
    | nil =>
      have noneFree := acquireFromList_nil free .partiallyUsed true
      simp only [FcPool.acquireCounter, none, noneFree]
      cases created with
      | none =>
        exact { sound with }
      | some made =>
        obtain ⟨index, acquired, next⟩ := sound.acquireNew bulks (device made.1 made.2 rfl)
        simp only [acquired]
        exact next

private theorem holds_released {fc} (isBulk : run.pool.bulk fc.bulk = some old) (low : old.baseId ≤ fc.id)
    (inUse : old.bitmask[fc.id - old.baseId]? = some false) (other) :
    other ∈ run.held.erase fc ↔ if other.bulk = fc.bulk then old.baseId ≤ other.id ∧
        (old.setBit (fc.id - old.baseId) true).bitmask[other.id - old.baseId]? = some false
      else other ∈ run.held := by
  obtain ⟨inside, _⟩ := List.getElem?_eq_some_iff.mp inUse
  rw [sound.once.mem_erase_iff]
  split_ifs with same
  · rw [sound.holds other, same, isBulk]
    simp only [some.injEq, exists_eq_left', FcBulk.setBit]
    constructor
    · rintro ⟨apart, otherLow, bit⟩
      refine ⟨otherLow, ?_⟩
      rw [getElem?_set_ne, bit]
      intro sameIndex
      apply apart
      rw [show other = ⟨other.bulk, other.id⟩ from rfl, same, show other.id = fc.id by omega]
    rintro ⟨otherLow, bit⟩
    by_cases sameIndex : fc.id - old.baseId = other.id - old.baseId
    · rw [← sameIndex, getElem?_set_self inside] at bit
      simp at bit
    · rw [getElem?_set_ne sameIndex] at bit
      refine ⟨?_, otherLow, bit⟩
      rintro rfl
      exact sameIndex rfl
  · refine ⟨And.right, fun mem => ⟨?_, mem⟩⟩
    rintro rfl
    exact same rfl

theorem removeBulk (isBulk : run.pool.bulk addr = some before) (free : before.getFreeFcsAmount = before.bulkLen)
    (bulks : next.pool.bulk = fun other => if other = addr then none else run.pool.bulk other)
    (lists : next.pool.lists = (run.pool.listDel addr).lists) (held : next.held = run.held)
    (available : next.pool.availableFcs + before.bulkLen = run.pool.availableFcs)
    (used : next.pool.usedFcs = run.pool.usedFcs) : next.Sound allocBitmask := by
  have order : next.pool.onLists.Perm (run.pool.onLists.erase addr) := by
    rw [FcPool.onLists, lists]
    exact FcPool.listDel_onLists sound.nodup
  have old other bulk (isOther : next.pool.bulk other = some bulk) : other ≠ addr ∧ run.pool.bulk other = some
      bulk := by
    rw [bulks] at isOther
    by_cases same : other = addr
    · simp [same] at isOther
    · exact ⟨same, by simpa [same] using isOther⟩
  refine ⟨?_, ?_, ?_, ?_, ?_, ?_, held ▸ sound.once, ?_, ?_⟩
  · exact order.nodup_iff.mpr (sound.nodup.erase addr)
  · intro other
    rw [order.mem_iff, sound.nodup.mem_erase_iff, sound.inMemory, bulks]
    by_cases same : other = addr
    · simp [same]
    · simp [same]
  · intro list other bulk mem isOther
    rw [lists] at mem
    exact sound.place list other bulk (mem_of_mem_erase mem) (old other bulk isOther).2
  · exact fun other bulk isOther => sound.size other bulk (old other bulk isOther).2
  · intro first firstBulk second secondBulk isFirst isSecond apart
    exact sound.apart first firstBulk second secondBulk (old _ _ isFirst).2 (old _ _ isSecond).2 apart
  · intro fc
    rw [held, sound.holds fc, bulks]
    by_cases same : fc.bulk = addr
    · simp only [same, if_true, isBulk, some.injEq, exists_eq_left']
      refine iff_of_false ?_ (by simp)
      rintro ⟨_, inUse⟩
      have all : before.bitmask.count true = before.bitmask.length := free.trans before.sized.symm
      rw [count_eq_length] at all
      exact absurd (all false (mem_of_getElem? inUse)) (by simp)
    · simp [same]
  · have total := sound.freeFcs_erase isBulk
    have newTotal : next.pool.freeFcs = ((run.pool.onLists.erase addr).map run.pool.freeAt).sum := by
      rw [FcPool.freeFcs, (order.map _).sum_eq]
      refine congrArg sum (map_congr_left fun other inside => ?_)
      have away : other ≠ addr := (sound.nodup.mem_erase_iff.mp inside).1
      simp only [FcPool.freeAt, bulks, if_neg away]
    have wasAvailable := sound.available
    omega
  · rw [used, held]
    exact sound.used

private theorem releaseCounter (bulks : allocBitmask ≠ 0) {fc} (isBulk : run.pool.bulk fc.bulk = some old)
    (low : old.baseId ≤ fc.id) (high : fc.id < old.baseId + old.bulkLen) :
    Sound allocBitmask ⟨(run.pool.releaseCounter old fc).1,
      if (run.pool.releaseCounter old fc).2 then run.held.erase fc else run.held⟩ := by
  by_cases notAcquired : old.bitmask[fc.id - old.baseId]? = some true
  · simp only [FcPool.releaseCounter, FcBulk.releaseFc, if_pos notAcquired]
    exact sound
  have inUse : old.bitmask[fc.id - old.baseId]? = some false := by
    have inside : fc.id - old.baseId < old.bitmask.length := by
      rw [old.sized]
      omega
    rw [getElem?_eq_getElem inside] at notAcquired ⊢
    simpa using notAcquired
  have held : fc ∈ run.held := (sound.holds fc).mpr ⟨old, isBulk, low, inUse⟩
  have onLists := (sound.inMemory fc.bulk).mpr ⟨old, isBulk⟩
  have size := (sound.size fc.bulk old isBulk).2
  have many := one_lt_fcBulkNumFcs bulks
  have more := FcBulk.setBit_true inUse
  generalize isAfter : old.setBit (fc.id - old.baseId) true = after at more
  have base : after.baseId = old.baseId := by rw [← isAfter]; rfl
  have len : after.bulkLen = old.bulkLen := by rw [← isAfter]; rfl
  have bound := after.getFreeFcsAmount_le
  have sound_of (pool : FcPool) (isNext : pool.bulk = (fun other => if other = fc.bulk then some after else
      run.pool.bulk other)) (order : pool.onLists.Perm run.pool.onLists) (others : ∀ list other, other ≠
      fc.bulk → other ∈ pool.lists list → other ∈ run.pool.lists list) (fits : ∀ list, fc.bulk ∈ pool.lists
      list → list.Fits after) (available : pool.availableFcs = run.pool.availableFcs + 1)
      (used : pool.usedFcs = run.pool.usedFcs - 1) : Sound allocBitmask ⟨pool, run.held.erase fc⟩ := by
    refine sound.change isBulk after isNext base len order others fits ?_ (sound.once.erase fc) ?_ ?_
    · rw [← isAfter]
      exact sound.holds_released isBulk low inUse
    · simp only [available]
      omega
    · have count := sound.used
      have one := length_erase_add_one held
      simp only [used]
      omega
  simp only [FcPool.releaseCounter, FcBulk.releaseFc, if_neg notAcquired, isAfter]
  by_cases first : after.getFreeFcsAmount = 1
  · have notAll : after.getFreeFcsAmount ≠ after.bulkLen := by omega
    rw [if_pos first, if_neg notAll]
    obtain ⟨order, isTarget, others⟩ := FcPool.moveTail_spec
      { run.pool.setBulk fc.bulk (some after) with
        availableFcs := run.pool.availableFcs + 1
        usedFcs := run.pool.usedFcs - 1 } .partiallyUsed sound.nodup onLists
    refine sound_of _ rfl order others (fun list inside => ?_) rfl rfl
    rw [isTarget list inside]
    exact ⟨by omega, by omega⟩
  rw [if_neg first]
  by_cases all : after.getFreeFcsAmount = after.bulkLen
  · rw [if_pos all]
    obtain ⟨order, isTarget, others⟩ := FcPool.move_spec
      { run.pool.setBulk fc.bulk (some after) with
        availableFcs := run.pool.availableFcs + 1
        usedFcs := run.pool.usedFcs - 1 } .unused sound.nodup onLists
    have kept := sound_of _ rfl order others
      (fun list inside => by rw [isTarget list inside]; exact all) rfl rfl
    split
    · have atAddr : ((({ run.pool.setBulk fc.bulk (some after) with
          availableFcs := run.pool.availableFcs + 1
          usedFcs := run.pool.usedFcs - 1 } : FcPool).listDel fc.bulk).listAdd fc.bulk
            .unused).bulk fc.bulk = some after := if_pos rfl
      rw [FcPool.freeBulk_of_free all]
      refine kept.removeBulk atAddr all ?_ ?_ rfl ?_ rfl
      · funext other
        by_cases same : other = fc.bulk
        · simp [FcPool.updateThreshold, FcPool.setBulk, same]
        · simp [FcPool.updateThreshold, FcPool.setBulk, FcPool.listDel, FcPool.listAdd, same]
      · exact (FcPool.listDel_move sound.nodup).symm
      · simp only [FcPool.updateThreshold, FcPool.setBulk, FcPool.listDel, FcPool.listAdd]
        omega
    · exact kept
  · rw [if_neg all]
    refine sound_of _ rfl (.refl _) (fun _ _ _ inside => inside) (fun list inside => ?_)
      rfl rfl
    have place := sound.place list fc.bulk old inside isBulk
    cases list with
    | fullyUsed =>
      have none : old.getFreeFcsAmount = 0 := place
      omega
    | partiallyUsed => exact ⟨by omega, by omega⟩
    | unused =>
      have full : old.getFreeFcsAmount = old.bulkLen := place
      omega

omit sound

end FcRun.Sound

theorem FcRun.Sound.step {allocBitmask run next} (sound : run.Sound allocBitmask)
    (step : FcStep allocBitmask run next) : next.Sound allocBitmask := by
  cases step with
  | acquire made bulks device => exact sound.acquireCounter bulks device
  | release fc bulk inMemory low high =>
    exact sound.releaseCounter (sound.size fc.bulk bulk inMemory).1 inMemory low high

theorem FcReachable.sound {allocBitmask run}
    (reachable : FcReachable allocBitmask run) : run.Sound allocBitmask := by
  induction reachable with
  | refl =>
    refine ⟨?_, ?_, ?_, ?_, ?_, ?_, ?_, ?_, ?_⟩
    · simp [FcPool.onLists, FcPool.init]
    · simp [FcPool.onLists, FcPool.init]
    · simp [FcPool.init]
    · simp [FcPool.init]
    · simp [FcPool.init]
    · simp [FcPool.init]
    · simp
    · simp [FcPool.freeFcs, FcPool.onLists, FcPool.init]
    · simp [FcPool.init]
  | tail _ step sound => exact sound.step step

/-- What users and device see of a pool: a counter is held exactly while its bit is clear. -/
structure FcRun.Exact (run : FcRun) : Prop where
  ids : (run.held.map Fc.id).Nodup
  inUse : ∀ fc, fc ∈ run.held ↔ ∃ bulk, run.pool.bulk fc.bulk = some bulk ∧
    bulk.baseId ≤ fc.id ∧ bulk.bitmask[fc.id - bulk.baseId]? = some false
  available : run.pool.availableFcs = run.pool.freeFcs
  used : run.pool.usedFcs = run.held.length
  listed : ∀ addr, addr ∈ run.pool.onLists ↔ ∃ bulk, run.pool.bulk addr = some bulk
  oneList : ∀ addr bulk, run.pool.bulk addr = some bulk → run.pool.onLists.count addr = 1 ∧
    ∀ list, addr ∈ run.pool.lists list ↔ list.Fits bulk

theorem FcList.fits_unique {first second : FcList} {bulk : FcBulk} (many : 1 < bulk.bulkLen)
    (left : first.Fits bulk) (right : second.Fits bulk) : first = second := by
  cases first <;> cases second <;> simp only [FcList.Fits] at left right <;>
    first | rfl | omega

theorem FcRun.Sound.exact {allocBitmask : Nat} {run : FcRun} (sound : run.Sound allocBitmask) : run.Exact where
  ids := by
    refine sound.once.map_on fun first firstHeld second secondHeld sameId => ?_
    obtain ⟨bulk, isBulk, low, inUse⟩ := (sound.holds first).mp firstHeld
    obtain ⟨other, isOther, otherLow, otherInUse⟩ := (sound.holds second).mp secondHeld
    obtain ⟨inside, _⟩ := List.getElem?_eq_some_iff.mp inUse
    obtain ⟨otherInside, _⟩ := List.getElem?_eq_some_iff.mp otherInUse
    rw [bulk.sized] at inside
    rw [other.sized] at otherInside
    have sameBulk : first.bulk = second.bulk := by
      by_contra different
      have apart := sound.apart _ _ _ _ isBulk isOther different
      omega
    rw [show first = ⟨first.bulk, first.id⟩ from rfl, sameBulk, sameId]
  inUse := sound.holds
  available := sound.available
  used := sound.used
  listed := sound.inMemory
  oneList addr bulk isBulk := by
    have member := (sound.inMemory addr).mpr ⟨bulk, isBulk⟩
    refine ⟨count_eq_one_of_mem sound.nodup member, fun list => ?_⟩
    obtain ⟨home, inHome⟩ := FcPool.mem_onLists.mp member
    have fits := sound.place home addr bulk inHome isBulk
    constructor
    · exact fun inside => sound.place list addr bulk inside isBulk
    intro alsoFits
    obtain ⟨bulks, size⟩ := sound.size addr bulk isBulk
    have many : 1 < bulk.bulkLen := by
      rw [size]
      exact one_lt_fcBulkNumFcs bulks
    rwa [FcList.fits_unique many alsoFits fits]

/-- No counter is held twice, numbers and lists agree with the bits, and a bulk that goes had no counter in
use. -/
theorem fc_pool_reachable_exact (allocBitmask : Nat) (run : FcRun) (reachable : FcReachable allocBitmask run) :
    run.Exact ∧ ∀ next, FcStep allocBitmask run next → ∀ addr bulk,
      run.pool.bulk addr = some bulk → next.pool.bulk addr = none →
        ∀ fc ∈ next.held, fc.bulk ≠ addr := by
  refine ⟨reachable.sound.exact, ?_⟩
  intro next step addr bulk _ gone fc held same
  obtain ⟨other, isOther, _⟩ := ((reachable.sound.step step).holds fc).mp held
  rw [same, gone] at isOther
  exact absurd isOther (by simp)

def FcRun.acquired (run : FcRun) (created : Option (Nat × Nat)) : FcRun where
  pool := (run.pool.acquireCounter 1 created).1
  held := (run.pool.acquireCounter 1 created).2.toList ++ run.held

/-- Counters of a bulk of 128 at address 10. -/
def takenOf (count : Nat) : FcRun :=
  (FcRun.acquired · none)^[count] (.acquired ⟨FcPool.init, []⟩ (some (10, 0)))

theorem takenOf_reachable (count) : FcReachable 1 (takenOf count) := by
  induction count with
  | zero =>
    refine .single (.acquire _ (some (10, 0)) (by decide) fun addr baseId same => ?_)
    cases same
    exact ⟨rfl, by decide, fun _ _ never => by cases never⟩
  | succ count ih =>
    rw [takenOf, Function.iterate_succ_apply']
    exact ih.tail (.acquire _ none (by decide) fun _ _ never => by cases never)

private theorem takenOf_inMemory : ((takenOf 127).pool.bulk (Fc.bulk ⟨10, 0⟩)).isSome = true := by decide +kernel

/-- A bulk is fully used, and partially again when its first counter comes back. -/
theorem fc_pool_full_bulk : ∃ full after, FcReachable 1 full ∧ FcStep 1 full after ∧
    full.pool.lists .fullyUsed = [10] ∧ full.held.length = 128 ∧ after.pool.lists .fullyUsed = [] ∧
    after.pool.lists .partiallyUsed = [10] ∧ after.pool.availableFcs = 1 ∧ after.held.length = 127 ∧
    after.Exact := by
  have reached := takenOf_reachable 127
  have back : FcStep 1 (takenOf 127) _ := .release _ ⟨10, 0⟩ (((takenOf 127).pool.bulk _).get takenOf_inMemory)
    (Option.some_get takenOf_inMemory).symm (by decide +kernel) (by decide +kernel)
  have full : (takenOf 127).pool.lists .fullyUsed = [10] ∧ (takenOf 127).held.length = 128 := by decide +kernel
  refine ⟨_, _, reached, back, full.1, full.2, ?_, ?_, ?_, ?_, (fc_pool_reachable_exact 1 _ (reached.tail back)).1⟩
  · decide +kernel
  · decide +kernel
  · decide +kernel
  · decide +kernel

end MlnxOfed.FlowCounters
