/-
Completeness of the buddy allocator and of the loop that grows the ICM pool.

A run of units outside the outstanding blocks lies in one free block of at least its order: two free halves
would have been merged. The search over the orders therefore never misses it.
-/

import MlnxOfed.Steering.IcmPoolSafety

namespace MlnxOfed.Lib

/-- An aligned run that no outstanding block touches is part of a single free block. -/
theorem Layout.free_above {size free outstanding}
    (layout : Layout size free outstanding) (coalesced : Coalesced size free)
    (order index) (inside : index * 2 ^ order + 2 ^ order ≤ 2 ^ size)
    (unheld : ∀ unit, (⟨order, index⟩ : Block).Covers unit → ∀ held ∈ outstanding, ¬ held.Covers unit) :
    ∃ above, (⟨order + above, index / 2 ^ above⟩ : Block) ∈ free := by
  induction order generalizing index with
  | zero =>
    obtain ⟨⟨order, start⟩, owner, covered⟩ := layout.tiles.total index (by omega)
    have same : index / 2 ^ order = start := covered
    rcases owner with isFree | held
    · refine ⟨order, ?_⟩
      rwa [same, Nat.zero_add]
    · exact absurd covered (unheld index (by simp [Block.Covers]) _ held)
  | succ order ih =>
    have halves := (⟨order + 1, index⟩ : Block).covers_halves
    have both : (2 * index + 1) * 2 ^ order + 2 ^ order ≤ 2 ^ size := by
      calc _ = index * 2 ^ (order + 1) + 2 ^ (order + 1) := by ring
        _ ≤ 2 ^ size := inside
    have pos := Nat.two_pow_pos order
    have upper : (2 * index + 1) * 2 ^ order = 2 * index * 2 ^ order + 2 ^ order := by ring
    have above : ∀ half, half / 2 = index → ∀ more, (⟨order + (more + 1), half / 2 ^ (more + 1)⟩ : Block) ∈ free →
        ∃ above, (⟨order + 1 + above, index / 2 ^ above⟩ : Block) ∈ free := by
      rintro half rfl more isFree
      refine ⟨more, ?_⟩
      rwa [Nat.div_div_eq_div_mul, ← Nat.pow_succ', Nat.add_assoc, Nat.add_comm 1]
    obtain ⟨moreLeft, left⟩ := ih (2 * index) (by omega)
      (fun unit covered => unheld unit ((halves unit (Nat.succ_pos _)).mpr (.inl covered)))
    obtain ⟨moreRight, right⟩ := ih (2 * index + 1) (by omega)
      (fun unit covered => unheld unit ((halves unit (Nat.succ_pos _)).mpr (.inr covered)))
    cases moreLeft with
    | succ more => exact above _ (by omega) more left
    | zero =>
      cases moreRight with
      | succ more => exact above _ (by omega) more right
      | zero =>
        have small : order < size := by
          have bigger : 2 ^ order < 2 ^ size := by omega
          exact (Nat.pow_lt_pow_iff_right (by omega)).mp bigger
        rw [pow_zero, Nat.div_one] at left right
        have partner : (⟨order, 2 * index⟩ : Block).buddy = ⟨order, 2 * index + 1⟩ :=
          (⟨order + 1, index⟩ : Block).low_buddy
        exact absurd (partner ▸ right) (coalesced _ left small)

end MlnxOfed.Lib

namespace MlnxOfed.Steering

open Lib

/-- An aligned run of `2 ^ order` units of the segment that nobody holds. -/
structure BuddyState.FreeRun (maxOrder : Nat) (state : BuddyState) (order seg : Nat) : Prop where
  aligned : 2 ^ order ∣ seg
  inside : seg + 2 ^ order ≤ 2 ^ maxOrder
  unheld : ∀ held ∈ state.outstanding, Disjoint (units seg order) (units held.1 held.2)

/-- The `while` loop of `dr_icm_handle_buddies_get_mem`, at most `turns` of them; `env` holds the creations'
outcomes. The outer `none` is a loop still running, the inner an error. -/
def drIcmGetMemLoop (chunkSize : Nat) (env : Nat → AllocEnv) :
    Nat → Bool → IcmPool → Option (IcmPool × Option (BuddyCursor × Nat))
  | 0, _, _ => none
  | turns + 1, newMem, pool =>
    match drIcmSearchBuddies chunkSize newMem pool.buddyMemList with
    | some found => some (pool, some found)
    | none =>
      if newMem ∧ pool.buddyMemList ≠ [] then some (pool, none)
      else
        match drIcmBuddyCreate pool (env turns) with
        | none => some (pool, none)
        | some grown => drIcmGetMemLoop chunkSize env turns true grown

theorem drIcmBuddyCreate_front {pool grown env}
    (made : drIcmBuddyCreate pool env = some grown) : ∃ fresh, fresh.buddy = drBuddyInit pool.maxLogChunkSz ∧
      grown = { pool with buddyMemList := fresh :: pool.buddyMemList } := by
  unfold drIcmBuddyCreate at made
  split at made
  · cases made
  · split at made
    · cases made
    · split_ifs at made
      cases made
      exact ⟨_, rfl, rfl⟩

/-- Two turns are enough: the second one has the new buddy in front. -/
private theorem drIcmGetMemLoop_eq (chunkSize env turns pool) : drIcmGetMemLoop chunkSize env (turns + 2) false pool =
      some (drIcmHandleBuddiesGetMem pool chunkSize (env (turns + 1))) := by
  rw [drIcmGetMemLoop, drIcmHandleBuddiesGetMem]
  cases drIcmSearchBuddies chunkSize false pool.buddyMemList with
  | some found => rfl
  | none =>
    cases made : drIcmBuddyCreate pool (env (turns + 1)) with
    | none => simp
    | some grown =>
      obtain ⟨fresh, -, rfl⟩ := drIcmBuddyCreate_front made
      simp only [Bool.false_eq_true, false_and, if_false]
      rw [drIcmGetMemLoop]
      cases drIcmSearchBuddies chunkSize true (fresh :: pool.buddyMemList) with
      | some found => rfl
      | none => simp

theorem BuddyReachable.alloc_none {maxOrder state} (reachable : BuddyReachable maxOrder state) {order}
    (failed : (drBuddyAllocMem state.buddy order).2 = none) (seg) :
    ¬ state.FreeRun maxOrder order seg := by
  obtain ⟨rfl, blocks, held, valid⟩ := reachable.valid
  rintro ⟨⟨index, rfl⟩, inside, unheld⟩
  rw [Nat.mul_comm] at inside unheld
  have bounded : 2 ^ order ≤ 2 ^ state.buddy.maxOrder := by omega
  have inRange : order ≤ state.buddy.maxOrder := (Nat.pow_le_pow_iff_right (by omega)).mp bounded
  have spec := drBuddyAllocMem_valid valid order inRange
  split at spec
  · rename_i back
    rw [back] at failed
    cases failed
  obtain ⟨above, isFree⟩ := valid.layout.free_above valid.coalesced order index inside (by
    intro unit covered block mem covers
    have held := unheld (holding block) (by rw [held]; exact List.mem_map_of_mem mem)
    exact Set.disjoint_left.mp held ((mem_units_iff ⟨order, index⟩ unit).mpr covered)
      ((mem_units_iff block unit).mpr covers))
  have small := spec.2 _ isFree
  simp only at small
  omega

theorem BuddyReachable.alloc_some {maxOrder state} (reachable : BuddyReachable maxOrder state) {order seg}
    (given : (drBuddyAllocMem state.buddy order).2 = some seg) : state.FreeRun maxOrder order seg := by
  obtain ⟨rfl, blocks, held, valid⟩ := reachable.valid
  by_cases inRange : order ≤ state.buddy.maxOrder
  · have spec := drBuddyAllocMem_valid valid order inRange
    split at spec
    · rename_i after _ back
      obtain ⟨sameMax, block, rfl, rfl, validAfter⟩ := spec
      rw [back] at given
      cases given
      have sound := buddy_reachable_sound _ _ (reachable.tail (.alloc state block.order _ after inRange back))
      refine ⟨⟨block.index, Nat.mul_comm _ _⟩, ?_, ?_⟩
      · rw [← sameMax]
        exact validAfter.layout.tiles.end_le (.inr List.mem_cons_self)
      · exact (List.pairwise_cons.mp sound.heldDisjoint).1
    · rename_i back
      rw [back] at given
      cases given
  · have steps : state.buddy.maxOrder + 1 - order = 0 := by omega
    rw [drBuddyAllocMem, steps] at given
    cases given

theorem drBuddyInit_alloc {maxOrder order} (inRange : order ≤ maxOrder) :
    ∃ seg, (drBuddyAllocMem (drBuddyInit maxOrder) order).2 = some seg := by
  rw [← Option.ne_none_iff_exists']
  intro failed
  have start : BuddyReachable maxOrder ⟨drBuddyInit maxOrder, []⟩ := .refl
  refine start.alloc_none failed 0 ⟨Nat.dvd_zero _, ?_, nofun⟩
  rw [Nat.zero_add]
  exact Nat.pow_le_pow_right (by omega) inRange

private theorem drIcmHandleBuddiesGetMem_grows {pool after chunkSize env found}
    (res : drIcmHandleBuddiesGetMem pool chunkSize env = (after, found)) :
    (after = pool ∨ ∃ buddyMem, buddyMem.buddy = drBuddyInit pool.maxLogChunkSz ∧
      after = { pool with buddyMemList := buddyMem :: pool.buddyMemList }) ∧
      (chunkSize ≤ pool.maxLogChunkSz → found = none → after = pool ∧ drIcmBuddyCreate pool env = none) := by
  unfold drIcmHandleBuddiesGetMem at res
  split at res
  · cases res
    exact ⟨.inl rfl, nofun⟩
  split at res
  · rename_i failed
    cases res
    exact ⟨.inl rfl, fun _ _ => ⟨rfl, failed⟩⟩
  rename_i grown made
  obtain ⟨fresh, isNew, rfl⟩ := drIcmBuddyCreate_front made
  cases res
  refine ⟨.inr ⟨fresh, isNew, rfl⟩, fun fits missing => ?_⟩
  obtain ⟨seg, given⟩ := drBuddyInit_alloc fits
  rw [← isNew] at given
  rw [drIcmSearchBuddies] at missing
  split at missing
  · cases missing
  · rename_i back
    rw [back] at given
    cases given

/-- Once all that was taken is back, the bitmaps are as `dr_buddy_init` made them. -/
theorem drained_buddy_fresh {maxOrder state} (reachable : BuddyReachable maxOrder state)
    (drained : state.outstanding = []) : state.buddy.freeBlocks = (drBuddyInit maxOrder).freeBlocks := by
  obtain ⟨rfl, blocks, held, valid⟩ := reachable.valid
  have none : blocks = [] := List.map_eq_nil_iff.mp (held.symm.trans drained)
  subst none
  obtain ⟨above, isFree⟩ := valid.layout.free_above valid.coalesced state.buddy.maxOrder 0 (by omega) (by simp)
  have small := (valid.layout.tiles.inside _ (.inl isFree)).1
  obtain rfl : above = 0 := Nat.le_zero.mp (Nat.le_of_add_le_add_left small)
  rw [drBuddyInit_freeBlocks]
  refine Set.eq_singleton_iff_unique_mem.mpr ⟨isFree, fun block other => ?_⟩
  have inside := valid.layout.tiles.end_le (.inl other)
  have positive := Nat.two_pow_pos block.order
  refine valid.layout.tiles.unique _ (.inl other) _ (.inl isFree) block.start block.covers_start ?_
  exact Nat.div_eq_of_lt (by change block.start < 2 ^ state.buddy.maxOrder; omega)

theorem drained_buddy_fresh_one : ∃ after, drBuddyFreeMem (drBuddyAllocMem (drBuddyInit 1) 0).1 0 0 = some after ∧
    after.freeBlocks = (drBuddyInit 1).freeBlocks := by
  have taken : BuddyReachable 1 ⟨(drBuddyAllocMem (drBuddyInit 1) 0).1, [(0, 0)]⟩ :=
    .tail .refl (.alloc _ 0 0 _ (by decide) rfl)
  exact ⟨_, rfl, drained_buddy_fresh (taken.tail (.free _ 0 0 _ (.head _) rfl)) rfl⟩

/-- What the allocator and the loop over the pool promise. -/
structure AllocComplete (maxOrder : Nat) (state : BuddyState) : Prop where
  exhausted : ∀ order, (drBuddyAllocMem state.buddy order).2 = none ↔ ¬ ∃ seg, state.FreeRun maxOrder order seg
  given : ∀ order seg, (drBuddyAllocMem state.buddy order).2 = some seg → state.FreeRun maxOrder order seg
  fresh : ∀ order ≤ maxOrder, ∃ seg, (drBuddyAllocMem (drBuddyInit maxOrder) order).2 = some seg
  ends : ∀ pool chunkSize env turns, ∃ after found,
    drIcmGetMemLoop chunkSize env (turns + 2) false pool = some (after, found) ∧
      (after = pool ∨ ∃ buddyMem, buddyMem.buddy = drBuddyInit pool.maxLogChunkSz ∧
        after = { pool with buddyMemList := buddyMem :: pool.buddyMemList }) ∧
      (chunkSize ≤ pool.maxLogChunkSz → found = none → after = pool ∧ drIcmBuddyCreate pool (env (turns + 1)) = none)

/-- In every reachable state an allocation fails exactly when no aligned run of its order is free, and the
pool's loop ends after at most one new buddy. -/
theorem buddy_alloc_complete (maxOrder : Nat) (state : BuddyState)
    (reachable : BuddyReachable maxOrder state) : AllocComplete maxOrder state where
  exhausted order := by
    constructor
    · rintro failed ⟨seg, run⟩
      exact reachable.alloc_none failed seg run
    · intro noRun
      rw [Option.eq_none_iff_forall_ne_some]
      intro seg given
      exact noRun ⟨seg, reachable.alloc_some given⟩
  given order seg := reachable.alloc_some
  fresh order := drBuddyInit_alloc
  ends pool chunkSize env turns :=
    ⟨_, _, drIcmGetMemLoop_eq chunkSize env turns pool, drIcmHandleBuddiesGetMem_grows rfl⟩

/-- Two units are free, the second and the fourth, but no aligned pair. -/
theorem buddy_alloc_complete_fragmented : ∃ state, BuddyReachable 2 state ∧
    state.outstanding = [(2, 0), (0, 0)] ∧ (drBuddyAllocMem state.buddy 1).2 = none ∧
    (¬ ∃ seg, state.FreeRun 2 1 seg) ∧ AllocComplete 2 state := by
  let first := (drBuddyAllocMem (drBuddyInit 2) 0).1
  let second := (drBuddyAllocMem first 0).1
  let third := (drBuddyAllocMem second 0).1
  have taken : BuddyReachable 2 ⟨third, [(2, 0), (1, 0), (0, 0)]⟩ :=
    Relation.ReflTransGen.refl.tail (.alloc ⟨drBuddyInit 2, []⟩ 0 0 first (by decide) (Prod.ext rfl (by decide)))
      |>.tail (.alloc ⟨first, [(0, 0)]⟩ 0 1 second (by decide) (Prod.ext rfl (by decide)))
      |>.tail (.alloc ⟨second, [(1, 0), (0, 0)]⟩ 0 2 third (by decide) (Prod.ext rfl (by decide)))
  have returned : (drBuddyFreeMem third 1 0).map (fun after => (drBuddyAllocMem after 1).2) = some none := by decide
  obtain ⟨after, freed, failed⟩ := Option.map_eq_some_iff.mp returned
  have reached : BuddyReachable 2 ⟨after, [(2, 0), (0, 0)]⟩ :=
    taken.tail (.free _ 1 0 after (.tail _ (.head _)) freed)
  have complete := buddy_alloc_complete 2 _ reached
  exact ⟨_, reached, rfl, failed, (complete.exhausted 1).mp failed, complete⟩

end MlnxOfed.Steering
