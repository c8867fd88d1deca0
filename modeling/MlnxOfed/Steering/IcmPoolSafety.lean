/-
The steering ICM pool over whole runs: chunks never overlap, the memory counters are exact, and a freed
range is not handed out again before a sync-steering command issued after the free.
-/

import Mathlib.Algebra.BigOperators.Ring.List
import MlnxOfed.Steering.IcmPool

namespace MlnxOfed.Steering

open Option
open List (flatMap_cons map_append map_cons mem_cons_self sum_append sum_cons mem_map mem_cons)
open Lib IcmChunk IcmBuddyMem IcmPool BuddyCursor

/-! ### One buddy -/

def blockBytes (icmType : IcmType) (block : Block) : Nat :=
  mlx5drIcmPoolChunkSizeToByte block.order icmType

def chunkOf (icmType : IcmType) (buddyMem : IcmBuddyMem) (block : Block) : IcmChunk :=
  icmChunkAt icmType buddyMem block.order block.start

private theorem chunkOf_congr (icmType) {left right}
    (self : left.self = right.self) (start : left.icmStartAddr = right.icmStartAddr) :
    chunkOf icmType left = chunkOf icmType right := by
  funext block
  simp [chunkOf, icmChunkAt, self, start]

private theorem chunkOf_injective (icmType buddyMem) : Function.Injective (chunkOf icmType buddyMem) := by
  intro left right same
  have segs := congrArg seg same
  have entries := congrArg numOfEntries same
  simp only [chunkOf, icmChunkAt, mlx5drIcmPoolChunkSizeToEntries, Nat.shiftLeft_eq, one_mul] at segs entries
  have orders : left.order = right.order := Nat.pow_right_injective (Nat.le_refl 2) entries
  apply holding_injective
  exact Prod.ext segs orders

private theorem chunkOf_log2_entries (icmType buddyMem block) :
    Nat.log2 (chunkOf icmType buddyMem block).numOfEntries = block.order := by
  simp [chunkOf, icmChunkAt, mlx5drIcmPoolChunkSizeToEntries, Nat.shiftLeft_eq]

/-- Lists, bitmaps and counters of one buddy agree on its used and hot blocks. -/
structure IcmBuddyMem.Holds (icmType : IcmType) (maxLogChunkSz : Nat) (buddyMem : IcmBuddyMem)
    (used hot : List Block) : Prop where
  maxOrder : buddyMem.buddy.maxOrder = maxLogChunkSz
  usedChunks : buddyMem.usedList = used.map (chunkOf icmType buddyMem)
  hotChunks : buddyMem.hotList = hot.map (chunkOf icmType buddyMem)
  valid : buddyMem.buddy.Valid (used ++ hot)
  hotBytes : buddyMem.hotMemorySize = (hot.map (blockBytes icmType)).sum
  usedBytes : buddyMem.usedMemory = ((used ++ hot).map (blockBytes icmType)).sum

theorem Buddy.Valid.perm {buddy : Buddy} {outstanding reordered : List Block}
    (valid : buddy.Valid outstanding) (same : outstanding.Perm reordered) :
    buddy.Valid reordered :=
  { valid with layout := valid.layout.perm same }

theorem Buddy.Valid.bytes_le {buddy : Buddy} {outstanding : List Block} (valid : buddy.Valid outstanding)
    (icmType) : (outstanding.map (blockBytes icmType)).sum ≤
      mlx5drIcmPoolChunkSizeToByte buddy.maxOrder icmType := by
  have scaled : (outstanding.map (blockBytes icmType)).sum =
      mlx5drIcmPoolDmTypeToEntrySize icmType * (outstanding.map fun item => 2 ^ item.order).sum := by
    rw [← List.sum_map_mul_left]
    congr 1
    apply List.map_congr_left
    intro block _
    simp [blockBytes, mlx5drIcmPoolChunkSizeToByte, mlx5drIcmPoolChunkSizeToEntries, Nat.shiftLeft_eq]
  rw [scaled]
  simp only [mlx5drIcmPoolChunkSizeToByte, mlx5drIcmPoolChunkSizeToEntries, Nat.shiftLeft_eq, one_mul]
  exact Nat.mul_le_mul_left _ valid.layout.sum_le

private theorem blockBytes_pos (icmType block) : 0 < blockBytes icmType block := by
  have entry : 0 < mlx5drIcmPoolDmTypeToEntrySize icmType := by
    cases icmType <;> decide
  simp only [blockBytes, mlx5drIcmPoolChunkSizeToByte, mlx5drIcmPoolChunkSizeToEntries,
    Nat.shiftLeft_eq, one_mul]
  exact Nat.mul_pos entry (Nat.two_pow_pos block.order)

section OneBuddy

variable {icmType : IcmType} {maxLogChunkSz : Nat} {buddyMem : IcmBuddyMem}
  {used hot : List Block}

variable (holds : buddyMem.Holds icmType maxLogChunkSz used hot)

include holds

variable {block : Block}

theorem IcmBuddyMem.Holds.create (bounded : mlx5drIcmPoolChunkSizeToByte maxLogChunkSz icmType < 2 ^ 32)
    {buddy} (kept : buddy.maxOrder = maxLogChunkSz) (valid : buddy.Valid (block :: (used ++ hot))) :
    Holds icmType maxLogChunkSz
      { buddyMem with
        buddy := buddy
        usedList := buddyMem.usedList ++ [chunkOf icmType buddyMem block]
        usedMemory := addU32 buddyMem.usedMemory (chunkOf icmType buddyMem block).byteSize }
      (used ++ [block]) hot :=
  { holds with
    maxOrder := kept
    usedChunks := by
      rw [holds.usedChunks, map_append]
      rfl
    valid := by
      apply valid.perm
      rw [List.append_assoc]
      exact List.perm_middle.symm
    usedBytes := by
      have total := valid.bytes_le icmType
      rw [kept, map_cons, sum_cons] at total
      have unwrapped : (buddyMem.usedMemory + blockBytes icmType block) % 2 ^ 32 =
          buddyMem.usedMemory + blockBytes icmType block := by
        apply Nat.mod_eq_of_lt
        rw [holds.usedBytes]
        omega
      change (buddyMem.usedMemory + blockBytes icmType block) % 2 ^ 32 = _
      rw [unwrapped, holds.usedBytes]
      simp only [map_append, sum_append, map_cons, List.map_nil, sum_cons, List.sum_nil]
      omega }

omit holds in
private theorem moved_perm {used} (hot : List Block)
    (member : block ∈ used) : (used ++ hot).Perm (used.erase block ++ (hot ++ [block])) := by
  rw [← List.append_assoc]
  exact ((List.perm_cons_erase member).append_right hot).trans (List.perm_append_singleton block _).symm

theorem IcmBuddyMem.Holds.heat (bounded : mlx5drIcmPoolChunkSizeToByte maxLogChunkSz icmType < 2 ^ 32)
    (mem : block ∈ used) :
    Holds icmType maxLogChunkSz (buddyMem.heat (chunkOf icmType buddyMem block))
      (used.erase block) (hot ++ [block]) where
  maxOrder := holds.maxOrder
  usedChunks := by
    change buddyMem.usedList.erase _ = _
    rw [holds.usedChunks, ← List.map_erase (chunkOf_injective icmType buddyMem)]
    rfl
  hotChunks := by
    change buddyMem.hotList ++ _ = _
    rw [holds.hotChunks, map_append]
    rfl
  valid := by exact holds.valid.perm (moved_perm hot mem)
  hotBytes := by
    have total := holds.valid.bytes_le icmType
    rw [holds.maxOrder, map_append, sum_append] at total
    have counted : blockBytes icmType block ≤ (used.map (blockBytes icmType)).sum :=
      List.single_le_sum (fun _ _ => Nat.zero_le _) _ (List.mem_map_of_mem mem)
    have unwrapped : (buddyMem.hotMemorySize + blockBytes icmType block) % 2 ^ 32 =
        buddyMem.hotMemorySize + blockBytes icmType block := by
      apply Nat.mod_eq_of_lt
      rw [holds.hotBytes]
      omega
    change (buddyMem.hotMemorySize + blockBytes icmType block) % 2 ^ 32 = _
    rw [unwrapped, holds.hotBytes]
    simp
  usedBytes := by
    change buddyMem.usedMemory = _
    rw [holds.usedBytes]
    apply List.Perm.sum_eq
    exact (moved_perm hot mem).map _

private theorem drIcmDrainHot_holds : ∃ drained, drIcmDrainHot buddyMem.hotList buddyMem = some drained ∧
      drained.Holds icmType maxLogChunkSz used [] ∧
      drained.self = buddyMem.self ∧ drained.icmStartAddr = buddyMem.icmStartAddr := by
  induction hot generalizing buddyMem with
  | nil =>
    refine ⟨buddyMem, ?_, holds, rfl, rfl⟩
    rw [holds.hotChunks]
    rfl
  | cons block rest ih =>
    have outstanding : block ∈ used ++ block :: rest := by simp
    obtain ⟨buddy, freed, kept, valid⟩ := drBuddyFreeMem_valid holds.valid block outstanding
    have absent : block ∉ used := by
      intro early
      have nodup := holds.valid.layout.nodup
      exact (List.nodup_append.mp nodup).2.2 block early block (.head _) rfl
    have erased : (used ++ block :: rest).erase block = used ++ rest := by
      rw [List.erase_append_right _ absent, List.erase_cons_head]
    rw [erased] at valid
    have hotEq := holds.hotBytes
    have usedEq := holds.usedBytes
    simp only [map_cons, sum_cons, map_append, sum_append] at hotEq usedEq
    have hotSub : subU32 buddyMem.hotMemorySize (blockBytes icmType block) =
        some (rest.map (blockBytes icmType)).sum := by
      rw [subU32, if_pos (by omega), hotEq, Nat.add_sub_cancel_left]
    have usedSub : subU32 buddyMem.usedMemory (blockBytes icmType block) =
        some ((used ++ rest).map (blockBytes icmType)).sum := by
      rw [subU32, if_pos (by omega), map_append, sum_append]
      congr 1
      omega
    have tailHolds : Holds icmType maxLogChunkSz
        { buddyMem with
          buddy := buddy
          hotMemorySize := (rest.map (blockBytes icmType)).sum
          usedMemory := ((used ++ rest).map (blockBytes icmType)).sum
          hotList := rest.map (chunkOf icmType buddyMem) } used rest :=
      { maxOrder := kept.trans holds.maxOrder
        usedChunks := holds.usedChunks
        hotChunks := rfl
        valid := valid
        hotBytes := rfl
        usedBytes := rfl }
    obtain ⟨drained, res, drainedHolds, self, start⟩ := ih tailHolds
    refine ⟨drained, ?_, drainedHolds, self, start⟩
    rw [holds.hotChunks, map_cons, drIcmDrainHot, chunkOf_log2_entries]
    have segEq : (chunkOf icmType buddyMem block).seg = block.start := rfl
    have bytesEq : (chunkOf icmType buddyMem block).byteSize = blockBytes icmType block := rfl
    rw [segEq, bytesEq, freed, hotSub, usedSub]
    exact res

omit holds

end OneBuddy

def IcmChunk.range (chunk : IcmChunk) : Set Nat :=
  Set.Ico chunk.icmAddr (chunk.icmAddr + chunk.byteSize)

def IcmPool.region (pool : IcmPool) (start : Nat) : Set Nat :=
  Set.Ico start (start + mlx5drIcmPoolChunkSizeToByte pool.maxLogChunkSz pool.icmType)

def IcmPool.usedChunks (pool : IcmPool) : List IcmChunk :=
  pool.buddyMemList.flatMap usedList

def IcmPool.hotChunks (pool : IcmPool) : List IcmChunk :=
  pool.buddyMemList.flatMap hotList

/-- Buddies are told apart by their addresses and own disjoint regions. -/
structure IcmPool.Valid (pool : IcmPool) : Prop where
  bounded : mlx5drIcmPoolChunkSizeToByte pool.maxLogChunkSz pool.icmType < 2 ^ 32
  holds : ∀ buddyMem ∈ pool.buddyMemList, ∃ used hot, buddyMem.Holds pool.icmType pool.maxLogChunkSz used hot
  selves : (pool.buddyMemList.map self).Nodup
  regions : (pool.buddyMemList.map icmStartAddr).Pairwise fun left right =>
    Disjoint (pool.region left) (pool.region right)

theorem mlx5drIcmPoolCreate_valid (caps icmType) : (mlx5drIcmPoolCreate caps icmType).Valid where
  bounded := by
    have small : (caps.maxLogChunkSz icmType) ≤ 20 := by
      cases icmType <;>
        simp only [DomainCaps.maxLogChunkSz, drChunkSize1024K, drChunkSize4K] <;> omega
    have entry : mlx5drIcmPoolDmTypeToEntrySize icmType ≤ 64 := by cases icmType <;> decide
    simp only [mlx5drIcmPoolCreate, mlx5drIcmPoolChunkSizeToByte,
      mlx5drIcmPoolChunkSizeToEntries, Nat.shiftLeft_eq, one_mul]
    calc mlx5drIcmPoolDmTypeToEntrySize icmType * 2 ^ caps.maxLogChunkSz icmType
        ≤ 64 * 2 ^ 20 := Nat.mul_le_mul entry (Nat.pow_le_pow_right (by decide) small)
      _ < 2 ^ 32 := by decide
  holds := by simp [mlx5drIcmPoolCreate]
  selves := by simp [mlx5drIcmPoolCreate]
  regions := by simp [mlx5drIcmPoolCreate]

theorem IcmBuddyMem.Holds.range_subset {pool : IcmPool} {buddyMem : IcmBuddyMem}
    {used hot : List Block} (holds : buddyMem.Holds pool.icmType pool.maxLogChunkSz used hot)
    {block : Block} (mem : block ∈ used ++ hot) :
    (chunkOf pool.icmType buddyMem block).range ⊆ pool.region buddyMem.icmStartAddr := by
  have bound := holds.valid.layout.tiles.end_le (.inr mem)
  rw [holds.maxOrder] at bound
  have scaled := Nat.mul_le_mul_left (mlx5drIcmPoolDmTypeToEntrySize pool.icmType) bound
  rw [Nat.mul_add] at scaled
  intro addr inRange
  simp only [range, region, chunkOf, icmChunkAt, mlx5drIcmPoolChunkSizeToByte,
    mlx5drIcmPoolChunkSizeToEntries, Nat.shiftLeft_eq, one_mul, Set.mem_Ico] at inRange ⊢
  omega

theorem IcmBuddyMem.Holds.range_disjoint {icmType maxLogChunkSz buddyMem}
    {used hot} (holds : buddyMem.Holds icmType maxLogChunkSz used hot) {left right}
    (leftIn : left ∈ used ++ hot) (rightIn : right ∈ used ++ hot) (different : left ≠ right) :
    Disjoint (chunkOf icmType buddyMem left).range (chunkOf icmType buddyMem right).range := by
  have apart := holds.valid.layout.tiles.ordered (.inr leftIn) (.inr rightIn) different
  rw [Set.disjoint_left]
  intro addr inLeft inRight
  simp only [range, chunkOf, icmChunkAt, mlx5drIcmPoolChunkSizeToByte,
    mlx5drIcmPoolChunkSizeToEntries, Nat.shiftLeft_eq, one_mul, Set.mem_Ico] at inLeft inRight
  rcases apart with before | before
  · have scaled := Nat.mul_le_mul_left (mlx5drIcmPoolDmTypeToEntrySize icmType) before
    rw [Nat.mul_add] at scaled
    omega
  · have scaled := Nat.mul_le_mul_left (mlx5drIcmPoolDmTypeToEntrySize icmType) before
    rw [Nat.mul_add] at scaled
    omega

def IcmPool.chunks (pool : IcmPool) : List IcmChunk :=
  pool.buddyMemList.flatMap fun buddyMem => buddyMem.usedList ++ buddyMem.hotList

theorem IcmPool.Valid.chunks_disjoint {pool : IcmPool} (valid : pool.Valid) :
    pool.chunks.Pairwise fun left right => Disjoint left.range right.range := by
  unfold chunks
  rw [List.pairwise_flatMap]
  constructor
  · intro buddyMem mem
    obtain ⟨used, hot, holds⟩ := valid.holds buddyMem mem
    rw [holds.usedChunks, holds.hotChunks, ← map_append, List.pairwise_map]
    refine holds.valid.layout.nodup.imp_of_mem ?_
    intro left right leftIn rightIn different
    exact holds.range_disjoint leftIn rightIn different
  have regions := valid.regions
  rw [List.pairwise_map] at regions
  refine regions.imp_of_mem ?_
  intro left right leftIn rightIn apart leftChunk leftOn rightChunk rightOn
  obtain ⟨leftUsed, leftHot, leftHolds⟩ := valid.holds left leftIn
  obtain ⟨rightUsed, rightHot, rightHolds⟩ := valid.holds right rightIn
  rw [leftHolds.usedChunks, leftHolds.hotChunks, ← map_append] at leftOn
  rw [rightHolds.usedChunks, rightHolds.hotChunks, ← map_append] at rightOn
  obtain ⟨leftBlock, leftBlockIn, rfl⟩ := mem_map.mp leftOn
  obtain ⟨rightBlock, rightBlockIn, rfl⟩ := mem_map.mp rightOn
  exact apart.mono (leftHolds.range_subset leftBlockIn) (rightHolds.range_subset rightBlockIn)

theorem IcmPool.Valid.used_hot_disjoint {pool : IcmPool} (valid : pool.Valid)
    {usedChunk hotChunk : IcmChunk} (usedIn : usedChunk ∈ pool.usedChunks)
    (hotIn : hotChunk ∈ pool.hotChunks) : Disjoint usedChunk.range hotChunk.range := by
  obtain ⟨left, leftIn, usedOn⟩ := List.mem_flatMap.mp usedIn
  obtain ⟨right, rightIn, hotOn⟩ := List.mem_flatMap.mp hotIn
  obtain ⟨leftUsed, leftHot, leftHolds⟩ := valid.holds left leftIn
  by_cases same : left = right
  · subst same
    rw [leftHolds.usedChunks] at usedOn
    rw [leftHolds.hotChunks] at hotOn
    obtain ⟨usedBlock, usedBlockIn, rfl⟩ := mem_map.mp usedOn
    obtain ⟨hotBlock, hotBlockIn, rfl⟩ := mem_map.mp hotOn
    refine leftHolds.range_disjoint (List.mem_append_left _ usedBlockIn) (List.mem_append_right _ hotBlockIn) ?_
    exact (List.nodup_append.mp leftHolds.valid.layout.nodup).2.2 usedBlock usedBlockIn hotBlock hotBlockIn
  obtain ⟨rightUsed, rightHot, rightHolds⟩ := valid.holds right rightIn
  rw [leftHolds.usedChunks] at usedOn
  rw [rightHolds.hotChunks] at hotOn
  obtain ⟨usedBlock, usedBlockIn, rfl⟩ := mem_map.mp usedOn
  obtain ⟨hotBlock, hotBlockIn, rfl⟩ := mem_map.mp hotOn
  have regions := valid.regions
  rw [List.pairwise_map] at regions
  have apart : Disjoint (pool.region left.icmStartAddr) (pool.region right.icmStartAddr) :=
    regions.forall leftIn rightIn same
  exact apart.mono (leftHolds.range_subset (List.mem_append_left _ usedBlockIn))
    (rightHolds.range_subset (List.mem_append_right _ hotBlockIn))

section Pool

variable {pool : IcmPool}

theorem IcmPool.Valid.replace (valid : pool.Valid) {before after old new}
    {used hot} (list : pool.buddyMemList = before ++ old :: after)
    (holds : new.Holds pool.icmType pool.maxLogChunkSz used hot) (self : new.self = old.self)
    (start : new.icmStartAddr = old.icmStartAddr) :
    ({ pool with buddyMemList := before ++ new :: after } : IcmPool).Valid where
  bounded := valid.bounded
  holds buddyMem member := by
    rcases List.mem_append.mp member with early | late
    · exact valid.holds buddyMem (by rw [list]; exact List.mem_append_left _ early)
    · rcases mem_cons.mp late with rfl | behind
      · exact ⟨used, hot, holds⟩
      · refine valid.holds buddyMem ?_
        rw [list]
        exact List.mem_append_right _ (List.mem_cons_of_mem _ behind)
  selves := by
    have selves := valid.selves
    rw [list] at selves
    simpa [self] using selves
  regions := by
    have regions := valid.regions
    rw [list, map_append, map_cons, ← start] at regions
    rw [map_append, map_cons]
    exact regions

/-- What host and device promise: a new buddy has an address of its own, and its region shares nothing with
those in use. -/
structure AllocEnv.Fresh (env : AllocEnv) (pool : IcmPool) : Prop where
  address : ∀ self, env.buddyAlloc = some self → ∀ buddyMem ∈ pool.buddyMemList, self ≠ buddyMem.self
  region : ∀ start, env.swIcmAlloc = some start → ∀ buddyMem ∈ pool.buddyMemList,
    Disjoint (pool.region start) (pool.region buddyMem.icmStartAddr)

variable {env : AllocEnv}

private theorem drIcmPoolMrCreate_eq {start}
    (made : drIcmPoolMrCreate pool env = some start) : env.swIcmAlloc = some start := by
  unfold drIcmPoolMrCreate at made
  split at made
  · cases made
  split at made
  · cases made
  rename_i addr back
  split at made
  · cases made
  · split at made
    · cases made
    · rw [back]
      exact made

private theorem drIcmBuddyCreate_valid (valid : pool.Valid) (fresh : env.Fresh pool)
    {grown} (made : drIcmBuddyCreate pool env = some grown) :
    grown.Valid ∧ ∃ buddyMem, grown = { pool with
      buddyMemList := buddyMem :: pool.buddyMemList } ∧
      buddyMem.usedList = [] ∧ buddyMem.hotList = [] := by
  unfold drIcmBuddyCreate at made
  cases mr : drIcmPoolMrCreate pool env with
  | none =>
    rw [mr] at made
    cases made
  | some start =>
    have startEq := drIcmPoolMrCreate_eq mr
    cases host : env.buddyAlloc with
    | none =>
      rw [mr, host] at made
      cases made
    | some self =>
      rw [mr, host] at made
      simp only at made
      split at made
      · cases made
      cases made
      refine ⟨⟨valid.bounded, ?_, ?_, ?_⟩, _, rfl, rfl, rfl⟩
      · intro buddyMem mem
        rcases mem_cons.mp mem with rfl | old
        · exact ⟨[], [], rfl, rfl, rfl, drBuddyInit_valid _, rfl, rfl⟩
        · exact valid.holds buddyMem old
      · rw [map_cons, List.nodup_cons]
        refine ⟨?_, valid.selves⟩
        intro taken
        obtain ⟨buddyMem, mem, same⟩ := mem_map.mp taken
        exact fresh.address self host buddyMem mem same.symm
      · rw [map_cons, List.pairwise_cons]
        refine ⟨?_, valid.regions⟩
        intro other taken
        obtain ⟨buddyMem, mem, rfl⟩ := mem_map.mp taken
        exact fresh.region start startEq buddyMem mem

private theorem appended_perm (old list after : List IcmChunk) (chunk : IcmChunk) :
    (old ++ (list ++ [chunk] ++ after)).Perm ([chunk] ++ (old ++ (list ++ after))) := by
  have middle : (old ++ list ++ chunk :: after).Perm (chunk :: (old ++ list ++ after)) := List.perm_middle
  simpa using middle

private theorem drBuddyAllocMem_none {buddy after order}
    (failed : drBuddyAllocMem buddy order = (after, none)) : after = buddy := by
  unfold drBuddyAllocMem at failed
  split at failed
  · exact (Prod.ext_iff.mp failed).1.symm
  · cases failed

variable {buddies : List IcmBuddyMem}

private theorem drIcmSearchBuddies_found {chunkSize seg newMem cursor}
    (found : drIcmSearchBuddies chunkSize newMem buddies = some (cursor, seg)) :
    ∃ buddyMem buddy, buddies = cursor.before ++ buddyMem :: cursor.after ∧
      drBuddyAllocMem buddyMem.buddy chunkSize = (buddy, some seg) ∧
      cursor.current = { buddyMem with buddy := buddy } := by
  induction buddies generalizing cursor with
  | nil => cases found
  | cons head rest ih =>
    unfold drIcmSearchBuddies at found
    split at found
    · rename_i buddy headSeg back
      cases found
      exact ⟨head, buddy, rfl, back, rfl⟩
    rename_i buddy back
    have unchanged := drBuddyAllocMem_none back
    subst unchanged
    split at found
    · cases found
    split at found
    · cases found
    · rename_i inner innerSeg innerFound
      cases found
      obtain ⟨buddyMem, buddy, list, given, current⟩ := ih innerFound
      exact ⟨buddyMem, buddy, congrArg (head :: ·) list, given, current⟩

private theorem drIcmHandleBuddiesGetMem_spec (valid : pool.Valid) {chunkSize}
    (fresh : env.Fresh pool) {grown found}
    (res : drIcmHandleBuddiesGetMem pool chunkSize env = (grown, found)) :
    grown.Valid ∧ grown.usedChunks = pool.usedChunks ∧ grown.hotChunks = pool.hotChunks ∧
      grown.maxLogChunkSz = pool.maxLogChunkSz ∧
      ∀ cursor seg, found = some (cursor, seg) →
        ∃ newMem, drIcmSearchBuddies chunkSize newMem grown.buddyMemList = some (cursor, seg) := by
  unfold drIcmHandleBuddiesGetMem at res
  split at res
  · rename_i spot searched
    cases res
    refine ⟨valid, rfl, rfl, rfl, ?_⟩
    intro cursor seg same
    exact ⟨false, searched.trans same⟩
  split at res
  · cases res
    exact ⟨valid, rfl, rfl, rfl, nofun⟩
  rename_i bigger made
  obtain ⟨grownValid, buddyMem, rfl, noUsed, noHot⟩ := drIcmBuddyCreate_valid valid fresh made
  cases res
  refine ⟨grownValid, ?_, ?_, rfl, fun _ _ same => ⟨true, same⟩⟩
  · simp [usedChunks, noUsed]
  · simp [hotChunks, noHot]

theorem mlx5drIcmAllocChunk_spec (valid : pool.Valid) (chunkSize) (fresh : env.Fresh pool) :
    ∃ after chunk, mlx5drIcmAllocChunk pool chunkSize env = some (after, chunk) ∧ after.Valid ∧
      after.hotChunks = pool.hotChunks ∧
      after.usedChunks.Perm (chunk.toList ++ pool.usedChunks) := by
  unfold mlx5drIcmAllocChunk
  split
  · exact ⟨pool, none, rfl, valid, rfl, .refl _⟩
  rename_i inRange
  cases got : drIcmHandleBuddiesGetMem pool chunkSize env with
  | mk grown found =>
    obtain ⟨grownValid, sameUsed, sameHot, sameMax, searched⟩ := drIcmHandleBuddiesGetMem_spec valid fresh got
    rw [← sameUsed, ← sameHot]
    cases found with
    | none => exact ⟨grown, none, rfl, grownValid, rfl, .refl _⟩
    | some spot =>
      obtain ⟨cursor, seg⟩ := spot
      obtain ⟨newMem, search⟩ := searched cursor seg rfl
      obtain ⟨buddyMem, buddy, list, given, current⟩ := drIcmSearchBuddies_found search
      obtain ⟨used, hot, holds⟩ := grownValid.holds buddyMem (by rw [list]; simp)
      have spec := drBuddyAllocMem_valid holds.valid chunkSize (by rw [holds.maxOrder, sameMax]; omega)
      rw [given] at spec
      obtain ⟨kept, block, rfl, rfl, taken⟩ := spec
      have keptMax := kept.trans holds.maxOrder
      simp only
      split
      · rename_i newBuddyMem chunk made
        unfold drIcmChunkCreate at made
        split at made
        · cases made
        split at made
        · cases made
        cases made
        rw [current]
        have newHolds := holds.create grownValid.bounded keptMax taken
        refine ⟨_, _, rfl, grownValid.replace list newHolds rfl rfl, ?_, ?_⟩
        · simp [IcmPool.hotChunks, BuddyCursor.list, list]
        · simp only [IcmPool.usedChunks, BuddyCursor.list, list, List.flatMap_append,
            flatMap_cons, toList_some]
          exact appended_perm _ _ _ _
      · rename_i failed
        obtain ⟨restored, freed, restoredMax, restoredValid⟩ := drBuddyFreeMem_valid taken block (.head _)
        rw [List.erase_cons_head] at restoredValid
        rw [current]
        simp only [freed]
        have newHolds : IcmBuddyMem.Holds grown.icmType grown.maxLogChunkSz
            { buddyMem with buddy := restored } used hot :=
          { holds with maxOrder := restoredMax.trans keptMax, valid := restoredValid }
        refine ⟨_, _, rfl, grownValid.replace list newHolds rfl rfl, ?_, ?_⟩
        · simp [IcmPool.hotChunks, BuddyCursor.list, list]
        · simp [IcmPool.usedChunks, BuddyCursor.list, list]

variable {chunk : IcmChunk}

theorem IcmPool.Valid.locate (valid : pool.Valid) (mem : chunk ∈ pool.usedChunks) :
    ∃ old buddyMem after, pool.buddyMemList = old ++ buddyMem :: after ∧ chunk ∈ buddyMem.usedList ∧
      pool.heat chunk = { pool with
        buddyMemList := old ++ buddyMem.heat chunk :: after } ∧
      ∃ used hot, buddyMem.Holds pool.icmType pool.maxLogChunkSz used hot ∧
        ∃ block ∈ used, chunk = chunkOf pool.icmType buddyMem block := by
  obtain ⟨buddyMem, listed, chunkOn⟩ := List.mem_flatMap.mp mem
  obtain ⟨used, hot, holds⟩ := valid.holds buddyMem listed
  have onUsed := chunkOn
  rw [holds.usedChunks] at onUsed
  obtain ⟨block, blockIn, same⟩ := mem_map.mp onUsed
  have owner : chunk.buddyMem = buddyMem.self := by rw [← same]; rfl
  obtain ⟨old, after, list⟩ := List.append_of_mem listed
  refine ⟨old, buddyMem, after, list, chunkOn, ?_, used, hot, holds, block, blockIn, same.symm⟩
  have selves := valid.selves
  rw [list, map_append, map_cons, List.nodup_append, List.nodup_cons] at selves
  obtain ⟨_, ⟨notAfter, _⟩, notBefore⟩ := selves
  have others (list : List IcmBuddyMem) (apart : ∀ other ∈ list, other.self ≠ buddyMem.self) : list.map
      (fun other => if other.self = chunk.buddyMem then other.heat chunk else other) = list := by
    nth_rewrite 2 [← List.map_id list]
    apply List.map_congr_left
    intro other otherIn
    rw [owner, if_neg (apart other otherIn)]
    rfl
  unfold heat
  rw [list, map_append, map_cons, others old, others after, if_pos owner.symm]
  · intro other otherIn same
    exact notAfter (same ▸ List.mem_map_of_mem otherIn)
  · intro other otherIn
    exact notBefore _ (List.mem_map_of_mem otherIn) _ (.head _)

theorem IcmPool.Valid.heat (valid : pool.Valid) (mem : chunk ∈ pool.usedChunks) :
    (pool.heat chunk).Valid ∧ chunk ∈ (pool.heat chunk).hotChunks ∧
      pool.hotChunks ⊆ (pool.heat chunk).hotChunks ∧
      pool.usedChunks.Perm (chunk :: (pool.heat chunk).usedChunks) := by
  obtain ⟨old, buddyMem, after, list, chunkOn, heated, used, hot, holds, block, blockIn, same⟩ :=
    valid.locate mem
  have newHolds := holds.heat valid.bounded blockIn
  rw [← same] at newHolds
  rw [heated]
  refine ⟨valid.replace list newHolds rfl rfl, ?_, ?_, ?_⟩
  · simp [IcmPool.hotChunks, IcmBuddyMem.heat]
  · intro other otherIn
    simp only [IcmPool.hotChunks, list, List.flatMap_append, flatMap_cons, List.mem_append,
      IcmBuddyMem.heat] at otherIn ⊢
    tauto
  · simp only [IcmPool.usedChunks, list, List.flatMap_append, flatMap_cons, IcmBuddyMem.heat]
    have front := List.perm_cons_erase chunkOn
    refine ((front.append_right _).append_left _).trans ?_
    exact List.perm_middle

private theorem drIcmSyncBuddies_spec {icmType maxLogChunkSz}
    (exact : ∀ buddyMem ∈ buddies, ∃ used hot, buddyMem.Holds icmType maxLogChunkSz used hot) :
    ∃ synced, drIcmSyncBuddies buddies = some synced ∧
      (∀ buddyMem ∈ synced, ∃ used, buddyMem.Holds icmType maxLogChunkSz used []) ∧
      (synced.map self).Sublist (buddies.map self) ∧
      (synced.map icmStartAddr).Sublist (buddies.map icmStartAddr) ∧
      synced.flatMap usedList = buddies.flatMap usedList := by
  induction buddies with
  | nil => exact ⟨[], rfl, by simp, List.Sublist.slnil, List.Sublist.slnil, rfl⟩
  | cons head rest ih =>
    obtain ⟨used, hot, holds⟩ := exact head (.head _)
    obtain ⟨drained, drain, drainedHolds, self, start⟩ := drIcmDrainHot_holds holds
    obtain ⟨synced, res, settled, selves, starts, kept⟩ :=
      ih fun buddyMem mem => exact buddyMem (List.mem_cons_of_mem _ mem)
    have sameUsed : drained.usedList = head.usedList := by
      rw [drainedHolds.usedChunks, holds.usedChunks, chunkOf_congr icmType self start]
    simp only [drIcmSyncBuddies, drain, res, bind_eq_bind, bind_some]
    split
    · have noBlocks : used = [] := by
        have bytes := drainedHolds.usedBytes
        cases used with
        | nil => rfl
        | cons block others =>
          have positive := blockBytes_pos icmType block
          simp only [List.append_nil, map_cons, sum_cons] at bytes
          omega
      have noUsed : head.usedList = [] := by
        rw [holds.usedChunks, noBlocks]
        rfl
      refine ⟨synced, rfl, settled, selves.cons _, starts.cons _, ?_⟩
      rw [flatMap_cons, noUsed, kept]
      rfl
    · refine ⟨drained :: synced, rfl, ?_, ?_, ?_, ?_⟩
      · intro buddyMem mem
        rcases mem_cons.mp mem with rfl | later
        · exact ⟨used, drainedHolds⟩
        · exact settled buddyMem later
      · rw [map_cons, map_cons, self]
        exact selves.cons_cons _
      · rw [map_cons, map_cons, start]
        exact starts.cons_cons _
      · rw [flatMap_cons, flatMap_cons, sameUsed, kept]

/-- A free of a valid pool returns, the chunk leaves the used ones, and unless a sync succeeded it and all
earlier hot chunks are hot. -/
theorem mlx5drIcmFreeChunk_spec (valid : pool.Valid) (mem : chunk ∈ pool.usedChunks) (syncSteering) :
    ∃ after synced, mlx5drIcmFreeChunk pool chunk syncSteering = some (after, synced) ∧
      after.Valid ∧ pool.usedChunks.Perm (chunk :: after.usedChunks) ∧
      (synced = false → chunk ∈ after.hotChunks ∧ pool.hotChunks ⊆ after.hotChunks) := by
  obtain ⟨heatedValid, isHot, stillHot, moved⟩ := valid.heat mem
  unfold mlx5drIcmFreeChunk
  simp only
  split
  · cases syncSteering with
    | false => exact ⟨_, false, rfl, heatedValid, moved, fun _ => ⟨isHot, stillHot⟩⟩
    | true =>
      obtain ⟨synced, res, settled, selves, starts, kept⟩ := drIcmSyncBuddies_spec heatedValid.holds
      unfold drIcmPoolSyncAllBuddyPools
      simp only [res]
      refine ⟨_, true, rfl, ⟨heatedValid.bounded, ?_, ?_, ?_⟩, ?_, nofun⟩
      · intro buddyMem listed
        obtain ⟨used, holds⟩ := settled buddyMem listed
        exact ⟨used, [], holds⟩
      · exact heatedValid.selves.sublist selves
      · exact heatedValid.regions.sublist starts
      · unfold usedChunks
        rw [kept]
        exact moved
  · exact ⟨_, false, rfl, heatedValid, moved, fun _ => ⟨isHot, stillHot⟩⟩

end Pool

/-! ### Runs of the pool -/

inductive IcmEvent where
  | handedOut (chunk : IcmChunk)
  | freed (chunk : IcmChunk)
  | synced

/-- A pool with the chunks its callers hold and what happened to it, latest first. -/
structure IcmRun where
  pool : IcmPool
  held : List IcmChunk
  trace : List IcmEvent

def IcmRun.start (caps : DomainCaps) (icmType : IcmType) : IcmRun :=
  ⟨mlx5drIcmPoolCreate caps icmType, [], []⟩

/-- One call, with every outcome of host allocation, region creation and sync-steering; callers free what
they hold. -/
inductive IcmStep : IcmRun → IcmRun → Prop where
  | alloc (run : IcmRun) (chunkSize : Nat) (env : AllocEnv) (pool : IcmPool) (chunk : IcmChunk)
      (fresh : env.Fresh run.pool)
      (returned : mlx5drIcmAllocChunk run.pool chunkSize env = some (pool, some chunk)) :
      IcmStep run ⟨pool, chunk :: run.held, .handedOut chunk :: run.trace⟩
  | allocNull (run : IcmRun) (chunkSize : Nat) (env : AllocEnv) (pool : IcmPool) (fresh : env.Fresh run.pool)
      (returned : mlx5drIcmAllocChunk run.pool chunkSize env = some (pool, none)) :
      IcmStep run ⟨pool, run.held, run.trace⟩
  | free (run : IcmRun) (chunk : IcmChunk) (syncSteering : Bool) (pool : IcmPool) (synced : Bool)
      (holder : chunk ∈ run.held)
      (returned : mlx5drIcmFreeChunk run.pool chunk syncSteering = some (pool, synced)) :
      IcmStep run ⟨pool, run.held.erase chunk, (if synced then [.synced] else []) ++ .freed chunk :: run.trace⟩

def IcmReachable (caps : DomainCaps) (icmType : IcmType) : IcmRun → Prop :=
  Relation.ReflTransGen IcmStep (IcmRun.start caps icmType)

def NoEarlyReuse (trace : List IcmEvent) : Prop :=
  ∀ later chunk between other earlier,
    trace = later ++ .handedOut chunk :: (between ++ .freed other :: earlier) →
      IcmEvent.synced ∉ between → Disjoint chunk.range other.range

/-- What was freed since the last sync is still hot, so it cannot overlap a used chunk. -/
structure IcmRun.Valid (run : IcmRun) : Prop where
  pool : run.pool.Valid
  held : run.held.Perm run.pool.usedChunks
  quarantine : ∀ between chunk earlier, run.trace = between ++ .freed chunk :: earlier →
    IcmEvent.synced ∉ between → chunk ∈ run.pool.hotChunks
  reuse : NoEarlyReuse run.trace

theorem NoEarlyReuse.cons {trace} (reuse : NoEarlyReuse trace) (event)
    (silent : ∀ chunk, event ≠ .handedOut chunk) : NoEarlyReuse (event :: trace) := by
  intro later chunk between other earlier same unsynced
  cases later with
  | nil =>
    rw [List.nil_append, List.cons.injEq] at same
    exact absurd same.1 (silent chunk)
  | cons first others =>
    rw [List.cons_append, List.cons.injEq] at same
    exact reuse others chunk between other earlier same.2 unsynced

variable {run : IcmRun}

theorem IcmRun.Valid.handedOut (valid : run.Valid) {pool}
    {chunk} (poolValid : pool.Valid) (sameHot : pool.hotChunks = run.pool.hotChunks)
    (moreUsed : pool.usedChunks.Perm (chunk :: run.pool.usedChunks)) :
    (⟨pool, chunk :: run.held, .handedOut chunk :: run.trace⟩ : IcmRun).Valid where
  pool := poolValid
  held := (valid.held.cons chunk).trans moreUsed.symm
  quarantine between other earlier same unsynced := by
    rw [sameHot]
    cases between with
    | nil => cases same
    | cons first others =>
      rw [List.cons_append, List.cons.injEq] at same
      exact valid.quarantine others other earlier same.2
        fun synced => unsynced (List.mem_cons_of_mem _ synced)
  reuse later handed between other earlier same unsynced := by
    cases later with
    | nil =>
      rw [List.nil_append, List.cons.injEq, IcmEvent.handedOut.injEq] at same
      obtain ⟨rfl, trace⟩ := same
      have isHot := valid.quarantine between other earlier trace unsynced
      rw [← sameHot] at isHot
      exact poolValid.used_hot_disjoint (moreUsed.symm.subset (.head _)) isHot
    | cons first others =>
      rw [List.cons_append, List.cons.injEq] at same
      exact valid.reuse others handed between other earlier same.2 unsynced

theorem IcmRun.Valid.freed (valid : run.Valid) {pool chunk}
    (holder : chunk ∈ run.held) {synced} (poolValid : pool.Valid)
    (lessUsed : run.pool.usedChunks.Perm (chunk :: pool.usedChunks))
    (hot : synced = false → chunk ∈ pool.hotChunks ∧ run.pool.hotChunks ⊆ pool.hotChunks) :
    (⟨pool, run.held.erase chunk,
      (if synced then [.synced] else []) ++ .freed chunk :: run.trace⟩ : IcmRun).Valid where
  pool := poolValid
  held := by
    have held := (List.perm_cons_erase holder).symm.trans (valid.held.trans lessUsed)
    exact held.cons_inv
  quarantine between other earlier same unsynced := by
    cases synced with
    | true =>
      cases between with
      | nil => cases same
      | cons first others =>
        obtain ⟨rfl, _⟩ := List.cons.inj same
        exact absurd (.head _) unsynced
    | false =>
      obtain ⟨isHot, stillHot⟩ := hot rfl
      cases between with
      | nil =>
        obtain ⟨sameEvent, _⟩ := List.cons.inj same
        cases sameEvent
        exact isHot
      | cons first others =>
        obtain ⟨_, trace⟩ := List.cons.inj same
        exact stillHot (valid.quarantine others other earlier trace
          fun mem => unsynced (List.mem_cons_of_mem _ mem))
  reuse := by
    have freedFirst := valid.reuse.cons (.freed chunk) nofun
    cases synced with
    | true => exact freedFirst.cons .synced nofun
    | false => exact freedFirst

theorem IcmStep.valid {run after} (step : IcmStep run after) (valid : run.Valid) : after.Valid := by
  cases step with
  | alloc chunkSize env pool chunk fresh back =>
    obtain ⟨_, _, res, poolValid, sameHot, moreUsed⟩ := mlx5drIcmAllocChunk_spec valid.pool chunkSize fresh
    cases res.symm.trans back
    exact valid.handedOut poolValid sameHot moreUsed
  | allocNull chunkSize env pool fresh back =>
    obtain ⟨_, _, res, poolValid, sameHot, sameUsed⟩ := mlx5drIcmAllocChunk_spec valid.pool chunkSize fresh
    cases res.symm.trans back
    refine ⟨poolValid, valid.held.trans sameUsed.symm, ?_, valid.reuse⟩
    rw [sameHot]
    exact valid.quarantine
  | free chunk syncSteering pool synced holder back =>
    obtain ⟨_, _, res, poolValid, lessUsed, hot⟩ :=
      mlx5drIcmFreeChunk_spec valid.pool (valid.held.subset holder) syncSteering
    cases res.symm.trans back
    exact valid.freed holder poolValid lessUsed hot

theorem IcmReachable.valid {caps icmType} (reachable : IcmReachable caps icmType run) : run.Valid := by
  induction reachable with
  | refl =>
    refine ⟨mlx5drIcmPoolCreate_valid caps icmType, .refl _, ?_, ?_⟩
    · intro between chunk earlier same
      exact absurd same (by simp [IcmRun.start])
    · intro later chunk between other earlier same
      exact absurd same (by simp [IcmRun.start])
  | tail _ step ih => exact step.valid ih

/-- Callers' chunks are the used ones, no two overlap, the counters are the byte sums (so no subtraction
underflows: every call returns), and nothing freed is reused before a later sync. -/
structure IcmRun.Safe (run : IcmRun) : Prop where
  heldUsed : run.held.Perm run.pool.usedChunks
  disjoint : run.pool.chunks.Pairwise fun left right => Disjoint left.range right.range
  usedMemory : ∀ buddyMem ∈ run.pool.buddyMemList, buddyMem.usedMemory =
    ((buddyMem.usedList ++ buddyMem.hotList).map byteSize).sum
  hotMemory : ∀ buddyMem ∈ run.pool.buddyMemList, buddyMem.hotMemorySize = (buddyMem.hotList.map byteSize).sum
  reuse : NoEarlyReuse run.trace
  allocReturns : ∀ chunkSize env, env.Fresh run.pool → (mlx5drIcmAllocChunk run.pool chunkSize env).isSome
  freeReturns : ∀ chunk ∈ run.held, ∀ syncSteering, (mlx5drIcmFreeChunk run.pool chunk syncSteering).isSome

theorem IcmBuddyMem.Holds.byteSize_map {icmType} (buddyMem : IcmBuddyMem) (blocks : List Block) :
    (blocks.map (chunkOf icmType buddyMem)).map byteSize = blocks.map (blockBytes icmType) := by
  rw [List.map_map]
  rfl

theorem icm_reachable_safe (caps : DomainCaps) (icmType : IcmType) (run : IcmRun)
    (reachable : IcmReachable caps icmType run) : run.Safe := by
  have valid := reachable.valid
  refine ⟨valid.held, valid.pool.chunks_disjoint, ?_, ?_, valid.reuse, ?_, ?_⟩
  · intro buddyMem member
    obtain ⟨used, hot, holds⟩ := valid.pool.holds buddyMem member
    rw [holds.usedBytes, holds.usedChunks, holds.hotChunks, ← map_append, Holds.byteSize_map]
  · intro buddyMem member
    obtain ⟨used, hot, holds⟩ := valid.pool.holds buddyMem member
    rw [holds.hotBytes, holds.hotChunks, Holds.byteSize_map]
  · intro chunkSize env fresh
    obtain ⟨after, chunk, result, _⟩ := mlx5drIcmAllocChunk_spec valid.pool chunkSize fresh
    rw [result]
    rfl
  · intro chunk holder syncSteering
    obtain ⟨after, synced, result, _⟩ :=
      mlx5drIcmFreeChunk_spec valid.pool (valid.held.subset holder) syncSteering
    rw [result]
    rfl

/-- Half of a region of four entries is handed out, freed, synced, and handed out again. -/
theorem icm_reachable_safe_reuse_after_sync : ∃ run, IcmReachable ⟨2, 0⟩ .ste run ∧
      run.trace = [.handedOut ⟨7, 0, 4096, 2, 128, 0⟩, .synced, .freed ⟨7, 0, 4096, 2, 128, 0⟩,
        .handedOut ⟨7, 0, 4096, 2, 128, 0⟩] ∧ run.Safe := by
  obtain ⟨busy, allocated, freed⟩ : ∃ busy, mlx5drIcmAllocChunk (mlx5drIcmPoolCreate ⟨2, 0⟩ .ste) 1
          ⟨true, some 4096, true, some 7, true, true, true⟩ =
        some (busy, some ⟨7, 0, 4096, 2, 128, 0⟩) ∧
      mlx5drIcmFreeChunk busy ⟨7, 0, 4096, 2, 128, 0⟩ true =
        some (mlx5drIcmPoolCreate ⟨2, 0⟩ .ste, true) := ⟨_, by rfl, by rfl⟩
  let env : AllocEnv := ⟨true, some 4096, true, some 7, true, true, true⟩
  let chunk : IcmChunk := ⟨7, 0, 4096, 2, 128, 0⟩
  let empty := mlx5drIcmPoolCreate ⟨2, 0⟩ .ste
  have fresh : env.Fresh empty := by
    constructor <;> simp [empty, mlx5drIcmPoolCreate]
  have first := IcmStep.alloc (IcmRun.start ⟨2, 0⟩ .ste) 1 env busy chunk fresh allocated
  have second := IcmStep.free ⟨busy, [chunk], [.handedOut chunk]⟩ chunk true empty true
    mem_cons_self freed
  have third := IcmStep.alloc ⟨empty, [], [.synced, .freed chunk, .handedOut chunk]⟩ 1 env busy
    chunk fresh allocated
  have held : ([chunk] : List IcmChunk).erase chunk = [] := List.erase_cons_head chunk []
  rw [held] at second
  have reached : IcmReachable ⟨2, 0⟩ .ste _ :=
    ((Relation.ReflTransGen.refl.tail first).tail second).tail third
  exact ⟨_, reached, rfl, icm_reachable_safe _ _ _ reached⟩

end MlnxOfed.Steering
