/-
Creations and destructions of actions with shared patterns.

The cached patterns have distinct shapes, their chunks are the used ones of the pattern pool, and each
counter is the number of live actions with it. A live action's list is what the device computes from the
pattern in its chunk and its argument object.
-/

import Mathlib.Tactic.IntervalCases
import MlnxOfed.Lib.KeyedList
import MlnxOfed.Steering.ArgObjects
import MlnxOfed.Steering.IcmPoolSafety

namespace MlnxOfed.Steering

open Function Option
open List (length_map map_cons mem_cons_self mem_map_of_mem mem_of_mem_erase perm_cons_erase)
open Lib CachedPattern RewriteRequest

private theorem drIcmBuddyCreate_icmType {pool grown env}
    (made : drIcmBuddyCreate pool env = some grown) : grown.icmType = pool.icmType := by
  unfold drIcmBuddyCreate at made
  split at made
  · cases made
  split at made
  · cases made
  · split at made
    · cases made
    · cases made
      rfl

private theorem drIcmHandleBuddiesGetMem_icmType {pool grown chunkSize env}
    {found} (got : drIcmHandleBuddiesGetMem pool chunkSize env = (grown, found)) :
    grown.icmType = pool.icmType := by
  unfold drIcmHandleBuddiesGetMem at got
  split at got
  · cases got
    rfl
  split at got
  · cases got
    rfl
  · rename_i made
    cases got
    exact drIcmBuddyCreate_icmType made

theorem mlx5drIcmAllocChunk_size {pool after chunkSize env}
    {res} (back : mlx5drIcmAllocChunk pool chunkSize env = some (after, res)) :
    after.icmType = pool.icmType ∧ ∀ chunk, res = some chunk →
      chunk.numOfEntries = mlx5drIcmPoolChunkSizeToEntries chunkSize ∧
        chunk.byteSize = mlx5drIcmPoolChunkSizeToByte chunkSize pool.icmType := by
  unfold mlx5drIcmAllocChunk at back
  split at back
  · cases back
    exact ⟨rfl, nofun⟩
  cases got : drIcmHandleBuddiesGetMem pool chunkSize env with
  | mk grown found =>
    have sameType := drIcmHandleBuddiesGetMem_icmType got
    rw [got] at back
    cases found with
    | none =>
      cases back
      exact ⟨sameType, nofun⟩
    | some spot =>
      simp only at back
      split at back
      · rename_i made
        cases back
        refine ⟨sameType, ?_⟩
        intro chunk same
        cases same
        unfold drIcmChunkCreate at made
        split at made
        · cases made
        · split at made
          · cases made
          · cases made
            rw [← sameType]
            exact ⟨rfl, rfl⟩
      · split at back
        · cases back
        · cases back
          exact ⟨sameType, nofun⟩

variable {chunk : IcmChunk}

theorem mlx5drIcmFreeChunk_icmType {pool after syncSteering synced}
    (back : mlx5drIcmFreeChunk pool chunk syncSteering = some (after, synced)) :
    after.icmType = pool.icmType := by
  unfold mlx5drIcmFreeChunk at back
  simp only at back
  split at back
  · split at back
    · cases back
    rename_i pooled
    cases back
    unfold drIcmPoolSyncAllBuddyPools at pooled
    split at pooled
    · cases pooled
      rfl
    · split at pooled
      · cases pooled
      · cases pooled
        rfl
  · cases back
    rfl

theorem IcmPool.Valid.used_disjoint {pool : IcmPool} (valid : pool.Valid) :
    pool.usedChunks.Pairwise fun left right => Disjoint left.range right.range := by
  have sublist : pool.usedChunks.Sublist pool.chunks :=
    List.Sublist.flatMap_right _ fun _ _ => List.sublist_append_left _ _
  exact valid.chunks_disjoint.sublist sublist

theorem IcmPool.Valid.apart {pool : IcmPool} (valid : pool.Valid)
    {others : List IcmChunk} (used : pool.usedChunks.Perm (chunk :: others)) {other : IcmChunk}
    (mem : other ∈ others) : Disjoint chunk.range other.range := by
  have pairwise := (used.pairwise_iff fun {_ _} apart => apart.symm).mp valid.used_disjoint
  exact (List.pairwise_cons.mp pairwise).1 other mem

theorem HoldsWords.other_chunk {icm : Nat → HwAction} {chunk other : IcmChunk} {words written : List HwAction}
    (holds : HoldsWords drModifyActionSize icm other.icmAddr words) (apart : Disjoint chunk.range other.range)
    (inOther : drModifyActionSize * words.length ≤ other.byteSize)
    (inChunk : drModifyActionSize * written.length ≤ chunk.byteSize) :
    HoldsWords drModifyActionSize (writeWords drModifyActionSize icm chunk.icmAddr written)
      other.icmAddr words := by
  refine holds.congr ?_ (by decide)
  intro addr lower upper
  refine writeWords_outside (by decide) ?_
  by_contra inside
  rw [not_or, not_lt, not_le] at inside
  have inFirst : addr ∈ chunk.range := Set.mem_Ico.mpr ⟨inside.1, by omega⟩
  exact Set.disjoint_left.mp apart inFirst (Set.mem_Ico.mpr ⟨lower, by omega⟩)

/-- An action that was created, with the list it was created for. -/
structure LiveAction where
  action : RewriteAction
  compiled : List HwAction
  deriving DecidableEq

structure PtrnRun where
  dmn : PtrnDomain
  live : List LiveAction

def CachedPattern.shape (cached : CachedPattern) :
    RewriteType × Nat × List (BitVec 8 × BitVec 24 × BitVec 32) :=
  patternShape cached.type cached.data

def RewriteAction.shape (action : RewriteAction) :
    RewriteType × Nat × List (BitVec 8 × BitVec 24 × BitVec 32) :=
  patternShape action.type action.data

def heldArgs (live : List LiveAction) : List ArgObject :=
  live.filterMap fun user => user.action.arg

structure CachedPattern.Stored (cached : CachedPattern) (dmn : PtrnDomain) : Prop where
  fits : cached.data.length ≤ cached.chunk.numOfEntries
  positive : 0 < cached.chunk.numOfEntries
  bytes : cached.chunk.byteSize = drModifyActionSize * cached.chunk.numOfEntries
  written : HoldsWords drModifyActionSize dmn.icm cached.chunk.icmAddr cached.data
  index : cached.index = (cached.chunk.icmAddr - dmn.hdrModifyPatternIcmAddr) / mlx5drActionCacheLineSize
  compiled : ∃ hwActions, CompiledList cached.type hwActions ∧ cached.data = maskPattern hwActions

/-- A live action refers to a cache entry, and its argument object has its list. -/
structure LiveAction.Uses (user : LiveAction) (cached : CachedPattern) (args : Nat → HwAction) :
    Prop where
  type : user.action.type = cached.type
  chunk : user.action.chunk = some cached.chunk
  index : user.action.index = cached.index
  data : user.action.data = cached.data
  pattern : cached.data = maskPattern user.compiled
  arg : ∃ arg, user.action.arg = some arg ∧ arg.Holds args user.compiled

def users (live : List LiveAction)
    (shape : RewriteType × Nat × List (BitVec 8 × BitVec 24 × BitVec 32)) : Nat :=
  (live.filter fun user => user.action.shape = shape).length

/-- The cache, the pool of its chunks and the live actions agree. -/
structure PtrnRun.Cached (run : PtrnRun) : Prop where
  pool : run.dmn.ptrnIcmPool.Valid
  icmType : run.dmn.ptrnIcmPool.icmType = .modifyHdrPtrn
  used : run.dmn.ptrnIcmPool.usedChunks.Perm (run.dmn.modifyHdrList.map CachedPattern.chunk)
  shapes : (run.dmn.modifyHdrList.map CachedPattern.shape).Nodup
  stored : ∀ cached ∈ run.dmn.modifyHdrList, cached.Stored run.dmn
  counted : ∀ cached ∈ run.dmn.modifyHdrList,
    cached.refcount = users run.live cached.shape ∧ 0 < cached.refcount
  uses : ∀ user ∈ run.live, ∃ cached ∈ run.dmn.modifyHdrList, user.Uses cached run.dmn.args

structure PtrnRun.Valid (run : PtrnRun) : Prop where
  cached : run.Cached
  args : ArgsValid run.dmn.argPools (heldArgs run.live)

theorem drSteV1FindCachedPattern_eq (dmn action) : drSteV1FindCachedPattern dmn action =
      findKey shape dmn.modifyHdrList action.shape := by
  have same : (fun cached : CachedPattern => cached.matches action) =
      fun cached => decide (cached.shape = action.shape) := by
    funext cached
    rw [Bool.eq_iff_iff, decide_eq_true_eq]
    exact drSteV1ComparePattern_iff _ _ _ _
  unfold drSteV1FindCachedPattern findKey
  rw [same]

variable {action : RewriteAction}

theorem mem_of_find {dmn cached} (found : drSteV1FindCachedPattern dmn action = some cached) :
    cached ∈ dmn.modifyHdrList ∧ cached.shape = action.shape := by
  rw [drSteV1FindCachedPattern_eq] at found
  exact mem_of_findKey found

private theorem not_mem_of_find {dmn} (missed : drSteV1FindCachedPattern dmn action = none)
    {cached} (mem : cached ∈ dmn.modifyHdrList) : cached.shape ≠ action.shape := by
  rw [drSteV1FindCachedPattern_eq] at missed
  have different := List.find?_eq_none.mp missed cached mem
  simpa using different

theorem mem_erase_shape {list : List CachedPattern} (shapes : (list.map shape).Nodup)
    {cached other : CachedPattern} (mem : cached ∈ list) (inRest : other ∈ list.erase cached) :
    other ∈ list ∧ other.shape ≠ cached.shape := by
  have perm := (perm_cons_erase mem).map shape
  have distinct := perm.nodup_iff.mp shapes
  rw [map_cons, List.nodup_cons] at distinct
  refine ⟨mem_of_mem_erase inRest, ?_⟩
  intro same
  exact distinct.1 (same ▸ mem_map_of_mem inRest)

theorem users_cons (user live) (shape : RewriteType × Nat × List (BitVec 8 × BitVec 24 × BitVec 32)) :
    users (user :: live) shape = users live shape + if user.action.shape = shape then 1 else 0 := by
  unfold users
  by_cases same : user.action.shape = shape
  · rw [List.filter_cons_of_pos (by simpa using same), if_pos same, List.length_cons]
  · rw [List.filter_cons_of_neg (by simpa using same), if_neg same, add_zero]

private theorem users_perm {live other} (perm : live.Perm other)
    (shape : RewriteType × Nat × List (BitVec 8 × BitVec 24 × BitVec 32)) :
    users live shape = users other shape :=
  (perm.filter _).length_eq

variable {args : Nat → HwAction}

theorem LiveAction.Uses.shape {user : LiveAction} {cached : CachedPattern} (uses : user.Uses cached args) :
    user.action.shape = cached.shape := by
  unfold RewriteAction.shape CachedPattern.shape
  rw [uses.type, uses.data]

theorem LiveAction.Uses.recount {user : LiveAction} {cached : CachedPattern}
    (uses : user.Uses cached args) (refcount) :
    user.Uses { cached with refcount := refcount } args :=
  { uses with }

theorem CachedPattern.Stored.recount {cached : CachedPattern} {dmn : PtrnDomain} (stored : cached.Stored dmn)
    (refcount) : { cached with refcount := refcount }.Stored dmn :=
  { stored with }

theorem CachedPattern.Stored.congr {cached : CachedPattern} {dmn after : PtrnDomain}
    (stored : cached.Stored dmn) (sameIcm : after.icm = dmn.icm)
    (sameBase : after.hdrModifyPatternIcmAddr = dmn.hdrModifyPatternIcmAddr) :
    cached.Stored after := by
  refine { stored with written := ?_, index := ?_ }
  · rw [sameIcm]
    exact stored.written
  · rw [sameBase]
    exact stored.index

theorem PtrnRun.Cached.users_eq_zero {run : PtrnRun} (valid : run.Cached)
    {shape : RewriteType × Nat × List (BitVec 8 × BitVec 24 × BitVec 32)}
    (absent : ∀ cached ∈ run.dmn.modifyHdrList, cached.shape ≠ shape) :
    users run.live shape = 0 := by
  unfold users
  rw [List.length_eq_zero_iff, List.filter_eq_nil_iff]
  intro user mem
  obtain ⟨cached, listed, uses⟩ := valid.uses user mem
  rw [decide_eq_true_eq, uses.shape]
  exact absent cached listed

/-! ### Changes of the cache -/

section Changes

variable {dmn : PtrnDomain} {live after : List LiveAction} {cached : CachedPattern}

variable (valid : PtrnRun.Cached ⟨dmn, live⟩)

include valid

theorem PtrnRun.Cached.recount (mem : cached ∈ dmn.modifyHdrList) {refcount list}
    (perm : list.Perm ({ cached with refcount := refcount } :: dmn.modifyHdrList.erase cached))
    (pos : 0 < refcount) (here : users after cached.shape = refcount)
    (elsewhere : ∀ shape, shape ≠ cached.shape → users after shape = users live shape)
    (from_ : ∀ user ∈ after, user ∈ live ∨ user.Uses cached dmn.args) :
    PtrnRun.Cached ⟨{ dmn with modifyHdrList := list }, after⟩ := by
  have split := perm_cons_erase mem
  have listed : ∀ other ∈ list, other = { cached with refcount := refcount } ∨
      other ∈ dmn.modifyHdrList.erase cached := by
    intro other inList
    exact List.mem_cons.mp (perm.mem_iff.mp inList)
  refine ⟨valid.pool, valid.icmType, ?_, ?_, ?_, ?_, ?_⟩
  · have chunks := perm.map chunk
    exact valid.used.trans ((split.map chunk).trans chunks.symm)
  · have shapes := perm.map shape
    exact shapes.nodup_iff.mpr ((split.map shape).nodup_iff.mp valid.shapes)
  · intro other inList
    rcases listed other inList with rfl | inRest
    · exact ((valid.stored cached mem).recount refcount).congr rfl rfl
    · exact (valid.stored other (mem_of_mem_erase inRest)).congr rfl rfl
  · intro other inList
    rcases listed other inList with rfl | inRest
    · exact ⟨here.symm, pos⟩
    · obtain ⟨inOld, apart⟩ := mem_erase_shape valid.shapes mem inRest
      change other.refcount = users after other.shape ∧ 0 < other.refcount
      rw [elsewhere other.shape apart]
      exact valid.counted other inOld
  intro user inAfter
  have changed : { cached with refcount := refcount } ∈ list :=
    perm.mem_iff.mpr (.head _)
  rcases from_ user inAfter with old | uses
  · obtain ⟨entry, inOld, uses⟩ := valid.uses user old
    by_cases same : entry = cached
    · rw [same] at uses
      exact ⟨_, changed, uses.recount refcount⟩
    · exact ⟨entry, perm.mem_iff.mpr (List.mem_cons_of_mem _ ((List.mem_erase_of_ne same).mpr inOld)), uses⟩
  · exact ⟨_, changed, uses.recount refcount⟩

theorem PtrnRun.Cached.frame {changed} (list : changed.modifyHdrList = dmn.modifyHdrList)
    (base : changed.hdrModifyPatternIcmAddr = dmn.hdrModifyPatternIcmAddr)
    (pool : changed.ptrnIcmPool.Valid)
    (icmType : changed.ptrnIcmPool.icmType = dmn.ptrnIcmPool.icmType)
    (used : changed.ptrnIcmPool.usedChunks.Perm dmn.ptrnIcmPool.usedChunks)
    (icm : ∀ cached ∈ dmn.modifyHdrList,
      HoldsWords drModifyActionSize changed.icm cached.chunk.icmAddr cached.data)
    (args : ∀ arg ∈ heldArgs live, ∀ words, arg.Holds dmn.args words → arg.Holds changed.args words) :
    PtrnRun.Cached ⟨changed, live⟩ := by
  cases changed
  cases list
  cases base
  refine { valid with
    pool := pool
    icmType := icmType.trans valid.icmType
    used := used.trans valid.used
    stored := ?_
    uses := ?_ }
  · exact fun cached mem => { valid.stored cached mem with written := icm cached mem }
  · intro user mem
    obtain ⟨cached, listed, uses⟩ := valid.uses user mem
    obtain ⟨arg, hasArg, holds⟩ := uses.arg
    have held : arg ∈ heldArgs live := List.mem_filterMap.mpr ⟨user, mem, hasArg⟩
    exact ⟨cached, listed, { uses with arg := ⟨arg, hasArg, args arg held _ holds⟩ }⟩

theorem PtrnRun.Cached.add (user) {pool chunk type}
    {index} (poolValid : pool.Valid) (icmType : pool.icmType = .modifyHdrPtrn)
    (used : pool.usedChunks.Perm (chunk :: dmn.ptrnIcmPool.usedChunks))
    (fits : user.compiled.length ≤ chunk.numOfEntries) (pos : 0 < chunk.numOfEntries)
    (bytes : chunk.byteSize = drModifyActionSize * chunk.numOfEntries)
    (compiled : CompiledList type user.compiled)
    (absent : ∀ cached ∈ dmn.modifyHdrList, cached.shape ≠ patternShape type user.compiled)
    (indexed : index = (chunk.icmAddr - dmn.hdrModifyPatternIcmAddr) / mlx5drActionCacheLineSize)
    (uses : user.Uses ⟨type, chunk, maskPattern user.compiled, index, 1⟩ dmn.args) :
    PtrnRun.Cached ⟨{ dmn with
      ptrnIcmPool := pool
      icm := writeWords drModifyActionSize dmn.icm chunk.icmAddr (maskPattern user.compiled)
      modifyHdrList := dmn.modifyHdrList ++
        [⟨type, chunk, maskPattern user.compiled, index, 1⟩] }, user :: live⟩ := by
  have length : (maskPattern user.compiled).length = user.compiled.length := length_map _
  have shape : shape ⟨type, chunk, maskPattern user.compiled, index, 1⟩ =
      patternShape type user.compiled := patternShape_maskPattern _ _
  have listed other (mem : other ∈ dmn.modifyHdrList ++ [(⟨type, chunk, maskPattern user.compiled, index,
      1⟩ : CachedPattern)]) : other ∈ dmn.modifyHdrList ∨ other = ⟨type, chunk, maskPattern user.compiled,
      index, 1⟩ := by
    rwa [List.mem_append, List.mem_singleton] at mem
  refine ⟨poolValid, icmType, ?_, ?_, ?_, ?_, ?_⟩
  · change pool.usedChunks.Perm (List.map _ (_ ++ _))
    rw [List.map_append, List.map_singleton]
    exact used.trans ((valid.used.cons chunk).trans (List.perm_append_singleton _ _).symm)
  · change (List.map _ (_ ++ _)).Nodup
    rw [List.map_append, List.map_singleton, List.nodup_append]
    refine ⟨valid.shapes, List.nodup_singleton _, ?_⟩
    intro old oldIn new newIn
    obtain ⟨cached, mem, rfl⟩ := List.mem_map.mp oldIn
    rw [List.mem_singleton.mp newIn, shape]
    exact absent cached mem
  · intro other mem
    rcases listed other mem with old | rfl
    · have stored := valid.stored other old
      refine { stored with written := ?_ }
      have inUsed : other.chunk ∈ dmn.ptrnIcmPool.usedChunks := valid.used.mem_iff.mpr (mem_map_of_mem old)
      refine HoldsWords.other_chunk stored.written (poolValid.apart used inUsed) ?_ ?_
      · rw [stored.bytes]
        exact Nat.mul_le_mul_left _ stored.fits
      · rw [bytes, length]
        exact Nat.mul_le_mul_left _ fits
    · exact ⟨length.trans_le fits, pos, bytes, writeWords_holds (by decide), indexed,
        user.compiled, compiled, rfl⟩
  · intro other mem
    rw [users_cons, uses.shape]
    rcases listed other mem with old | rfl
    · have apart : patternShape type user.compiled ≠ other.shape := (absent other old).symm
      rw [shape, if_neg apart, add_zero]
      exact valid.counted other old
    · rw [if_pos rfl, shape]
      have none := valid.users_eq_zero absent
      rw [none]
      exact ⟨rfl, Nat.one_pos⟩
  · intro other mem
    rcases List.mem_cons.mp mem with rfl | old
    · exact ⟨_, List.mem_append_right _ (.head _), uses⟩
    · obtain ⟨entry, inOld, entryUses⟩ := valid.uses other old
      exact ⟨entry, List.mem_append_left _ inOld, entryUses⟩

theorem PtrnRun.Cached.remove (mem : cached ∈ dmn.modifyHdrList) {pool} (poolValid : pool.Valid)
    (icmType : pool.icmType = dmn.ptrnIcmPool.icmType)
    (used : dmn.ptrnIcmPool.usedChunks.Perm (cached.chunk :: pool.usedChunks))
    (here : users after cached.shape = 0)
    (elsewhere : ∀ shape, shape ≠ cached.shape → users after shape = users live shape)
    (old : ∀ user ∈ after, user ∈ live) :
    PtrnRun.Cached ⟨{ dmn with
      ptrnIcmPool := pool
      modifyHdrList := dmn.modifyHdrList.erase cached }, after⟩ := by
  have split := perm_cons_erase mem
  refine ⟨poolValid, icmType.trans valid.icmType, ?_, ?_, ?_, ?_, ?_⟩
  · have chunks := used.symm.trans (valid.used.trans (split.map CachedPattern.chunk))
    exact chunks.cons_inv
  · exact valid.shapes.sublist (List.Sublist.map _ List.erase_sublist)
  · intro other inRest
    exact (valid.stored other (mem_of_mem_erase inRest)).congr rfl rfl
  · intro other inRest
    obtain ⟨inOld, apart⟩ := mem_erase_shape valid.shapes mem inRest
    rw [elsewhere other.shape apart]
    exact valid.counted other inOld
  intro user inAfter
  obtain ⟨entry, inOld, uses⟩ := valid.uses user (old user inAfter)
  refine ⟨entry, (List.mem_erase_of_ne ?_).mpr inOld, uses⟩
  rintro rfl
  unfold users at here
  rw [List.length_eq_zero_iff, List.filter_eq_nil_iff] at here
  exact here user inAfter (by rw [decide_eq_true_eq]; exact uses.shape)

omit valid

end Changes

/-! ### Creating -/

/-- A creation past its argument happens while posts are done, and finds its pattern or gets a chunk with an
entry for each word. -/
def CreateMeets (dmn : PtrnDomain) (action : RewriteAction) (env : CreateEnv) : Prop :=
  dmn.supported = false ∨ (drSteV1AllocModifyHdrArg dmn action env).2.1 = none ∨
    dmn.errState = false ∧ ((drSteV1FindCachedPattern dmn action).isSome = true ∨
        (∃ pool chunk, mlx5drIcmAllocChunk dmn.ptrnIcmPool
            (dynamicChunkSize action.data.length) env.icm = some (pool, some chunk)) ∧
          action.data.length ≤ mlx5drIcmPoolChunkSizeToEntries (dynamicChunkSize action.data.length))

structure CreateEnv.Fresh (env : CreateEnv) (run : PtrnRun) : Prop where
  icm : env.icm.Fresh run.dmn.ptrnIcmPool
  arg : env.arg.Fresh run.dmn.granularity (heldArgs run.live ++ freeArgs run.dmn.argPools)

/-- The action has a chunk in use, a cache entry for it and an argument object. -/
structure Obtained (dmn after : PtrnDomain) (made : RewriteAction) (numOfActions : Nat) :
    Prop where
  chunk : ∃ cached ∈ after.modifyHdrList, made.chunk = some cached.chunk ∧
    cached.chunk ∈ after.ptrnIcmPool.usedChunks
  arg : ∃ arg, made.arg = some arg ∧
    Refilled dmn.granularity (drGetArgSize numOfActions) dmn.argPools after.argPools [arg]

/-- The cache, the chunks in use and the objects that are not free are as before. -/
structure Released (dmn after : PtrnDomain) (numOfActions : Nat) : Prop where
  cache : after.modifyHdrList = dmn.modifyHdrList
  chunks : after.ptrnIcmPool.usedChunks.Perm dmn.ptrnIcmPool.usedChunks
  args : Refilled dmn.granularity (drGetArgSize numOfActions) dmn.argPools after.argPools []

structure Created (run : PtrnRun) (compiled : List HwAction) (after : PtrnDomain)
    (made : RewriteAction) (ret : Int) : Prop where
  success : ret = 0 → PtrnRun.Valid ⟨after, ⟨made, compiled⟩ :: run.live⟩ ∧
    Obtained run.dmn after made compiled.length
  failure : ret ≠ 0 → PtrnRun.Valid ⟨after, run.live⟩ ∧ Released run.dmn after compiled.length

variable {made : RewriteAction}

theorem Created.of_success {run compiled after}
    (valid : PtrnRun.Valid ⟨after, ⟨made, compiled⟩ :: run.live⟩)
    (obtained : Obtained run.dmn after made compiled.length) :
    Created run compiled after made 0 :=
  ⟨fun _ => ⟨valid, obtained⟩, fun failed => absurd rfl failed⟩

theorem Created.of_failure {run compiled after ret}
    (failed : ret ≠ 0) (valid : PtrnRun.Valid ⟨after, run.live⟩)
    (freed : Released run.dmn after compiled.length) : Created run compiled after made ret :=
  ⟨fun success => absurd success failed, fun _ => ⟨valid, freed⟩⟩

/-- The state between the argument and the pattern: the object is held already. -/
structure WithArg (run : PtrnRun) (compiled : List HwAction) (dmn : PtrnDomain) (arg : ArgObject) : Prop where
  cached : PtrnRun.Cached ⟨dmn, run.live⟩
  args : ArgsValid dmn.argPools (arg :: heldArgs run.live)
  same : SameButArgs run.dmn dmn
  refilled : Refilled run.dmn.granularity (drGetArgSize compiled.length) run.dmn.argPools
    dmn.argPools [arg]
  running : dmn.errState = false
  holds : arg.Holds dmn.args compiled

section Create

variable {run : PtrnRun} {compiled : List HwAction} {dmn : PtrnDomain} {arg : ArgObject}

variable (taken : WithArg run compiled dmn arg)

include taken

theorem WithArg.list : dmn.modifyHdrList = run.dmn.modifyHdrList := by rw [taken.same]

theorem WithArg.pool : dmn.ptrnIcmPool = run.dmn.ptrnIcmPool := by rw [taken.same]

theorem WithArg.put {changed} (cached : PtrnRun.Cached ⟨changed, run.live⟩)
    (pools : changed.argPools = dmn.argPools) (list : changed.modifyHdrList = dmn.modifyHdrList)
    (used : changed.ptrnIcmPool.usedChunks.Perm dmn.ptrnIcmPool.usedChunks) :
    PtrnRun.Valid ⟨mlx5drArgPutObj changed arg, run.live⟩ ∧
      Released run.dmn (mlx5drArgPutObj changed arg) compiled.length := by
  refine ⟨⟨?_, ?_⟩, ?_, ?_, ?_⟩
  · refine cached.frame rfl rfl cached.pool rfl (.refl _) ?_ fun _ _ _ holds => holds
    intro entry mem
    exact (cached.stored entry mem).written
  · change ArgsValid (update changed.argPools _ _) _
    rw [pools]
    exact taken.args.put
  · exact list.trans taken.list
  · rw [← taken.pool]
    exact used
  · obtain ⟨added, source, perm⟩ := taken.refilled
    refine ⟨added, source, ?_⟩
    change (freeArgs (update changed.argPools _ _)).Perm _
    rw [pools]
    exact (freeArgs_put (taken.args.heldSized arg (.head _))).trans perm

variable {type : RewriteType}

theorem WithArg.hit (isCompiled : CompiledList type compiled) {entry}
    (mem : entry ∈ dmn.modifyHdrList) (sameShape : entry.shape = patternShape type compiled) :
    Created run compiled
      { dmn with modifyHdrList := dmn.modifyHdrList.erase entry ++
          [{ entry with refcount := entry.refcount + 1 }] }
      ⟨type, entry.data, some entry.chunk, entry.index, some arg⟩ 0 := by
  have sameType : entry.type = type := congrArg Prod.fst sameShape
  obtain ⟨source, sourceCompiled, masked⟩ := (taken.cached.stored entry mem).compiled
  have pattern : entry.data = maskPattern compiled := by
    rw [masked]
    rw [sameType] at sourceCompiled
    refine sourceCompiled.maskPattern_eq isCompiled ?_
    rw [← patternShape_maskPattern, ← masked, ← sameShape, ← sameType]
    rfl
  have uses : LiveAction.Uses
      ⟨⟨type, entry.data, some entry.chunk, entry.index, some arg⟩, compiled⟩ entry dmn.args :=
    ⟨sameType.symm, rfl, rfl, rfl, pattern, arg, rfl, taken.holds⟩
  have counted := taken.cached.counted entry mem
  refine Created.of_success ⟨?_, taken.args⟩ ⟨?_, arg, rfl, taken.refilled⟩
  · refine taken.cached.recount mem (List.perm_append_singleton _ _) (Nat.succ_pos _) ?_ ?_ ?_
    · rw [users_cons, if_pos uses.shape, ← counted.1]
    · intro shape apart
      rw [users_cons, if_neg (fun same => apart (same.symm.trans uses.shape)), add_zero]
    · intro user inAfter
      rcases List.mem_cons.mp inAfter with rfl | old
      · exact .inr uses
      · exact .inl old
  · have chunkUsed : entry.chunk ∈ dmn.ptrnIcmPool.usedChunks :=
      taken.cached.used.mem_iff.mpr (mem_map_of_mem mem)
    exact ⟨_, List.mem_append_right _ (.head _), rfl, chunkUsed⟩

private theorem drSteV1CleanChunk_spec (changed) {chunk} (poolValid : changed.ptrnIcmPool.Valid)
    (icmType : changed.ptrnIcmPool.icmType = dmn.ptrnIcmPool.icmType)
    (used : changed.ptrnIcmPool.usedChunks.Perm (chunk :: dmn.ptrnIcmPool.usedChunks))
    (icm : ∀ entry ∈ dmn.modifyHdrList,
      HoldsWords drModifyActionSize changed.icm entry.chunk.icmAddr entry.data)
    (pools : changed.argPools = dmn.argPools) (list : changed.modifyHdrList = dmn.modifyHdrList)
    (base : changed.hdrModifyPatternIcmAddr = dmn.hdrModifyPatternIcmAddr)
    (args : changed.args = dmn.args) (action) {ret} (failed : ret ≠ 0)
    (env) :
    ∃ after made, drSteV1CleanChunk changed action chunk arg ret env = some (after, made, ret) ∧
      Created run compiled after made ret := by
  obtain ⟨pool, synced, freed, freedValid, lessUsed, _⟩ := mlx5drIcmFreeChunk_spec poolValid
    (used.symm.subset (.head _)) env.syncSteering
  have sameUsed : pool.usedChunks.Perm dmn.ptrnIcmPool.usedChunks := (lessUsed.symm.trans used).cons_inv
  have sameType := (mlx5drIcmFreeChunk_icmType freed).trans icmType
  have cached : PtrnRun.Cached ⟨{ changed with ptrnIcmPool := pool }, run.live⟩ := by
    refine taken.cached.frame list base freedValid sameType sameUsed icm ?_
    intro other _ words holds
    rw [args]
    exact holds
  obtain ⟨valid, released⟩ := taken.put cached pools list sameUsed
  unfold drSteV1CleanChunk
  rw [freed]
  exact ⟨_, _, rfl, Created.of_failure failed valid released⟩

/-- A list of a new shape that gets a chunk: every later failure undoes what was
done. -/
private theorem drSteV1AllocPattern_spec (isCompiled : CompiledList type compiled)
    (absent : ∀ entry ∈ dmn.modifyHdrList, entry.shape ≠ patternShape type compiled)
    {env} (fresh : env.icm.Fresh dmn.ptrnIcmPool) {chunkSize pool}
    {chunk} (given : mlx5drIcmAllocChunk dmn.ptrnIcmPool chunkSize env.icm = some (pool, some chunk))
    (fits : compiled.length ≤ mlx5drIcmPoolChunkSizeToEntries chunkSize) (ret) :
    ∃ after made result, drSteV1AllocPattern dmn ⟨type, compiled, none, 0, some arg⟩ arg chunkSize ret env =
        some (after, made, result) ∧ Created run compiled after made result := by
  obtain ⟨_, _, same, poolValid, _, moreUsed⟩ := mlx5drIcmAllocChunk_spec taken.cached.pool chunkSize fresh
  cases same.symm.trans given
  rw [toList_some] at moreUsed
  obtain ⟨sameType, sizes⟩ := mlx5drIcmAllocChunk_size given
  obtain ⟨entries, byteSize⟩ := sizes chunk rfl
  have bytes : chunk.byteSize = drModifyActionSize * chunk.numOfEntries := by
    rw [byteSize, entries, mlx5drIcmPoolChunkSizeToByte, taken.cached.icmType]
    rfl
  have pos : 0 < chunk.numOfEntries := by
    rw [entries, mlx5drIcmPoolChunkSizeToEntries, Nat.one_shiftLeft]
    exact Nat.two_pow_pos _
  rw [← entries] at fits
  have length : (maskPattern compiled).length = compiled.length := length_map _
  have written entry (mem : entry ∈ dmn.modifyHdrList) : HoldsWords drModifyActionSize
      (writeWords drModifyActionSize dmn.icm chunk.icmAddr (maskPattern compiled)) entry.chunk.icmAddr
      entry.data := by
    have stored := taken.cached.stored entry mem
    have inUsed := taken.cached.used.mem_iff.mpr (mem_map_of_mem mem)
    refine HoldsWords.other_chunk stored.written (poolValid.apart moreUsed inUsed) ?_ ?_
    · rw [stored.bytes]
      exact Nat.mul_le_mul_left _ stored.fits
    · rw [bytes, length]
      exact Nat.mul_le_mul_left _ fits
  unfold drSteV1AllocPattern
  rw [given]
  simp only [mlx5drSendPostsendAction, PtrnDomain.writeIcm]
  rcases postsendIcmData_cases { dmn with ptrnIcmPool := pool }
      { dmn with
        ptrnIcmPool := pool
        icm := writeWords drModifyActionSize dmn.icm chunk.icmAddr (maskPattern compiled) }
      env.patternPolled with ⟨broken, _⟩ | ⟨_, sent⟩ | ⟨_, sent⟩
  · exact absurd (taken.running.symm.trans broken) Bool.false_ne_true
  · simp only [sent]
    rw [if_pos cqPollErr_ne_zero]
    obtain ⟨after, made, cleaned, created⟩ := drSteV1CleanChunk_spec taken
      { dmn with ptrnIcmPool := pool, errState := true } poolValid sameType moreUsed
      (fun entry mem => (taken.cached.stored entry mem).written) rfl rfl rfl rfl
      ⟨type, maskPattern compiled, some chunk,
        (chunk.icmAddr - dmn.hdrModifyPatternIcmAddr) / mlx5drActionCacheLineSize, some arg⟩
      cqPollErr_ne_zero env
    exact ⟨after, made, _, cleaned, created⟩
  simp only [sent]
  rw [if_neg (not_not.mpr rfl)]
  cases allocatedEntry : env.cacheAlloc with
  | false =>
    have noEntry : eNoMem ≠ 0 := by decide
    simp only [drSteV1AddPatternToCache, if_true]
    rw [if_pos noEntry]
    obtain ⟨after, made, cleaned, created⟩ := drSteV1CleanChunk_spec taken
      { dmn with
        ptrnIcmPool := pool
        icm := writeWords drModifyActionSize dmn.icm chunk.icmAddr (maskPattern compiled) }
      poolValid sameType moreUsed written rfl rfl rfl rfl
      ⟨type, maskPattern compiled, some chunk,
        (chunk.icmAddr - dmn.hdrModifyPatternIcmAddr) / mlx5drActionCacheLineSize, some arg⟩
      noEntry env
    exact ⟨after, made, _, cleaned, created⟩
  | true =>
    simp only [drSteV1AddPatternToCache, Bool.true_eq_false, if_false]
    rw [if_neg (not_not.mpr rfl)]
    refine ⟨_, _, _, rfl, Created.of_success ⟨?_, taken.args⟩ ⟨?_, arg, rfl, taken.refilled⟩⟩
    · refine taken.cached.add ⟨⟨type, maskPattern compiled, some chunk,
          (chunk.icmAddr - dmn.hdrModifyPatternIcmAddr) / mlx5drActionCacheLineSize,
          some arg⟩, compiled⟩
        poolValid (sameType.trans taken.cached.icmType) moreUsed fits pos bytes isCompiled
        absent rfl ?_
      exact ⟨rfl, rfl, rfl, rfl, rfl, arg, rfl, taken.holds⟩
    · exact ⟨_, List.mem_append_right _ (.head _), rfl, moreUsed.symm.subset (.head _)⟩

omit taken

theorem Released.refl (dmn numOfActions) : Released dmn dmn numOfActions :=
  ⟨rfl, .refl _, Refilled.refl _ _ _⟩

theorem mlx5drSteAllocModifyHdr_spec (valid : run.Valid)
    (isCompiled : CompiledList type compiled) {env} (fresh : env.Fresh run)
    (meets : CreateMeets run.dmn ⟨type, compiled, none, 0, none⟩ env) :
    ∃ after made ret, mlx5drSteAllocModifyHdr run.dmn ⟨type, compiled, none, 0, none⟩ env =
        some (after, made, ret) ∧ Created run compiled after made ret := by
  unfold mlx5drSteAllocModifyHdr drSteV1AllocModifyHdrChunk
  split
  · exact ⟨_, _, _, rfl, Created.of_failure (by decide) valid (Released.refl _ _)⟩
  rename_i supported
  cases argument : drSteV1AllocModifyHdrArg run.dmn ⟨type, compiled, none, 0, none⟩ env with
  | mk dmn rest =>
    obtain ⟨object, ret⟩ := rest
    obtain ⟨same, kept, outcome⟩ := drSteV1AllocModifyHdrArg_spec valid.args fresh.arg argument
    have list : dmn.modifyHdrList = run.dmn.modifyHdrList := by rw [same]
    have pool : dmn.ptrnIcmPool = run.dmn.ptrnIcmPool := by rw [same]
    have base : dmn.hdrModifyPatternIcmAddr = run.dmn.hdrModifyPatternIcmAddr := by rw [same]
    have icm : dmn.icm = run.dmn.icm := by rw [same]
    have cached : PtrnRun.Cached ⟨dmn, run.live⟩ := by
      refine valid.cached.frame list base ?_ ?_ ?_ ?_ kept
      · rw [pool]
        exact valid.cached.pool
      · rw [pool]
      · rw [pool]
      · rw [icm]
        intro entry mem
        exact (valid.cached.stored entry mem).written
    rcases outcome with ⟨rfl, argsValid, refilled⟩ | ⟨arg, rfl, rfl, argsValid, refilled, done⟩
    · refine ⟨_, _, _, rfl, Created.of_failure (by decide) ⟨cached, argsValid⟩ ⟨list, ?_, refilled⟩⟩
      rw [pool]
    simp only
    have past : run.dmn.errState = false ∧
        ((drSteV1FindCachedPattern run.dmn ⟨type, compiled, none, 0, none⟩).isSome = true ∨
          (∃ pool chunk, mlx5drIcmAllocChunk run.dmn.ptrnIcmPool
              (dynamicChunkSize compiled.length) env.icm = some (pool, some chunk)) ∧
            compiled.length ≤ mlx5drIcmPoolChunkSizeToEntries (dynamicChunkSize compiled.length)) := by
      rcases meets with unsupported | failed | past
      · exact absurd unsupported supported
      · rw [argument] at failed
        cases failed
      · exact past
    obtain ⟨running, resources⟩ := past
    obtain ⟨stillRunning, holds⟩ := done running
    have taken : WithArg run compiled dmn arg := ⟨cached, argsValid, same, refilled, stillRunning, holds⟩
    have search : drSteV1FindCachedPattern dmn ⟨type, compiled, none, 0, some arg⟩ =
        drSteV1FindCachedPattern run.dmn ⟨type, compiled, none, 0, none⟩ := by
      unfold drSteV1FindCachedPattern
      rw [list]
      rfl
    cases found : drSteV1FindCachedPattern run.dmn ⟨type, compiled, none, 0, none⟩ with
    | some entry =>
      obtain ⟨mem, sameShape⟩ := mem_of_find found
      rw [← list] at mem
      unfold drSteV1GetCachedPattern
      rw [search, found]
      exact ⟨_, _, _, rfl, taken.hit isCompiled mem sameShape⟩
    | none =>
      rw [found] at resources
      obtain ⟨⟨newPool, chunk, given⟩, fits⟩ := resources.resolve_left (by simp)
      have absent : ∀ entry ∈ dmn.modifyHdrList, entry.shape ≠ patternShape type compiled := by
        rw [list]
        intro entry mem
        exact not_mem_of_find found mem
      unfold drSteV1GetCachedPattern
      rw [search, found]
      rw [← pool] at given
      refine drSteV1AllocPattern_spec taken isCompiled absent ?_ given fits 0
      rw [pool]
      exact fresh.icm

end Create

private theorem heldArgs_perm {live other} (perm : live.Perm other) : (heldArgs live).Perm (heldArgs other) :=
  perm.filterMap _

variable {user : LiveAction}

private theorem heldArgs_cons {arg} (hasArg : user.action.arg = some arg)
    (live) : heldArgs (user :: live) = arg :: heldArgs live := by
  simp [heldArgs, hasArg]

private theorem map_replace_perm {list : List CachedPattern} (apart : list.Nodup)
    {cached : CachedPattern} (mem : cached ∈ list) (changed) :
    (list.map fun other => if other = cached then changed else other).Perm
      (changed :: list.erase cached) := by
  have perm := (perm_cons_erase mem).map fun other => if other = cached then changed else other
  refine perm.trans ?_
  rw [map_cons, if_pos rfl]
  refine .cons _ (List.Perm.of_eq ?_)
  refine (List.map_congr_left ?_).trans (List.map_id _)
  intro other inRest
  refine if_neg ?_
  rintro rfl
  exact (apart.not_mem_erase) inRest

theorem drSteV1DeallocModifyHdrChunk_spec {run : PtrnRun} (valid : run.Valid)
    (mem : user ∈ run.live) (syncSteering) :
    ∃ after, drSteV1DeallocModifyHdrChunk run.dmn user.action syncSteering = some after ∧
      PtrnRun.Valid ⟨after, run.live.erase user⟩ := by
  obtain ⟨entry, listed, uses⟩ := valid.cached.uses user mem
  obtain ⟨arg, hasArg, _⟩ := uses.arg
  have split := perm_cons_erase mem
  have found : drSteV1FindCachedPattern run.dmn user.action = some entry := by
    rw [drSteV1FindCachedPattern_eq, uses.shape]
    exact findKey_eq_some valid.cached.shapes listed
  have counted := valid.cached.counted entry listed
  have here : entry.refcount = users (run.live.erase user) entry.shape + 1 := by
    rw [counted.1, users_perm split, users_cons, if_pos uses.shape]
  have elsewhere shape (apart : shape ≠ entry.shape) : users (run.live.erase user) shape = users run.live
      shape := by
    rw [users_perm split, users_cons, if_neg (fun same => apart (same.symm.trans uses.shape)), add_zero]
  have old other (inRest : other ∈ run.live.erase user) : other ∈ run.live := mem_of_mem_erase inRest
  have args : ArgsValid run.dmn.argPools (arg :: heldArgs (run.live.erase user)) := by
    have perm := heldArgs_perm split
    rw [heldArgs_cons hasArg] at perm
    exact valid.args.perm perm
  have putArg (dmn : PtrnDomain) (pools : dmn.argPools = run.dmn.argPools) (cached : PtrnRun.Cached
      ⟨dmn, run.live.erase user⟩) : PtrnRun.Valid ⟨mlx5drArgPutObj dmn arg, run.live.erase user⟩ := by
    refine ⟨?_, ?_⟩
    · refine cached.frame rfl rfl cached.pool rfl (.refl _) ?_ fun _ _ _ holds => holds
      intro other inList
      exact (cached.stored other inList).written
    · change ArgsValid (update dmn.argPools _ _) _
      rw [pools]
      exact args.put
  unfold drSteV1DeallocModifyHdrChunk drSteV1PutCachedPattern
  simp only [found, hasArg]
  by_cases last : entry.refcount - 1 = 0
  · rw [if_neg (not_not.mpr last), uses.chunk]
    have inUse : entry.chunk ∈ run.dmn.ptrnIcmPool.usedChunks :=
      valid.cached.used.mem_iff.mpr (mem_map_of_mem listed)
    obtain ⟨pool, synced, freed, freedValid, lessUsed, _⟩ :=
      mlx5drIcmFreeChunk_spec valid.cached.pool inUse syncSteering
    simp only [freed]
    refine ⟨_, rfl, putArg _ ?_ ?_⟩
    · rfl
    · exact valid.cached.remove listed freedValid (mlx5drIcmFreeChunk_icmType freed) lessUsed
        (by omega) elsewhere old
  · rw [if_pos last]
    refine ⟨_, rfl, putArg _ ?_ ?_⟩
    · rfl
    · have distinct : run.dmn.modifyHdrList.Nodup := List.Nodup.of_map _ valid.cached.shapes
      exact valid.cached.recount listed (map_replace_perm distinct listed _) (by omega) (by omega)
        elsewhere fun other inRest => .inl (old other inRest)

/-! ### Runs -/

/-- A domain just created; the device gives each pool of objects its own range. -/
structure PtrnDomain.Start (dmn : PtrnDomain) (caps : DomainCaps) (env : Nat → ArgEnv) :
    Prop where
  pool : dmn.ptrnIcmPool = mlx5drIcmPoolCreate caps .modifyHdrPtrn
  list : dmn.modifyHdrList = []
  pools : mlx5drArgPoolMngrCreate dmn.granularity env = some dmn.argPools
  ranges : ∀ first second firstId secondId, first < second → (env first).createModifyHeaderArg = some firstId →
      (env second).createModifyHeaderArg = some secondId →
        Disjoint (Set.Ico firstId (firstId + 2 ^ dmn.granularity))
          (Set.Ico secondId (secondId + 2 ^ dmn.granularity))

/-- A creation of an action with a pattern, a destruction, or an error of device or send queue. `allowed`
restricts the creations. -/
inductive PtrnStep (allowed : PtrnDomain → RewriteAction → CreateEnv → Prop) :
    PtrnRun → PtrnRun → Prop where
  | create (run : PtrnRun) (request : RewriteRequest) (hwActions : List HwAction)
      (env : CreateEnv) (after : PtrnDomain) (made : RewriteAction) (ret : Int)
      (compiled : request.compile run.dmn = .ok hwActions)
      (multi : request.singleActionOpt run.dmn hwActions = false) (fresh : env.Fresh run)
      (permitted : allowed run.dmn (request.action hwActions) env)
      (returned : mlx5drSteAllocModifyHdr run.dmn (request.action hwActions) env = some (after, made, ret)) :
      PtrnStep allowed run ⟨after, if ret = 0 then ⟨made, hwActions⟩ :: run.live else run.live⟩
  | destroy (run : PtrnRun) (user : LiveAction) (syncSteering : Bool) (after : PtrnDomain)
      (member : user ∈ run.live)
      (returned : drSteV1DeallocModifyHdrChunk run.dmn user.action syncSteering = some after) :
      PtrnStep allowed run ⟨after, run.live.erase user⟩
  | fail (run : PtrnRun) : PtrnStep allowed run ⟨{ run.dmn with errState := true }, run.live⟩

def PtrnReachable (allowed : PtrnDomain → RewriteAction → CreateEnv → Prop) (dmn : PtrnDomain) :
    PtrnRun → Prop :=
  Relation.ReflTransGen (PtrnStep allowed) ⟨dmn, []⟩

theorem RewriteRequest.compile_compiled {dmn : PtrnDomain} {request : RewriteRequest}
    {hwActions : List HwAction} (compiled : request.compile dmn = .ok hwActions) :
    CompiledList request.type hwActions := by
  cases request with
  | modifyHeader swActions =>
    simp only [compile] at compiled
    split at compiled
    · cases compiled
    cases converted : drActionsConvertModifyHeader dmn.type dmn.fieldArr
        (mlx5drIcmPoolChunkSizeToEntries drChunkSize16) swActions with
    | error ret =>
      rw [converted] at compiled
      cases compiled
    | ok state =>
      rw [converted] at compiled
      cases compiled
      exact drActionsConvertModifyHeader_compiled converted
  | decapL3 data => exact mlx5drSteSetActionDecapL3List_compiled compiled

private theorem drArgPoolCreate_eq {granularity size env pool}
    (made : drArgPoolCreate granularity size env = some pool) :
    size ≤ granularity ∧ ∃ objId, env.createModifyHeaderArg = some objId ∧
      pool = newArgObjects granularity size objId := by
  unfold drArgPoolCreate drArgAddNewObjectsToPool at made
  split at made
  · cases made
  rename_i wide
  split at made
  · cases made
  · rename_i objId create
    split at made
    · cases made
      exact ⟨Nat.le_of_not_lt wide, objId, create, rfl⟩
    · cases made

variable {env : Nat → ArgEnv} {caps : DomainCaps}

theorem PtrnDomain.Start.argsValid {dmn : PtrnDomain}
    (start : dmn.Start caps env) : ArgsValid dmn.argPools [] := by
  have pools := start.pools
  unfold mlx5drArgPoolMngrCreate at pools
  split at pools
  · rename_i first second third firstMade secondMade thirdMade
    obtain ⟨firstFits, firstId, firstRange, rfl⟩ := drArgPoolCreate_eq firstMade
    obtain ⟨secondFits, secondId, secondRange, rfl⟩ := drArgPoolCreate_eq secondMade
    obtain ⟨thirdFits, thirdId, thirdRange, rfl⟩ := drArgPoolCreate_eq thirdMade
    have list := (some.inj pools).symm
    rw [list]
    refine argsValid_created dmn.granularity
      (fun size => if size = 0 then firstId else if size = 1 then secondId else thirdId) ?_ ?_
    · intro size below
      have cases : size = 0 ∨ size = 1 ∨ size = 2 := by
        simp only [drArgChunkSizeMax] at below
        omega
      rcases cases with rfl | rfl | rfl
      · exact ⟨firstFits, rfl⟩
      · exact ⟨secondFits, rfl⟩
      · exact ⟨thirdFits, rfl⟩
    intro first second old below
    have cases : (first = 0 ∧ second = 1) ∨ (first = 0 ∧ second = 2) ∨ (first = 1 ∧ second = 2) := by
      simp only [drArgChunkSizeMax] at below
      omega
    rcases cases with ⟨rfl, rfl⟩ | ⟨rfl, rfl⟩ | ⟨rfl, rfl⟩
    · exact start.ranges 0 1 _ _ old firstRange secondRange
    · exact start.ranges 0 2 _ _ old firstRange thirdRange
    · exact start.ranges 1 2 _ _ old secondRange thirdRange
  · cases pools

theorem PtrnDomain.Start.valid {dmn} (start : dmn.Start caps env) : PtrnRun.Valid ⟨dmn, []⟩ := by
  refine ⟨⟨?_, ?_, ?_, ?_, ?_, ?_, ?_⟩, start.argsValid⟩
  · rw [start.pool]
    exact mlx5drIcmPoolCreate_valid caps .modifyHdrPtrn
  · rw [start.pool]
    rfl
  · rw [start.pool, start.list]
    exact .refl _
  · rw [start.list]
    exact List.nodup_nil
  · simp [start.list]
  · simp [start.list]
  · simp

theorem PtrnStep.valid {run after} (step : PtrnStep CreateMeets run after)
    (valid : run.Valid) : after.Valid := by
  cases step with
  | create request hwActions env dmn made ret compiled multi fresh permitted back =>
    obtain ⟨_, _, _, res, created⟩ := mlx5drSteAllocModifyHdr_spec valid
      (compile_compiled compiled) fresh permitted
    cases res.symm.trans back
    split_ifs with success
    · exact (created.success success).1
    · exact (created.failure success).1
  | destroy user syncSteering dmn mem back =>
    obtain ⟨_, res, destroyed⟩ := drSteV1DeallocModifyHdrChunk_spec valid mem syncSteering
    cases res.symm.trans back
    exact destroyed
  | fail =>
    refine ⟨?_, valid.args⟩
    refine valid.cached.frame rfl rfl valid.cached.pool rfl (.refl _) ?_ fun _ _ _ holds => holds
    intro entry mem
    exact (valid.cached.stored entry mem).written

theorem PtrnReachable.valid {dmn} (start : dmn.Start caps env) {run}
    (reachable : PtrnReachable CreateMeets dmn run) : run.Valid := by
  induction reachable with
  | refl => exact start.valid
  | tail _ step ih => exact step.valid ih

/-! ### What every run keeps -/

def LiveAction.Computed (user : LiveAction) (dmn : PtrnDomain) : Prop :=
  ∃ chunk arg, user.action.chunk = some chunk ∧ user.action.arg = some arg ∧
    user.compiled.length ≤ chunk.numOfEntries ∧ ∀ i (below : i < user.compiled.length),
        (dmn.icm (chunk.icmAddr + drModifyActionSize * i)).or
          (dmn.args (mlx5drActionCacheLineSize * mlx5drArgGetObjectId arg +
            drModifyActionSize * i)) = user.compiled[i]

/-- Live actions' lists are computed, a pattern is referenced by its users, the chunks in use are those of
patterns with users, and a creation has chunk, object and entry when it returns zero, else none. -/
structure PtrnRun.Exact (allowed : PtrnDomain → RewriteAction → CreateEnv → Prop) (run : PtrnRun) : Prop where
  computed : ∀ user ∈ run.live, user.Computed run.dmn
  refcount : ∀ cached ∈ run.dmn.modifyHdrList, 0 < cached.refcount ∧ cached.refcount =
    (run.live.filter fun user => user.action.chunk = some cached.chunk).length
  chunks : run.dmn.ptrnIcmPool.usedChunks.Perm (run.dmn.modifyHdrList.map CachedPattern.chunk)
  creations : ∀ request hwActions env, compile run.dmn request = .ok hwActions →
    request.singleActionOpt run.dmn hwActions = false → env.Fresh run →
    allowed run.dmn (request.action hwActions) env →
      ∃ after made ret, mlx5drSteAllocModifyHdr run.dmn (request.action hwActions) env =
          some (after, made, ret) ∧
        (ret = 0 → Obtained run.dmn after made hwActions.length) ∧
        (ret ≠ 0 → Released run.dmn after hwActions.length)

theorem PtrnRun.Cached.chunk_injective {run : PtrnRun} (valid : run.Cached)
    {left right : CachedPattern} (leftIn : left ∈ run.dmn.modifyHdrList)
    (rightIn : right ∈ run.dmn.modifyHdrList) (same : left.chunk = right.chunk) :
    left = right := by
  by_contra different
  have inRest := (List.mem_erase_of_ne (Ne.symm different)).mpr rightIn
  have used := valid.used.trans ((perm_cons_erase leftIn).map CachedPattern.chunk)
  have apart := valid.pool.apart used (mem_map_of_mem inRest)
  rw [same, disjoint_self, Set.bot_eq_empty] at apart
  have stored := valid.stored right rightIn
  have inside : right.chunk.icmAddr ∈ right.chunk.range := by
    refine Set.mem_Ico.mpr ⟨le_refl _, ?_⟩
    have positive := stored.positive
    rw [stored.bytes, drModifyActionSize]
    omega
  rw [apart] at inside
  exact inside

theorem LiveAction.Uses.computed {cached dmn}
    (uses : user.Uses cached dmn.args) (stored : cached.Stored dmn) : user.Computed dmn := by
  obtain ⟨arg, hasArg, holds⟩ := uses.arg
  have length : cached.data.length = user.compiled.length := by
    rw [uses.pattern]
    exact length_map _
  refine ⟨cached.chunk, arg, uses.chunk, hasArg, length ▸ stored.fits, ?_⟩
  intro i below
  have pattern := stored.written i (length.symm ▸ below)
  have argument := holds.written i below
  have masked : cached.data[i] = user.compiled[i].mask := by
    simp only [uses.pattern, maskPattern, List.getElem_map]
  rw [pattern, argument, masked]
  exact HwAction.or_mask _

/-- Whatever is created and destroyed, with any failure, while each creation past its argument finds posts
working and a cached pattern or a chunk with room for its words. -/
theorem patterns_exact (dmn : PtrnDomain) (caps : DomainCaps) (env : Nat → ArgEnv) (start : dmn.Start caps env)
    (run : PtrnRun) (reachable : PtrnReachable CreateMeets dmn run) : run.Exact CreateMeets := by
  have valid := reachable.valid start
  refine ⟨?_, ?_, valid.cached.used, ?_⟩
  · intro user member
    obtain ⟨cached, listed, uses⟩ := valid.cached.uses user member
    exact uses.computed (valid.cached.stored cached listed)
  · intro cached listed
    obtain ⟨count, positive⟩ := valid.cached.counted cached listed
    refine ⟨positive, count.trans ?_⟩
    refine congrArg List.length (List.filter_congr ?_)
    intro user member
    obtain ⟨entry, entryIn, uses⟩ := valid.cached.uses user member
    rw [uses.shape, uses.chunk, decide_eq_decide, some.injEq]
    constructor
    · intro same
      rw [List.inj_on_of_nodup_map valid.cached.shapes entryIn listed same]
    · intro same
      rw [valid.cached.chunk_injective entryIn listed same]
  · intro request hwActions createEnv compiled _ fresh permitted
    obtain ⟨after, made, ret, returned, created⟩ := mlx5drSteAllocModifyHdr_spec valid
      (compile_compiled compiled) fresh permitted
    exact ⟨after, made, ret, returned, fun success => (created.success success).2,
      fun failure => (created.failure failure).2⟩

/-- A domain with one small range of objects for each size and no pattern yet. -/
def decapDomain : PtrnDomain :=
  { type := .fdb
    fieldArr := []
    connectX6Dx := true
    supported := true
    granularity := 2
    hdrModifyPatternIcmAddr := 4096
    ptrnIcmPool := mlx5drIcmPoolCreate ⟨10, 4⟩ .modifyHdrPtrn
    argPools := fun size =>
      if size = 0 then newArgObjects 2 0 0
      else if size = 1 then newArgObjects 2 1 100
      else if size = 2 then newArgObjects 2 2 200
      else []
    modifyHdrList := []
    errState := false
    icm := fun _ => HwAction.zero
    args := fun _ => HwAction.zero }

def decapArgEnv (size : Nat) : ArgEnv := ⟨some (100 * size), fun _ => true⟩

def decapHeader : List (BitVec 8) := [2, 0, 0, 0, 0, 1, 2, 0, 0, 0, 0, 2, 8, 0]

def decapWords : List HwAction := drSteV1SetActionDecapL3List decapHeader

/-- Everything works, except for the region of device memory if `region` is false. -/
def decapEnv (region : Bool) : CreateEnv :=
  { arg := decapArgEnv 3
    argPolled := fun _ => true
    icm := ⟨region, some 4096, true, some 7, true, true, true⟩
    patternPolled := true
    cacheAlloc := true
    syncSteering := true }

theorem decapDomain_start : decapDomain.Start ⟨10, 4⟩ decapArgEnv := by
  refine ⟨rfl, rfl, rfl, ?_⟩
  intro first second firstId secondId old firstRange secondRange
  simp only [decapArgEnv, some.injEq] at firstRange secondRange
  rw [Set.disjoint_left]
  intro number inFirst inSecond
  simp only [decapDomain, Set.mem_Ico] at inFirst inSecond
  omega

theorem decapEnv_fresh (region) : (decapEnv region).Fresh ⟨decapDomain, []⟩ := by
  refine ⟨⟨?_, ?_⟩, ?_⟩
  · intro self _ buddyMem mem
    cases mem
  · intro start _ buddyMem mem
    cases mem
  intro objId range arg mem
  rw [decapEnv, decapArgEnv, some.injEq] at range
  have ends : ∀ arg ∈ freeArgs decapDomain.argPools,
      mlx5drArgGetObjectId arg + 2 ^ arg.logChunkSize ≤ 204 := by decide
  have bound := ends arg mem
  rw [Set.disjoint_left]
  intro number inNew inOld
  simp only [ArgObject.range, Set.mem_Ico] at inNew inOld
  omega

def otherHeader : List (BitVec 8) := [2, 0, 0, 0, 0, 5, 2, 0, 0, 0, 0, 6, 8, 0]

def otherWords : List HwAction := drSteV1SetActionDecapL3List otherHeader

/-- Neither a range of objects nor device memory is to be had. -/
def sharedEnv : CreateEnv :=
  { decapEnv false with
    arg := ⟨none, fun _ => true⟩
    icm := ⟨false, none, true, none, true, true, true⟩ }

private theorem decap_shares {dmn : PtrnDomain} (supported : dmn.supported = true) (working : dmn.errState = false)
    {arg args} (free : dmn.argPools 0 = arg :: args) {cached} (listed : dmn.modifyHdrList = [cached])
    (same : cached.type = .tnlL3ToL2) (length : cached.data.length = 6) : ∃ after made,
      mlx5drSteAllocModifyHdr dmn ⟨.tnlL3ToL2, otherWords, none, 0, none⟩ sharedEnv = some (after, made, 0) ∧
        made.chunk = some cached.chunk := by
  have taken : mlx5drArgGetObj dmn 0 sharedEnv.arg = (dmn.setPool 0 args, some arg) := by
    simp [mlx5drArgGetObj, drArgGetObjFromPool, free, drArgChunkSizeMax]
  have sent : ∃ later, mlx5drSendPostsendArgs (dmn.setPool 0 args) arg otherWords sharedEnv.argPolled =
      (later, 0) ∧ later.modifyHdrList = dmn.modifyHdrList := by
    refine ⟨(dmn.setPool 0 args).writeArgs (mlx5drArgGetObjectId arg + 0) (otherWords.take 8), ?_, rfl⟩
    change postsendArgsFrom _ _ 1 0 _ _ = _
    simp [postsendArgsFrom, PtrnDomain.postsendIcmData, PtrnDomain.setPool, working, sharedEnv, decapEnv]
  obtain ⟨later, sent, kept⟩ := sent
  have found (action : RewriteAction) (type : action.type = .tnlL3ToL2) (six : action.data.length = 6) :
      drSteV1FindCachedPattern later action = some cached := by
    simp [drSteV1FindCachedPattern, kept, listed, CachedPattern.matches, drSteV1ComparePattern, six, type,
      same, length]
  have size : drGetArgSize otherWords.length = 0 := rfl
  unfold mlx5drSteAllocModifyHdr drSteV1AllocModifyHdrChunk drSteV1AllocModifyHdrArg drSteV1GetCachedPattern
  simp only [supported, size, taken, sent, Bool.true_eq_false, if_false, ne_eq, not_true]
  rw [found _ rfl rfl]
  exact ⟨_, _, rfl, rfl⟩

/-- Two L3 decaps with different headers share a pattern, and one is destroyed. -/
theorem patterns_exact_shared : ∃ run first second last, PtrnReachable CreateMeets decapDomain run ∧
    run.live = [second, first] ∧ first.compiled ≠ second.compiled ∧
    second.action.chunk = first.action.chunk ∧ run.Exact CreateMeets ∧
    PtrnStep CreateMeets run last ∧ last.live = [first] ∧ last.Exact CreateMeets := by
  obtain ⟨one, made, cached, arg, args, returned, supported, working, free, listed, same, length, chunk⟩ :
      ∃ one made cached arg args, mlx5drSteAllocModifyHdr decapDomain ((decapL3 decapHeader).action decapWords)
          (decapEnv true) = some (one, made, 0) ∧ one.supported = true ∧ one.errState = false ∧
        one.argPools 0 = arg :: args ∧ one.modifyHdrList = [cached] ∧ cached.type = .tnlL3ToL2 ∧
        cached.data.length = 6 ∧ made.chunk = some cached.chunk :=
    ⟨_, _, _, _, _, by rfl, by rfl, by rfl, by rfl, by rfl, by rfl, by rfl, by rfl⟩
  have got : ∃ pool chunk, mlx5drIcmAllocChunk decapDomain.ptrnIcmPool
      (dynamicChunkSize decapWords.length) (decapEnv true).icm = some (pool, some chunk) :=
    ⟨_, _, by rfl⟩
  have meets : CreateMeets decapDomain ((decapL3 decapHeader).action decapWords) (decapEnv true) :=
    .inr (.inr ⟨rfl, .inr ⟨got, by decide⟩⟩)
  have created := PtrnStep.create ⟨decapDomain, []⟩ (.decapL3 decapHeader) decapWords (decapEnv true)
    one made 0 rfl rfl (decapEnv_fresh true) meets returned
  obtain ⟨two, other, again, sameChunk⟩ := decap_shares supported working free listed same length
  have found : (drSteV1FindCachedPattern one ⟨.tnlL3ToL2, otherWords, none, 0, none⟩).isSome = true := by
    have six : otherWords.length = 6 := rfl
    simp [drSteV1FindCachedPattern, listed, CachedPattern.matches, drSteV1ComparePattern, same, length, six]
  have reached : PtrnReachable CreateMeets decapDomain _ := (Relation.ReflTransGen.single created).tail
    (.create _ (.decapL3 otherHeader) otherWords sharedEnv two other 0 rfl rfl
      ⟨⟨fun _ none => absurd none (by simp [sharedEnv]), fun _ none => absurd none (by simp [sharedEnv])⟩,
        fun _ none => absurd none (by simp [sharedEnv])⟩ (.inr (.inr ⟨working, .inl found⟩)) again)
  obtain ⟨after, gone, -⟩ := drSteV1DeallocModifyHdrChunk_spec (reached.valid decapDomain_start) (.head _) true
  have dropped : PtrnStep CreateMeets _ _ := .destroy _ _ true after (.head _) gone
  have apart : decapWords ≠ otherWords := by decide
  exact ⟨_, _, _, _, reached, rfl, apart, sameChunk.trans chunk.symm,
    patterns_exact _ _ _ decapDomain_start _ reached, dropped, List.erase_cons_head _ _,
    patterns_exact _ _ _ decapDomain_start _ (reached.tail dropped)⟩

/-- With no region for a new pattern the creation gives its object back and returns zero without a chunk. -/
theorem create_without_chunk_returns_zero : ¬∀ dmn caps env, PtrnDomain.Start dmn caps env →
      ∀ run, PtrnReachable (fun _ _ _ => True) dmn run → run.Exact fun _ _ _ => True := by
  intro exact
  have start := exact _ _ _ decapDomain_start ⟨decapDomain, []⟩ .refl
  obtain ⟨after, made, ret, returned, success, _⟩ := start.creations (.decapL3 decapHeader)
    decapWords (decapEnv false) rfl rfl (decapEnv_fresh false) trivial
  obtain ⟨without, action, zero, noChunk⟩ : ∃ without action,
      mlx5drSteAllocModifyHdr decapDomain ((decapL3 decapHeader).action decapWords)
          (decapEnv false) = some (without, action, 0) ∧ action.chunk = none :=
    ⟨_, _, by rfl, by rfl⟩
  cases zero.symm.trans returned
  obtain ⟨cached, _, hasChunk, _⟩ := (success rfl).chunk
  rw [noChunk] at hasChunk
  cases hasChunk

theorem fits_dynamicChunkSize {numOfActions} (bound : numOfActions ≤ 16) :
    numOfActions ≤ mlx5drIcmPoolChunkSizeToEntries (dynamicChunkSize numOfActions) ↔
      numOfActions ≤ 8 ∨ numOfActions = 16 := by
  rcases Nat.eq_zero_or_pos numOfActions with rfl | positive
  · simp
  · interval_cases numOfActions <;> decide

end MlnxOfed.Steering
