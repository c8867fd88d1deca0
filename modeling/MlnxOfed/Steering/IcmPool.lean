/-
The steering ICM pool (dr_icm_pool.c): a list of buddies, each over one device memory region, that hands out
chunks and takes them back.

A freed chunk stays on its buddy's hot list until a sync-steering command has succeeded; then its units
return to the buddy, and a buddy without chunks is destroyed. Host allocations, region creation and the sync
command may fail at every call: the outcomes are arguments.
-/

import MlnxOfed.Steering.Buddy

namespace MlnxOfed.Steering

open Lib

inductive IcmType where
  | ste
  | modifyAction
  | modifyHdrPtrn
  deriving DecidableEq

def drSteSize : Nat := 64

def drModifyActionSize : Nat := 8

def drIcmModifyHdrAlignBase : Nat := 64

def drIcmSyncThreshold : Nat := 64 * 1024 * 1024

def drChunkSize4K : Nat := 12

def drChunkSize1024K : Nat := 20

def mlx5drIcmPoolDmTypeToEntrySize (icmType : IcmType) : Nat :=
  if icmType = .ste then drSteSize else drModifyActionSize

def mlx5drIcmPoolChunkSizeToEntries (chunkSize : Nat) : Nat := 1 <<< chunkSize

def mlx5drIcmPoolChunkSizeToByte (chunkSize : Nat) (icmType : IcmType) : Nat :=
  mlx5drIcmPoolDmTypeToEntrySize icmType * mlx5drIcmPoolChunkSizeToEntries chunkSize

/-- `struct mlx5dr_icm_chunk`; `buddyMem` is the address of the owning buddy. -/
structure IcmChunk where
  buddyMem : Nat
  mrAddr : Nat
  icmAddr : Nat
  numOfEntries : Nat
  byteSize : Nat
  seg : Nat
  deriving DecidableEq

/-- `struct mlx5dr_icm_buddy_mem`, at address `self`. -/
structure IcmBuddyMem where
  self : Nat
  buddy : Buddy
  icmStartAddr : Nat
  usedList : List IcmChunk
  hotList : List IcmChunk
  hotMemorySize : Nat
  usedMemory : Nat

structure IcmPool where
  icmType : IcmType
  maxLogChunkSz : Nat
  buddyMemList : List IcmBuddyMem

/-- The capabilities the pool sizes are computed from (dr_domain.c). -/
structure DomainCaps where
  logIcmSize : Nat
  logModifyPatternIcmSize : Nat

def DomainCaps.maxLogChunkSz (caps : DomainCaps) : IcmType → Nat
  | .ste => min drChunkSize1024K caps.logIcmSize
  | .modifyAction => drChunkSize4K
  | .modifyHdrPtrn => min drChunkSize4K caps.logModifyPatternIcmSize

def mlx5drIcmPoolCreate (caps : DomainCaps) (icmType : IcmType) : IcmPool :=
  { icmType := icmType
    maxLogChunkSz := caps.maxLogChunkSz icmType
    buddyMemList := [] }

def addU32 (left right : Nat) : Nat := (left + right) % 2 ^ 32

/-- Subtraction on `unsigned int`, with an underflow reported instead of wrapped. -/
def subU32 (left right : Nat) : Option Nat :=
  if right ≤ left then some (left - right) else none

/-- Outcomes of what a chunk allocation asks from host and device, in order. -/
structure AllocEnv where
  icmMrAlloc : Bool
  swIcmAlloc : Option Nat
  createDmMkey : Bool
  buddyAlloc : Option Nat
  buddyInit : Bool
  chunkAlloc : Bool
  chunkSteInit : Bool

variable (pool : IcmPool)

def IcmPool.logAlignBase : Nat :=
  match pool.icmType with
  | .ste => Nat.log2 (mlx5drIcmPoolChunkSizeToByte pool.maxLogChunkSz pool.icmType)
  | .modifyAction => Nat.log2 drIcmModifyHdrAlignBase
  | .modifyHdrPtrn => Nat.log2 drIcmModifyHdrAlignBase

def drIcmPoolMrCreate (env : AllocEnv) : Option Nat :=
  if env.icmMrAlloc = false then none
  else
    match env.swIcmAlloc with
    | none => none
    | some addr =>
      if env.createDmMkey = false then none
      else if addr &&& (2 ^ pool.logAlignBase - 1) ≠ 0 then none
      else some addr

def drIcmBuddyCreate (env : AllocEnv) : Option IcmPool :=
  match drIcmPoolMrCreate pool env with
  | none => none
  | some icmStartAddr =>
    match env.buddyAlloc with
    | none => none
    | some self =>
      if env.buddyInit = false then none
      else
        some { pool with
          buddyMemList :=
            { self := self
              buddy := drBuddyInit pool.maxLogChunkSz
              icmStartAddr := icmStartAddr
              usedList := []
              hotList := []
              hotMemorySize := 0
              usedMemory := 0 } :: pool.buddyMemList }

structure BuddyCursor where
  before : List IcmBuddyMem
  current : IcmBuddyMem
  after : List IcmBuddyMem

def BuddyCursor.list (cursor : BuddyCursor) : List IcmBuddyMem :=
  cursor.before ++ cursor.current :: cursor.after

/-- A pass of `dr_icm_handle_buddies_get_mem`. After a new buddy only that one, in front, is tried. -/
def drIcmSearchBuddies (chunkSize : Nat) (newMem : Bool) : List IcmBuddyMem → Option (BuddyCursor × Nat)
  | [] => none
  | buddyMem :: rest =>
    match drBuddyAllocMem buddyMem.buddy chunkSize with
    | (buddy, some seg) => some (⟨[], { buddyMem with buddy := buddy }, rest⟩, seg)
    | (buddy, none) =>
      if newMem then none
      else
        match drIcmSearchBuddies chunkSize newMem rest with
        | none => none
        | some (cursor, seg) =>
          some ({ cursor with
            before := { buddyMem with buddy := buddy } :: cursor.before }, seg)

def drIcmHandleBuddiesGetMem (chunkSize : Nat) (env : AllocEnv) :
    IcmPool × Option (BuddyCursor × Nat) :=
  match drIcmSearchBuddies chunkSize false pool.buddyMemList with
  | some found => (pool, some found)
  | none =>
    match drIcmBuddyCreate pool env with
    | none => (pool, none)
    | some grown => (grown, drIcmSearchBuddies chunkSize true grown.buddyMemList)

/-- The chunk `dr_icm_chunk_create` fills in. -/
def icmChunkAt (icmType : IcmType) (buddyMem : IcmBuddyMem) (chunkSize seg : Nat) : IcmChunk :=
  let offset := mlx5drIcmPoolDmTypeToEntrySize icmType * seg
  { buddyMem := buddyMem.self
    mrAddr := offset
    icmAddr := buddyMem.icmStartAddr + offset
    numOfEntries := mlx5drIcmPoolChunkSizeToEntries chunkSize
    byteSize := mlx5drIcmPoolChunkSizeToByte chunkSize icmType
    seg := seg }

def drIcmChunkCreate (icmType : IcmType) (chunkSize : Nat) (buddyMem : IcmBuddyMem) (seg : Nat)
    (env : AllocEnv) : Option (IcmBuddyMem × IcmChunk) :=
  if env.chunkAlloc = false then none
  else if icmType = .ste ∧ env.chunkSteInit = false then none
  else
    let chunk := icmChunkAt icmType buddyMem chunkSize seg
    some ({ buddyMem with
      usedList := buddyMem.usedList ++ [chunk]
      usedMemory := addU32 buddyMem.usedMemory chunk.byteSize }, chunk)

/-- The outer `none` is an illegal access, the inner one the null pointer returned. -/
def mlx5drIcmAllocChunk (chunkSize : Nat) (env : AllocEnv) :
    Option (IcmPool × Option IcmChunk) :=
  if pool.maxLogChunkSz < chunkSize then some (pool, none)
  else
    match drIcmHandleBuddiesGetMem pool chunkSize env with
    | (grown, none) => some (grown, none)
    | (grown, some (cursor, seg)) =>
      match drIcmChunkCreate grown.icmType chunkSize cursor.current seg env with
      | some (buddyMem, chunk) =>
        some ({ grown with
          buddyMemList := { cursor with current := buddyMem }.list }, some chunk)
      | none =>
        match drBuddyFreeMem cursor.current.buddy seg chunkSize with
        | none => none
        | some buddy =>
          some ({ grown with
            buddyMemList :=
              { cursor with current := { cursor.current with buddy := buddy } }.list }, none)

/-- `dr_icm_pool_is_sync_required`, with `allHotMem` accumulated so far. -/
def drIcmPoolIsSyncRequiredFrom (icmType : IcmType) : Nat → List IcmBuddyMem → Bool
  | _, [] => false
  | allHotMem, buddyMem :: rest =>
    let allowHotSize := mlx5drIcmPoolChunkSizeToByte (buddyMem.buddy.maxOrder - 2) icmType
    let allHotMem := allHotMem + buddyMem.hotMemorySize
    if buddyMem.hotMemorySize > allowHotSize ∨ allHotMem > drIcmSyncThreshold then true
    else drIcmPoolIsSyncRequiredFrom icmType allHotMem rest

def drIcmPoolIsSyncRequired : Bool :=
  drIcmPoolIsSyncRequiredFrom pool.icmType 0 pool.buddyMemList

/-- The inner loop of `dr_icm_pool_sync_all_buddy_pools` over one hot list. -/
def drIcmDrainHot : List IcmChunk → IcmBuddyMem → Option IcmBuddyMem
  | [], buddyMem => some buddyMem
  | chunk :: rest, buddyMem => do
      let buddy ← drBuddyFreeMem buddyMem.buddy chunk.seg (Nat.log2 chunk.numOfEntries)
      let hotMemorySize ← subU32 buddyMem.hotMemorySize chunk.byteSize
      let usedMemory ← subU32 buddyMem.usedMemory chunk.byteSize
      drIcmDrainHot rest { buddyMem with
        buddy := buddy
        hotMemorySize := hotMemorySize
        usedMemory := usedMemory
        hotList := rest }

def drIcmSyncBuddies : List IcmBuddyMem → Option (List IcmBuddyMem)
  | [] => some []
  | buddyMem :: rest => do
      let drained ← drIcmDrainHot buddyMem.hotList buddyMem
      let others ← drIcmSyncBuddies rest
      if drained.usedMemory = 0 then some others else some (drained :: others)

def drIcmPoolSyncAllBuddyPools (syncSteering : Bool) : Option IcmPool :=
  if syncSteering = false then some pool
  else
    match drIcmSyncBuddies pool.buddyMemList with
    | none => none
    | some buddies => some { pool with buddyMemList := buddies }

/-- `list_del_init` from the used list, `list_add_tail` to the hot list. -/
def IcmBuddyMem.heat (buddyMem : IcmBuddyMem) (chunk : IcmChunk) : IcmBuddyMem :=
  { buddyMem with
    usedList := buddyMem.usedList.erase chunk
    hotList := buddyMem.hotList ++ [chunk]
    hotMemorySize := addU32 buddyMem.hotMemorySize chunk.byteSize }

def IcmPool.heat (pool : IcmPool) (chunk : IcmChunk) : IcmPool :=
  { pool with
    buddyMemList := pool.buddyMemList.map fun buddyMem =>
      if buddyMem.self = chunk.buddyMem then buddyMem.heat chunk else buddyMem }

def mlx5drIcmFreeChunk (chunk : IcmChunk) (syncSteering : Bool) : Option (IcmPool × Bool) :=
  let heated := pool.heat chunk
  if drIcmPoolIsSyncRequired heated then
    match drIcmPoolSyncAllBuddyPools heated syncSteering with
    | none => none
    | some synced => some (synced, syncSteering)
  else some (heated, false)

end MlnxOfed.Steering
