/-
Patterns and arguments of modify-header and L3-decap actions in the v1 format (dr_ste_v1.c, dr_icm_pool.c,
dr_send.c).

Each action writes its whole list to an argument object. The pattern is taken from the domain's cache when a
list of the same shape has one, else masked, written to a new ICM chunk and cached with one reference.
-/

import MlnxOfed.Lib.WordMemory
import MlnxOfed.Steering.IcmPool
import MlnxOfed.Steering.ModifyHdr

namespace MlnxOfed.Steering

open Lib

structure ArgObject where
  objId : Nat
  objOffset : Nat
  logChunkSize : Nat
  deriving DecidableEq

def drArgChunkSizeMax : Nat := 3

def mlx5drActionCacheLineSize : Nat := 64

def mlx5drArgGetObjectId (arg : ArgObject) : Nat := arg.objId + arg.objOffset

/-- `struct mlx5dr_action_rewrite` with the type; `num_of_actions` is the length of `data`. -/
structure RewriteAction where
  type : RewriteType
  data : List HwAction
  chunk : Option IcmChunk
  index : Nat
  arg : Option ArgObject
  deriving DecidableEq

structure CachedPattern where
  type : RewriteType
  chunk : IcmChunk
  data : List HwAction
  index : Nat
  refcount : Nat
  deriving DecidableEq

/-- What patterns use of domain and device: `supported`, whether the pattern pool exists; `argPools`, the
free lists by chunk size; `errState`, set when device or send queue is out of order; `icm` and `args`, the
words posted to device memory. -/
structure PtrnDomain where
  type : DomainType
  fieldArr : List ModifyField
  connectX6Dx : Bool
  supported : Bool
  granularity : Nat
  hdrModifyPatternIcmAddr : Nat
  ptrnIcmPool : IcmPool
  argPools : Nat → List ArgObject
  modifyHdrList : List CachedPattern
  errState : Bool
  icm : Nat → HwAction
  args : Nat → HwAction

structure ArgEnv where
  createModifyHeaderArg : Option Nat
  argObjAlloc : Nat → Bool

def newArgObjects (granularity logChunkSize objId : Nat) : List ArgObject :=
  (List.range (1 <<< (granularity - logChunkSize))).map fun i =>
    ⟨objId, i * (1 <<< logChunkSize), logChunkSize⟩

/-- The free list after the call. A range smaller than one object would be a shift by a negative count. -/
def drArgAddNewObjectsToPool (granularity logChunkSize : Nat) (freeList : List ArgObject)
    (env : ArgEnv) : Option (List ArgObject) :=
  if granularity < logChunkSize then none
  else
    match env.createModifyHeaderArg with
    | none => none
    | some objId =>
      if (List.range (1 <<< (granularity - logChunkSize))).all env.argObjAlloc then
        some (freeList ++ newArgObjects granularity logChunkSize objId)
      else none

def drArgPoolCreate (granularity logChunkSize : Nat) (env : ArgEnv) : Option (List ArgObject) :=
  drArgAddNewObjectsToPool granularity logChunkSize [] env

def mlx5drArgPoolMngrCreate (granularity : Nat) (env : Nat → ArgEnv) : Option (Nat → List ArgObject) :=
  match drArgPoolCreate granularity 0 (env 0), drArgPoolCreate granularity 1 (env 1),
      drArgPoolCreate granularity 2 (env 2) with
  | some first, some second, some third =>
    some fun size =>
      if size = 0 then first else if size = 1 then second else if size = 2 then third else []
  | _, _, _ => none

variable (dmn : PtrnDomain)

def PtrnDomain.setPool (size : Nat) (freeList : List ArgObject) : PtrnDomain :=
  { dmn with argPools := Function.update dmn.argPools size freeList }

def drArgGetObjFromPool (size : Nat) (env : ArgEnv) : PtrnDomain × Option ArgObject :=
  match dmn.argPools size with
  | arg :: rest => (dmn.setPool size rest, some arg)
  | [] =>
    match drArgAddNewObjectsToPool dmn.granularity size [] env with
    | none => (dmn, none)
    | some [] => (dmn, none)
    | some (arg :: rest) => (dmn.setPool size rest, some arg)

def mlx5drArgGetObj (size : Nat) (env : ArgEnv) : PtrnDomain × Option ArgObject :=
  if size ≥ drArgChunkSizeMax then (dmn, none) else drArgGetObjFromPool dmn size env

def mlx5drArgPutObj (arg : ArgObject) : PtrnDomain :=
  dmn.setPool arg.logChunkSize (arg :: dmn.argPools arg.logChunkSize)

def drGetArgSize (numOfActions : Nat) : Nat :=
  if numOfActions ≤ 8 then 0
  else if numOfActions ≤ 16 then 1
  else if numOfActions ≤ 32 then 2
  else drArgChunkSizeMax

def cqPollErr : Int := -2

/-- `dr_postsend_icm_data`: a queue out of order skips the post and reports success; a bad completion polled
before it puts it out of order. `posted` is the domain after the write. -/
def PtrnDomain.postsendIcmData (polled : Bool) (posted : PtrnDomain) : PtrnDomain × Int :=
  if dmn.errState then (dmn, 0)
  else if polled = false then ({ dmn with errState := true }, cqPollErr)
  else (posted, 0)

def PtrnDomain.writeIcm (addr : Nat) (words : List HwAction) : PtrnDomain :=
  { dmn with icm := writeWords drModifyActionSize dmn.icm addr words }

def PtrnDomain.writeArgs (objectId : Nat) (words : List HwAction) : PtrnDomain :=
  { dmn with
    args := writeWords drModifyActionSize dmn.args (mlx5drActionCacheLineSize * objectId) words }

def mlx5drSendPostsendAction (chunk : IcmChunk) (data : List HwAction) (polled : Bool) : PtrnDomain × Int :=
  dmn.postsendIcmData polled (dmn.writeIcm chunk.icmAddr data)

/-- The loop of `mlx5dr_send_postsend_args`: a cache line of eight words to each object number. -/
def postsendArgsFrom (objectId : Nat) (polled : Nat → Bool) :
    Nat → Nat → List HwAction → PtrnDomain → PtrnDomain × Int
  | 0, _, _, dmn => (dmn, 0)
  | turns + 1, iter, words, dmn =>
    let sent := dmn.postsendIcmData (polled iter) (dmn.writeArgs (objectId + iter) (words.take 8))
    if sent.2 ≠ 0 then sent
    else postsendArgsFrom objectId polled turns (iter + 1) (words.drop 8) sent.1

def mlx5drSendPostsendArgs (arg : ArgObject) (data : List HwAction) (polled : Nat → Bool) : PtrnDomain × Int :=
  postsendArgsFrom (mlx5drArgGetObjectId arg) polled ((data.length - 1) / 8 + 1) 0 data dmn

def CachedPattern.matches (cached : CachedPattern) (action : RewriteAction) : Bool :=
  drSteV1ComparePattern cached.type cached.data action.type action.data

def drSteV1FindCachedPattern (action : RewriteAction) : Option CachedPattern :=
  dmn.modifyHdrList.find? fun cached => cached.matches action

def drSteV1GetCachedPattern (action : RewriteAction) : Option (PtrnDomain × CachedPattern) :=
  match drSteV1FindCachedPattern dmn action with
  | none => none
  | some cached =>
    let taken := { cached with refcount := cached.refcount + 1 }
    some ({ dmn with modifyHdrList := dmn.modifyHdrList.erase cached ++ [taken] }, taken)

/-- The outer `none` stands for an illegal access. -/
def drSteV1PutCachedPattern (action : RewriteAction) (syncSteering : Bool) : Option PtrnDomain :=
  match drSteV1FindCachedPattern dmn action with
  | none => some dmn
  | some cached =>
    if cached.refcount - 1 ≠ 0 then
      some { dmn with
        modifyHdrList := dmn.modifyHdrList.map fun other =>
          if other = cached then { cached with refcount := cached.refcount - 1 } else other }
    else
      match action.chunk with
      | none => none
      | some chunk =>
        match mlx5drIcmFreeChunk dmn.ptrnIcmPool chunk syncSteering with
        | none => none
        | some (pool, _) =>
          some { dmn with
            ptrnIcmPool := pool
            modifyHdrList := dmn.modifyHdrList.erase cached }

def drSteV1AddPatternToCache (action : RewriteAction) (chunk : IcmChunk)
    (allocated : Bool) : PtrnDomain × Int :=
  if allocated = false then (dmn, eNoMem)
  else
    ({ dmn with
      modifyHdrList := dmn.modifyHdrList ++
        [{ type := action.type
           chunk := chunk
           data := action.data
           index := action.index
           refcount := 1 }] }, 0)

/-- Outcomes of everything a creation asks from the host and the device. -/
structure CreateEnv where
  arg : ArgEnv
  argPolled : Nat → Bool
  icm : AllocEnv
  patternPolled : Bool
  cacheAlloc : Bool
  syncSteering : Bool

def drSteV1AllocModifyHdrArg (action : RewriteAction) (env : CreateEnv) : PtrnDomain × Option ArgObject × Int :=
  match mlx5drArgGetObj dmn (drGetArgSize action.data.length) env.arg with
  | (dmn, none) => (dmn, none, eNoMem)
  | (dmn, some arg) =>
    let sent := mlx5drSendPostsendArgs dmn arg action.data env.argPolled
    if sent.2 ≠ 0 then (mlx5drArgPutObj sent.1 arg, none, sent.2)
    else (sent.1, some arg, 0)

/-- The label `clean_chunk`. -/
def drSteV1CleanChunk (action : RewriteAction) (chunk : IcmChunk)
    (arg : ArgObject) (ret : Int) (env : CreateEnv) : Option (PtrnDomain × RewriteAction × Int) :=
  match mlx5drIcmFreeChunk dmn.ptrnIcmPool chunk env.syncSteering with
  | none => none
  | some (pool, _) => some (mlx5drArgPutObj { dmn with ptrnIcmPool := pool } arg, action, ret)

/-- The branch without a cached pattern. A failed chunk allocation goes to `put_arg` with the argument's
`ret`, zero. -/
def drSteV1AllocPattern (action : RewriteAction) (arg : ArgObject)
    (chunkSize : Nat) (ret : Int) (env : CreateEnv) :
    Option (PtrnDomain × RewriteAction × Int) :=
  match mlx5drIcmAllocChunk dmn.ptrnIcmPool chunkSize env.icm with
  | none => none
  | some (pool, none) =>
    some (mlx5drArgPutObj { dmn with ptrnIcmPool := pool } arg, { action with chunk := none }, ret)
  | some (pool, some chunk) =>
    let action := { action with
      chunk := some chunk
      data := maskPattern action.data
      index := (chunk.icmAddr - dmn.hdrModifyPatternIcmAddr) / mlx5drActionCacheLineSize }
    let sent := mlx5drSendPostsendAction { dmn with ptrnIcmPool := pool } chunk action.data
      env.patternPolled
    if sent.2 ≠ 0 then drSteV1CleanChunk sent.1 action chunk arg sent.2 env
    else
      let added := drSteV1AddPatternToCache sent.1 action chunk env.cacheAlloc
      if added.2 ≠ 0 then drSteV1CleanChunk added.1 action chunk arg added.2 env
      else some (added.1, action, 0)

def drSteV1AllocModifyHdrChunk (action : RewriteAction) (chunkSize : Nat)
    (env : CreateEnv) : Option (PtrnDomain × RewriteAction × Int) :=
  if dmn.supported = false then some (dmn, action, eNotSupp)
  else
    match drSteV1AllocModifyHdrArg dmn action env with
    | (dmn, none, _) => some (dmn, action, eNoMem)
    | (dmn, some arg, ret) =>
      let action := { action with arg := some arg }
      match drSteV1GetCachedPattern dmn action with
      | some (dmn, cached) =>
        some (dmn, { action with
          chunk := some cached.chunk
          index := cached.index
          data := cached.data }, 0)
      | none => drSteV1AllocPattern dmn action arg chunkSize ret env

def ilog2 (n : Nat) : Nat := if n = 0 then 2 ^ 32 - 1 else Nat.log2 n

def drChunkSize8 : Nat := 3

def drChunkSize16 : Nat := 4

def dynamicChunkSize (numOfActions : Nat) : Nat := max (ilog2 numOfActions) drChunkSize8

def mlx5drSteAllocModifyHdr (action : RewriteAction) (env : CreateEnv) :
    Option (PtrnDomain × RewriteAction × Int) :=
  drSteV1AllocModifyHdrChunk dmn action (dynamicChunkSize action.data.length) env

def drSteV1DeallocModifyHdrChunk (action : RewriteAction) (syncSteering : Bool) : Option PtrnDomain :=
  match drSteV1PutCachedPattern dmn action syncSteering with
  | none => none
  | some dmn =>
    match action.arg with
    | none => none
    | some arg => some (mlx5drArgPutObj dmn arg)

/-- What callers ask for: a list of software actions, or the L2 header an L3 decap puts in front of the
packet. -/
inductive RewriteRequest where
  | modifyHeader (swActions : List SwAction)
  | decapL3 (data : List (BitVec 8))

def RewriteRequest.type : RewriteRequest → RewriteType
  | .modifyHeader _ => .modifyHdr
  | .decapL3 _ => .tnlL3ToL2

/-- A request's hardware list (`dr_action_create_modify_action` up to the conversion, and the L3 decap of
`dr_action_create_reformat_action`). -/
def RewriteRequest.compile : RewriteRequest → Except Int (List HwAction)
  | .modifyHeader swActions =>
    let maxHwActions := mlx5drIcmPoolChunkSizeToEntries drChunkSize16
    if swActions.length > maxHwActions then .error eInval
    else
      (drActionsConvertModifyHeader dmn.type dmn.fieldArr maxHwActions swActions).map
        ConvertState.hwActions
  | .decapL3 data => mlx5drSteSetActionDecapL3List data

def RewriteRequest.singleActionOpt (request : RewriteRequest) (hwActions : List HwAction) : Bool :=
  match request with
  | .modifyHeader _ => hwActions.length = 1 ∧ dmn.connectX6Dx
  | .decapL3 _ => false

def RewriteRequest.action (request : RewriteRequest) (hwActions : List HwAction) : RewriteAction :=
  ⟨request.type, hwActions, none, 0, none⟩

end MlnxOfed.Steering
