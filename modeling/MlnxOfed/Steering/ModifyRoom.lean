/-
The room that a modify-header list gets (dr_ste.c, dr_ste_v0.c, dr_ste_v1.c, dr_send.c).

The order of the chunk is the integer logarithm of the number of words, at least three. In the v0 format
each action has its own chunk; in the v1 format it shares that of its pattern and has an argument object.
-/

import MlnxOfed.Steering.ModifyMeaning
import MlnxOfed.Steering.PatternRuns

namespace MlnxOfed.Steering

open Function List Lib SwAction SteCtx PtrnDomain RewriteRequest

def SwAction.touched (fieldArr : List ModifyField) (action : SwAction) :
    Option (BitVec 16 × Option (BitVec 16)) :=
  if action.actionType = actionTypeCopy then
    (mlx5drSteConvModifyHdrSwField fieldArr action.field).bind fun src =>
      (mlx5drSteConvModifyHdrSwField fieldArr action.dstField).map fun dst =>
        (dst.hwField, some src.hwField)
  else
    (mlx5drSteConvModifyHdrSwField fieldArr action.field).map fun info => (info.hwField, none)

/-- The slots of a list after `used` slots, the last of which wrote `before`: one for each action, and one
more where it would be the second of a pair and touches that field. -/
def hwSlotsFrom (fieldArr : List ModifyField) : Nat → BitVec 16 → List SwAction → Nat
  | used, _, [] => used
  | used, before, action :: rest =>
    match action.touched fieldArr with
    | none => used
    | some (written, read) =>
      let gap := used % 2 = 1 ∧ (before = written ∨ read = some before)
      hwSlotsFrom fieldArr (used + if gap then 2 else 1) written rest

def hwSlots (fieldArr : List ModifyField) (swActions : List SwAction) : Nat :=
  hwSlotsFrom fieldArr 0 0 swActions

variable {ctx : SteCtx}

private theorem modifySwToHw_touched {action converted} (res : ctx.modifySwToHw action = .ok converted) :
    action.touched ctx.modifyFieldArr =
      some (converted.dst.hwField, converted.src.map ModifyField.hwField) := by
  have setNotCopy : ¬actionTypeSet = actionTypeCopy := by decide
  have addNotCopy : ¬actionTypeAdd = actionTypeCopy := by decide
  unfold modifySwToHw at res
  unfold touched
  split at res
  · rename_i isSet
    rw [isSet, if_neg setNotCopy]
    unfold modifySwToHwSet at res
    split at res
    · cases res
    · rename_i info found
      split at res
      · cases res
      · cases res
        exact congrArg _ found
  split at res
  · rename_i isAdd
    rw [isAdd, if_neg addNotCopy]
    unfold modifySwToHwAdd at res
    split at res
    · cases res
    · rename_i info found
      cases res
      exact congrArg _ found
  split at res
  · rename_i isCopy
    rw [if_pos isCopy]
    unfold modifySwToHwCopy at res
    split at res
    · rename_i src dst foundSrc foundDst
      split at res
      · cases res
      · cases res
        unfold convModifyHdrSwField at foundSrc foundDst
        rw [foundSrc, foundDst]
        rfl
    · cases res
  · cases res

variable {type : DomainType}

private theorem convertFrom_slots {maxHwActions numSwActions i rest state after}
    (res : ctx.convertFrom type maxHwActions numSwActions i rest state = .ok after) :
    after.hwActions.length = hwSlotsFrom ctx.modifyFieldArr state.hwActions.length state.hwField rest := by
  induction rest generalizing i state with
  | nil =>
    cases res
    rfl
  | cons action rest ih =>
    rw [convertFrom] at res
    cases turn : ctx.convertTurn type maxHwActions numSwActions i action state with
    | error _ =>
      rw [turn] at res
      cases res
    | ok next =>
      rw [turn] at res
      obtain ⟨converted, hw, written, words, -⟩ := convertTurn_eq turn
      have gapIff : state.needsGap converted = true ↔ state.hwActions.length % 2 = 1 ∧
          (state.hwField = converted.dst.hwField ∨
            converted.src.map ModifyField.hwField = some state.hwField) := by
        unfold ConvertState.needsGap
        rw [decide_eq_true_eq]
        cases converted.src with
        | none => simp
        | some info => simp [eq_comm]
      have length : next.hwActions.length = state.hwActions.length +
          if state.hwActions.length % 2 = 1 ∧ (state.hwField = converted.dst.hwField ∨
            converted.src.map ModifyField.hwField = some state.hwField) then 2 else 1 := by
        rw [words, length_append, length_append, length_singleton]
        by_cases gap : state.needsGap converted = true
        · rw [if_pos gap, if_pos (gapIff.mp gap), length_singleton]
        · rw [if_neg gap, if_neg fun isGap => gap (gapIff.mpr isGap), length_nil]
      rw [ih res, hwSlotsFrom, modifySwToHw_touched hw, written, length]

private theorem convertModifyHeader_slots {maxHwActions swActions state}
    (ok : ctx.convertModifyHeader type maxHwActions swActions = .ok state) :
    state.hwActions.length = hwSlots ctx.modifyFieldArr swActions :=
  convertFrom_slots ok

/-- `dr_action_create_modify_action` up to the conversion. -/
def SteCtx.createModifyAction (ctx : SteCtx) (type : DomainType) (swActions : List SwAction) :
    Except Int (List HwAction) :=
  let maxHwActions := mlx5drIcmPoolChunkSizeToEntries drChunkSize16
  if swActions.length > maxHwActions then .error eInval
  else (ctx.convertModifyHeader type maxHwActions swActions).map ConvertState.hwActions

/-- `posted` tells whether the write was posted; a chunk whose write fails is freed. -/
def drSteV0AllocModifyHdrChunk (pool : IcmPool) (hdrModifyIcmAddr : Nat) (action : RewriteAction)
    (chunkSize : Nat) (env : AllocEnv) (posted syncSteering : Bool) :
    Option (IcmPool × RewriteAction × Int) :=
  match mlx5drIcmAllocChunk pool chunkSize env with
  | none => none
  | some (pool, none) => some (pool, { action with chunk := none }, eNoMem)
  | some (pool, some chunk) =>
    let action := { action with
      chunk := some chunk
      index := (chunk.icmAddr - hdrModifyIcmAddr) / mlx5drActionCacheLineSize }
    if posted then some (pool, action, 0)
    else
      match mlx5drIcmFreeChunk pool chunk syncSteering with
      | none => none
      | some (pool, _) => some (pool, action, eNoMem)

def IcmChunk.bytes (chunk : IcmChunk) : Set Nat :=
  Set.Ico chunk.mrAddr (chunk.mrAddr + chunk.byteSize)

/-- The bytes that `mlx5dr_send_postsend_action` writes. -/
def postedBytes (chunk : IcmChunk) (numOfActions : Nat) : Set Nat :=
  Set.Ico chunk.mrAddr (chunk.mrAddr + numOfActions * drModifyActionSize)

/-- The object numbers `mlx5dr_send_postsend_args` writes, a cache line each. -/
def postedLines (arg : ArgObject) (numOfActions : Nat) : Set Nat :=
  Set.Ico (mlx5drArgGetObjectId arg) (mlx5drArgGetObjectId arg + ((numOfActions - 1) / 8 + 1))

structure HasRoom (chunk : IcmChunk) (arg : Option ArgObject) (numOfActions : Nat) : Prop where
  entries : numOfActions ≤ chunk.numOfEntries
  inside : postedBytes chunk numOfActions ⊆ chunk.bytes
  lines : ∀ object ∈ arg, postedLines object numOfActions ⊆ object.range

structure SizedFor (chunk : IcmChunk) (arg : Option ArgObject) (numOfActions : Nat) : Prop where
  entries : chunk.numOfEntries = mlx5drIcmPoolChunkSizeToEntries (dynamicChunkSize numOfActions)
  bytes : chunk.byteSize = drModifyActionSize * chunk.numOfEntries
  object : ∀ object ∈ arg, object.logChunkSize = drGetArgSize numOfActions

variable {numOfActions : Nat}

private theorem postedLines_subset {arg} (bound : numOfActions ≤ 16)
    (sized : arg.logChunkSize = drGetArgSize numOfActions) :
    postedLines arg numOfActions ⊆ arg.range := by
  have lines : (numOfActions - 1) / 8 + 1 ≤ 2 ^ arg.logChunkSize := by
    rw [sized]
    unfold drGetArgSize
    split
    · omega
    · omega
  exact Set.Ico_subset_Ico_right (Nat.add_le_add_left lines _)

variable {chunk : IcmChunk}

theorem SizedFor.room_iff {arg} (sized : SizedFor chunk arg numOfActions) (bound : numOfActions ≤ 16) :
    HasRoom chunk arg numOfActions ↔ numOfActions ≤ 8 ∨ numOfActions = 16 := by
  rw [← fits_dynamicChunkSize bound, ← sized.entries]
  constructor
  · exact fun room => room.entries
  · intro fits
    refine ⟨fits, ?_, fun object mem => postedLines_subset bound (sized.object object mem)⟩
    refine Set.Ico_subset_Ico_right (Nat.add_le_add_left ?_ _)
    rw [sized.bytes, mul_comm]
    exact Nat.mul_le_mul_left _ fits

private theorem drSteV0AllocModifyHdrChunk_sized {pool after hdrModifyIcmAddr}
    {action made env posted syncSteering}
    (isType : pool.icmType = .modifyAction)
    (back : drSteV0AllocModifyHdrChunk pool hdrModifyIcmAddr action
      (dynamicChunkSize action.data.length) env posted syncSteering = some (after, made, 0))
    (hasChunk : made.chunk = some chunk) : SizedFor chunk none action.data.length := by
  unfold drSteV0AllocModifyHdrChunk at back
  split at back
  · cases back
  · cases back
  rename_i grown new given
  have size := (mlx5drIcmAllocChunk_size given).2 new rfl
  rw [isType] at size
  split at back
  · cases back
    cases hasChunk
    refine ⟨size.1, ?_, nofun⟩
    rw [size.1, size.2]
    rfl
  · split at back
    · cases back
    · cases back

/-! ### The v1 format -/

/-- Every pattern's chunk has the size asked for its words, whatever went wrong. -/
structure PtrnDomain.Sized (dmn : PtrnDomain) : Prop where
  icmType : dmn.ptrnIcmPool.icmType = .modifyHdrPtrn
  cached : ∀ cached ∈ dmn.modifyHdrList, SizedFor cached.chunk none cached.data.length
  pools : ∀ size < drArgChunkSizeMax, ∀ arg ∈ dmn.argPools size, arg.logChunkSize = size

section Sized

variable {dmn after : PtrnDomain}

variable (sized : dmn.Sized)

include sized

theorem PtrnDomain.Sized.congr (icmType : after.ptrnIcmPool.icmType = dmn.ptrnIcmPool.icmType)
    (list : after.modifyHdrList = dmn.modifyHdrList) (pools : after.argPools = dmn.argPools) :
    after.Sized where
  icmType := icmType.trans sized.icmType
  cached := by
    rw [list]
    exact sized.cached
  pools := by
    rw [pools]
    exact sized.pools

theorem PtrnDomain.Sized.setPool {size freeList}
    (listed : size < drArgChunkSizeMax → ∀ arg ∈ freeList, arg.logChunkSize = size) :
    (dmn.setPool size freeList).Sized :=
  { sized with
    pools other below arg member := by
      change arg ∈ update dmn.argPools size freeList other at member
      by_cases same : other = size
      · subst same
        rw [update_self] at member
        exact listed below arg member
      · rw [update_of_ne same] at member
        exact sized.pools other below arg member }

theorem PtrnDomain.Sized.put (arg) : (mlx5drArgPutObj dmn arg).Sized := by
  refine sized.setPool ?_
  intro below other mem
  rcases mem_cons.mp mem with rfl | old
  · rfl
  · exact sized.pools _ below other old

variable {result : Option ArgObject}

private theorem mlx5drArgGetObj_sized {size env} (got : mlx5drArgGetObj dmn size env = (after, res)) :
    after.Sized ∧ ∀ arg ∈ res, arg.logChunkSize = size := by
  unfold mlx5drArgGetObj at got
  split at got
  · cases got
    exact ⟨sized, nofun⟩
  rename_i below
  unfold drArgGetObjFromPool at got
  split at got
  · rename_i arg rest isList
    cases got
    have listed := sized.pools size (Nat.lt_of_not_le below)
    rw [isList] at listed
    refine ⟨sized.setPool fun _ other mem => listed other (.tail _ mem), ?_⟩
    intro object isObject
    cases isObject
    exact listed arg (.head _)
  split at got
  · cases got
    exact ⟨sized, nofun⟩
  · cases got
    exact ⟨sized, nofun⟩
  rename_i arg rest added
  cases got
  have listed : ∀ other ∈ arg :: rest, other.logChunkSize = size := by
    unfold drArgAddNewObjectsToPool at added
    split at added
    · cases added
    split at added
    · cases added
    split at added
    · rename_i fits _ objId _ _
      rw [nil_append] at added
      rw [← Option.some.inj added]
      intro other mem
      exact (newArgObjects_range (Nat.le_of_not_lt fits) mem).1
    · cases added
  refine ⟨sized.setPool fun _ other mem => listed other (.tail _ mem), ?_⟩
  intro object isObject
  cases isObject
  exact listed arg (.head _)

variable {env : CreateEnv}

private theorem drSteV1AllocModifyHdrArg_sized {action ret}
    (back : drSteV1AllocModifyHdrArg dmn action env = (after, res, ret)) :
    after.Sized ∧ ∀ arg ∈ res, arg.logChunkSize = drGetArgSize action.data.length := by
  unfold drSteV1AllocModifyHdrArg at back
  cases got : mlx5drArgGetObj dmn (drGetArgSize action.data.length) env.arg with
  | mk first object =>
    obtain ⟨firstSized, objectSized⟩ := mlx5drArgGetObj_sized sized got
    rw [got] at back
    cases object with
    | none =>
      cases back
      exact ⟨firstSized, nofun⟩
    | some arg =>
      simp only at back
      cases sent : mlx5drSendPostsendArgs first arg action.data env.argPolled with
      | mk posted sendRet =>
        rw [sent] at back
        have kept := (postsendArgsFrom_spec sent).1
        have postedSized : posted.Sized := by
          rw [kept]
          exact firstSized.congr rfl rfl rfl
        split at back
        · cases back
          exact ⟨postedSized.put arg, nofun⟩
        · cases back
          exact ⟨postedSized, objectSized⟩

private theorem drSteV1GetCachedPattern_sized {action}
    {cached} (got : drSteV1GetCachedPattern dmn action = some (after, cached)) :
    after.Sized ∧ SizedFor cached.chunk none action.data.length := by
  unfold drSteV1GetCachedPattern at got
  split at got
  · cases got
  rename_i found isFound
  cases got
  obtain ⟨mem, shape⟩ := mem_of_find isFound
  have length : found.data.length = action.data.length := congrArg (fun key => key.2.1) shape
  have entry := sized.cached found mem
  refine ⟨{ sized with cached := ?_ }, length ▸ entry⟩
  intro other inList
  rcases mem_append.mp inList with old | new
  · exact sized.cached other (mem_of_mem_erase old)
  · rw [mem_singleton.mp new]
    exact entry

private theorem postsendIcmData_sized {posted} (postedSized : posted.Sized) (polled) :
    (dmn.postsendIcmData polled posted).1.Sized := by
  rcases postsendIcmData_cases dmn posted polled with ⟨-, sent⟩ | ⟨-, sent⟩ | ⟨-, sent⟩
  · rw [sent]
    exact sized
  · rw [sent]
    exact sized.congr rfl rfl rfl
  · rw [sent]
    exact postedSized

variable {action made : RewriteAction}

private theorem drSteV1CleanChunk_sized {chunk arg ret failed}
    (back : drSteV1CleanChunk dmn action chunk arg failed env = some (after, made, ret)) :
    after.Sized ∧ made = action ∧ ret = failed := by
  unfold drSteV1CleanChunk at back
  split at back
  · cases back
  · rename_i pool _ freed
    cases back
    have emptied : Sized { dmn with ptrnIcmPool := pool } :=
      sized.congr (mlx5drIcmFreeChunk_icmType freed) rfl rfl
    exact ⟨emptied.put arg, rfl, rfl⟩

private theorem drSteV1AllocPattern_sized {arg given ret}
    (back : drSteV1AllocPattern dmn action arg (dynamicChunkSize action.data.length) given env =
      some (after, made, ret)) :
    after.Sized ∧ made.arg = action.arg ∧
      (ret = 0 → ∀ chunk ∈ made.chunk, SizedFor chunk none action.data.length) := by
  unfold drSteV1AllocPattern at back
  split at back
  · cases back
  · rename_i pool allocated
    cases back
    have kept : Sized { dmn with ptrnIcmPool := pool } :=
      sized.congr (mlx5drIcmAllocChunk_size allocated).1 rfl rfl
    exact ⟨kept.put arg, rfl, fun _ => nofun⟩
  rename_i pool chunk allocated
  obtain ⟨sameType, size⟩ := mlx5drIcmAllocChunk_size allocated
  have entry : SizedFor chunk none action.data.length := by
    obtain ⟨entries, bytes⟩ := size chunk rfl
    rw [sized.icmType] at bytes
    refine ⟨entries, ?_, nofun⟩
    rw [entries, bytes]
    rfl
  have kept : Sized { dmn with ptrnIcmPool := pool } :=
    sized.congr sameType rfl rfl
  simp only at back
  have sentSized := postsendIcmData_sized kept
    (kept.congr rfl rfl rfl : (writeIcm { dmn with ptrnIcmPool := pool } chunk.icmAddr
      (maskPattern action.data)).Sized) env.patternPolled
  split at back
  · obtain ⟨cleaned, rfl, rfl⟩ := drSteV1CleanChunk_sized sentSized back
    exact ⟨cleaned, rfl, fun zero => absurd zero ‹_›⟩
  unfold drSteV1AddPatternToCache at back
  split at back
  · simp only at back
    split at back
    · obtain ⟨cleaned, rfl, rfl⟩ := drSteV1CleanChunk_sized sentSized back
      exact ⟨cleaned, rfl, fun zero => absurd zero ‹_›⟩
    · rename_i success
      exact absurd (show eNoMem ≠ 0 by decide) success
  simp only at back
  split at back
  · rename_i failed
    exact absurd rfl failed
  cases back
  refine ⟨{ sentSized with cached := ?_ }, rfl, ?_⟩
  · intro cached mem
    rcases mem_append.mp mem with old | new
    · exact sentSized.cached cached old
    · rw [mem_singleton.mp new]
      rw [maskPattern, length_map]
      exact entry
  · intro _ other isChunk
    cases isChunk
    exact entry

theorem mlx5drSteAllocModifyHdr_sized (bare : action.chunk = none ∧ action.arg = none) {ret}
    (back : mlx5drSteAllocModifyHdr dmn action env = some (after, made, ret)) :
    after.Sized ∧ (ret = 0 → ∀ chunk ∈ made.chunk, SizedFor chunk made.arg action.data.length) := by
  unfold mlx5drSteAllocModifyHdr drSteV1AllocModifyHdrChunk at back
  split at back
  · cases back
    refine ⟨sized, fun _ chunk isChunk => ?_⟩
    rw [bare.1] at isChunk
    cases isChunk
  split at back
  · rename_i alone argRet argued
    cases back
    refine ⟨(drSteV1AllocModifyHdrArg_sized sized argued).1, fun _ chunk isChunk => ?_⟩
    rw [bare.1] at isChunk
    cases isChunk
  rename_i alone arg argRet argued
  obtain ⟨argSized, objectSized⟩ := drSteV1AllocModifyHdrArg_sized sized argued
  simp only at back
  split at back
  · rename_i found cached got
    cases back
    obtain ⟨foundSized, entry⟩ := drSteV1GetCachedPattern_sized argSized got
    refine ⟨foundSized, fun _ chunk isChunk => ?_⟩
    cases isChunk
    exact { entry with object := objectSized }
  · obtain ⟨afterSized, sameArg, entry⟩ := drSteV1AllocPattern_sized argSized back
    refine ⟨afterSized, fun success chunk isChunk => ?_⟩
    obtain ⟨entries, bytes, -⟩ := entry success chunk isChunk
    rw [sameArg]
    exact ⟨entries, bytes, objectSized⟩

private theorem drSteV1DeallocModifyHdrChunk_sized {action syncSteering}
    (back : drSteV1DeallocModifyHdrChunk dmn action syncSteering = some after) :
    after.Sized := by
  unfold drSteV1DeallocModifyHdrChunk at back
  split at back
  · cases back
  rename_i left put
  have leftSized : left.Sized := by
    unfold drSteV1PutCachedPattern at put
    split at put
    · cases put
      exact sized
    rename_i cached found
    have entry := sized.cached cached (mem_of_find found).1
    split at put
    · cases put
      refine { sized with cached := ?_ }
      intro other mem
      obtain ⟨old, inList, rfl⟩ := mem_map.mp mem
      split
      · exact entry
      · exact sized.cached old inList
    split at put
    · cases put
    split at put
    · cases put
    · rename_i pool _ freed
      cases put
      exact ⟨(mlx5drIcmFreeChunk_icmType freed).trans sized.icmType,
        fun other mem => sized.cached other (mem_of_mem_erase mem), sized.pools⟩
  split at back
  · cases back
  · cases back
    exact leftSized.put _

omit sized

end Sized

variable {allowed : PtrnDomain → RewriteAction → CreateEnv → Prop}

theorem PtrnStep.sized {run after} (step : PtrnStep ok run after) (sized : run.dmn.Sized) :
    after.dmn.Sized := by
  cases step with
  | create request hwActions env dmn made ret compiled multi fresh permitted back =>
    exact (mlx5drSteAllocModifyHdr_sized sized ⟨rfl, rfl⟩ back).1
  | destroy user syncSteering dmn mem back =>
    exact drSteV1DeallocModifyHdrChunk_sized sized back
  | fail => exact sized.congr rfl rfl rfl

theorem PtrnReachable.sized {dmn caps env} (start : dmn.Start caps env)
    {run} (reachable : PtrnReachable ok dmn run) : run.dmn.Sized := by
  induction reachable with
  | refl =>
    refine ⟨by rw [start.pool]; rfl, ?_, start.argsValid.sized⟩
    rw [start.list]
    exact nofun
  | tail _ step ih => exact step.sized ih

/-- How an accepted list not written inline gets a chunk, and in the v1 format an argument object. -/
inductive ModifyHdrObtains : SteFormat → List SwAction → IcmChunk → Option ArgObject → Nat → Prop
    where
  | v0 (type : DomainType) (swActions : List SwAction) (hwActions : List HwAction)
      (pool after : IcmPool) (hdrModifyIcmAddr : Nat) (env : AllocEnv) (posted syncSteering : Bool)
      (made : RewriteAction) (chunk : IcmChunk) (isType : pool.icmType = .modifyAction)
      (accepted : steCtxV0.createModifyAction type swActions = .ok hwActions)
      (returned : drSteV0AllocModifyHdrChunk pool hdrModifyIcmAddr ((modifyHeader swActions).action hwActions)
        (dynamicChunkSize hwActions.length) env posted syncSteering = some (after, made, 0))
      (hasChunk : made.chunk = some chunk) :
      ModifyHdrObtains .v0 swActions chunk none hwActions.length
  | v1 (dmn : PtrnDomain) (caps : DomainCaps) (argEnv : Nat → ArgEnv) (run : PtrnRun)
      (swActions : List SwAction) (hwActions : List HwAction) (env : CreateEnv)
      (after : PtrnDomain) (made : RewriteAction) (chunk : IcmChunk)
      (start : dmn.Start caps argEnv) (reachable : PtrnReachable (fun _ _ _ => True) dmn run)
      (format : run.dmn.fieldArr = drSteV1ActionModifyFieldArr)
      (accepted : (modifyHeader swActions).compile run.dmn = .ok hwActions)
      (multi : (modifyHeader swActions).singleActionOpt run.dmn hwActions = false)
      (returned : mlx5drSteAllocModifyHdr run.dmn
        ((modifyHeader swActions).action hwActions) env = some (after, made, 0))
      (hasChunk : made.chunk = some chunk) :
      ModifyHdrObtains .v1 swActions chunk made.arg hwActions.length

theorem SteCtx.createModifyAction_slots {format : SteFormat} {type : DomainType} {swActions : List SwAction}
    {hwActions : List HwAction} (accepted : format.ctx.createModifyAction type swActions = .ok hwActions) :
    hwActions.length ≤ 16 ∧ hwActions.length = hwSlots format.ctx.modifyFieldArr swActions := by
  unfold createModifyAction at accepted
  simp only at accepted
  split at accepted
  · cases accepted
  rename_i fits
  cases converted : format.ctx.convertModifyHeader type
      (mlx5drIcmPoolChunkSizeToEntries drChunkSize16) swActions with
  | error ret =>
    rw [converted] at accepted
    cases accepted
  | ok state =>
    rw [converted] at accepted
    cases accepted
    have small : swActions.length ≤ 16 := Nat.le_of_not_lt fits
    refine ⟨?_, convertModifyHeader_slots converted⟩
    exact convertFrom_length converted (zero_add _) (le_of_eq_of_le (zero_add _) small)

theorem RewriteRequest.compile_v1 {dmn} (format : dmn.fieldArr = drSteV1ActionModifyFieldArr)
    (swActions) : (modifyHeader swActions).compile dmn = steCtxV1.createModifyAction dmn.type swActions := by
  unfold compile createModifyAction steCtxV1
  dsimp only
  rw [convertModifyHeader_v1, format]

/-- An accepted list has a chunk for all its words, and an object for all its cache lines, exactly when it
takes at most eight slots or sixteen. -/
theorem ModifyHdrObtains.hasRoom_iff {format : SteFormat} {swActions : List SwAction}
    {chunk : IcmChunk} {arg : Option ArgObject} {numOfActions : Nat}
    (obtains : ModifyHdrObtains format swActions chunk arg numOfActions) :
    HasRoom chunk arg numOfActions ↔ hwSlots format.ctx.modifyFieldArr swActions ≤ 8 ∨
      hwSlots format.ctx.modifyFieldArr swActions = 16 := by
  cases obtains with
  | v0 type swActions hwActions pool after hdrModifyIcmAddr env posted syncSteering made chunk
      isType accepted returned hasChunk =>
      obtain ⟨bound, slots⟩ := @createModifyAction_slots .v0 _ _ _ accepted
      rw [← slots]
      exact (drSteV0AllocModifyHdrChunk_sized isType returned hasChunk).room_iff bound
  | v1 dmn caps argEnv run swActions hwActions env after made chunk start reachable format accepted
      multi returned hasChunk =>
      rw [compile_v1 format] at accepted
      obtain ⟨bound, slots⟩ := @createModifyAction_slots .v1 _ _ _ accepted
      rw [← slots]
      have sized := (mlx5drSteAllocModifyHdr_sized (reachable.sized start) ⟨rfl, rfl⟩ returned).2
      exact (sized rfl chunk hasChunk).room_iff bound

def addressSets (count : Nat) : List SwAction :=
  (range count).map fun i => ⟨actionTypeSet, if i % 2 = 0 then 0x04 else 0x01, 0, 0, 7⟩

def readyEnv : AllocEnv := ⟨true, some 4096, true, some 7, true, true, true⟩

theorem addressSets_obtain (count words after made chunk)
    (ok : steCtxV0.createModifyAction .fdb (addressSets count) = .ok words)
    (back : drSteV0AllocModifyHdrChunk (mlx5drIcmPoolCreate ⟨10, 4⟩ .modifyAction) 4096
      ((modifyHeader (addressSets count)).action words)
      (dynamicChunkSize words.length) readyEnv true true = some (after, made, 0))
    (hasChunk : made.chunk = some chunk) :
    ModifyHdrObtains .v0 (addressSets count) chunk none words.length :=
  .v0 .fdb _ words _ after 4096 readyEnv true true made chunk rfl ok back hasChunk

theorem hasRoom_iff_eight : ∃ chunk, ModifyHdrObtains .v0 (addressSets 8) chunk none 8 ∧
    HasRoom chunk none 8 := by
  obtain ⟨words, after, made, chunk, accepted, returned, hasChunk, eight⟩ :
      ∃ words after made chunk, steCtxV0.createModifyAction .fdb (addressSets 8) = .ok words ∧
          drSteV0AllocModifyHdrChunk (mlx5drIcmPoolCreate ⟨10, 4⟩ .modifyAction) 4096
            ((modifyHeader (addressSets 8)).action words)
            (dynamicChunkSize words.length) readyEnv true true = some (after, made, 0) ∧
              made.chunk = some chunk ∧ words.length = 8 :=
    ⟨_, _, _, _, by rfl, by rfl, by rfl, by rfl⟩
  have obtained := addressSets_obtain 8 words after made chunk accepted returned hasChunk
  rw [eight] at obtained
  exact ⟨chunk, obtained, obtained.hasRoom_iff.mpr (.inl (by decide +kernel))⟩

/-- Nine words are written into a chunk of eight, and end in the next one. -/
theorem nine_words_overrun : ∃ chunk, ModifyHdrObtains .v0 (addressSets 9) chunk none 9 ∧
    chunk.numOfEntries = 8 ∧ ¬postedBytes chunk 9 ⊆ chunk.bytes := by
  obtain ⟨words, after, made, chunk, accepted, returned, hasChunk, nine, addr, bytes, entries⟩ :
      ∃ words after made chunk, steCtxV0.createModifyAction .fdb (addressSets 9) = .ok words ∧
          drSteV0AllocModifyHdrChunk (mlx5drIcmPoolCreate ⟨10, 4⟩ .modifyAction) 4096
            ((modifyHeader (addressSets 9)).action words)
            (dynamicChunkSize words.length) readyEnv true true = some (after, made, 0) ∧
              made.chunk = some chunk ∧ words.length = 9 ∧ chunk.mrAddr = 0 ∧
                chunk.byteSize = 64 ∧ chunk.numOfEntries = 8 :=
    ⟨_, _, _, _, by rfl, by rfl, by rfl, by rfl, by rfl, by rfl, by rfl⟩
  have obtained := addressSets_obtain 9 words after made chunk accepted returned hasChunk
  rw [nine] at obtained
  refine ⟨chunk, obtained, entries, ?_⟩
  intro inside
  have last : 71 ∈ postedBytes chunk 9 := by
    rw [postedBytes, addr]
    exact Set.mem_Ico.mpr (by decide)
  have below := (Set.mem_Ico.mp (inside last)).2
  rw [addr, bytes] at below
  exact absurd below (by decide)

end MlnxOfed.Steering
