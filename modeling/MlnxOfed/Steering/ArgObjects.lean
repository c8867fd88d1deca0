/-
Argument objects have ranges of their own: free ones and those that actions hold never overlap, so writing
one list leaves the arguments of other actions.
-/

import MlnxOfed.Steering.PatternCache

namespace MlnxOfed.Steering

open Function Lib

def ArgObject.range (arg : ArgObject) : Set Nat :=
  Set.Ico (mlx5drArgGetObjectId arg) (mlx5drArgGetObjectId arg + 2 ^ arg.logChunkSize)

private theorem apart_of_disjoint_ico {left right leftSize rightSize}
    (apart : Disjoint (Set.Ico left (left + leftSize)) (Set.Ico right (right + rightSize)))
    (leftPos : 0 < leftSize) (rightPos : 0 < rightSize) :
    left + leftSize ≤ right ∨ right + rightSize ≤ left := by
  by_contra overlap
  rw [not_or, not_le, not_le] at overlap
  rw [Set.disjoint_left] at apart
  refine apart (a := max left right) ?_ ?_
  · rw [Set.mem_Ico]
    omega
  · rw [Set.mem_Ico]
    omega

structure ArgObject.Holds (arg : ArgObject) (args : Nat → HwAction) (words : List HwAction) :
    Prop where
  fits : words.length ≤ 8 * 2 ^ arg.logChunkSize
  written : HoldsWords drModifyActionSize args (mlx5drActionCacheLineSize * mlx5drArgGetObjectId arg) words

def SameOutside (arg : ArgObject) (args after : Nat → HwAction) : Prop :=
  ∀ addr, addr < mlx5drActionCacheLineSize * mlx5drArgGetObjectId arg ∨
    mlx5drActionCacheLineSize * (mlx5drArgGetObjectId arg + 2 ^ arg.logChunkSize) ≤ addr →
      after addr = args addr

theorem ArgObject.Holds.frame {arg other : ArgObject} {args after : Nat → HwAction}
    {words : List HwAction} (holds : other.Holds args words)
    (apart : Disjoint arg.range other.range) (same : SameOutside arg args after) :
    other.Holds after words where
  fits := holds.fits
  written := by
    refine holds.written.congr ?_ (by decide)
    intro addr lower upper
    have separate := apart_of_disjoint_ico apart (Nat.two_pow_pos _) (Nat.two_pow_pos _)
    have fits := holds.fits
    simp only [drModifyActionSize, mlx5drActionCacheLineSize] at lower upper
    refine same addr ?_
    simp only [mlx5drActionCacheLineSize]
    omega

/-! ### Pools -/

def freeArgs (pools : Nat → List ArgObject) : List ArgObject :=
  pools 0 ++ (pools 1 ++ pools 2)

theorem count_freeArgs_update (pools : Nat → List ArgObject) {size}
    (below : size < drArgChunkSizeMax) (list arg) :
    (freeArgs (update pools size list)).count arg + (pools size).count arg =
      list.count arg + (freeArgs pools).count arg := by
  have cases : size = 0 ∨ size = 1 ∨ size = 2 := by
    simp only [drArgChunkSizeMax] at below
    omega
  rcases cases with rfl | rfl | rfl
  · simp [freeArgs]
    omega
  · simp [freeArgs]
    omega
  · simp [freeArgs]
    omega

/-- The free lists are sorted by size, and no object, free or held, overlaps another. -/
structure ArgsValid (pools : Nat → List ArgObject) (held : List ArgObject) : Prop where
  sized : ∀ size < drArgChunkSizeMax, ∀ arg ∈ pools size, arg.logChunkSize = size
  heldSized : ∀ arg ∈ held, arg.logChunkSize < drArgChunkSizeMax
  disjoint : (held ++ freeArgs pools).Pairwise fun left right => Disjoint left.range right.range

theorem pairwise_disjoint_perm {left right : List ArgObject} (perm : left.Perm right) :
    (left.Pairwise fun arg other => Disjoint arg.range other.range) ↔
      right.Pairwise fun arg other => Disjoint arg.range other.range :=
  perm.pairwise_iff fun {_ _} apart => apart.symm

theorem ArgsValid.perm {pools held other}
    (valid : ArgsValid pools held) (perm : held.Perm other) : ArgsValid pools other where
  sized := valid.sized
  heldSized arg member := valid.heldSized arg (perm.mem_iff.mpr member)
  disjoint := (pairwise_disjoint_perm (perm.append_right _)).mp valid.disjoint

theorem ArgsValid.apart {pools held arg}
    (valid : ArgsValid pools (arg :: held)) {other} (mem : other ∈ held) :
    Disjoint arg.range other.range := by
  have disjoint := valid.disjoint
  rw [List.cons_append, List.pairwise_cons] at disjoint
  exact disjoint.1 other (List.mem_append_left _ mem)

theorem sized_update {pools : Nat → List ArgObject} {size : Nat} {list : List ArgObject}
    (sized : ∀ size < drArgChunkSizeMax, ∀ arg ∈ pools size, arg.logChunkSize = size)
    (listed : ∀ arg ∈ list, arg.logChunkSize = size) (other) (below : other < drArgChunkSizeMax) (arg)
    (mem : arg ∈ update pools size list other) : arg.logChunkSize = other := by
  by_cases same : other = size
  · subst same
    rw [update_self] at mem
    exact listed arg mem
  · rw [update_of_ne same] at mem
    exact sized other below arg mem

def Refilled (granularity size : Nat) (pools after : Nat → List ArgObject) (taken : List ArgObject) : Prop :=
  ∃ added, (added = [] ∨ ∃ objId, added = newArgObjects granularity size objId) ∧
    (taken ++ freeArgs after).Perm (added ++ freeArgs pools)

theorem Refilled.refl (granularity size) (pools : Nat → List ArgObject) :
    Refilled granularity size pools pools [] :=
  ⟨[], .inl rfl, .refl _⟩

def ArgEnv.Fresh (env : ArgEnv) (granularity : Nat) (known : List ArgObject) : Prop :=
  ∀ objId, env.createModifyHeaderArg = some objId → ∀ arg ∈ known,
    Disjoint (Set.Ico objId (objId + 2 ^ granularity)) arg.range

theorem newArgObjects_range {granularity size objId} (fits : size ≤ granularity)
    {arg} (mem : arg ∈ newArgObjects granularity size objId) :
    arg.logChunkSize = size ∧ arg.range ⊆ Set.Ico objId (objId + 2 ^ granularity) := by
  obtain ⟨i, below, rfl⟩ := List.mem_map.mp mem
  rw [List.mem_range, Nat.shiftLeft_eq, one_mul] at below
  refine ⟨rfl, ?_⟩
  have whole : 2 ^ (granularity - size) * 2 ^ size = 2 ^ granularity := by
    rw [← Nat.pow_add, Nat.sub_add_cancel fits]
  have last : (i + 1) * 2 ^ size ≤ 2 ^ (granularity - size) * 2 ^ size := Nat.mul_le_mul_right _ below
  rw [whole, Nat.succ_mul] at last
  intro number inside
  simp only [ArgObject.range, mlx5drArgGetObjectId, Nat.shiftLeft_eq, one_mul, Set.mem_Ico] at inside ⊢
  omega

theorem newArgObjects_disjoint (granularity size objId) :
    (newArgObjects granularity size objId).Pairwise fun left right =>
      Disjoint left.range right.range := by
  unfold newArgObjects
  rw [List.pairwise_map]
  refine List.Pairwise.imp ?_ (List.pairwise_lt_range)
  intro i j old
  rw [Set.disjoint_left]
  intro number inLeft inRight
  have next : (i + 1) * 2 ^ size ≤ j * 2 ^ size := Nat.mul_le_mul_right _ old
  rw [Nat.succ_mul] at next
  simp only [ArgObject.range, mlx5drArgGetObjectId, Nat.shiftLeft_eq, one_mul, Set.mem_Ico] at inLeft inRight
  omega

theorem argsValid_created (granularity : Nat) {pools} (ids : Nat → Nat) (made : ∀ size < drArgChunkSizeMax,
      size ≤ granularity ∧ pools size = newArgObjects granularity size (ids size))
    (apart : ∀ first second, first < second → second < drArgChunkSizeMax →
      Disjoint (Set.Ico (ids first) (ids first + 2 ^ granularity))
        (Set.Ico (ids second) (ids second + 2 ^ granularity))) :
    ArgsValid pools [] := by
  have listed size (below : size < drArgChunkSizeMax) arg (mem : arg ∈ pools size) : arg.logChunkSize =
      size ∧ arg.range ⊆ Set.Ico (ids size) (ids size + 2 ^ granularity) := by
    obtain ⟨fits, new⟩ := made size below
    rw [new] at mem
    exact newArgObjects_range fits mem
  have own size (below : size < drArgChunkSizeMax) : (pools size).Pairwise fun left right => Disjoint
      left.range right.range := by
    rw [(made size below).2]
    exact newArgObjects_disjoint _ _ _
  have between first second (old : first < second) (below : second < drArgChunkSizeMax) left
      (leftIn : left ∈ pools first) right (rightIn : right ∈ pools second) : Disjoint left.range
      right.range := by
    exact (apart first second old below).mono
      (listed first (Nat.lt_trans old below) left leftIn).2 (listed second below right rightIn).2
  refine ⟨fun size below arg mem => (listed size below arg mem).1, by simp, ?_⟩
  change (pools 0 ++ (pools 1 ++ pools 2)).Pairwise _
  rw [List.pairwise_append, List.pairwise_append]
  refine ⟨own 0 (by decide), ⟨own 1 (by decide), own 2 (by decide), between 1 2 (by decide) (by decide)⟩, ?_⟩
  intro left leftIn right rightIn
  rcases List.mem_append.mp rightIn with second | third
  · exact between 0 1 (by decide) (by decide) left leftIn right second
  · exact between 0 2 (by decide) (by decide) left leftIn right third

section Pools

variable {pools : Nat → List ArgObject} {held : List ArgObject} {size : Nat} {arg : ArgObject}

theorem ArgsValid.take (valid : ArgsValid pools held) (below : size < drArgChunkSizeMax) (added) {rest}
    (split : pools size ++ added = arg :: rest)
    (addedSized : ∀ other ∈ added, other.logChunkSize = size)
    (addedApart : ((held ++ freeArgs pools) ++ added).Pairwise fun left right =>
      Disjoint left.range right.range) :
    ArgsValid (update pools size rest) (arg :: held) ∧ arg.logChunkSize = size ∧
      ([arg] ++ freeArgs (update pools size rest)).Perm (added ++ freeArgs pools) := by
  have listed : ∀ other ∈ arg :: rest, other.logChunkSize = size := by
    rw [← split]
    intro other mem
    rcases List.mem_append.mp mem with old | new
    · exact valid.sized size below other old
    · exact addedSized other new
  have counts other : (pools size).count other + added.count other = (arg :: rest).count other := by
    rw [← split, List.count_append]
  have perm : ([arg] ++ freeArgs (update pools size rest)).Perm
      (added ++ freeArgs pools) := by
    refine List.perm_iff_count.mpr ?_
    intro other
    have update := count_freeArgs_update pools below rest other
    have count := counts other
    rw [List.count_cons] at count
    rw [List.count_append, List.count_append, List.count_cons, List.count_nil]
    omega
  refine ⟨⟨sized_update valid.sized fun other mem => listed other (List.mem_cons_of_mem _ mem),
    ?_, ?_⟩, listed arg List.mem_cons_self, perm⟩
  · intro other mem
    rcases List.mem_cons.mp mem with rfl | old
    · rw [listed other List.mem_cons_self]
      exact below
    · exact valid.heldSized other old
  refine (pairwise_disjoint_perm ?_).mp addedApart
  refine List.perm_iff_count.mpr ?_
  intro other
  have count := perm.count_eq other
  simp only [List.count_append, List.count_cons, List.count_nil, List.cons_append] at count ⊢
  omega

private theorem mlx5drArgGetObj_spec {dmn after env res}
    (valid : ArgsValid dmn.argPools held) (fresh : env.Fresh dmn.granularity (held ++ freeArgs dmn.argPools))
    (got : mlx5drArgGetObj dmn size env = (after, res)) : (res = none ∧ after = dmn) ∨ ∃ arg rest, res
    = some arg ∧ after = dmn.setPool size rest ∧ size < drArgChunkSizeMax ∧ arg.logChunkSize = size ∧
        ArgsValid after.argPools (arg :: held) ∧
        Refilled dmn.granularity size dmn.argPools after.argPools [arg] := by
  unfold mlx5drArgGetObj at got
  split at got
  · cases got
    exact .inl ⟨rfl, rfl⟩
  rename_i inRange
  have below : size < drArgChunkSizeMax := Nat.lt_of_not_le inRange
  unfold drArgGetObjFromPool at got
  split at got
  · rename_i arg rest list
    cases got
    obtain ⟨taken, sized, perm⟩ := valid.take below []
      (by rw [List.append_nil, list]) (by simp) (by rw [List.append_nil]; exact valid.disjoint)
    exact .inr ⟨arg, rest, rfl, rfl, below, sized, taken, [], .inl rfl, perm⟩
  rename_i list
  unfold drArgAddNewObjectsToPool at got
  by_cases narrow : dmn.granularity < size
  · rw [if_pos narrow] at got
    cases got
    exact .inl ⟨rfl, rfl⟩
  rw [if_neg narrow] at got
  have fits : size ≤ dmn.granularity := Nat.le_of_not_lt narrow
  cases create : env.createModifyHeaderArg with
  | none =>
    rw [create] at got
    cases got
    exact .inl ⟨rfl, rfl⟩
  | some objId =>
    rw [create] at got
    simp only [List.nil_append] at got
    by_cases given : (List.range (1 <<< (dmn.granularity - size))).all env.argObjAlloc = true
    · rw [if_pos given] at got
      cases objects : newArgObjects dmn.granularity size objId with
      | nil =>
        rw [objects] at got
        cases got
        exact .inl ⟨rfl, rfl⟩
      | cons arg rest =>
        rw [objects] at got
        cases got
        have ranges other (mem : other ∈ newArgObjects dmn.granularity size objId) :
            other.logChunkSize = size ∧ other.range ⊆ Set.Ico objId (objId + 2 ^ dmn.granularity) :=
            newArgObjects_range fits mem
        obtain ⟨taken, sized, perm⟩ := valid.take below (newArgObjects dmn.granularity size objId)
          (by rw [list, List.nil_append, objects])
          (fun other mem => (ranges other mem).1)
          (by
            rw [List.pairwise_append]
            refine ⟨valid.disjoint, newArgObjects_disjoint _ _ _, ?_⟩
            intro known knownIn new newIn
            exact ((fresh objId create known knownIn).mono_left (ranges new newIn).2).symm)
        exact .inr ⟨arg, rest, rfl, rfl, below, sized, taken, _, .inr ⟨objId, rfl⟩, perm⟩
    · rw [if_neg given] at got
      cases got
      exact .inl ⟨rfl, rfl⟩

theorem freeArgs_put (sized : arg.logChunkSize < drArgChunkSizeMax) :
    (freeArgs (update pools arg.logChunkSize (arg :: pools arg.logChunkSize))).Perm
      (arg :: freeArgs pools) := by
  refine List.perm_iff_count.mpr ?_
  intro other
  have update := count_freeArgs_update pools sized (arg :: pools arg.logChunkSize) other
  rw [List.count_cons] at update ⊢
  omega

theorem ArgsValid.put (valid : ArgsValid pools (arg :: held)) :
    ArgsValid (update pools arg.logChunkSize (arg :: pools arg.logChunkSize)) held := by
  have below := valid.heldSized arg List.mem_cons_self
  refine ⟨sized_update valid.sized ?_, fun other mem =>
    valid.heldSized other (List.mem_cons_of_mem _ mem), ?_⟩
  · intro other mem
    rcases List.mem_cons.mp mem with rfl | old
    · rfl
    · exact valid.sized _ below other old
  · refine (pairwise_disjoint_perm ?_).mp valid.disjoint
    exact List.perm_middle.symm.trans ((freeArgs_put below).symm.append_left held)

end Pools

/-! ### Writing arguments -/

theorem postsendIcmData_cases (dmn posted : PtrnDomain) (polled : Bool) :
    (dmn.errState = true ∧ dmn.postsendIcmData polled posted = (dmn, 0)) ∨ (dmn.errState = false ∧
        dmn.postsendIcmData polled posted = ({ dmn with errState := true }, cqPollErr)) ∨
      (dmn.errState = false ∧ dmn.postsendIcmData polled posted = (posted, 0)) := by
  unfold PtrnDomain.postsendIcmData
  cases dmn.errState with
  | true => exact .inl ⟨rfl, rfl⟩
  | false =>
    cases polled with
    | false => exact .inr (.inl ⟨rfl, rfl⟩)
    | true => exact .inr (.inr ⟨rfl, rfl⟩)

theorem cqPollErr_ne_zero : cqPollErr ≠ 0 := by decide

variable {dmn after : PtrnDomain}

theorem postsendArgsFrom_spec {objectId polled turns iter words}
    {ret} (res : postsendArgsFrom objectId polled turns iter words dmn = (after, ret)) :
    after = { dmn with errState := after.errState, args := after.args } ∧
      (∀ addr, addr < mlx5drActionCacheLineSize * (objectId + iter) ∨
        mlx5drActionCacheLineSize * (objectId + iter) + drModifyActionSize * words.length ≤ addr →
          after.args addr = dmn.args addr) ∧
      (ret = 0 → dmn.errState = false → words.length ≤ 8 * turns → after.errState = false ∧
          HoldsWords drModifyActionSize after.args
            (mlx5drActionCacheLineSize * (objectId + iter)) words) := by
  induction turns generalizing iter words dmn with
  | zero =>
    cases res
    refine ⟨rfl, fun _ _ => rfl, ?_⟩
    intro _ running short
    rw [Nat.mul_zero, Nat.le_zero, List.length_eq_zero_iff] at short
    rw [short]
    exact ⟨running, fun i below => absurd below (Nat.not_lt_zero i)⟩
  | succ turns ih =>
    rw [postsendArgsFrom] at res
    have next : mlx5drActionCacheLineSize * (objectId + (iter + 1)) =
        mlx5drActionCacheLineSize * (objectId + iter) + 64 := by
      simp only [mlx5drActionCacheLineSize]
      omega
    have dropped : (words.drop 8).length = words.length - 8 := List.length_drop
    have taken : (words.take 8).length = min 8 words.length := List.length_take
    rcases postsendIcmData_cases dmn
        (dmn.writeArgs (objectId + iter) (words.take 8)) (polled iter) with
      ⟨broken, sent⟩ | ⟨running, sent⟩ | ⟨running, sent⟩
    · rw [sent] at res
      obtain ⟨kept, outside, _⟩ := ih res
      refine ⟨kept, ?_, fun _ running => absurd (running.symm.trans broken) nofun⟩
      intro addr apart
      refine outside addr ?_
      rw [next, dropped]
      simp only [drModifyActionSize] at apart ⊢
      omega
    · rw [sent, if_pos cqPollErr_ne_zero] at res
      cases res
      exact ⟨rfl, fun _ _ => rfl, fun zero => absurd zero cqPollErr_ne_zero⟩
    rw [sent] at res
    obtain ⟨kept, outside, done⟩ := ih res
    refine ⟨kept, ?_, ?_⟩
    · intro addr apart
      refine (outside addr ?_).trans ?_
      · rw [next, dropped]
        simp only [drModifyActionSize] at apart ⊢
        omega
      · refine writeWords_outside (by decide) ?_
        rw [taken]
        simp only [drModifyActionSize] at apart ⊢
        omega
    intro zero _ short
    obtain ⟨stillRunning, rest⟩ := done zero running (by rw [dropped]; omega)
    refine ⟨stillRunning, ?_⟩
    have first : HoldsWords drModifyActionSize after.args
        (mlx5drActionCacheLineSize * (objectId + iter)) (words.take 8) := by
      have written : HoldsWords drModifyActionSize (dmn.writeArgs (objectId + iter) (words.take 8)).args
          (mlx5drActionCacheLineSize * (objectId + iter)) (words.take 8) :=
        writeWords_holds (by decide)
      refine written.congr ?_ (by decide)
      intro addr _ upper
      refine outside addr (.inl ?_)
      rw [next]
      rw [taken] at upper
      simp only [drModifyActionSize] at upper
      omega
    by_cases more : 8 ≤ words.length
    · have full : (words.take 8).length = 8 := by omega
      rw [next] at rest
      have joined : HoldsWords drModifyActionSize after.args (mlx5drActionCacheLineSize * (objectId + iter))
          (words.take 8 ++ words.drop 8) := by
        refine first.append ?_
        rw [full]
        exact rest
      rw [List.take_append_drop] at joined
      exact joined
    · rw [List.take_of_length_le (by omega)] at first
      exact first

/-- A creation's argument step changes only free lists, argument memory and queue state. -/
def SameButArgs (dmn after : PtrnDomain) : Prop :=
  after = { dmn with
    argPools := after.argPools
    errState := after.errState
    args := after.args }

/-- The outcome of `dr_ste_v1_alloc_modify_hdr_arg`: no object and an error, or the list in an object no one
else holds. Others keep their words. -/
theorem drSteV1AllocModifyHdrArg_spec {held action env}
    {res ret} (valid : ArgsValid dmn.argPools held)
    (fresh : env.arg.Fresh dmn.granularity (held ++ freeArgs dmn.argPools))
    (back : drSteV1AllocModifyHdrArg dmn action env = (after, res, ret)) :
    SameButArgs dmn after ∧
      (∀ other ∈ held, ∀ words, other.Holds dmn.args words → other.Holds after.args words) ∧
      ((res = none ∧ ArgsValid after.argPools held ∧
          Refilled dmn.granularity (drGetArgSize action.data.length) dmn.argPools after.argPools []) ∨
        ∃ arg, res = some arg ∧ ret = 0 ∧ ArgsValid after.argPools (arg :: held) ∧
          Refilled dmn.granularity (drGetArgSize action.data.length) dmn.argPools after.argPools [arg] ∧
          (dmn.errState = false → after.errState = false ∧ arg.Holds after.args action.data)) := by
  unfold drSteV1AllocModifyHdrArg at back
  cases got : mlx5drArgGetObj dmn (drGetArgSize action.data.length) env.arg with
  | mk withObject object =>
    rw [got] at back
    rcases mlx5drArgGetObj_spec valid fresh got with
      ⟨rfl, rfl⟩ | ⟨arg, rest, rfl, rfl, below, sized, taken, refilled⟩
    · cases back
      exact ⟨rfl, fun _ _ _ holds => holds, .inl ⟨rfl, valid, Refilled.refl _ _ _⟩⟩
    simp only at back
    cases sent : mlx5drSendPostsendArgs (dmn.setPool (drGetArgSize action.data.length) rest)
        arg action.data env.argPolled with
    | mk posted sendRet =>
      rw [sent] at back
      obtain ⟨kept, outside, done⟩ := postsendArgsFrom_spec sent
      have fits : action.data.length ≤ 8 * 2 ^ arg.logChunkSize := by
        rw [sized]
        unfold drGetArgSize drArgChunkSizeMax at below ⊢
        split_ifs at below ⊢ <;> omega
      have same : SameOutside arg dmn.args posted.args := by
        intro addr apart
        refine outside addr ?_
        simp only [mlx5drActionCacheLineSize, drModifyActionSize] at apart ⊢
        omega
      have samePools : posted.argPools = (dmn.setPool (drGetArgSize action.data.length) rest).argPools := by
        rw [kept]
      split at back
      · cases back
        refine ⟨?_, ?_, .inl ⟨rfl, ?_, ?_⟩⟩
        · rw [SameButArgs, mlx5drArgPutObj, PtrnDomain.setPool, kept]
          rfl
        · intro other mem words holds
          exact holds.frame (taken.apart mem) same
        · change ArgsValid (update posted.argPools _ _) held
          rw [samePools]
          exact taken.put
        · obtain ⟨added, source, perm⟩ := refilled
          refine ⟨added, source, ?_⟩
          change (freeArgs (update posted.argPools _ _)).Perm _
          rw [samePools]
          exact (freeArgs_put (by rw [sized]; exact below)).trans perm
      · rename_i success
        cases back
        have zero : sendRet = 0 := not_not.mp success
        refine ⟨?_, ?_, .inr ⟨arg, rfl, rfl, ?_, ?_, ?_⟩⟩
        · rw [SameButArgs, kept]
          rfl
        · intro other mem words holds
          exact holds.frame (taken.apart mem) same
        · rw [samePools]
          exact taken
        · rw [samePools]
          exact refilled
        · intro running
          have enough : action.data.length ≤ 8 * ((action.data.length - 1) / 8 + 1) := by omega
          obtain ⟨stillRunning, written⟩ := done zero running enough
          exact ⟨stillRunning, fits, written⟩

end MlnxOfed.Steering
