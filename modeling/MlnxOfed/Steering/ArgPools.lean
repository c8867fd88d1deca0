/-
The objects of the device behind the argument pools: what their manager creates, cuts into
arguments and destroys.
-/

import MlnxOfed.Steering.ArgObjects

namespace MlnxOfed.Steering

open Option

/-- The FW objects that were created and those that were destroyed, the last one first. -/
structure ArgFw where
  created : List Nat
  destroyed : List Nat

def ArgFw.create (fw : ArgFw) (objId : Nat) : ArgFw := { fw with created := objId :: fw.created }

def ArgFw.destroy (fw : ArgFw) (objIds : List Nat) : ArgFw :=
  { fw with destroyed := objIds ++ fw.destroyed }

def ArgFw.Live (fw : ArgFw) (objId : Nat) : Prop :=
  fw.destroyed.count objId < fw.created.count objId

def firstIds (args : List ArgObject) : List Nat :=
  (args.filter fun arg => arg.objOffset = 0).map ArgObject.objId

def ArgEnv.allocates (env : ArgEnv) (granularity logChunkSize : Nat) : Bool :=
  (List.range (1 <<< (granularity - logChunkSize))).all env.argObjAlloc

/-- `dr_arg_add_new_objects_to_pool` with the FW object it creates. -/
def ArgFw.addNewObjectsToPool (fw : ArgFw) (granularity logChunkSize : Nat)
    (freeList : List ArgObject) (env : ArgEnv) : ArgFw × Option (List ArgObject) :=
  if granularity < logChunkSize then (fw, none)
  else
    match env.createModifyHeaderArg with
    | none => (fw, none)
    | some objId =>
      if env.allocates granularity logChunkSize then
        (fw.create objId, some (freeList ++ newArgObjects granularity logChunkSize objId))
      else ((fw.create objId).destroy [objId], none)

/-- What `mlx5dr_arg_get_obj` does to the FW objects. -/
def ArgFw.getObj (fw : ArgFw) (dmn : PtrnDomain) (size : Nat) (env : ArgEnv) : ArgFw :=
  if size ≥ drArgChunkSizeMax then fw
  else
    match dmn.argPools size with
    | _ :: _ => fw
    | [] => (fw.addNewObjectsToPool dmn.granularity size [] env).1

structure MngrEnv where
  mngrAlloc : Bool
  poolAlloc : Nat → Bool
  pool : Nat → ArgEnv

/-- `pools` of the manager, with a null pointer where there is no pool. -/
abbrev ArgPoolPtrs := Nat → Option (List ArgObject)

def ArgFw.poolCreate (fw : ArgFw) (granularity : Nat) (env : MngrEnv) (chunkSize : Nat) :
    ArgFw × Option (List ArgObject) :=
  if env.poolAlloc chunkSize then
    fw.addNewObjectsToPool granularity chunkSize [] (env.pool chunkSize)
  else (fw, none)

def ArgFw.poolDestroy (fw : ArgFw) (pool : Option (List ArgObject)) : Option ArgFw :=
  pool.map fun freeList => fw.destroy (firstIds freeList)

/-- The loop under `clean_pools`. -/
def ArgFw.cleanPools (fw : ArgFw) (pools : ArgPoolPtrs) : Nat → Option ArgFw
  | 0 => some fw
  | i + 1 => (fw.poolDestroy (pools (i + 1))).bind fun fw => fw.cleanPools pools i

/-- The loop of `mlx5dr_arg_pool_mngr_create` from pool `i` on. -/
def ArgFw.createPools (granularity : Nat) (env : MngrEnv) :
    Nat → Nat → ArgFw → ArgPoolPtrs → Option (ArgFw × Option ArgPoolPtrs)
  | _, 0, fw, pools => some (fw, some pools)
  | i, turns + 1, fw, pools =>
    match fw.poolCreate granularity env i with
    | (fw, some freeList) =>
      createPools granularity env (i + 1) turns fw (Function.update pools i (some freeList))
    | (fw, none) => (fw.cleanPools pools i).map fun fw => (fw, none)

def ArgFw.poolMngrCreate (fw : ArgFw) (granularity : Nat) (env : MngrEnv) :
    Option (ArgFw × Option ArgPoolPtrs) :=
  if env.mngrAlloc then
    ArgFw.createPools granularity env 0 drArgChunkSizeMax fw fun _ => none
  else some (fw, none)

def ArgFw.poolMngrDestroy (fw : ArgFw) (pools : ArgPoolPtrs) : Option ArgFw :=
  (List.range drArgChunkSizeMax).foldlM (fun fw i => fw.poolDestroy (pools i)) fw

/-- Live FW objects have their first argument listed, and arguments are cut from live ones. -/
structure Backed (granularity : Nat) (fw : ArgFw) (args : List ArgObject) : Prop where
  balance : fw.created.Perm (fw.destroyed ++ firstIds args)
  cut : ∀ arg ∈ args, arg.objId ∈ firstIds args ∧ arg.range ⊆ Set.Ico arg.objId (arg.objId + 2 ^ granularity)

private theorem firstIds_perm {left right} (perm : left.Perm right) : (firstIds left).Perm (firstIds right) :=
  (perm.filter _).map _

theorem firstIds_append (left right) : firstIds (left ++ right) = firstIds left ++ firstIds right := by
  rw [firstIds, List.filter_append, List.map_append]
  rfl

theorem firstIds_new (granularity size objId) :
    firstIds (newArgObjects granularity size objId) = [objId] := by
  obtain ⟨rest, count⟩ : ∃ rest, 1 <<< (granularity - size) = rest + 1 :=
    Nat.exists_eq_add_one.mpr (by rw [Nat.one_shiftLeft]; exact Nat.two_pow_pos _)
  rw [newArgObjects, count, List.range_succ_eq_map, List.map_cons, firstIds, Nat.zero_mul,
    List.filter_cons_of_pos (by rfl), List.map_cons, List.filter_eq_nil_iff.mpr, List.map_nil]
  intro arg mem
  obtain ⟨_, later, rfl⟩ := List.mem_map.mp mem
  obtain ⟨i, _, rfl⟩ := List.mem_map.mp later
  have pos : 0 < (i + 1) * 1 <<< size :=
    Nat.mul_pos (Nat.succ_pos i) (by rw [Nat.one_shiftLeft]; exact Nat.two_pow_pos _)
  simp only [decide_eq_true_eq]
  exact Nat.ne_of_gt pos

section Backed

variable {granularity : Nat} {fw : ArgFw} {args : List ArgObject}

variable (backed : Backed granularity fw args)

include backed

theorem Backed.perm {others} (perm : args.Perm others) : Backed granularity fw others where
  balance := backed.balance.trans ((firstIds_perm perm).append_left _)
  cut arg member := by
    obtain ⟨first, inside⟩ := backed.cut arg (perm.mem_iff.mpr member)
    exact ⟨(firstIds_perm perm).mem_iff.mp first, inside⟩

theorem Backed.add {size} (fits : size ≤ granularity) (objId) :
    Backed granularity (fw.create objId) (newArgObjects granularity size objId ++ args) where
  balance := by
    rw [firstIds_append, firstIds_new]
    exact (backed.balance.cons objId).trans List.perm_middle.symm
  cut arg member := by
    rw [firstIds_append, firstIds_new]
    rcases List.mem_append.mp member with new | old
    · have own : arg.objId = objId := by
        obtain ⟨_, _, rfl⟩ := List.mem_map.mp new
        rfl
      rw [own]
      exact ⟨List.mem_append_left _ List.mem_cons_self, (newArgObjects_range fits new).2⟩
    · obtain ⟨first, inside⟩ := backed.cut arg old
      exact ⟨List.mem_append_right _ first, inside⟩

theorem Backed.undone (objId) : Backed granularity ((fw.create objId).destroy [objId]) args where
  balance := backed.balance.cons objId
  cut := backed.cut

theorem Backed.live_iff (objId) : fw.Live objId ↔ objId ∈ firstIds args := by
  rw [ArgFw.Live, backed.balance.count_eq, List.count_append, ← List.count_pos_iff]
  omega

omit backed

end Backed

/-! ### Runs -/

structure ArgRun where
  fw : ArgFw
  dmn : PtrnDomain
  held : List ArgObject

def ArgRun.objects (run : ArgRun) : List ArgObject := run.held ++ freeArgs run.dmn.argPools

def ArgFw.Fresh (fw : ArgFw) (granularity : Nat) (env : ArgEnv) : Prop :=
  ∀ objId, env.createModifyHeaderArg = some objId → ∀ other, fw.Live other →
    Disjoint (Set.Ico objId (objId + 2 ^ granularity)) (Set.Ico other (other + 2 ^ granularity))

inductive ArgStep : ArgRun → ArgRun → Prop where
  | get (run : ArgRun) (size : Nat) (env : ArgEnv) (after : PtrnDomain)
      (result : Option ArgObject) (fresh : run.fw.Fresh run.dmn.granularity env)
      (got : mlx5drArgGetObj run.dmn size env = (after, result)) :
      ArgStep run ⟨run.fw.getObj run.dmn size env, after, result.toList ++ run.held⟩
  | put (run : ArgRun) (arg : ArgObject) (member : arg ∈ run.held) :
      ArgStep run ⟨run.fw, mlx5drArgPutObj run.dmn arg, run.held.erase arg⟩

structure ArgRun.Inv (granularity : Nat) (run : ArgRun) : Prop where
  granular : run.dmn.granularity = granularity
  valid : ArgsValid run.dmn.argPools run.held
  backed : Backed granularity run.fw run.objects

/-- The ends of `mlx5dr_arg_get_obj`: no object, one of the list, or the first of a new FW object. -/
private theorem mlx5drArgGetObj_cases (fw : ArgFw) {dmn after size env}
    {res} (got : mlx5drArgGetObj dmn size env = (after, res)) :
    (res = none ∧ after = dmn ∧ (fw.getObj dmn size env = fw ∨
      ∃ objId, fw.getObj dmn size env = (fw.create objId).destroy [objId])) ∨
    ∃ arg rest, res = some arg ∧ after = dmn.setPool size rest ∧ size < drArgChunkSizeMax ∧
      ((dmn.argPools size = arg :: rest ∧ fw.getObj dmn size env = fw) ∨
        ∃ objId, dmn.argPools size = [] ∧ env.createModifyHeaderArg = some objId ∧
          size ≤ dmn.granularity ∧ newArgObjects dmn.granularity size objId = arg :: rest ∧
          fw.getObj dmn size env = fw.create objId) := by
  unfold mlx5drArgGetObj at got
  unfold ArgFw.getObj
  by_cases large : size ≥ drArgChunkSizeMax
  · rw [if_pos large] at got ⊢
    cases got
    exact .inl ⟨rfl, rfl, .inl rfl⟩
  rw [if_neg large] at got ⊢
  have below := Nat.lt_of_not_le large
  unfold drArgGetObjFromPool at got
  cases list : dmn.argPools size with
  | cons arg rest =>
    rw [list] at got
    cases got
    exact .inr ⟨arg, rest, rfl, rfl, below, .inl ⟨rfl, rfl⟩⟩
  | nil =>
    rw [list] at got
    simp only [drArgAddNewObjectsToPool] at got
    simp only [ArgFw.addNewObjectsToPool]
    by_cases narrow : dmn.granularity < size
    · rw [if_pos narrow] at got ⊢
      cases got
      exact .inl ⟨rfl, rfl, .inl rfl⟩
    rw [if_neg narrow] at got ⊢
    cases create : env.createModifyHeaderArg with
    | none =>
      rw [create] at got
      cases got
      exact .inl ⟨rfl, rfl, .inl rfl⟩
    | some objId =>
      rw [create] at got
      simp only [List.nil_append] at got ⊢
      split_ifs with given
      · rw [if_pos (by exact given)] at got
        cases objects : newArgObjects dmn.granularity size objId with
        | nil =>
          have first := firstIds_new dmn.granularity size objId
          rw [objects] at first
          exact absurd first (List.cons_ne_nil _ _).symm
        | cons arg rest =>
          rw [objects] at got
          cases got
          exact .inr ⟨arg, rest, rfl, rfl, below,
            .inr ⟨objId, trivial, rfl, Nat.le_of_not_lt narrow, objects, rfl⟩⟩
      · rw [if_neg (by exact given)] at got
        cases got
        exact .inl ⟨rfl, rfl, .inr ⟨objId, rfl⟩⟩

theorem ArgRun.Inv.step {granularity run after} (inv : run.Inv granularity)
    (step : ArgStep run after) : after.Inv granularity := by
  obtain rfl := inv.granular
  cases step with
  | get size env dmn res fresh got =>
    rcases mlx5drArgGetObj_cases run.fw got with ⟨rfl, rfl, same⟩ | ⟨arg, rest, rfl, rfl, below, taken⟩
    · refine ⟨inv.granular, inv.valid, ?_⟩
      rcases same with same | ⟨objId, undone⟩
      · rw [same]
        exact inv.backed
      · rw [undone]
        exact inv.backed.undone objId
    rcases taken with ⟨list, same⟩ | ⟨objId, list, create, fits, new, added⟩
    · obtain ⟨valid, _, perm⟩ := inv.valid.take below [] (by rw [List.append_nil, list])
        (by simp) (by rw [List.append_nil]; exact inv.valid.disjoint)
      refine ⟨inv.granular, valid, ?_⟩
      rw [same]
      refine inv.backed.perm ?_
      exact ((perm.symm.append_left run.held).trans List.perm_middle)
    have apart known (mem : known ∈ run.objects) other (inNew : other ∈ arg :: rest) : Disjoint
        known.range other.range := by
      rw [← new] at inNew
      obtain ⟨first, inside⟩ := inv.backed.cut known mem
      have separate := fresh objId create _ ((inv.backed.live_iff _).mpr first)
      exact (separate.mono (newArgObjects_range fits inNew).2 inside).symm
    obtain ⟨valid, _, perm⟩ := inv.valid.take below (arg :: rest) (by rw [list, List.nil_append])
      (by
        intro other mem
        rw [← new] at mem
        exact (newArgObjects_range fits mem).1)
      (by
        rw [List.pairwise_append]
        refine ⟨inv.valid.disjoint, ?_, apart⟩
        rw [← new]
        exact newArgObjects_disjoint _ _ _)
    refine ⟨inv.granular, valid, ?_⟩
    rw [added]
    have backed := inv.backed.add fits objId
    rw [new] at backed
    refine backed.perm ?_
    rw [ArgRun.objects, ← List.append_assoc]
    exact ((List.perm_append_comm.append_right _).trans
      (by rw [List.append_assoc]; exact perm.symm.append_left run.held)).trans List.perm_middle
  | put arg mem =>
    have perm := List.perm_cons_erase mem
    have valid := inv.valid.perm perm
    refine ⟨inv.granular, valid.put, inv.backed.perm ?_⟩
    have free := @freeArgs_put run.dmn.argPools arg (valid.heldSized arg List.mem_cons_self)
    exact ((perm.append_right _).trans List.perm_middle.symm).trans (free.symm.append_left (run.held.erase arg))

/-- No two objects that are held overlap, and each is cut from a FW object that lives. -/
structure ArgRun.Safe (granularity : Nat) (run : ArgRun) : Prop where
  disjoint : run.held.Pairwise fun left right => Disjoint left.range right.range
  backed : ∀ arg ∈ run.held, run.fw.Live arg.objId ∧ arg.range ⊆ Set.Ico arg.objId (arg.objId + 2 ^ granularity)

theorem ArgRun.Inv.safe {granularity : Nat} {run : ArgRun} (inv : run.Inv granularity) :
    run.Safe granularity where
  disjoint := (List.pairwise_append.mp inv.valid.disjoint).1
  backed arg member := by
    obtain ⟨first, inside⟩ := inv.backed.cut arg (List.mem_append_left _ member)
    exact ⟨(inv.backed.live_iff _).mpr first, inside⟩

theorem ArgRun.Inv.run {granularity start run} (inv : start.Inv granularity)
    (steps : Relation.ReflTransGen ArgStep start run) : run.Inv granularity := by
  induction steps with
  | refl => exact inv
  | tail _ step ih => exact ih.step step

/-! ### The manager -/

variable {pools : ArgPoolPtrs}

private theorem poolMngrDestroy_eq (fw : ArgFw) {lists : Nat → List ArgObject}
    (exist : ∀ size < drArgChunkSizeMax, pools size = some (lists size)) :
    fw.poolMngrDestroy pools = some (((fw.destroy (firstIds (lists 0))).destroy (firstIds (lists 1))).destroy
        (firstIds (lists 2))) := by
  change ((fw.poolDestroy (pools 0)).bind fun fw => (fw.poolDestroy (pools 1)).bind fun fw =>
    (fw.poolDestroy (pools 2)).bind some) = _
  rw [exist 0 (by decide), exist 1 (by decide), exist 2 (by decide)]
  rfl

theorem ArgRun.Inv.destroys {granularity : Nat} {run : ArgRun} (inv : run.Inv granularity)
    (back : run.held = []) (exist : ∀ size < drArgChunkSizeMax, pools size = some (run.dmn.argPools size)) :
    ∃ fw, run.fw.poolMngrDestroy pools = some fw ∧ fw.destroyed.Perm fw.created := by
  refine ⟨_, poolMngrDestroy_eq run.fw exist, ?_⟩
  refine .trans ?_ inv.backed.balance.symm
  rw [ArgRun.objects, back, List.nil_append, freeArgs, firstIds_append, firstIds_append]
  refine List.perm_iff_count.mpr ?_
  intro objId
  simp only [ArgFw.destroy, List.count_append]
  omega

def MngrEnv.Creates (env : MngrEnv) (granularity size : Nat) : Prop :=
  env.poolAlloc size = true ∧ size ≤ granularity ∧ (env.pool size).createModifyHeaderArg.isSome = true ∧
      (env.pool size).allocates granularity size = true

instance (env : MngrEnv) (granularity size : Nat) : Decidable (env.Creates granularity size) :=
  inferInstanceAs (Decidable (_ ∧ _))

theorem poolCreate_creates (fw : ArgFw) {granularity size env} (creates : env.Creates granularity size) :
    ∃ objId, (env.pool size).createModifyHeaderArg = some objId ∧ fw.poolCreate granularity env size =
        (fw.create objId, some (newArgObjects granularity size objId)) := by
  obtain ⟨pool, fits, made, allocates⟩ := creates
  obtain ⟨objId, create⟩ := isSome_iff_exists.mp made
  refine ⟨objId, create, ?_⟩
  rw [ArgFw.poolCreate, if_pos pool, ArgFw.addNewObjectsToPool, if_neg (Nat.not_lt.mpr fits)]
  simp only [create, if_pos allocates, List.nil_append]

private theorem poolCreate_fails (fw : ArgFw) {granularity size env} (fails : ¬ env.Creates granularity size) :
    ∃ after, fw.poolCreate granularity env size = (after, none) ∧
      (after = fw ∨ ∃ objId, after = (fw.create objId).destroy [objId]) := by
  unfold ArgFw.poolCreate ArgFw.addNewObjectsToPool
  split
  · rename_i pool
    split
    · exact ⟨fw, rfl, .inl rfl⟩
    rename_i wide
    cases create : (env.pool size).createModifyHeaderArg with
    | none => exact ⟨fw, rfl, .inl rfl⟩
    | some objId =>
      refine ⟨_, if_neg ?_, .inr ⟨objId, rfl⟩⟩
      intro allocates
      exact fails ⟨pool, Nat.le_of_not_lt wide, by rw [create]; rfl, allocates⟩
  · exact ⟨fw, rfl, .inl rfl⟩

/-- After a failure all that was created is destroyed; after a success it is at the end of every run that
returned its objects, and no two objects overlap on the way. -/
def SafeOutcome (granularity : Nat) (outcome : ArgFw × Option ArgPoolPtrs) : Prop :=
  match outcome.2 with
  | none => outcome.1.destroyed.Perm outcome.1.created
  | some pools =>
    ∀ dmn run, dmn.granularity = granularity →
      (∀ size < drArgChunkSizeMax, pools size = some (dmn.argPools size)) →
      Relation.ReflTransGen ArgStep ⟨outcome.1, dmn, []⟩ run →
        run.Safe granularity ∧ (run.held = [] → ∃ fw, run.fw.poolMngrDestroy
              (fun size => (pools size).map fun _ => run.dmn.argPools size) = some fw ∧
            fw.destroyed.Perm fw.created)

theorem ArgRun.Inv.start {dmn} (ids : Nat → Nat) (made : ∀ size < drArgChunkSizeMax, size ≤ dmn.granularity ∧
      dmn.argPools size = newArgObjects dmn.granularity size (ids size))
    (apart : ∀ first second, first < second → second < drArgChunkSizeMax →
      Disjoint (Set.Ico (ids first) (ids first + 2 ^ dmn.granularity))
        (Set.Ico (ids second) (ids second + 2 ^ dmn.granularity))) :
    ArgRun.Inv dmn.granularity ⟨⟨[ids 2, ids 1, ids 0], []⟩, dmn, []⟩ where
  granular := rfl
  valid := argsValid_created dmn.granularity ids made apart
  backed := by
    have none : Backed dmn.granularity ⟨[], []⟩ [] := ⟨.refl _, by simp⟩
    have all := ((none.add (made 0 (by decide)).1 (ids 0)).add (made 1 (by decide)).1 (ids 1)).add
      (made 2 (by decide)).1 (ids 2)
    rw [← (made 0 (by decide)).2, ← (made 1 (by decide)).2, ← (made 2 (by decide)).2, List.append_nil] at all
    refine all.perm ?_
    rw [ArgRun.objects, List.nil_append, freeArgs]
    exact (List.perm_append_comm.append_left _).trans (List.perm_append_comm.trans (by rw [List.append_assoc]))

section Manager

variable {granularity : Nat} {env : MngrEnv}

private theorem safeOutcome_all (ranges : ∀ first second firstId secondId, first < second →
      (env.pool first).createModifyHeaderArg = some firstId →
        (env.pool second).createModifyHeaderArg = some secondId →
          Disjoint (Set.Ico firstId (firstId + 2 ^ granularity))
            (Set.Ico secondId (secondId + 2 ^ granularity)))
    (alloc : env.mngrAlloc = true)
    (all : ∀ size < drArgChunkSizeMax, env.Creates granularity size) :
    ∃ outcome, ArgFw.poolMngrCreate ⟨[], []⟩ granularity env = some outcome ∧
      SafeOutcome granularity outcome := by
  obtain ⟨firstId, firstNew, first⟩ := poolCreate_creates ⟨[], []⟩ (all 0 (by decide))
  obtain ⟨secondId, secondNew, second⟩ :=
    poolCreate_creates (ArgFw.create ⟨[], []⟩ firstId) (all 1 (by decide))
  obtain ⟨thirdId, thirdNew, third⟩ :=
    poolCreate_creates ((ArgFw.create ⟨[], []⟩ firstId).create secondId) (all 2 (by decide))
  rw [ArgFw.poolMngrCreate, if_pos alloc]
  simp only [drArgChunkSizeMax, ArgFw.createPools, first, second, third]
  refine ⟨_, rfl, ?_⟩
  intro dmn run granular pools steps
  subst granular
  have inv : ArgRun.Inv dmn.granularity
      ⟨⟨[thirdId, secondId, firstId], []⟩, dmn, []⟩ := by
    refine ArgRun.Inv.start
      (fun size => if size = 0 then firstId else if size = 1 then secondId else thirdId) ?_ ?_
    · intro size below
      refine ⟨(all size below).2.1, ?_⟩
      have list := pools size below
      have cases : size = 0 ∨ size = 1 ∨ size = 2 := by
        simp only [drArgChunkSizeMax] at below
        omega
      rcases cases with rfl | rfl | rfl
      · exact (some.inj list).symm
      · exact (some.inj list).symm
      · exact (some.inj list).symm
    intro first second old below
    have cases : (first = 0 ∧ second = 1) ∨ (first = 0 ∧ second = 2) ∨ (first = 1 ∧ second = 2) := by
      simp only [drArgChunkSizeMax] at below
      omega
    rcases cases with ⟨rfl, rfl⟩ | ⟨rfl, rfl⟩ | ⟨rfl, rfl⟩
    · exact ranges 0 1 _ _ old firstNew secondNew
    · exact ranges 0 2 _ _ old firstNew thirdNew
    · exact ranges 1 2 _ _ old secondNew thirdNew
  refine ⟨(inv.run steps).safe, ?_⟩
  intro back
  refine (inv.run steps).destroys back ?_
  intro size below
  rw [pools size below]
  rfl

/-- The manager keeps to its objects unless a pool after the first one is not created. -/
theorem argPools_safe_iff (ranges : ∀ first second firstId secondId, first < second →
      (env.pool first).createModifyHeaderArg = some firstId →
        (env.pool second).createModifyHeaderArg = some secondId →
          Disjoint (Set.Ico firstId (firstId + 2 ^ granularity))
            (Set.Ico secondId (secondId + 2 ^ granularity))) :
    (∃ outcome, ArgFw.poolMngrCreate ⟨[], []⟩ granularity env = some outcome ∧
        SafeOutcome granularity outcome) ↔
      (env.mngrAlloc = true → env.Creates granularity 0 →
        ∀ size < drArgChunkSizeMax, env.Creates granularity size) := by
  constructor
  · rintro ⟨outcome, created, _⟩ alloc creates
    rw [ArgFw.poolMngrCreate, if_pos alloc] at created
    obtain ⟨firstId, _, first⟩ := poolCreate_creates ⟨[], []⟩ creates
    simp only [drArgChunkSizeMax, ArgFw.createPools, first] at created
    have next : env.Creates granularity 1 := by
      by_contra fails
      obtain ⟨fw, second, _⟩ := poolCreate_fails (ArgFw.create ⟨[], []⟩ firstId) fails
      rw [second] at created
      cases created
    obtain ⟨secondId, _, second⟩ := poolCreate_creates (ArgFw.create ⟨[], []⟩ firstId) next
    simp only [second] at created
    have last : env.Creates granularity 2 := by
      by_contra fails
      obtain ⟨fw, third, _⟩ :=
        poolCreate_fails ((ArgFw.create ⟨[], []⟩ firstId).create secondId) fails
      rw [third] at created
      cases created
    intro size below
    have cases : size = 0 ∨ size = 1 ∨ size = 2 := by
      simp only [drArgChunkSizeMax] at below
      omega
    rcases cases with rfl | rfl | rfl
    · exact creates
    · exact next
    · exact last
  · intro condition
    by_cases alloc : env.mngrAlloc = true
    · by_cases creates : env.Creates granularity 0
      · exact safeOutcome_all ranges alloc (condition alloc creates)
      obtain ⟨fw, first, left⟩ := poolCreate_fails ⟨[], []⟩ creates
      refine ⟨(fw, none), ?_, ?_⟩
      · rw [ArgFw.poolMngrCreate, if_pos alloc]
        simp only [drArgChunkSizeMax, ArgFw.createPools, first]
        rfl
      · rcases left with rfl | ⟨objId, rfl⟩
        · exact .refl _
        · exact .refl _
    · exact ⟨(⟨[], []⟩, none), by rw [ArgFw.poolMngrCreate, if_neg alloc], .refl _⟩

end Manager

/-- Three FW objects of four arguments; `failing` is the pool without memory. -/
def threeRanges (failing : Nat) : MngrEnv :=
  { mngrAlloc := true
    poolAlloc := fun size => size ≠ failing
    pool := fun size => ⟨some (4 * size), fun _ => true⟩ }

theorem argPools_safe_three : ∃ outcome, ArgFw.poolMngrCreate ⟨[], []⟩ 2 (threeRanges 3) = some outcome ∧
      SafeOutcome 2 outcome :=
  (argPools_safe_iff (by
    intro first second firstId secondId before firstNew secondNew
    cases firstNew
    cases secondNew
    rw [Set.disjoint_left]
    intro number inFirst inSecond
    rw [Set.mem_Ico] at inFirst inSecond
    omega)).mpr (by
      intro _ _ size below
      have cases : size = 0 ∨ size = 1 ∨ size = 2 := by
        simp only [drArgChunkSizeMax] at below
        omega
      rcases cases with rfl | rfl | rfl
      · decide
      · decide
      · decide)

/-- Without memory for the second pool `clean_pools` destroys a pool that is not there. -/
theorem argPools_unsafe_second : ArgFw.poolMngrCreate ⟨[], []⟩ 2 (threeRanges 1) = none := by
  decide

end MlnxOfed.Steering
