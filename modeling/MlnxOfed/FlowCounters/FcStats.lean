/-
The life cycle of flow counters (fs_counters.c): counters that age are created into an idr and a list of
additions, destroyed into a list of deletions, and moved into and out of the list of counters by a work
item.

A counter is known by a number never used twice; its id is what the device gave. Steps are the users' calls
and, for the work, its two reads of the lists and every insertion and removal.
-/

import Mathlib.Data.List.Sort

namespace MlnxOfed.FlowCounters

open Prod List

/-! ### State -/

/-- What is read of `struct mlx5_fc`. -/
structure FcInfo where
  id : Nat
  aging : Bool

/-- `struct mlx5_fc_stats`: the idr holds pairs of id and counter by id; the last counter added is first in
`addlist` and `dellist`. -/
structure FcStats where
  info : Nat → FcInfo
  counters : List Nat
  countersIdr : List (Nat × Nat)
  addlist : List Nat
  dellist : List Nat

namespace FcStats

def id (stats : FcStats) (counter : Nat) : Nat :=
  (stats.info counter).id

/-- `mlx5_fc_counters_lookup_next`; none stands for the head of the list. -/
def lookupNext (stats : FcStats) (id : Nat) : Option Nat :=
  (stats.countersIdr.find? fun entry =>
    decide (id + 1 ≤ entry.1) && decide (entry.2 ∈ stats.counters)).map snd

def listAddTail (counters : List Nat) (counter : Nat) : Option Nat → List Nat
  | none => counters ++ [counter]
  | some next => counters.takeWhile (fun other => decide (other ≠ next)) ++
      counter :: counters.dropWhile fun other => decide (other ≠ next)

def statsInsert (stats : FcStats) (counter : Nat) : FcStats :=
  { stats with
    counters := listAddTail stats.counters counter (stats.lookupNext (stats.id counter)) }

def statsRemove (stats : FcStats) (counter : Nat) : FcStats :=
  { stats with
    counters := stats.counters.erase counter
    countersIdr := stats.countersIdr.filter fun entry => decide (entry.1 ≠ stats.id counter) }

/-- `idr_alloc_u32` for one id only. -/
def idrAlloc (stats : FcStats) (counter : Nat) : Option FcStats :=
  if stats.id counter ∈ stats.countersIdr.map fst then none
  else some { stats with
    countersIdr := stats.countersIdr.orderedInsert (fun first second => first.1 ≤ second.1)
      (stats.id counter, counter) }

end FcStats

/-- Where `mlx5_fc_stats_work` is, with the lists it has taken. -/
inductive WorkPhase where
  | idle
  | tookDel (dellist : List Nat)
  | inserting (addlist dellist : List Nat)
  | removing (dellist : List Nat)
  deriving DecidableEq

/-- The statistics, and what was created, destroyed by users, and released. -/
structure FcSystem where
  stats : FcStats
  nextCounter : Nat
  work : WorkPhase
  created : List Nat
  destroyed : List Nat
  released : List Nat
  cleaned : Bool

namespace FcSystem

def init : FcSystem where
  stats := ⟨fun _ => ⟨0, false⟩, [], [], [], []⟩
  nextCounter := 0
  work := .idle
  created := []
  destroyed := []
  released := []
  cleaned := false

def release (system : FcSystem) (counter : Nat) : FcSystem :=
  { system with released := system.released ++ [counter] }

/-- `mlx5_fc_acquire` where it succeeds: a counter with an id of the device. -/
def acquire (system : FcSystem) (id : Nat) (aging : Bool) : FcSystem :=
  { system with
    stats := { system.stats with info := fun other =>
      if other = system.nextCounter then ⟨id, aging⟩ else system.stats.info other }
    nextCounter := system.nextCounter + 1 }

/-- `mlx5_fc_create` where a counter can be acquired. -/
def create (system : FcSystem) (id : Nat) (aging idrFails : Bool) : FcSystem :=
  let counter := system.nextCounter
  let system := system.acquire id aging
  if aging then
    match if idrFails then none else system.stats.idrAlloc counter with
    | none => system.release counter
    | some stats => { system with
        stats := { stats with addlist := counter :: stats.addlist }
        created := counter :: system.created }
  else { system with created := counter :: system.created }

def destroy (system : FcSystem) (counter : Nat) : FcSystem :=
  let system := { system with destroyed := counter :: system.destroyed }
  if (system.stats.info counter).aging then
    { system with stats := { system.stats with dellist := counter :: system.stats.dellist } }
  else system.release counter

/-- `mlx5_cleanup_fc_stats`; no work is running any more. -/
def cleanup (system : FcSystem) : FcSystem :=
  { system with
    stats := { system.stats with addlist := [] }
    released := system.released ++ system.stats.addlist ++ system.stats.counters
    cleaned := true }

end FcSystem

inductive FcLifeStep : FcSystem → FcSystem → Prop where
  | create (system : FcSystem) (id : Nat) (aging idrFails : Bool) (inUse : system.cleaned = false) :
      FcLifeStep system (system.create id aging idrFails)
  | destroy (system : FcSystem) (counter : Nat) (inUse : system.cleaned = false)
      (created : counter ∈ system.created) (once : counter ∉ system.destroyed) :
      FcLifeStep system (system.destroy counter)
  | takeDel (system : FcSystem) (inUse : system.cleaned = false) (idle : system.work = .idle) :
      FcLifeStep system { system with
        stats := { system.stats with dellist := [] }
        work := .tookDel system.stats.dellist }
  | takeAdd (system : FcSystem) (dellist : List Nat) (inUse : system.cleaned = false)
      (took : system.work = .tookDel dellist) :
      FcLifeStep system { system with
        stats := { system.stats with addlist := [] }
        work := .inserting system.stats.addlist dellist }
  | insert (system : FcSystem) (counter : Nat) (addlist dellist : List Nat)
      (inUse : system.cleaned = false) (next : system.work = .inserting (counter :: addlist) dellist) :
      FcLifeStep system { system with
        stats := system.stats.statsInsert counter
        work := .inserting addlist dellist }
  | inserted (system : FcSystem) (dellist : List Nat) (inUse : system.cleaned = false)
      (next : system.work = .inserting [] dellist) :
      FcLifeStep system { system with work := .removing dellist }
  | remove (system : FcSystem) (counter : Nat) (dellist : List Nat) (inUse : system.cleaned = false)
      (next : system.work = .removing (counter :: dellist)) :
      FcLifeStep system (({ system with
        stats := system.stats.statsRemove counter
        work := .removing dellist }).release counter)
  | removed (system : FcSystem) (inUse : system.cleaned = false) (next : system.work = .removing []) :
      FcLifeStep system { system with work := .idle }
  | cleanup (system : FcSystem) (inUse : system.cleaned = false) (idle : system.work = .idle) :
      FcLifeStep system system.cleanup

def FcLifeReachable : FcSystem → Prop :=
  Relation.ReflTransGen FcLifeStep FcSystem.init

namespace WorkPhase

def adding : WorkPhase → List Nat
  | .inserting addlist _ => addlist
  | _ => []

def deleting : WorkPhase → List Nat
  | .idle => []
  | .tookDel dellist => dellist
  | .inserting _ dellist => dellist
  | .removing dellist => dellist

end WorkPhase

namespace FcSystem

def waiting (system : FcSystem) : List Nat :=
  system.stats.addlist ++ system.work.adding

def doomed (system : FcSystem) : List Nat :=
  system.stats.dellist ++ system.work.deleting

structure Valid (system : FcSystem) : Prop where
  once : (system.stats.counters ++ system.waiting ++ system.released).Nodup
  fresh : ∀ counter, counter ∈ system.created ∨ counter ∈ system.released → counter < system.nextCounter
  idrSorted : system.stats.countersIdr.Pairwise fun first second => first.1 < second.1
  idrIds : ∀ entry ∈ system.stats.countersIdr, entry.1 = system.stats.id entry.2
  idrMem : ∀ counter, counter ∈ system.stats.countersIdr.map snd ↔
    counter ∈ system.stats.counters ++ system.waiting
  sorted : system.stats.counters.Pairwise fun first second =>
    system.stats.id first < system.stats.id second
  aging : ∀ counter ∈ system.stats.counters ++ system.waiting,
    counter ∈ system.created ∧ (system.stats.info counter).aging = true
  kept : ∀ counter ∈ system.created, (system.stats.info counter).aging = true →
    counter ∈ system.stats.counters ++ system.waiting ∨ counter ∈ system.released
  doomedOnce : system.doomed.Nodup
  doomed_mem : ∀ counter ∈ system.doomed, counter ∈ system.destroyed ∧
    counter ∈ system.stats.counters ++ system.waiting
  /-- Once additions have been taken, what is to be removed has been or will be inserted. -/
  ordered : (∀ dellist, system.work ≠ .tookDel dellist) → ∀ counter ∈ system.work.deleting,
    counter ∈ system.stats.counters ++ system.work.adding
  destroyed : ∀ counter ∈ system.destroyed, counter ∈ system.created ∧
    ((system.stats.info counter).aging = true → counter ∈ system.doomed ∨ counter ∈ system.released) ∧
    ((system.stats.info counter).aging = false → counter ∈ system.released)
  released : ∀ counter ∈ system.released, counter ∈ system.created → counter ∈ system.destroyed

end FcSystem

namespace FcStats

variable {stats : FcStats} {counter : Nat} {entries : List (Nat × Nat)} {entry : Nat × Nat}

private theorem find_first {wanted} (sorted : entries.Pairwise fun first second => first.1 < second.1)
    (found : entries.find? wanted = some entry) {other} (mem : other ∈ entries)
    (isWanted : wanted other = true) : entry.1 ≤ other.1 := by
  obtain ⟨_, old, after, split, skipped⟩ := find?_eq_some_iff_append.mp found
  rw [split] at mem sorted
  rcases mem_append.mp mem with early | late
  · have skip := skipped other early
    rw [isWanted] at skip
    exact absurd skip (by simp)
  · rcases mem_cons.mp late with same | later
    · rw [same]
    · have tail := (pairwise_append.mp sorted).2.1
      exact le_of_lt ((pairwise_cons.mp tail).1 other later)

private theorem statsInsert_sorted (idrSorted : stats.countersIdr.Pairwise fun first second => first.1 < second.1)
    (idrIds : ∀ entry ∈ stats.countersIdr, entry.1 = stats.id entry.2)
    (idrMem : ∀ other ∈ stats.counters, other ∈ stats.countersIdr.map snd)
    (sorted : stats.counters.Pairwise fun first second => stats.id first < stats.id second)
    (apart : ∀ other ∈ stats.counters, stats.id other ≠ stats.id counter) :
    (stats.statsInsert counter).counters.Pairwise fun first second =>
      stats.id first < stats.id second := by
  have inIdr other (mem : other ∈ stats.counters) : (stats.id other, other) ∈ stats.countersIdr := by
    obtain ⟨entry, inside, isOther⟩ := mem_map.mp (idrMem other mem)
    rw [← isOther, ← idrIds entry inside]
    exact inside
  unfold statsInsert listAddTail
  cases found : stats.lookupNext (stats.id counter) with
  | none =>
    rw [lookupNext, Option.map_eq_none_iff, find?_eq_none] at found
    simp only [pairwise_append, pairwise_cons, mem_singleton]
    refine ⟨sorted, ⟨by simp, .nil⟩, ?_⟩
    rintro other mem _ rfl
    have small := found _ (inIdr other mem)
    simp only [mem, decide_true, Bool.and_true, decide_eq_true_eq] at small
    have away := apart other mem
    omega
  | some next =>
    rw [lookupNext, Option.map_eq_some_iff] at found
    obtain ⟨entry, found, isNext⟩ := found
    have wanted := find?_some found
    have entryIn := mem_of_find?_eq_some found
    simp only [Bool.and_eq_true, decide_eq_true_eq, isNext] at wanted
    have entryId := idrIds entry entryIn
    rw [isNext] at entryId
    obtain ⟨old, after, split, notBefore⟩ := eq_append_cons_of_mem wanted.2
    have first other (mem : other ∈ old) : stats.id other < stats.id counter := by
      have inList : other ∈ stats.counters := by simp [split, mem]
      have small : stats.id other < stats.id next := by
        rw [split] at sorted
        exact (pairwise_append.mp sorted).2.2 other mem next (by simp)
      by_contra large
      have away := apart other inList
      have least := find_first idrSorted found (inIdr other inList)
        (by simp only [inList, decide_true, Bool.and_true, decide_eq_true_eq]; omega)
      simp only at least
      omega
    rw [split] at sorted ⊢
    simp only
    rw [takeWhile_append_of_pos, dropWhile_append_of_pos]
    · simp only [takeWhile_cons, dropWhile_cons, ne_eq, not_true, decide_false,
        Bool.false_eq_true, if_false, append_nil]
      rw [pairwise_append] at sorted ⊢
      refine ⟨sorted.1, ?_, ?_⟩
      · refine pairwise_cons.mpr ⟨?_, sorted.2.1⟩
        intro other mem
        rcases mem_cons.mp mem with same | later
        · rw [same]
          omega
        · have above := (pairwise_cons.mp sorted.2.1).1 other later
          omega
      · intro other mem later inLater
        rcases mem_cons.mp inLater with same | rest
        · rw [same]
          exact first other mem
        · exact sorted.2.2 other mem later rest
    · exact fun other mem => decide_eq_true fun same => notBefore (same ▸ mem)
    · exact fun other mem => decide_eq_true fun same => notBefore (same ▸ mem)

private theorem orderedInsert_sorted (sorted : entries.Pairwise fun first second => first.1 < second.1)
    (fresh : entry.1 ∉ entries.map fst) :
    (entries.orderedInsert (fun first second => first.1 ≤ second.1) entry).Pairwise
      fun first second => first.1 < second.1 := by
  induction entries with
  | nil => exact pairwise_singleton _ _
  | cons head rest inductive_step =>
    simp only [map_cons, mem_cons, not_or] at fresh
    obtain ⟨above, sortedRest⟩ := pairwise_cons.mp sorted
    rw [orderedInsert_cons]
    split
    · refine pairwise_cons.mpr ⟨?_, sorted⟩
      intro other mem
      rcases mem_cons.mp mem with rfl | later
      · omega
      · have larger := above other later
        omega
    · refine pairwise_cons.mpr ⟨?_, inductive_step sortedRest fresh.2⟩
      intro other mem
      rcases (mem_orderedInsert _).mp mem with rfl | later
      · omega
      · exact above other later

private theorem listAddTail_perm (counters counter next) :
    (listAddTail counters counter next).Perm (counter :: counters) := by
  cases next with
  | none => exact perm_append_singleton _ _
  | some next =>
    refine perm_middle.trans ?_
    rw [takeWhile_append_dropWhile]

end FcStats

/-! ### Steps -/

namespace FcSystem.Valid

variable {system : FcSystem}

variable (valid : system.Valid)

include valid

theorem fresh_notMem : system.nextCounter ∉ system.created ∧
    system.nextCounter ∉ system.released ∧ system.nextCounter ∉ system.destroyed ∧
    system.nextCounter ∉ system.stats.counters ++ system.waiting := by
  have notCreated : system.nextCounter ∉ system.created := fun mem =>
    lt_irrefl _ (valid.fresh _ (.inl mem))
  refine ⟨notCreated, fun mem => ?_, fun mem => ?_, fun mem => ?_⟩
  · exact lt_irrefl _ (valid.fresh _ (.inr mem))
  · exact notCreated (valid.destroyed _ mem).1
  · exact notCreated (valid.aging _ mem).1

theorem congr {next : FcSystem} (info : next.stats.info = system.stats.info)
    (idr : next.stats.countersIdr = system.stats.countersIdr)
    (created : next.created = system.created) (destroyed : next.destroyed = system.destroyed)
    (released : next.released = system.released) (numbers : next.nextCounter = system.nextCounter)
    (places : (next.stats.counters ++ next.waiting).Perm (system.stats.counters ++ system.waiting))
    (sorted : next.stats.counters.Pairwise fun first second =>
      system.stats.id first < system.stats.id second)
    (doomed : next.doomed.Perm system.doomed)
    (ordered : (∀ dellist, next.work ≠ .tookDel dellist) → ∀ counter ∈ next.work.deleting,
      counter ∈ next.stats.counters ++ next.work.adding) : next.Valid := by
  cases next with
  | mk stats _ created destroyed released =>
  cases stats
  cases info
  cases idr
  cases created
  cases destroyed
  cases released
  exact { valid with
    once := (places.append_right _).nodup_iff.mpr valid.once
    fresh := by
      rw [numbers]
      exact valid.fresh
    idrMem counter := by
      rw [places.mem_iff]
      exact valid.idrMem counter
    sorted := sorted
    aging counter member := valid.aging counter (places.mem_iff.mp member)
    kept counter := by
      rw [places.mem_iff]
      exact valid.kept counter
    doomedOnce := doomed.nodup_iff.mpr valid.doomedOnce
    doomed_mem counter member := by
      rw [places.mem_iff]
      exact valid.doomed_mem counter (doomed.mem_iff.mp member)
    ordered := ordered
    destroyed counter := by
      rw [doomed.mem_iff]
      exact valid.destroyed counter }

private theorem takeDel (idle : system.work = .idle) : Valid
    { system with stats := { system.stats with dellist := [] }, work := .tookDel system.stats.dellist } := by
  refine valid.congr rfl rfl rfl rfl rfl rfl ?_ valid.sorted ?_ ?_
  · simp [waiting, WorkPhase.adding, idle]
  · simp [doomed, WorkPhase.deleting, idle]
  · intro notTook
    exact absurd rfl (notTook _)

variable {dellist : List Nat}

private theorem takeAdd (took : system.work = .tookDel dellist) : Valid { system with
      stats := { system.stats with addlist := [] }
      work := .inserting system.stats.addlist dellist } := by
  refine valid.congr rfl rfl rfl rfl rfl rfl ?_ valid.sorted ?_ ?_
  · simp [waiting, WorkPhase.adding, took]
  · simp [doomed, WorkPhase.deleting, took]
  intro _ counter mem
  -- the deletions were taken first, so their counters are in the list or were in `addlist`
  have inside := (valid.doomed_mem counter (by
    rw [doomed, took]
    exact mem_append_right _ mem)).2
  simpa [waiting, WorkPhase.adding, took] using inside

theorem ids_distinct {first second} (firstIn : first ∈ system.stats.counters ++ system.waiting)
    (secondIn : second ∈ system.stats.counters ++ system.waiting)
    (same : system.stats.id first = system.stats.id second) : first = second := by
  obtain ⟨firstEntry, inFirst, isFirst⟩ := mem_map.mp ((valid.idrMem first).mpr firstIn)
  obtain ⟨secondEntry, inSecond, isSecond⟩ := mem_map.mp ((valid.idrMem second).mpr secondIn)
  have equal : firstEntry = secondEntry := by
    by_contra apart
    have keys : (system.stats.countersIdr.map fst).Nodup := by
      rw [nodup_iff_pairwise_ne, pairwise_map]
      exact valid.idrSorted.imp fun less => Nat.ne_of_lt less
    refine apart (inj_on_of_nodup_map keys inFirst inSecond ?_)
    rw [valid.idrIds _ inFirst, valid.idrIds _ inSecond, isFirst, isSecond, same]
  rw [← isFirst, ← isSecond, equal]

private theorem insert {counter addlist dellist} (next : system.work = .inserting (counter :: addlist) dellist) :
    Valid { system with
      stats := system.stats.statsInsert counter
      work := .inserting addlist dellist } := by
  have order : (system.stats.statsInsert counter).counters.Perm
      (counter :: system.stats.counters) := FcStats.listAddTail_perm _ _ _
  have isWaiting : counter ∈ system.waiting := by simp [waiting, next, WorkPhase.adding]
  have notListed : counter ∉ system.stats.counters := by
    have once := valid.once
    rw [append_assoc, nodup_append] at once
    exact fun mem => once.2.2 counter mem counter (mem_append_left _ isWaiting) rfl
  refine valid.congr rfl rfl rfl rfl rfl rfl ?_ ?_ ?_ ?_
  · refine (order.append_right _).trans ?_
    simp only [waiting, next, WorkPhase.adding, cons_append, ← append_assoc]
    exact perm_middle.symm
  · refine FcStats.statsInsert_sorted valid.idrSorted valid.idrIds ?_ valid.sorted ?_
    · exact fun other mem => (valid.idrMem other).mpr (mem_append_left _ mem)
    · intro other mem same
      have equal := valid.ids_distinct (mem_append_left _ mem) (mem_append_right _ isWaiting) same
      exact notListed (equal ▸ mem)
  · simp [doomed, WorkPhase.deleting, next, FcStats.statsInsert]
  intro _ other mem
  have inside := valid.ordered (by simp [next]) other (by
    rw [next]
    exact mem)
  rw [next] at inside
  rw [(order.append_right _).mem_iff]
  simp only [WorkPhase.adding, mem_append, mem_cons] at inside ⊢
  tauto

private theorem inserted (next : system.work = .inserting [] dellist) :
    Valid { system with work := .removing dellist } := by
  refine valid.congr rfl rfl rfl rfl rfl rfl ?_ valid.sorted ?_ ?_
  · simp [waiting, WorkPhase.adding, next]
  · simp [doomed, WorkPhase.deleting, next]
  · intro _ counter mem
    have inside := valid.ordered (by simp [next]) counter (by
      rw [next]
      exact mem)
    simpa [next, WorkPhase.adding] using inside

private theorem removed (next : system.work = .removing []) : Valid { system with work := .idle } := by
  refine valid.congr rfl rfl rfl rfl rfl rfl ?_ valid.sorted ?_ ?_
  · simp [waiting, WorkPhase.adding, next]
  · simp [doomed, WorkPhase.deleting, next]
  · simp [WorkPhase.deleting]

theorem remove_listed {counter}
    (next : system.work = .removing (counter :: dellist)) : counter ∈ system.stats.counters ∧
      (system.stats.id counter, counter) ∈ system.stats.countersIdr := by
  have listed : counter ∈ system.stats.counters := by
    have inside := valid.ordered (by simp [next]) counter (by simp [next, WorkPhase.deleting])
    simpa [next, WorkPhase.adding] using inside
  obtain ⟨entry, inIdr, isCounter⟩ := mem_map.mp ((valid.idrMem counter).mpr (mem_append_left _ listed))
  refine ⟨listed, ?_⟩
  rw [← isCounter, ← valid.idrIds entry inIdr]
  exact inIdr

private theorem remove {counter} (next : system.work = .removing (counter :: dellist)) : Valid (({ system with
      stats := system.stats.statsRemove counter
      work := .removing dellist }).release counter) := by
  have listed := (valid.remove_listed next).1
  have isDoomed : counter ∈ system.doomed := by simp [doomed, next, WorkPhase.deleting]
  have wasDestroyed := (valid.doomed_mem counter isDoomed).1
  have noneAdding : system.work.adding = [] := by rw [next]; rfl
  have listOnce : system.stats.counters.Nodup := by
    have once := valid.once
    rw [append_assoc, nodup_append] at once
    exact once.1
  have places other : other ∈ system.stats.counters.erase counter ++ system.stats.addlist ↔ other ≠ counter ∧
      other ∈ system.stats.counters ++ system.waiting := by
    have notWaiting : counter ∉ system.waiting := by
      have once := valid.once
      rw [append_assoc, nodup_append] at once
      exact fun mem => once.2.2 counter listed counter (mem_append_left _ mem) rfl
    simp only [waiting, noneAdding, append_nil, mem_append, listOnce.mem_erase_iff] at notWaiting ⊢
    constructor
    · rintro (both | mem)
      · exact ⟨both.1, .inl both.2⟩
      · exact ⟨fun same => notWaiting (same ▸ mem), .inr mem⟩
    · rintro ⟨away, mem | mem⟩
      · exact .inl ⟨away, mem⟩
      · exact .inr mem
  have doomedRest other : other ∈ system.stats.dellist ++ dellist ↔ other ≠ counter ∧ other ∈
      system.doomed := by
    have once := valid.doomedOnce
    simp only [doomed, next, WorkPhase.deleting] at once ⊢
    have order : (system.stats.dellist ++ counter :: dellist).Perm
        (counter :: (system.stats.dellist ++ dellist)) := perm_middle
    rw [order.mem_iff, mem_cons]
    have distinct := (nodup_cons.mp (order.nodup_iff.mp once)).1
    constructor
    · exact fun mem => ⟨fun same => distinct (same ▸ mem), .inr mem⟩
    · exact fun both => both.2.resolve_left both.1
  refine ⟨?_, ?_, ?_, ?_, ?_, ?_, ?_, ?_, ?_, ?_, ?_, ?_, ?_⟩
  · have order : (system.stats.counters.erase counter ++ system.waiting ++ (system.released ++ [counter])).Perm
          (system.stats.counters ++ system.waiting ++ system.released) := by
      refine (Perm.append_left _ (perm_append_singleton counter _)).trans ?_
      refine perm_middle.trans ?_
      rw [← cons_append, ← cons_append]
      exact ((perm_cons_erase listed).symm.append_right _).append_right _
    have nodup := order.nodup_iff.mpr valid.once
    rw [waiting, noneAdding] at nodup
    exact nodup
  · intro other either
    refine valid.fresh other ?_
    simp only [release, mem_append, mem_singleton] at either
    rcases either with made | released | rfl
    · exact .inl made
    · exact .inr released
    · exact .inl (valid.destroyed _ wasDestroyed).1
  · exact valid.idrSorted.filter _
  · exact fun entry mem => valid.idrIds entry (mem_filter.mp mem).1
  · intro other
    have target : other ∈ system.stats.counters.erase counter ++ system.stats.addlist ↔
        other ∈ (((({ system with
          stats := system.stats.statsRemove counter
          work := .removing dellist }) : FcSystem).release counter).stats.counters ++ (({ system with
              stats := system.stats.statsRemove counter
              work := .removing dellist } : FcSystem).release counter).waiting) := by
      simp [waiting, release, FcStats.statsRemove, WorkPhase.adding]
    rw [← target, places other, ← valid.idrMem other]
    simp only [release, FcStats.statsRemove, mem_map, mem_filter]
    constructor
    · rintro ⟨entry, ⟨inIdr, away⟩, rfl⟩
      refine ⟨fun same => ?_, entry, inIdr, rfl⟩
      rw [valid.idrIds entry inIdr, same] at away
      simp at away
    · rintro ⟨away, entry, inIdr, rfl⟩
      refine ⟨entry, ⟨inIdr, decide_eq_true fun same => away ?_⟩, rfl⟩
      rw [valid.idrIds entry inIdr] at same
      exact valid.ids_distinct ((valid.idrMem _).mp (mem_map_of_mem inIdr)) (mem_append_left _ listed) same
  · exact valid.sorted.sublist erase_sublist
  · intro other mem
    have old : other ∈ system.stats.counters.erase counter ++ system.stats.addlist := by
      simpa [waiting, release, FcStats.statsRemove, WorkPhase.adding] using mem
    exact valid.aging other ((places other).mp old).2
  · intro other made isAging
    by_cases same : other = counter
    · right
      simp [release, same]
    rcases valid.kept other made isAging with mem | released
    · left
      have new := (places other).mpr ⟨same, mem⟩
      simpa [waiting, release, FcStats.statsRemove, WorkPhase.adding] using new
    · right
      simp [release, released]
  · have once := valid.doomedOnce
    simp only [doomed, next, WorkPhase.deleting] at once
    exact (nodup_cons.mp (perm_middle.nodup_iff.mp once)).2
  · intro other mem
    obtain ⟨away, isAlsoDoomed⟩ := (doomedRest other).mp mem
    obtain ⟨destroyed, inside⟩ := valid.doomed_mem other isAlsoDoomed
    refine ⟨destroyed, ?_⟩
    have new := (places other).mpr ⟨away, inside⟩
    simpa [waiting, release, FcStats.statsRemove, WorkPhase.adding] using new
  · intro _ other mem
    have inRest : other ∈ system.stats.dellist ++ dellist := mem_append_right _ mem
    have away := ((doomedRest other).mp inRest).1
    have inside := valid.ordered (by simp [next]) other (by
      rw [next]
      exact .tail _ mem)
    rw [noneAdding, append_nil] at inside
    exact mem_append_left _ (listOnce.mem_erase_iff.mpr ⟨away, inside⟩)
  · intro other mem
    obtain ⟨made, whenAging, whenNot⟩ := valid.destroyed other mem
    refine ⟨made, fun isAging => ?_, fun notAging => ?_⟩
    · by_cases same : other = counter
      · right
        simp [release, same]
      · rcases whenAging isAging with isAlsoDoomed | released
        · exact .inl ((doomedRest other).mpr ⟨same, isAlsoDoomed⟩)
        · right
          simp [release, released]
    · simp [release, whenNot notAging]
  · intro other mem made
    simp only [release, mem_append, mem_singleton] at mem
    rcases mem with released | rfl
    · exact valid.released other released made
    · exact wasDestroyed

private theorem destroy {counter} (created : counter ∈ system.created)
    (once : counter ∉ system.destroyed) : (system.destroy counter).Valid := by
  have notReleased : counter ∉ system.released := fun mem =>
    once (valid.released counter mem created)
  have notDoomed : counter ∉ system.doomed := fun mem =>
    once (valid.doomed_mem counter mem).1
  unfold FcSystem.destroy
  by_cases isAging : (system.stats.info counter).aging = true
  · simp only [isAging, if_true]
    refine { valid with doomedOnce := ?_, doomed_mem := ?_, destroyed := ?_, released := ?_ }
    · exact nodup_cons.mpr ⟨notDoomed, valid.doomedOnce⟩
    · intro other mem
      rcases mem_cons.mp mem with rfl | old
      · exact ⟨.head _, (valid.kept other created isAging).resolve_right notReleased⟩
      · obtain ⟨destroyed, inside⟩ := valid.doomed_mem other old
        exact ⟨.tail _ destroyed, inside⟩
    · intro other mem
      rcases mem_cons.mp mem with rfl | old
      · refine ⟨created, fun _ => .inl (.head _), fun notAging => ?_⟩
        rw [isAging] at notAging
        exact absurd notAging (by simp)
      · obtain ⟨wasCreated, whenAging, whenNot⟩ := valid.destroyed other old
        refine ⟨wasCreated, fun otherAging => ?_, whenNot⟩
        exact (whenAging otherAging).imp_left (mem_cons_of_mem _)
    · exact fun other mem isCreated =>
        mem_cons_of_mem _ (valid.released other mem isCreated)
  · have notAging : (system.stats.info counter).aging = false := by simpa using isAging
    have notInside : counter ∉ system.stats.counters ++ system.waiting := fun mem =>
      isAging (valid.aging counter mem).2
    simp only [isAging]
    refine { valid with
      once := ?_
      fresh := ?_
      kept := ?_
      doomed_mem := ?_
      destroyed := ?_
      released := ?_ }
    · have order : (system.stats.counters ++ system.waiting ++ (system.released ++ [counter])).Perm
            (counter :: (system.stats.counters ++ system.waiting ++ system.released)) := by
        rw [← append_assoc]
        exact perm_append_singleton _ _
      refine order.nodup_iff.mpr (nodup_cons.mpr ⟨?_, valid.once⟩)
      rw [mem_append]
      rintro (mem | mem)
      · exact notInside mem
      · exact notReleased mem
    · intro other either
      refine valid.fresh other ?_
      rcases either with isCreated | mem
      · exact .inl isCreated
      · rcases mem_append.mp mem with released | isNew
        · exact .inr released
        · exact .inl (mem_singleton.mp isNew ▸ created)
    · intro other isCreated otherAging
      refine (valid.kept other isCreated otherAging).imp_right fun mem => ?_
      exact mem_append_left _ mem
    · intro other mem
      obtain ⟨destroyed, inside⟩ := valid.doomed_mem other mem
      exact ⟨.tail _ destroyed, inside⟩
    · intro other mem
      rcases mem_cons.mp mem with rfl | old
      · refine ⟨created, fun otherAging => absurd otherAging isAging, fun _ => ?_⟩
        exact mem_append_right _ (.head _)
      · obtain ⟨wasCreated, whenAging, whenNot⟩ := valid.destroyed other old
        refine ⟨wasCreated, fun otherAging => ?_, fun otherNot => ?_⟩
        · exact (whenAging otherAging).imp_right (mem_append_left _)
        · exact mem_append_left _ (whenNot otherNot)
    · intro other mem isCreated
      rcases mem_append.mp mem with old | isNew
      · exact .tail _ (valid.released other old isCreated)
      · exact mem_cons.mpr (.inl (mem_singleton.mp isNew))

omit valid

private theorem acquire_info {id counter aging} (away : counter ≠ system.nextCounter) :
    (system.acquire id aging).stats.info counter = system.stats.info counter :=
  if_neg away

theorem acquire (valid : system.Valid) (id aging) : (system.acquire id aging).Valid := by
  obtain ⟨notCreated, notReleased, notDestroyed, notInside⟩ := valid.fresh_notMem
  have createdNe : ∀ counter ∈ system.created, counter ≠ system.nextCounter :=
    fun counter mem equal => notCreated (equal ▸ mem)
  have insideNe : ∀ counter ∈ system.stats.counters ++ system.waiting,
      counter ≠ system.nextCounter := fun counter mem equal => notInside (equal ▸ mem)
  refine { valid with
    fresh := ?_
    idrIds := ?_
    sorted := ?_
    aging := ?_
    kept := ?_
    destroyed := ?_ }
  · exact fun counter either => Nat.lt_succ_of_lt (valid.fresh counter either)
  · intro entry mem
    have away := insideNe entry.2 ((valid.idrMem entry.2).mp (mem_map_of_mem mem))
    rw [valid.idrIds entry mem, FcStats.id, FcStats.id, acquire_info away]
  · refine valid.sorted.imp_of_mem fun firstIn secondIn less => ?_
    rw [FcStats.id, FcStats.id, acquire_info (insideNe _ (mem_append_left _ firstIn)),
      acquire_info (insideNe _ (mem_append_left _ secondIn))]
    exact less
  · intro counter mem
    rw [acquire_info (insideNe counter mem)]
    exact valid.aging counter mem
  · intro counter created
    rw [acquire_info (createdNe counter created)]
    exact valid.kept counter created
  · intro counter mem
    rw [acquire_info fun equal => notDestroyed (equal ▸ mem)]
    exact valid.destroyed counter mem

private theorem acquire_release (valid : system.Valid) (id aging) :
    ((system.acquire id aging).release system.nextCounter).Valid := by
  obtain ⟨notCreated, notReleased, notDestroyed, notInside⟩ := valid.fresh_notMem
  have base := valid.acquire id aging
  refine { base with once := ?_, fresh := ?_, kept := ?_, destroyed := ?_, released := ?_ }
  · have order : (system.stats.counters ++ system.waiting ++ (system.released ++ [system.nextCounter])).Perm
          (system.nextCounter :: (system.stats.counters ++ system.waiting ++ system.released)) := by
      rw [← append_assoc]
      exact perm_append_singleton _ _
    refine order.nodup_iff.mpr (nodup_cons.mpr ⟨?_, valid.once⟩)
    rw [mem_append]
    rintro (mem | mem)
    · exact notInside mem
    · exact notReleased mem
  · rintro counter (made | mem)
    · exact base.fresh counter (.inl made)
    · rcases mem_append.mp mem with released | isNew
      · exact base.fresh counter (.inr released)
      · rw [mem_singleton.mp isNew]
        exact Nat.lt_succ_self _
  · intro counter made isAging
    exact (base.kept counter made isAging).imp_right (mem_append_left _)
  · intro counter mem
    obtain ⟨made, whenAging, whenNot⟩ := base.destroyed counter mem
    exact ⟨made, fun isAging => (whenAging isAging).imp_right (mem_append_left _),
      fun notAging => mem_append_left _ (whenNot notAging)⟩
  · intro counter mem made
    rcases mem_append.mp mem with released | isNew
    · exact base.released counter released made
    · exact absurd (mem_singleton.mp isNew ▸ made) notCreated

private theorem acquire_enter (valid : system.Valid) {id stats}
    (given : (system.acquire id true).stats.idrAlloc system.nextCounter = some stats) :
    Valid { system.acquire id true with
      stats := { stats with addlist := system.nextCounter :: stats.addlist }
      created := system.nextCounter :: system.created } := by
  obtain ⟨notCreated, notReleased, notDestroyed, notInside⟩ := valid.fresh_notMem
  have base := valid.acquire id true
  rw [FcStats.idrAlloc] at given
  by_cases here : (system.acquire id true).stats.id system.nextCounter ∈
      (system.acquire id true).stats.countersIdr.map fst
  · simp [here] at given
  rw [if_neg here, Option.some.injEq] at given
  have isAging : ((system.acquire id true).stats.info system.nextCounter).aging = true := by
    simp [FcSystem.acquire]
  subst given
  refine ⟨?_, ?_, ?_, ?_, ?_, base.sorted, ?_, ?_, base.doomedOnce, ?_, base.ordered, ?_, ?_⟩
  · have order : (system.stats.counters ++ (system.nextCounter :: system.waiting) ++ system.released).Perm
          (system.nextCounter :: (system.stats.counters ++ system.waiting ++ system.released)) :=
      perm_middle.append_right _
    refine order.nodup_iff.mpr (nodup_cons.mpr ⟨?_, valid.once⟩)
    rw [mem_append]
    rintro (mem | mem)
    · exact notInside mem
    · exact notReleased mem
  · rintro counter (created | released)
    · rcases mem_cons.mp created with rfl | old
      · exact Nat.lt_succ_self _
      · exact base.fresh counter (.inl old)
    · exact base.fresh counter (.inr released)
  · exact FcStats.orderedInsert_sorted base.idrSorted here
  · intro entry mem
    rcases (mem_orderedInsert _).mp mem with rfl | old
    · rfl
    · exact base.idrIds entry old
  · intro counter
    have idr := base.idrMem counter
    constructor
    · intro mem
      obtain ⟨entry, inside, rfl⟩ := mem_map.mp mem
      rcases (mem_orderedInsert _).mp inside with rfl | old
      · exact mem_append_right _ (.head _)
      · rcases mem_append.mp (idr.mp (mem_map_of_mem old)) with listed | isWaiting
        · exact mem_append_left _ listed
        · exact mem_append_right _ (.tail _ isWaiting)
    intro mem
    by_cases same : counter = system.nextCounter
    · exact mem_map.mpr ⟨_, (mem_orderedInsert _).mpr (.inl rfl), same.symm⟩
    have old : counter ∈ system.stats.counters ++ system.waiting := by
      rcases mem_append.mp mem with listed | isWaiting
      · exact mem_append_left _ listed
      · exact mem_append_right _ ((mem_cons.mp isWaiting).resolve_left same)
    obtain ⟨entry, inside, rfl⟩ := mem_map.mp (idr.mpr old)
    exact mem_map_of_mem ((mem_orderedInsert _).mpr (.inr inside))
  · intro counter mem
    by_cases same : counter = system.nextCounter
    · rw [same]
      exact ⟨.head _, isAging⟩
    have old : counter ∈ system.stats.counters ++ system.waiting := by
      rcases mem_append.mp mem with listed | isWaiting
      · exact mem_append_left _ listed
      · exact mem_append_right _ ((mem_cons.mp isWaiting).resolve_left same)
    obtain ⟨created, ages⟩ := base.aging counter old
    exact ⟨.tail _ created, ages⟩
  · intro counter created ages
    rcases mem_cons.mp created with rfl | old
    · exact .inl (mem_append_right _ (.head _))
    · refine (base.kept counter old ages).imp_left fun mem => ?_
      rcases mem_append.mp mem with listed | isWaiting
      · exact mem_append_left _ listed
      · exact mem_append_right _ (.tail _ isWaiting)
  · intro counter mem
    obtain ⟨destroyed, inside⟩ := base.doomed_mem counter mem
    refine ⟨destroyed, ?_⟩
    rcases mem_append.mp inside with listed | isWaiting
    · exact mem_append_left _ listed
    · exact mem_append_right _ (.tail _ isWaiting)
  · intro counter mem
    obtain ⟨created, rest⟩ := base.destroyed counter mem
    exact ⟨.tail _ created, rest⟩
  · intro counter mem created
    rcases mem_cons.mp created with rfl | old
    · exact absurd mem notReleased
    · exact base.released counter mem old

private theorem create (valid : system.Valid) (id aging idrFails) : (system.create id aging idrFails).Valid := by
  obtain ⟨notCreated, notReleased, notDestroyed, notInside⟩ := valid.fresh_notMem
  have base := valid.acquire id aging
  have notDoomed : system.nextCounter ∉ system.doomed := fun mem =>
    notDestroyed (valid.doomed_mem _ mem).1
  unfold FcSystem.create
  cases aging with
  | false =>
    simp only [Bool.false_eq_true, if_false]
    refine { base with fresh := ?_, aging := ?_, kept := ?_, destroyed := ?_, released := ?_ }
    · rintro counter (made | released)
      · rcases mem_cons.mp made with rfl | old
        · exact Nat.lt_succ_self _
        · exact base.fresh counter (.inl old)
      · exact base.fresh counter (.inr released)
    · intro counter mem
      obtain ⟨made, isAging⟩ := base.aging counter mem
      exact ⟨.tail _ made, isAging⟩
    · intro counter made isAging
      rcases mem_cons.mp made with rfl | old
      · simp [FcSystem.acquire] at isAging
      · exact base.kept counter old isAging
    · intro counter mem
      obtain ⟨made, rest⟩ := base.destroyed counter mem
      exact ⟨.tail _ made, rest⟩
    · intro counter mem made
      rcases mem_cons.mp made with rfl | old
      · exact absurd mem notReleased
      · exact base.released counter mem old
  | true =>
    simp only [if_true]
    split
    · exact valid.acquire_release id true
    · rename_i stats given
      refine valid.acquire_enter ?_
      cases idrFails with
      | false => exact given
      | true => simp at given

theorem initial : FcSystem.init.Valid := by
  refine ⟨?_, ?_, ?_, ?_, ?_, ?_, ?_, ?_, ?_, ?_, ?_, ?_, ?_⟩
  · simp [FcSystem.init, waiting, WorkPhase.adding]
  · simp [FcSystem.init]
  · simp [FcSystem.init]
  · simp [FcSystem.init]
  · simp [FcSystem.init, waiting, WorkPhase.adding]
  · simp [FcSystem.init]
  · simp [FcSystem.init, waiting, WorkPhase.adding]
  · simp [FcSystem.init]
  · simp [FcSystem.init, doomed, WorkPhase.deleting]
  · simp [FcSystem.init, doomed, WorkPhase.deleting]
  · simp [FcSystem.init, WorkPhase.deleting]
  · simp [FcSystem.init]
  · simp [FcSystem.init]

theorem step {next} (valid : system.Valid) (step : FcLifeStep system next)
    (inUse : next.cleaned = false) : next.Valid := by
  cases step with
  | create id aging idrFails => exact valid.create id aging idrFails
  | destroy counter _ made once => exact valid.destroy made once
  | takeDel _ idle => exact valid.takeDel idle
  | takeAdd dellist _ took => exact valid.takeAdd took
  | insert counter addlist dellist _ next => exact valid.insert next
  | inserted dellist _ next => exact valid.inserted next
  | remove counter dellist _ next => exact valid.remove next
  | removed _ next => exact valid.removed next
  | cleanup _ idle => simp [FcSystem.cleanup] at inUse

end FcSystem.Valid

/-- Users create and destroy counters; what they destroyed is released once, or waits for the work. -/
structure FcSystem.LifeCycle (system : FcSystem) : Prop where
  sorted : system.stats.counters.Pairwise fun first second =>
    system.stats.id first < system.stats.id second
  inserted : ∀ counter dellist, system.work = .removing (counter :: dellist) →
    counter ∈ system.stats.counters ∧ (system.stats.id counter, counter) ∈ system.stats.countersIdr
  once : ∀ counter, system.released.count counter ≤ 1
  notEarly : system.cleaned = false → ∀ counter ∈ system.created, counter ∉ system.destroyed →
    counter ∉ system.released
  destroyed : ∀ counter ∈ system.destroyed, (system.stats.info counter).aging = true →
    system.released.count counter = 1 ∨
      (system.cleaned = false ∧ system.released.count counter = 0 ∧ counter ∈ system.doomed)
  cleaned : system.cleaned = true → ∀ counter ∈ system.created,
    (system.stats.info counter).aging = true → system.released.count counter = 1

namespace FcSystem

variable {system : FcSystem}

theorem Valid.released_once (valid : system.Valid) : system.released.Nodup := by
  have once := valid.once
  rw [nodup_append] at once
  exact once.2.1

theorem Valid.lifeCycle (valid : system.Valid) (inUse : system.cleaned = false) : system.LifeCycle where
  sorted := valid.sorted
  inserted counter dellist next := valid.remove_listed next
  once := nodup_iff_count_le_one.mp valid.released_once
  notEarly _ counter made notDestroyed released := notDestroyed (valid.released counter released made)
  destroyed counter mem ages := by
    have once := valid.once
    rw [nodup_append] at once
    rcases (valid.destroyed counter mem).2.1 ages with isDoomed | released
    · refine .inr ⟨inUse, count_eq_zero.mpr fun released => ?_, isDoomed⟩
      exact once.2.2 counter (valid.doomed_mem counter isDoomed).2 counter released rfl
    · exact .inl (count_eq_one_of_mem valid.released_once released)
  cleaned := by simp [inUse]

theorem Valid.cleanup_lifeCycle (valid : system.Valid) (idle : system.work = .idle) :
    system.cleanup.LifeCycle := by
  have waits : system.waiting = system.stats.addlist := by simp [waiting, idle, WorkPhase.adding]
  have order : system.cleanup.released.Perm
      (system.stats.counters ++ system.waiting ++ system.released) := by
    rw [waits]
    simp only [cleanup]
    refine perm_append_comm.trans ?_
    rw [append_assoc]
    exact Perm.append_left _ perm_append_comm
  have nodup := order.nodup_iff.mpr valid.once
  have released counter (created : counter ∈ system.created) (ages : (system.stats.info counter).aging = true)
      : system.cleanup.released.count counter = 1 := by
    refine count_eq_one_of_mem nodup (order.mem_iff.mpr ?_)
    exact mem_append.mpr (valid.kept counter created ages)
  refine ⟨valid.sorted, ?_, nodup_iff_count_le_one.mp nodup, ?_, ?_, fun _ => released⟩
  · intro counter dellist next
    simp [cleanup, idle] at next
  · simp [cleanup]
  · intro counter mem ages
    exact .inl (released counter (valid.destroyed counter mem).1 ages)

end FcSystem

theorem FcSystem.create_cleaned (system : FcSystem) (id : Nat) (aging idrFails : Bool) :
    (system.create id aging idrFails).cleaned = system.cleaned := by
  unfold FcSystem.create
  cases aging with
  | false => rfl
  | true =>
    simp only [if_true]
    split
    · rfl
    · rfl

theorem FcSystem.destroy_cleaned (system : FcSystem) (counter : Nat) :
    (system.destroy counter).cleaned = system.cleaned := by
  by_cases ages : (system.stats.info counter).aging = true
  · simp [FcSystem.destroy, ages]
  · simp [FcSystem.destroy, ages, release]

theorem FcLifeStep.cleaned {system next} (step : FcLifeStep system next) : system.cleaned = false ∧
      (next.cleaned = false ∨ (system.work = .idle ∧ next = system.cleanup)) := by
  cases step with
  | create id aging idrFails inUse =>
    exact ⟨inUse, .inl ((system.create_cleaned id aging idrFails).trans inUse)⟩
  | destroy counter inUse _ _ =>
    exact ⟨inUse, .inl ((system.destroy_cleaned counter).trans inUse)⟩
  | takeDel inUse _ => exact ⟨inUse, .inl inUse⟩
  | takeAdd _ inUse _ => exact ⟨inUse, .inl inUse⟩
  | insert _ _ _ inUse _ => exact ⟨inUse, .inl inUse⟩
  | inserted _ inUse _ => exact ⟨inUse, .inl inUse⟩
  | remove _ _ inUse _ => exact ⟨inUse, .inl inUse⟩
  | removed inUse _ => exact ⟨inUse, .inl inUse⟩
  | cleanup inUse idle => exact ⟨inUse, .inr ⟨idle, rfl⟩⟩

theorem FcLifeReachable.valid {system} (reachable : FcLifeReachable system)
    (inUse : system.cleaned = false) : system.Valid := by
  induction reachable with
  | refl => exact .initial
  | tail _ taken old => exact (old taken.cleaned.1).step taken inUse

/-- Counters stay sorted by id, are taken out only once in, and released once. -/
theorem fc_life_cycle (system : FcSystem) (reachable : FcLifeReachable system) : system.LifeCycle := by
  cases reachable with
  | refl => exact FcSystem.Valid.initial.lifeCycle rfl
  | tail before taken =>
    have valid := FcLifeReachable.valid before taken.cleaned.1
    rcases taken.cleaned.2 with inUse | ⟨idle, rfl⟩
    · exact (valid.step taken inUse).lifeCycle inUse
    · exact valid.cleanup_lifeCycle idle

/-- A counter that is destroyed before the work has seen it, and the cleanup after it. -/
theorem fc_life_cycle_pending :
    ∃ system, FcLifeReachable system ∧ system.cleaned = true ∧ system.destroyed = [0] ∧
      system.released = [0] ∧ system.LifeCycle := by
  have created : FcLifeReachable _ := .single (FcLifeStep.create FcSystem.init 5 true false rfl)
  have destroyed := created.tail (FcLifeStep.destroy _ 0 (by decide) (by decide) (by decide))
  have cleaned := destroyed.tail (FcLifeStep.cleanup _ (by decide) (by decide))
  exact ⟨_, cleaned, by decide, by decide, by decide, fc_life_cycle _ cleaned⟩

end MlnxOfed.FlowCounters
