/-
Concurrent calls of `_mlx5_add_flow_rules` on one flow table (fs_core.c).

A call collects the groups with its match criteria under the table's lock, reads their versions, searches
each under its lock, compares the versions again, and inserts an entry into the first group with room or a
new group. A step is a section between taking and releasing locks, or one read or increment of a version.
-/

import MlnxOfed.Lib.KeyedList

namespace MlnxOfed.FsCore.AddFlowRules

open Function Lib

/-- The fixed part of `struct mlx5_flow_group`: its address, criteria and size. -/
structure GroupId (Criteria : Type) where
  address : Nat
  mask : Criteria
  maxFtes : Nat
  deriving DecidableEq

/-- An entry in its group's hash: inactive when just inserted and when deleted from the device; `activated`
is active with the group's version not yet incremented. -/
inductive FteStatus where
  | inserted
  | activated
  | counted
  | deleted
  deriving DecidableEq

def FteStatus.active : FteStatus → Bool
  | .activated => true
  | .counted => true
  | _ => false

structure Fte (Criteria Value : Type) where
  id : Nat
  group : GroupId Criteria
  val : Value
  status : FteStatus
  deriving DecidableEq

/-- Where a call stands. `rest` are the groups its current loop still has to visit. -/
inductive Phase (Criteria : Type) where
  | idle
  /-- The sum of `matched_fgs_get_version` before the search. -/
  | readVersions (rest : List (GroupId Criteria))
  | search (rest : List (GroupId Criteria))
  /-- An active entry was found; the group's lock is kept while waiting for the entry's. -/
  | waitFte (group : GroupId Criteria) (fte : Nat)
  | checkTable
  /-- The second `matched_fgs_get_version`. -/
  | checkGroups (sum : BitVec 64) (rest : List (GroupId Criteria))
  | insert (tryAgain : Bool) (rest : List (GroupId Criteria))
  /-- `try_add_to_existing_fg` returned `-EAGAIN` or `-ENOENT`. -/
  | lockTable (again : Bool)
  /-- The lock of a new group is held. -/
  | autoGroup (group : GroupId Criteria)
  /-- In `add_rule_fg`, with the entry's lock. -/
  | fill (group : GroupId Criteria) (fte : Nat)
  /-- The entry was set active, the version of its group comes next. -/
  | count (group : GroupId Criteria) (fte : Nat)

/-- The locals of a call; `ftVersion` and `read` are the counters read, of which the code keeps 32 bits and
a sum. -/
structure Adder (Criteria Value : Type) where
  criteria : Criteria
  value : Value
  ftVersion : Nat
  matchHead : List (GroupId Criteria)
  read : List (GroupId Criteria × Nat)
  takeWrite : Bool
  phase : Phase Criteria

structure FsState (Criteria Value : Type) where
  ftVersion : Nat
  groups : List (GroupId Criteria)
  active : GroupId Criteria → Bool
  version : GroupId Criteria → Nat
  ftes : List (Fte Criteria Value)
  adders : Nat → Adder Criteria Value

variable {Criteria Value : Type}

def atomicRead (counter : Nat) : BitVec 32 := BitVec.ofNat 32 counter

/-- `(u64)atomic_read(..)`: an `int` is extended with its sign. -/
def versionTerm (counter : Nat) : BitVec 64 := (atomicRead counter).signExtend 64

def matchedFgsVersion (read : List (GroupId Criteria × Nat)) : BitVec 64 :=
  read.foldl (fun sum entry => sum + versionTerm entry.2) 0

def FsState.setAdder (state : FsState Criteria Value) (i : Nat) (adder : Adder Criteria Value) :
    FsState Criteria Value :=
  { state with adders := update state.adders i adder }

def FsState.setPhase (state : FsState Criteria Value) (i : Nat) (phase : Phase Criteria) :
    FsState Criteria Value :=
  state.setAdder i { state.adders i with phase := phase }

variable [DecidableEq Criteria] [DecidableEq Value]

def FsState.setStatus (state : FsState Criteria Value) (fte : Nat) (status : FteStatus) :
    FsState Criteria Value :=
  { state with
    ftes := updateKey Fte.id state.ftes fte fun entry => { entry with status := status } }

def Phase.locks (fte : Nat) : Phase Criteria → Prop
  | .fill _ other => other = fte
  | .count _ other => other = fte
  | _ => False

def Phase.refers (fte : Nat) : Phase Criteria → Prop
  | .waitFte _ other => other = fte
  | .fill _ other => other = fte
  | .count _ other => other = fte
  | _ => False

def Phase.holdsGroup (group : GroupId Criteria) : Phase Criteria → Prop
  | .waitFte other _ => other = group
  | .autoGroup other => other = group
  | .fill other _ => other = group
  | .count other _ => other = group
  | _ => False

/-- The call refers to the groups of its match list. From `fill` on the list is not used again; through a
new group it was put before. -/
def Phase.holdsList : Phase Criteria → Prop
  | .idle => False
  | .lockTable _ => False
  | .autoGroup _ => False
  | .fill _ _ => False
  | .count _ _ => False
  | _ => True

def FsState.readable (state : FsState Criteria Value) (group : GroupId Criteria) : Prop :=
  ∀ i, (state.adders i).phase ≠ .autoGroup group

def FsState.writable (state : FsState Criteria Value) (group : GroupId Criteria) : Prop :=
  state.readable group ∧ ∀ i fte, (state.adders i).phase ≠ .waitFte group fte

def FsState.unlocked (state : FsState Criteria Value) (fte : Nat) : Prop :=
  ∀ i, ¬(state.adders i).phase.locks fte

/-- The groups of the table with some criteria (`build_match_list`). -/
def FsState.matching (state : FsState Criteria Value) (criteria : Criteria) : List (GroupId Criteria) :=
  state.groups.filter fun group => group.mask = criteria

def FsState.used (state : FsState Criteria Value) (group : GroupId Criteria) : Nat :=
  (state.ftes.filter fun entry => entry.group = group).length

/-! ### Steps -/

/-- Starting a call or starting over, under the table's lock. -/
def collected (state : FsState Criteria Value) (i : Nat) (criteria : Criteria) (value : Value) :
    FsState Criteria Value :=
  state.setAdder i
    { criteria := criteria
      value := value
      ftVersion := state.ftVersion
      matchHead := state.matching criteria
      read := []
      takeWrite := false
      phase := .readVersions (state.matching criteria) }

/-- `insert_fte`, with the new entry's lock taken. -/
def inserted (state : FsState Criteria Value) (i fte : Nat) (group : GroupId Criteria) :
    FsState Criteria Value :=
  { state with
    ftes := ⟨fte, group, (state.adders i).value, .inserted⟩ :: state.ftes }.setPhase i (.fill group fte)

/-- An atomic section of the call `i` or of another user. `allowed` restricts the insertions. -/
inductive FsStep (allowed : FsState Criteria Value → Nat → Prop) :
    FsState Criteria Value → FsState Criteria Value → Prop where
  | start (state : FsState Criteria Value) (i : Nat) (criteria : Criteria) (value : Value)
      (idle : (state.adders i).phase = .idle) :
      FsStep allowed state (collected state i criteria value)
  | readVersion (state : FsState Criteria Value) (i : Nat) (group : GroupId Criteria)
      (rest : List (GroupId Criteria))
      (phase : (state.adders i).phase = .readVersions (group :: rest)) :
      FsStep allowed state (state.setAdder i { state.adders i with
        read := (state.adders i).read ++ [(group, state.version group)]
        phase := .readVersions rest })
  | startSearch (state : FsState Criteria Value) (i : Nat) (phase : (state.adders i).phase = .readVersions []) :
      FsStep allowed state (state.setPhase i (.search (state.adders i).matchHead))
  /-- The hash returns no entry with the value, or one that is not active. -/
  | lookupMissed (state : FsState Criteria Value) (i : Nat) (group : GroupId Criteria)
      (rest : List (GroupId Criteria)) (phase : (state.adders i).phase = .search (group :: rest))
      (lock : state.readable group)
      (writeLock : (state.adders i).takeWrite = true → state.writable group)
      (missed : (∀ entry ∈ state.ftes, entry.group = group → entry.val ≠ (state.adders i).value) ∨
        ∃ entry ∈ state.ftes, entry.group = group ∧ entry.val = (state.adders i).value ∧
          entry.status.active = false) :
      FsStep allowed state (state.setPhase i (.search rest))
  | lookupFound (state : FsState Criteria Value) (i : Nat) (group : GroupId Criteria)
      (rest : List (GroupId Criteria)) (phase : (state.adders i).phase = .search (group :: rest))
      (lock : state.readable group)
      (writeLock : (state.adders i).takeWrite = true → state.writable group)
      (entry : Fte Criteria Value) (listed : entry ∈ state.ftes) (inGroup : entry.group = group)
      (same : entry.val = (state.adders i).value) (active : entry.status.active = true) :
      FsStep allowed state (state.setPhase i (.waitFte group entry.id))
  | lockFte (state : FsState Criteria Value) (i : Nat) (group : GroupId Criteria) (fte : Nat)
      (phase : (state.adders i).phase = .waitFte group fte) (lock : state.unlocked fte) :
      FsStep allowed state (state.setPhase i (.fill group fte))
  | searchDone (state : FsState Criteria Value) (i : Nat) (phase : (state.adders i).phase = .search []) :
      FsStep allowed state (state.setPhase i .checkTable)
  | tableChanged (state : FsState Criteria Value) (i : Nat) (phase : (state.adders i).phase = .checkTable)
      (changed : atomicRead state.ftVersion ≠ atomicRead (state.adders i).ftVersion) :
      FsStep allowed state (state.setPhase i (.lockTable true))
  | tableSame (state : FsState Criteria Value) (i : Nat) (phase : (state.adders i).phase = .checkTable)
      (same : atomicRead state.ftVersion = atomicRead (state.adders i).ftVersion) :
      FsStep allowed state (state.setPhase i (.checkGroups 0 (state.adders i).matchHead))
  | checkVersion (state : FsState Criteria Value) (i : Nat) (sum : BitVec 64)
      (group : GroupId Criteria) (rest : List (GroupId Criteria))
      (phase : (state.adders i).phase = .checkGroups sum (group :: rest)) :
      FsStep allowed state (state.setPhase i (.checkGroups (sum + versionTerm (state.version group)) rest))
  | groupsChanged (state : FsState Criteria Value) (i : Nat) (sum : BitVec 64)
      (phase : (state.adders i).phase = .checkGroups sum [])
      (changed : matchedFgsVersion (state.adders i).read ≠ sum) :
      FsStep allowed state (state.setAdder i { state.adders i with
        read := []
        takeWrite := true
        phase := .readVersions (state.adders i).matchHead })
  | groupsSame (state : FsState Criteria Value) (i : Nat) (sum : BitVec 64)
      (phase : (state.adders i).phase = .checkGroups sum [])
      (same : matchedFgsVersion (state.adders i).read = sum) :
      FsStep allowed state (state.setPhase i (.insert false (state.adders i).matchHead))
  | skipInactive (state : FsState Criteria Value) (i : Nat) (tryAgain : Bool)
      (group : GroupId Criteria) (rest : List (GroupId Criteria))
      (phase : (state.adders i).phase = .insert tryAgain (group :: rest))
      (lock : state.writable group) (inactive : state.active group = false) :
      FsStep allowed state (state.setPhase i (.insert true rest))
  | skipFull (state : FsState Criteria Value) (i : Nat) (tryAgain : Bool)
      (group : GroupId Criteria) (rest : List (GroupId Criteria))
      (phase : (state.adders i).phase = .insert tryAgain (group :: rest))
      (lock : state.writable group) (active : state.active group = true)
      (full : group.maxFtes ≤ state.used group) :
      FsStep allowed state (state.setPhase i (.insert tryAgain rest))
  | insertFte (state : FsState Criteria Value) (i fte : Nat) (tryAgain : Bool)
      (group : GroupId Criteria) (rest : List (GroupId Criteria))
      (phase : (state.adders i).phase = .insert tryAgain (group :: rest))
      (lock : state.writable group) (active : state.active group = true)
      (room : state.used group < group.maxFtes) (fresh : fte ∉ state.ftes.map Fte.id)
      (permitted : allowed state i) :
      FsStep allowed state (inserted state i fte group)
  | noGroup (state : FsState Criteria Value) (i : Nat) (tryAgain : Bool)
      (phase : (state.adders i).phase = .insert tryAgain []) :
      FsStep allowed state (state.setPhase i (.lockTable tryAgain))
  | collectAgain (state : FsState Criteria Value) (i : Nat) (again : Bool)
      (phase : (state.adders i).phase = .lockTable again)
      (changed : again = true ∨ atomicRead state.ftVersion ≠ atomicRead (state.adders i).ftVersion) :
      FsStep allowed state (collected state i (state.adders i).criteria (state.adders i).value)
  /-- `alloc_auto_flow_group`; the new group's lock is taken before the table's is left. -/
  | autoAlloc (state : FsState Criteria Value) (i : Nat) (group : GroupId Criteria)
      (phase : (state.adders i).phase = .lockTable false)
      (same : atomicRead state.ftVersion = atomicRead (state.adders i).ftVersion)
      (mask : group.mask = (state.adders i).criteria)
      (fresh : group.address ∉ state.groups.map GroupId.address) :
      FsStep allowed state
        ({ state with
          ftVersion := state.ftVersion + 1
          groups := group :: state.groups
          active := update state.active group false
          version := update state.version group 0 }.setPhase i (.autoGroup group))
  | autoInsert (state : FsState Criteria Value) (i fte : Nat) (group : GroupId Criteria)
      (phase : (state.adders i).phase = .autoGroup group)
      (room : state.used group < group.maxFtes) (fresh : fte ∉ state.ftes.map Fte.id)
      (permitted : allowed state i) :
      FsStep allowed state (inserted { state with active := update state.active group true } i fte group)
  /-- An allocation or a command of the device fails before an entry is inserted. -/
  | giveUp (state : FsState Criteria Value) (i : Nat) (before : ∀ fte, ¬(state.adders i).phase.refers fte) :
      FsStep allowed state (state.setPhase i .idle)
  /-- A rule that is new to the entry was written to the device. -/
  | activate (state : FsState Criteria Value) (i fte : Nat) (group : GroupId Criteria)
      (phase : (state.adders i).phase = .fill group fte) (entry : Fte Criteria Value)
      (listed : entry ∈ state.ftes) (same : entry.id = fte) :
      FsStep allowed state
        ((if entry.status = .counted then state else state.setStatus fte .activated).setPhase i
          (.count group fte))
  | increment (state : FsState Criteria Value) (i fte : Nat) (group : GroupId Criteria)
      (phase : (state.adders i).phase = .count group fte) :
      FsStep allowed state
        ({ state.setStatus fte .counted with
          version := update state.version group (state.version group + 1) }.setPhase i
            .idle)
  /-- All rules were on the entry already. -/
  | rulesFound (state : FsState Criteria Value) (i fte : Nat) (group : GroupId Criteria)
      (phase : (state.adders i).phase = .fill group fte) (entry : Fte Criteria Value)
      (listed : entry ∈ state.ftes) (same : entry.id = fte) (counted : entry.status = .counted) :
      FsStep allowed state (state.setPhase i .idle)
  /-- `add_rule_fg` fails: an entry that was just inserted is given back. -/
  | fillFailed (state : FsState Criteria Value) (i fte : Nat) (group : GroupId Criteria)
      (phase : (state.adders i).phase = .fill group fte) (entry : Fte Criteria Value)
      (listed : entry ∈ state.ftes) (same : entry.id = fte) :
      FsStep allowed state
        ((if entry.status = .inserted then state.setStatus fte .deleted else state).setPhase i
          .idle)
  /-- `mlx5_del_flow_rules` takes the last rule of an entry. -/
  | deleteFte (state : FsState Criteria Value) (entry : Fte Criteria Value)
      (listed : entry ∈ state.ftes) (counted : entry.status = .counted)
      (lock : state.unlocked entry.id) :
      FsStep allowed state (state.setStatus entry.id .deleted)
  /-- The last reference to a deleted entry is put. -/
  | removeFte (state : FsState Criteria Value) (entry : Fte Criteria Value)
      (listed : entry ∈ state.ftes) (deleted : entry.status = .deleted)
      (lock : state.writable entry.group)
      (unreferenced : ∀ i, ¬(state.adders i).phase.refers entry.id) :
      FsStep allowed state { state with ftes := removeKey Fte.id state.ftes entry.id }
  /-- `mlx5_create_flow_group` up to the command, and after it. -/
  | createGroup (state : FsState Criteria Value) (group : GroupId Criteria)
      (fresh : group.address ∉ state.groups.map GroupId.address) :
      FsStep allowed state { state with
        ftVersion := state.ftVersion + 1
        groups := group :: state.groups
        active := update state.active group false
        version := update state.version group 0 }
  | groupReady (state : FsState Criteria Value) (group : GroupId Criteria) (listed : group ∈ state.groups) :
      FsStep allowed state { state with active := update state.active group true }
  /-- The last reference to a group without entries is put. -/
  | removeGroup (state : FsState Criteria Value) (group : GroupId Criteria)
      (empty : ∀ entry ∈ state.ftes, entry.group ≠ group)
      (unreferenced : ∀ i, ¬(state.adders i).phase.holdsGroup group ∧
        ((state.adders i).phase.holdsList → group ∉ (state.adders i).matchHead)) :
      FsStep allowed state { state with groups := state.groups.filter fun other => other ≠ group }

structure FsState.Start (state : FsState Criteria Value) : Prop where
  ftes : state.ftes = []
  idle : ∀ i, (state.adders i).phase = .idle

def FsState.NoDuplicates (state : FsState Criteria Value) : Prop :=
  ∀ left ∈ state.ftes, ∀ right ∈ state.ftes, left.status.active = true →
    right.status.active = true → left.group.mask = right.group.mask → left.val = right.val → left = right

/-- At insertion the call's checks would still pass: no group added, no matched version changed, no entry
with the value about to be counted or removed. -/
structure FsState.Undisturbed (state : FsState Criteria Value) (i : Nat) : Prop where
  table : state.ftVersion = (state.adders i).ftVersion +
    match (state.adders i).phase with
    | .autoGroup _ => 1
    | _ => 0
  groups : ∀ entry ∈ (state.adders i).read, state.version entry.1 = entry.2
  settled : ∀ entry ∈ state.ftes, entry.group.mask = (state.adders i).criteria →
    entry.val = (state.adders i).value → entry.status = .counted

end MlnxOfed.FsCore.AddFlowRules
