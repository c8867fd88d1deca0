/-
The rate-limit table (rl.c): shared entries are found by their contents, dedicated ones belong to one user,
and the array lives as long as there is a user.
-/

import Mathlib.Algebra.BigOperators.Group.List.Basic
import Mathlib.Algebra.Order.Ring.Int

namespace MlnxOfed.Rl

open List Function Option

/-- `set_pp_rate_limit_context`. -/
structure RlRaw where
  rateLimit : BitVec 32
  burstUpperBound : BitVec 32
  reserved40 : BitVec 16
  typicalPacketSize : BitVec 16
  reserved60 : BitVec 288
  deriving DecidableEq

structure RlEntry where
  rlRaw : RlRaw
  refcount : Nat
  index : Nat
  uid : Nat
  dedicated : Bool

/-- `struct mlx5_rl_table` with the entries of the device by their index. -/
structure RlTable where
  maxSize : Nat
  maxRate : Nat
  minRate : Nat
  rlEntry : Option (List RlEntry)
  refcount : Nat
  device : Nat → Option (RlRaw × Nat)

def RlTable.entries (table : RlTable) : List RlEntry := table.rlEntry.getD []

def RlTable.setEntry (table : RlTable) (i : Nat) (entry : RlEntry) : RlTable :=
  { table with rlEntry := table.rlEntry.map fun entries => entries.set i entry }

def mlx5RlAreEqualRaw (entry : RlEntry) (rlIn : RlRaw) (uid : Nat) : Bool :=
  entry.rlRaw = rlIn ∧ entry.uid = uid

/-- The loop of `find_rl_entry` from entry `i`; `retEntry` is the first free one so far. -/
def findRlEntryFrom (rlIn : RlRaw) (uid : Nat) (dedicated : Bool) :
    Nat → Option (Nat × RlEntry) → List RlEntry → Option (Nat × RlEntry)
  | _, retEntry, [] => retEntry
  | i, retEntry, entry :: rest =>
    if dedicated then
      if entry.refcount = 0 then some (i, entry)
      else findRlEntryFrom rlIn uid dedicated (i + 1) retEntry rest
    else if entry.refcount ≠ 0 then
      if entry.dedicated then findRlEntryFrom rlIn uid dedicated (i + 1) retEntry rest
      else if mlx5RlAreEqualRaw entry rlIn uid then some (i, entry)
      else findRlEntryFrom rlIn uid dedicated (i + 1) retEntry rest
    else
      findRlEntryFrom rlIn uid dedicated (i + 1) (if retEntry.isSome then retEntry else some (i, entry)) rest

def findRlEntry (table : RlTable) (rlIn : RlRaw) (uid : Nat) (dedicated : Bool) : Option (Nat × RlEntry) :=
  findRlEntryFrom rlIn uid dedicated 0 none table.entries

def mlx5SetPpRateLimitCmd (table : RlTable) (entry : RlEntry) (isSet : Bool) (err : Int) : RlTable × Int :=
  if err = 0 then
    ({ table with
        device := update table.device entry.index (if isSet then some (entry.rlRaw, entry.uid) else none) }, 0)
  else (table, err)

def mlx5RlIsInRange (table : RlTable) (rate : Nat) : Bool :=
  rate ≤ table.maxRate ∧ rate ≥ table.minRate

def newRlEntries (maxSize : Nat) : List RlEntry :=
  (range maxSize).map fun i => ⟨⟨0, 0, 0, 0, 0⟩, 0, i + 1, 0, false⟩

def mlx5RlTableGet (table : RlTable) (kcalloc : Bool) : Option RlTable :=
  match table.rlEntry with
  | some _ => some { table with refcount := table.refcount + 1 }
  | none =>
    if kcalloc then
      some { table with
        rlEntry := some (newRlEntries table.maxSize)
        refcount := table.refcount + 1 }
    else none

def mlx5RlTablePut (table : RlTable) : RlTable :=
  if table.refcount - 1 ≠ 0 then { table with refcount := table.refcount - 1 }
  else { table with refcount := table.refcount - 1, rlEntry := none }

def mlx5RlEntryPut (table : RlTable) (i : Nat) (entry : RlEntry) : RlTable :=
  let entry := { entry with refcount := entry.refcount - 1 }
  let table := table.setEntry i entry
  if entry.refcount = 0 then (mlx5SetPpRateLimitCmd table entry false 0).1 else table

/-- Outcomes of `kcalloc` and of the command. -/
structure AddEnv where
  kcalloc : Bool
  setErr : Int

def mlx5RlAddRateRaw (table : RlTable) (env : AddEnv) (rlIn : RlRaw) (uid : Nat)
    (dedicatedEntry : Bool) : RlTable × Except Int Nat :=
  if table.maxSize = 0 then (table, .error (-95))
  else if rlIn.rateLimit = 0 ∨ mlx5RlIsInRange table rlIn.rateLimit.toNat = false then
    (table, .error (-22))
  else
    match mlx5RlTableGet table env.kcalloc with
    | none => (table, .error (-12))
    | some table =>
      match findRlEntry table rlIn uid dedicatedEntry with
      | none => (mlx5RlTablePut table, .error (-28))
      | some (i, entry) =>
        if entry.refcount = 0 then
          let entry := { entry with rlRaw := rlIn, uid := uid }
          let (table, err) :=
            mlx5SetPpRateLimitCmd (table.setEntry i entry) entry true env.setErr
          if err ≠ 0 then (mlx5RlTablePut table, .error err)
          else
            (table.setEntry i
              { entry with dedicated := dedicatedEntry, refcount := entry.refcount + 1 },
              .ok entry.index)
        else
          (table.setEntry i { entry with refcount := entry.refcount + 1 }, .ok entry.index)

def mlx5RlRemoveRateRaw (table : RlTable) (index : Nat) : Option RlTable :=
  table.entries[index - 1]?.map fun entry => mlx5RlTablePut (mlx5RlEntryPut table (index - 1) entry)

structure RateLimit where
  rate : BitVec 32
  maxBurstSz : BitVec 32
  typicalPktSz : BitVec 16

def RateLimit.rlRaw (rl : RateLimit) : RlRaw := ⟨rl.rate, rl.maxBurstSz, 0, rl.typicalPktSz, 0⟩

/-- `MLX5_SHARED_RESOURCE_UID` where the device has the capability. -/
def sharedUid (packetPacingUid : Bool) : Nat := if packetPacingUid then 0xffff else 0

def mlx5RlAddRate (table : RlTable) (env : AddEnv) (packetPacingUid : Bool) (rl : RateLimit) :
    RlTable × Except Int Nat :=
  mlx5RlAddRateRaw table env rl.rlRaw (sharedUid packetPacingUid) false

def mlx5RlRemoveRate (table : RlTable) (packetPacingUid : Bool) (rl : RateLimit) : RlTable :=
  if rl.rate = 0 then table
  else
    match findRlEntry table rl.rlRaw (sharedUid packetPacingUid) false with
    | none => table
    | some (i, entry) =>
      if entry.refcount = 0 then table else mlx5RlTablePut (mlx5RlEntryPut table i entry)

structure RlEntry.Matches (rlIn : RlRaw) (uid : Nat) (entry : RlEntry) : Prop where
  live : entry.refcount ≠ 0
  shared : entry.dedicated = false
  rlRaw : entry.rlRaw = rlIn
  uid : entry.uid = uid

def NoMatch (rlIn : RlRaw) (uid : Nat) (dedicated : Bool) (entries : List RlEntry) : Prop :=
  dedicated = false → ∀ entry ∈ entries, ¬ entry.Matches rlIn uid

variable {dedicated : Bool} {rlIn : RlRaw} {uid : Nat}

theorem NoMatch.cons {entries} (rest : NoMatch rlIn uid dedicated entries) {entry}
    (other : dedicated = false → ¬ entry.Matches rlIn uid) :
    NoMatch rlIn uid dedicated (entry :: entries) := by
  intro shared
  rw [forall_mem_cons]
  exact ⟨other shared, rest shared⟩

/-- What the search returns: a live shared entry that matches, or else a free entry. -/
structure Found (rlIn : RlRaw) (uid : Nat) (dedicated : Bool) (entries : List RlEntry) (i : Nat)
    (entry : RlEntry) : Prop where
  here : entries[i]? = some entry
  free : entry.refcount = 0 → NoMatch rlIn uid dedicated entries
  used : entry.refcount ≠ 0 → dedicated = false ∧ entry.Matches rlIn uid

/-- What the loop returns from entry `start` on, or what it had before. -/
inductive Searched (rlIn : RlRaw) (uid : Nat) (dedicated : Bool) (start : Nat)
    (retEntry : Option (Nat × RlEntry)) (entries : List RlEntry) :
    Option (Nat × RlEntry) → Prop where
  | kept (none : NoMatch rlIn uid dedicated entries) :
      Searched rlIn uid dedicated start retEntry entries retEntry
  | found (i : Nat) (entry : RlEntry) (found : Found rlIn uid dedicated entries i entry) :
      Searched rlIn uid dedicated start retEntry entries (some (start + i, entry))

theorem findRlEntryFrom_searched (rlIn uid dedicated) (entries start) (retEntry : Option (Nat × RlEntry)) :
    Searched rlIn uid dedicated start retEntry entries
      (findRlEntryFrom rlIn uid dedicated start retEntry entries) := by
  induction entries generalizing start retEntry with
  | nil => exact Searched.kept fun _ => by simp
  | cons entry rest ih =>
    have skip (other : dedicated = false → ¬ entry.Matches rlIn uid) : Searched rlIn uid dedicated start
        retEntry (entry :: rest) (findRlEntryFrom rlIn uid dedicated (start + 1) retEntry rest) := by
      have searched := ih (start + 1) retEntry
      generalize findRlEntryFrom rlIn uid dedicated (start + 1) retEntry rest = res at searched ⊢
      cases searched with
      | kept none => exact Searched.kept (none.cons other)
      | found i later found =>
        rw [add_assoc, add_comm 1]
        exact Searched.found (i + 1) later ⟨found.here, fun free => (found.free free).cons other, found.used⟩
    rw [findRlEntryFrom]
    split
    · rename_i alone
      split
      · rename_i free
        exact Searched.found 0 entry ⟨rfl, fun _ shared => absurd (alone.symm.trans shared)
          (Bool.false_ne_true ·.symm), fun live => absurd free live⟩
      · exact skip fun shared => absurd (alone.symm.trans shared) (Bool.false_ne_true ·.symm)
    rename_i together
    split
    · rename_i live
      split
      · rename_i own
        exact skip fun _ matching => absurd (matching.shared.symm.trans own) Bool.false_ne_true
      rename_i shared
      split
      · rename_i equal
        obtain ⟨rlRaw, sameUid⟩ := of_decide_eq_true equal
        exact Searched.found 0 entry ⟨rfl, fun free => absurd free live,
          fun _ => ⟨Bool.eq_false_iff.mpr together, ⟨live, Bool.eq_false_iff.mpr shared, rlRaw, sameUid⟩⟩⟩
      · rename_i apart
        exact skip fun _ matching =>
          apart (decide_eq_true ⟨matching.rlRaw, matching.uid⟩)
    · rename_i free
      have other (_ : dedicated = false) : ¬ entry.Matches rlIn uid := fun matching => free matching.live
      split
      · exact skip other
      have searched := ih (start + 1) (some (start, entry))
      generalize findRlEntryFrom rlIn uid dedicated (start + 1) (some (start, entry)) rest = res at searched ⊢
      cases searched with
      | kept none =>
        exact Searched.found 0 entry ⟨rfl, fun _ => none.cons other, fun live => absurd live free⟩
      | found i later found =>
        rw [add_assoc, add_comm 1]
        exact Searched.found (i + 1) later ⟨found.here, fun free => (found.free free).cons other, found.used⟩

theorem findRlEntry_found {table i entry}
    (searched : findRlEntry table rlIn uid dedicated = some (i, entry)) :
    Found rlIn uid dedicated table.entries i entry := by
  have spec := findRlEntryFrom_searched rlIn uid dedicated table.entries 0 none
  rw [← findRlEntry, searched] at spec
  cases spec with
  | found j _ found =>
    rw [zero_add]
    exact found

private theorem findRlEntry_missed {table} (searched : findRlEntry table rlIn uid dedicated = none) :
    NoMatch rlIn uid dedicated table.entries := by
  have spec := findRlEntryFrom_searched rlIn uid dedicated table.entries 0 none
  rw [← findRlEntry, searched] at spec
  cases spec with
  | kept none => exact none

/-! ### Users -/

structure RlUse where
  index : Nat
  rlRaw : RlRaw
  uid : Nat
  dedicated : Bool
  deriving DecidableEq

def RlUse.Of (use : RlUse) (entry : RlEntry) : Prop :=
  use.rlRaw = entry.rlRaw ∧ use.uid = entry.uid ∧ use.dedicated = entry.dedicated

def RlEntry.Shared (entry : RlEntry) : Prop := entry.refcount ≠ 0 ∧ entry.dedicated = false

def RlEntry.setting (entry : RlEntry) : Option (RlRaw × Nat) :=
  if entry.refcount = 0 then none else some (entry.rlRaw, entry.uid)

def usersAt (uses : List RlUse) (i : Nat) : Nat := uses.countP fun use => use.index = i + 1

/-- The entries count their users, and the device has the live ones. -/
structure Counted (entries : List RlEntry) (device : Nat → Option (RlRaw × Nat))
    (uses : List RlUse) : Prop where
  sum : (entries.map RlEntry.refcount).sum = uses.length
  users : ∀ (i : Nat) (entry : RlEntry), entries[i]? = some entry →
    entry.index = i + 1 ∧ entry.refcount = usersAt uses i
  used : ∀ use ∈ uses, ∃ i entry, use.index = i + 1 ∧ entries[i]? = some entry ∧ use.Of entry
  distinct : ∀ (i j : Nat) (left right : RlEntry), entries[i]? = some left → entries[j]? = some right →
    left.Shared → right.Shared → left.rlRaw = right.rlRaw → left.uid = right.uid → i = j
  single : ∀ (i : Nat) (entry : RlEntry), entries[i]? = some entry → entry.dedicated = true → entry.refcount ≤ 1
  device : ∀ i, device (i + 1) = entries[i]?.bind RlEntry.setting

theorem getElem?_set_here {entries : List RlEntry} {i old} (here : entries[i]? = some old)
    (entry j) : (entries.set i entry)[j]? = if j = i then some entry else entries[j]? := by
  by_cases same : j = i
  · subst same
    rw [if_pos rfl, getElem?_set_self (List.getElem?_eq_some_iff.mp here).1]
  · rw [if_neg same, getElem?_set_ne (Ne.symm same)]

private theorem sum_set_here {entries : List RlEntry} {i : Nat} {old : RlEntry} (here : entries[i]? = some old)
    (entry) : ((entries.set i entry).map RlEntry.refcount).sum + old.refcount =
      (entries.map RlEntry.refcount).sum + entry.refcount := by
  induction entries generalizing i with
  | nil => cases here
  | cons head rest ih =>
    cases i with
    | zero =>
      cases here
      simp only [set_cons_zero, map_cons, sum_cons]
      omega
    | succ i =>
      have later := ih here
      simp only [set_cons_succ, map_cons, sum_cons]
      omega

section Counted

variable {entries : List RlEntry} {device : Nat → Option (RlRaw × Nat)} {uses : List RlUse}
  {i : Nat}

theorem Counted.set (counted : Counted entries device uses) {old entry}
    (here : entries[i]? = some old) {device' uses'}
    (length : uses'.length + old.refcount = uses.length + entry.refcount)
    (index : entry.index = i + 1)
    (users : ∀ j, usersAt uses' j = if j = i then entry.refcount else usersAt uses j)
    (used : ∀ use ∈ uses', (use.index = i + 1 ∧ use.Of entry) ∨ (use ∈ uses ∧ use.index ≠ i + 1))
    (distinct : entry.Shared → ∀ (j) (other), j ≠ i → entries[j]? = some other → other.Shared →
      entry.rlRaw = other.rlRaw → entry.uid ≠ other.uid)
    (single : entry.dedicated = true → entry.refcount ≤ 1)
    (programmed : ∀ j, device' (j + 1) = if j = i then entry.setting else device (j + 1)) :
    Counted (entries.set i entry) device' uses' where
  sum := by
    have sum := sum_set_here here entry
    rw [counted.sum] at sum
    omega
  users j other at_ := by
    rw [getElem?_set_here here] at at_
    rw [users]
    split at at_
    · rename_i same
      cases at_
      rw [if_pos same, same]
      exact ⟨index, rfl⟩
    · rename_i different
      rw [if_neg different]
      exact counted.users j other at_
  used use member := by
    rcases used use member with ⟨own, of⟩ | ⟨old, apart⟩
    · exact ⟨i, entry, own, by rw [getElem?_set_here here, if_pos rfl], of⟩
    obtain ⟨j, other, at_, found, of⟩ := counted.used use old
    refine ⟨j, other, at_, ?_, of⟩
    rw [getElem?_set_here here, if_neg]
    · exact found
    · rintro rfl
      exact apart at_
  distinct j k left right leftAt rightAt leftShared rightShared sameRaw sameUid := by
    rw [getElem?_set_here here] at leftAt rightAt
    split at leftAt
    · rename_i leftHere
      cases leftAt
      split at rightAt
      · rename_i rightHere
        exact leftHere.trans rightHere.symm
      · rename_i apart
        exact absurd sameUid (distinct leftShared k right apart rightAt rightShared sameRaw)
    · rename_i apart
      split at rightAt
      · cases rightAt
        exact absurd sameUid.symm (distinct rightShared j left apart leftAt leftShared sameRaw.symm)
      · exact counted.distinct j k left right leftAt rightAt leftShared rightShared sameRaw sameUid
  single j other at_ := by
    rw [getElem?_set_here here] at at_
    split at at_
    · cases at_
      exact single
    · exact counted.single j other at_
  device j := by
    rw [programmed, getElem?_set_here here]
    split
    · rfl
    · exact counted.device j

theorem usersAt_cons (use uses i) :
    usersAt (use :: uses) i = usersAt uses i + if use.index = i + 1 then 1 else 0 := by
  simp [usersAt, countP_cons]

variable (counted : Counted entries device uses)

include counted

variable {old : RlEntry}

theorem Counted.addNew {rlIn uid dedicated}
    (found : Found rlIn uid dedicated entries i old) (free : old.refcount = 0) :
    Counted (entries.set i ⟨rlIn, old.refcount + 1, old.index, uid, dedicated⟩)
      (update device old.index (some (rlIn, uid)))
      (⟨old.index, rlIn, uid, dedicated⟩ :: uses) := by
  obtain ⟨index, users⟩ := counted.users i old found.here
  refine counted.set found.here ?_ index ?_ ?_ ?_ ?_ ?_
  · simp only [length_cons, free]
  · intro j
    rw [usersAt_cons]
    by_cases same : j = i
    · subst same
      rw [if_pos rfl, if_pos index, ← users]
    · have apart : ¬ old.index = j + 1 := by omega
      rw [if_neg same, if_neg apart, add_zero]
  · intro use mem
    rcases mem_cons.mp mem with rfl | earlier
    · exact .inl ⟨index, rfl, rfl, rfl⟩
    · refine .inr ⟨earlier, ?_⟩
      intro here
      have none : usersAt uses i = 0 := by rw [← users, free]
      exact countP_eq_zero.mp none use earlier (decide_eq_true here)
  · rintro ⟨_, shared⟩ j other _ at_ ⟨live, alone⟩ sameRaw sameUid
    exact found.free free shared other (mem_of_getElem? at_) ⟨live, alone, sameRaw.symm, sameUid.symm⟩
  · intro _
    simp [free]
  · intro j
    by_cases same : j = i
    · subst same
      rw [if_pos rfl, ← index, update_self]
      rfl
    · rw [if_neg same, update_of_ne (by rw [index]; omega)]

theorem Counted.addShared {rlIn uid} (here : entries[i]? = some old) (matching : old.Matches rlIn uid) :
    Counted (entries.set i { old with refcount := old.refcount + 1 }) device
      (⟨old.index, rlIn, uid, false⟩ :: uses) := by
  obtain ⟨index, users⟩ := counted.users i old here
  refine counted.set here ?_ index ?_ ?_ ?_ ?_ ?_
  · simp only [length_cons]
    omega
  · intro j
    rw [usersAt_cons]
    by_cases same : j = i
    · subst same
      rw [if_pos rfl, if_pos index, ← users]
    · have apart : ¬ old.index = j + 1 := by omega
      rw [if_neg same, if_neg apart, add_zero]
  · intro use mem
    rcases mem_cons.mp mem with rfl | earlier
    · exact .inl ⟨index, matching.rlRaw.symm, matching.uid.symm, matching.shared.symm⟩
    by_cases own : use.index = i + 1
    · obtain ⟨j, other, at_, found, of⟩ := counted.used use earlier
      obtain rfl : j = i := by omega
      obtain rfl := some.inj (found.symm.trans here)
      exact .inl ⟨own, of⟩
    · exact .inr ⟨earlier, own⟩
  · intro _ j other apart at_ shared sameRaw sameUid
    exact apart (counted.distinct j i other old at_ here shared ⟨matching.live, matching.shared⟩
      sameRaw.symm sameUid.symm)
  · intro alone
    exact absurd (matching.shared.symm.trans alone) Bool.false_ne_true
  · intro j
    by_cases same : j = i
    · subst same
      rw [if_pos rfl, counted.device, here, bind_some, RlEntry.setting, if_neg matching.live]
      rfl
    · rw [if_neg same]

theorem Counted.refill (here : entries[i]? = some old) (free : old.refcount = 0) (rlIn uid) :
    Counted (entries.set i { old with rlRaw := rlIn, uid := uid }) device uses := by
  obtain ⟨index, users⟩ := counted.users i old here
  refine counted.set here (by simp only) index ?_ ?_ ?_ (counted.single i old here) ?_
  · intro j
    by_cases same : j = i
    · subst same
      rw [if_pos rfl, ← users]
    · rw [if_neg same]
  · intro use mem
    refine .inr ⟨mem, ?_⟩
    intro own
    have none : usersAt uses i = 0 := by rw [← users, free]
    exact countP_eq_zero.mp none use mem (decide_eq_true own)
  · rintro ⟨live, _⟩
    exact absurd free live
  intro j
  by_cases same : j = i
  · subst same
    rw [if_pos rfl, counted.device, here, bind_some, RlEntry.setting, if_pos free,
      RlEntry.setting, if_pos free]
  · rw [if_neg same]

theorem Counted.put {use} (mem : use ∈ uses) (own : use.index = i + 1) (here : entries[i]? = some old) :
    Counted (entries.set i { old with refcount := old.refcount - 1 })
      (if old.refcount - 1 = 0 then update device old.index none else device)
      (uses.erase use) := by
  obtain ⟨index, users⟩ := counted.users i old here
  have split j : usersAt uses j = usersAt (uses.erase use) j + if use.index = j + 1 then 1 else 0 := by
    rw [← usersAt_cons]
    exact (perm_cons_erase mem).countP_eq _
  have count := split i
  rw [if_pos own] at count
  refine counted.set here ?_ index ?_ ?_ ?_ ?_ ?_
  · rw [length_erase_of_mem mem]
    have some := length_pos_of_mem mem
    simp only
    omega
  · intro j
    have count := split j
    by_cases same : j = i
    · subst same
      rw [if_pos rfl]
      simp only
      omega
    · rw [if_neg same]
      rw [if_neg (by omega)] at count
      exact count.symm
  · intro other left
    have earlier := mem_of_mem_erase left
    by_cases together : other.index = i + 1
    · obtain ⟨j, entry, at_, found, of⟩ := counted.used other earlier
      obtain rfl : j = i := by omega
      obtain rfl := some.inj (found.symm.trans here)
      exact .inl ⟨together, of⟩
    · exact .inr ⟨earlier, together⟩
  · rintro ⟨_, shared⟩ j other apart at_ otherShared sameRaw sameUid
    exact apart (counted.distinct j i other old at_ here otherShared ⟨by omega, shared⟩
      sameRaw.symm sameUid.symm)
  · intro alone
    exact le_trans (Nat.sub_le _ _) (counted.single i old here alone)
  · intro j
    by_cases same : j = i
    · subst same
      rw [if_pos rfl, RlEntry.setting]
      split
      · rw [← index, update_self]
      · rw [counted.device, here, bind_some, RlEntry.setting, if_neg (by omega)]
    · rw [if_neg same]
      split
      · rw [update_of_ne (by omega)]
      · rfl

omit counted

theorem Counted.clear (counted : Counted entries device []) (i) : device (i + 1) = none := by
  rw [counted.device]
  cases here : entries[i]? with
  | none => rfl
  | some entry =>
    have free : entry.refcount = 0 := (counted.users i entry here).2
    rw [bind_some, RlEntry.setting, if_pos free]

end Counted

theorem Counted.empty {device} (clear : ∀ i, device (i + 1) = none) : Counted [] device [] where
  sum := rfl
  users := by simp
  used := by simp
  distinct := by simp
  single := by simp
  device := clear

theorem getElem?_newRlEntries {maxSize i : Nat} {entry : RlEntry}
    (here : (newRlEntries maxSize)[i]? = some entry) : entry = ⟨⟨0, 0, 0, 0, 0⟩, 0, i + 1, 0, false⟩ := by
  obtain ⟨below, rfl⟩ := List.getElem?_eq_some_iff.mp here
  simp [newRlEntries]

theorem Counted.new {device} (clear : ∀ i, device (i + 1) = none)
    (maxSize) : Counted (newRlEntries maxSize) device [] where
  sum := by simp [newRlEntries, comp_def]
  users i entry here := by
    rw [getElem?_newRlEntries here]
    exact ⟨rfl, rfl⟩
  used := by simp
  distinct := by
    rintro i j left right here _ ⟨live, _⟩
    rw [getElem?_newRlEntries here] at live
    exact absurd rfl live
  single i entry here alone := by
    rw [getElem?_newRlEntries here] at alone
    exact absurd alone Bool.false_ne_true
  device i := by
    rw [clear]
    cases here : (newRlEntries maxSize)[i]? with
    | none => rfl
    | some entry =>
      rw [getElem?_newRlEntries here]
      rfl

/-! ### The table -/

structure RlRun where
  table : RlTable
  uses : List RlUse

structure RlRun.Inv (run : RlRun) : Prop where
  counted : Counted run.table.entries run.table.device run.uses
  refs : run.table.refcount = run.uses.length
  array : run.table.rlEntry.isSome = true ↔ run.uses ≠ []

/-- A table that an operation holds, with `refs` as its count. -/
structure Held (table : RlTable) (refs : Nat) (uses : List RlUse) : Prop where
  array : table.rlEntry.isSome = true
  counted : Counted table.entries table.device uses
  refs : table.refcount = refs

def RlTable.live (table : RlTable) (i : Nat) : Option RlEntry :=
  table.entries[i]?.filter fun entry => entry.refcount ≠ 0

structure Kept (before after : RlTable) : Prop where
  refcount : after.refcount = before.refcount
  live : ∀ i, after.live i = before.live i
  device : after.device = before.device

theorem Kept.refl (table) : Kept table table := ⟨rfl, fun _ => rfl, rfl⟩

section Table

variable {table after : RlTable} {uses : List RlUse}

theorem entries_setEntry (array : table.rlEntry.isSome = true) (i entry) :
    (table.setEntry i entry).entries = table.entries.set i entry := by
  obtain ⟨entries, some⟩ := isSome_iff_exists.mp array
  simp only [RlTable.setEntry, RlTable.entries, some, map_some, getD_some]

theorem Held.inv {refs} (held : Held table refs uses) (same : refs = uses.length)
    (some : uses ≠ []) : RlRun.Inv ⟨table, uses⟩ :=
  ⟨held.counted, held.refs.trans same, fun _ => some, fun _ => held.array⟩

theorem Held.set {refs old} (held : Held table refs old) {i entry}
    {device} (counted : Counted (table.entries.set i entry) device uses) :
    Held { table.setEntry i entry with device := device } refs uses where
  array := by
    rw [RlTable.setEntry, isSome_map]
    exact held.array
  counted := by
    rw [← entries_setEntry held.array] at counted
    exact counted
  refs := held.refs

theorem Held.put (held : Held table (uses.length + 1) uses) : RlRun.Inv ⟨mlx5RlTablePut table, uses⟩ := by
  unfold mlx5RlTablePut
  rw [held.refs, Nat.add_sub_cancel]
  split_ifs with more
  · refine ⟨held.counted, rfl, fun _ => ?_, fun _ => held.array⟩
    rintro rfl
    exact more rfl
  · obtain rfl := length_eq_zero_iff.mp (not_not.mp more)
    exact ⟨Counted.empty held.counted.clear, rfl, by simp⟩

theorem RlRun.Inv.kept (inv : RlRun.Inv ⟨table, uses⟩) (refs : after.refcount = table.refcount + 1)
    (live : ∀ i, after.live i = table.live i) (device : after.device = table.device) :
    Kept table (mlx5RlTablePut after) := by
  unfold mlx5RlTablePut
  rw [refs, Nat.add_sub_cancel]
  split
  · exact ⟨rfl, live, device⟩
  rename_i last
  have none : uses = [] := length_eq_zero_iff.mp (inv.refs.symm.trans (not_not.mp last))
  have absent : table.rlEntry = Option.none := by
    rw [← Option.not_isSome_iff_eq_none]
    exact fun array => inv.array.mp array none
  refine ⟨rfl, fun i => ?_, device⟩
  simp only [RlTable.live, RlTable.entries, absent]

private theorem mlx5RlTableGet_held (inv : RlRun.Inv ⟨table, uses⟩) {kcalloc}
    (got : mlx5RlTableGet table kcalloc = some after) :
    Held after (uses.length + 1) uses ∧ after.refcount = table.refcount + 1 ∧
      (∀ i, after.live i = table.live i) ∧ after.device = table.device := by
  have refs := inv.refs
  unfold mlx5RlTableGet at got
  split at got
  · rename_i entries array
    cases got
    exact ⟨⟨by simp only [array, isSome_some], inv.counted, congrArg (· + 1) refs⟩, rfl, fun _ => rfl, rfl⟩
  rename_i absent
  split at got
  · cases got
    have none : uses = [] := by
      by_contra some
      have array := inv.array.mpr some
      simp only [absent] at array
      exact absurd array Bool.false_ne_true
    subst none
    refine ⟨⟨rfl, Counted.new inv.counted.clear _, congrArg (· + 1) refs⟩, rfl, ?_, rfl⟩
    intro i
    simp only [RlTable.live, RlTable.entries, absent, getD_some]
    cases here : (newRlEntries table.maxSize)[i]? with
    | none => rfl
    | some entry =>
      rw [getElem?_newRlEntries here]
      rfl
  · cases got

private theorem live_set (array : table.rlEntry.isSome = true) {i : Nat} {old : RlEntry}
    (here : table.entries[i]? = some old) (free : old.refcount = 0) (entry)
    (still : entry.refcount = 0) (j) : (table.setEntry i entry).live j = table.live j := by
  rw [RlTable.live, entries_setEntry array, getElem?_set_here here, RlTable.live]
  split
  · rename_i same
    rw [same, here, filter_some, filter_some, if_neg (by simp [still]), if_neg (by simp [free])]
  · rfl

private theorem setEntry_twice (table : RlTable) (i : Nat) (first second : RlEntry)
    (device : Nat → Option (RlRaw × Nat)) :
    RlTable.setEntry { table.setEntry i first with device := device } i second =
      { table.setEntry i second with device := device } := by
  simp only [RlTable.setEntry, Option.map_map, comp_def, set_set]

variable (inv : RlRun.Inv ⟨table, uses⟩)

include inv

theorem mlx5RlAddRateRaw_step {env rlIn uid dedicated}
    {res} (added : mlx5RlAddRateRaw table env rlIn uid dedicated = (after, res)) :
    (∃ err, res = .error err ∧ RlRun.Inv ⟨after, uses⟩ ∧ Kept table after) ∨
      ∃ index, res = .ok index ∧ RlRun.Inv ⟨after, ⟨index, rlIn, uid, dedicated⟩ :: uses⟩ := by
  unfold mlx5RlAddRateRaw at added
  split at added
  · cases added
    exact .inl ⟨_, rfl, inv, Kept.refl table⟩
  split at added
  · cases added
    exact .inl ⟨_, rfl, inv, Kept.refl table⟩
  split at added
  · cases added
    exact .inl ⟨_, rfl, inv, Kept.refl table⟩
  rename_i mine got
  obtain ⟨held, refs, live, device⟩ := mlx5RlTableGet_held inv got
  split at added
  · cases added
    exact .inl ⟨_, rfl, held.put, inv.kept refs live device⟩
  rename_i i entry searched
  have found := findRlEntry_found searched
  have index := (held.counted.users i entry found.here).1
  split at added
  · rename_i free
    have refilled := held.counted.refill found.here free rlIn uid
    simp only [mlx5SetPpRateLimitCmd] at added
    by_cases done : env.setErr = 0
    · rw [if_pos done] at added
      cases added
      refine .inr ⟨_, rfl, ?_⟩
      rw [setEntry_twice]
      exact (held.set (held.counted.addNew found free)).inv rfl (cons_ne_nil _ _)
    rw [if_neg done] at added
    simp only [if_pos done] at added
    cases added
    refine .inl ⟨_, rfl, (held.set refilled).put, inv.kept refs ?_ device⟩
    intro j
    rw [← live]
    exact live_set held.array found.here free
      { entry with rlRaw := rlIn, uid := uid } free j
  · rename_i used
    cases added
    obtain ⟨rfl, matching⟩ := found.used used
    refine .inr ⟨_, rfl, ?_⟩
    exact (held.set (held.counted.addShared found.here matching)).inv rfl (cons_ne_nil _ _)

variable {use : RlUse}

theorem entryPut_step (mem : use ∈ uses) {i}
    {entry} (own : use.index = i + 1) (here : table.entries[i]? = some entry) :
    RlRun.Inv ⟨mlx5RlTablePut (mlx5RlEntryPut table i entry), uses.erase use⟩ := by
  have some := length_pos_of_mem mem
  have length := length_erase_of_mem mem
  have held : Held table ((uses.erase use).length + 1) uses :=
    ⟨inv.array.mpr (ne_nil_of_mem mem), inv.counted, inv.refs.trans (by simp only; omega)⟩
  refine Held.put ?_
  have put := held.set (inv.counted.put mem own here)
  rw [mlx5RlEntryPut]
  split
  · rename_i last
    rw [if_pos last] at put
    exact put
  · rename_i more
    rw [if_neg more] at put
    exact put

theorem mlx5RlRemoveRateRaw_step (mem : use ∈ uses) :
    ∃ after, mlx5RlRemoveRateRaw table use.index = some after ∧ RlRun.Inv ⟨after, uses.erase use⟩ := by
  obtain ⟨i, entry, own, here, _⟩ := inv.counted.used use mem
  refine ⟨_, ?_, entryPut_step inv mem own here⟩
  rw [mlx5RlRemoveRateRaw, own, Nat.add_sub_cancel, here]
  rfl

theorem mlx5RlRemoveRate_step {packetPacingUid rl} (rate : rl.rate ≠ 0)
    (mem : use ∈ uses) (rlRaw : use.rlRaw = rl.rlRaw) (uid : use.uid = sharedUid packetPacingUid)
    (shared : use.dedicated = false) :
    RlRun.Inv ⟨mlx5RlRemoveRate table packetPacingUid rl, uses.erase use⟩ := by
  obtain ⟨i, entry, own, here, sameRaw, sameUid, together⟩ := inv.counted.used use mem
  have live : entry.refcount ≠ 0 := by
    rw [(inv.counted.users i entry here).2, usersAt]
    exact Nat.ne_of_gt (countP_pos_iff.mpr ⟨use, mem, decide_eq_true own⟩)
  have matching : entry.Matches rl.rlRaw (sharedUid packetPacingUid) :=
    ⟨live, together.symm.trans shared, sameRaw.symm.trans rlRaw, sameUid.symm.trans uid⟩
  rw [mlx5RlRemoveRate, if_neg rate]
  split
  · rename_i searched
    exact absurd matching (findRlEntry_missed searched rfl entry (mem_of_getElem? here))
  rename_i j other searched
  have found := findRlEntry_found searched
  split
  · rename_i free
    exact absurd matching (found.free free rfl entry (mem_of_getElem? here))
  rename_i used
  obtain ⟨_, otherMatches⟩ := found.used used
  obtain rfl := inv.counted.distinct j i other entry found.here here
    ⟨used, otherMatches.shared⟩ ⟨live, matching.shared⟩
    (otherMatches.rlRaw.trans matching.rlRaw.symm) (otherMatches.uid.trans matching.uid.symm)
  exact entryPut_step inv mem own found.here

omit inv

end Table

def RlRun.added (run : RlRun) (rlIn : RlRaw) (uid : Nat) (dedicated : Bool) : RlTable × Except Int Nat → RlRun
  | (table, .ok index) => ⟨table, ⟨index, rlIn, uid, dedicated⟩ :: run.uses⟩
  | (table, .error _) => ⟨table, run.uses⟩

/-- A call of the four functions; a removal undoes an add named by its index or its contents. -/
inductive RlStep (packetPacingUid : Bool) : RlRun → RlRun → Prop where
  | addRateRaw (run : RlRun) (env : AddEnv) (rlIn : RlRaw) (uid : Nat) (dedicated : Bool) :
      RlStep packetPacingUid run (run.added rlIn uid dedicated
        (mlx5RlAddRateRaw run.table env rlIn uid dedicated))
  | addRate (run : RlRun) (env : AddEnv) (rl : RateLimit) :
      RlStep packetPacingUid run (run.added rl.rlRaw (sharedUid packetPacingUid) false
        (mlx5RlAddRate run.table env packetPacingUid rl))
  | removeRateRaw (run : RlRun) (use : RlUse) (member : use ∈ run.uses) (after : RlTable)
      (removed : mlx5RlRemoveRateRaw run.table use.index = some after) :
      RlStep packetPacingUid run ⟨after, run.uses.erase use⟩
  | removeRate (run : RlRun) (rl : RateLimit) (rate : rl.rate ≠ 0) (use : RlUse)
      (member : use ∈ run.uses) (rlRaw : use.rlRaw = rl.rlRaw)
      (uid : use.uid = sharedUid packetPacingUid) (shared : use.dedicated = false) :
      RlStep packetPacingUid run ⟨mlx5RlRemoveRate run.table packetPacingUid rl, run.uses.erase use⟩

theorem RlRun.Inv.added {run : RlRun} (inv : run.Inv) (env rlIn uid dedicated) :
    (run.added rlIn uid dedicated (mlx5RlAddRateRaw run.table env rlIn uid dedicated)).Inv := by
  cases res : mlx5RlAddRateRaw run.table env rlIn uid dedicated with
  | mk after outcome =>
    rcases mlx5RlAddRateRaw_step inv res with ⟨err, rfl, still, _⟩ | ⟨index, rfl, more⟩
    · exact still
    · exact more

variable {packetPacingUid : Bool}

theorem RlRun.Inv.step {run after} (inv : run.Inv) (step : RlStep packetPacingUid run after) : after.Inv := by
  cases step with
  | addRateRaw env rlIn uid dedicated => exact inv.added env rlIn uid dedicated
  | addRate env rl => exact inv.added env rl.rlRaw (sharedUid packetPacingUid) false
  | removeRateRaw use mem table removed =>
    obtain ⟨_, same, still⟩ := mlx5RlRemoveRateRaw_step inv mem
    rw [removed] at same
    cases same
    exact still
  | removeRate rl rate use mem rlRaw uid shared =>
    exact mlx5RlRemoveRate_step inv rate mem rlRaw uid shared

structure RlTable.Start (table : RlTable) : Prop where
  refcount : table.refcount = 0
  rlEntry : table.rlEntry = none
  device : ∀ i, table.device (i + 1) = none

theorem RlRun.Inv.run {table} (start : table.Start)
    {run} (steps : Relation.ReflTransGen (RlStep packetPacingUid) ⟨table, []⟩ run) :
    run.Inv := by
  induction steps with
  | refl =>
    refine ⟨?_, start.refcount, ?_⟩
    · simp only [RlTable.entries, start.rlEntry]
      exact Counted.empty start.device
    · simp [start.rlEntry]
  | tail _ step ih => exact ih.step step

structure RlTable.Sound (table : RlTable) : Prop where
  refcount : table.refcount = (table.entries.map RlEntry.refcount).sum
  array : table.rlEntry.isSome = true ↔ 0 < table.refcount
  distinct : ∀ (i j : Nat) (left right : RlEntry), table.entries[i]? = some left →
    table.entries[j]? = some right → left.Shared → right.Shared →
      left.rlRaw = right.rlRaw → left.uid = right.uid → i = j
  single : ∀ entry ∈ table.entries, entry.dedicated = true → entry.refcount ≤ 1
  programmed : ∀ entry ∈ table.entries, table.device entry.index =
      if 0 < entry.refcount then some (entry.rlRaw, entry.uid) else none

theorem RlRun.Inv.sound {run : RlRun} (inv : run.Inv) : run.table.Sound where
  refcount := inv.refs.trans inv.counted.sum.symm
  array := by rw [inv.array, inv.refs, length_pos_iff]
  distinct := inv.counted.distinct
  single entry member := by
    obtain ⟨i, here⟩ := getElem?_of_mem member
    exact inv.counted.single i entry here
  programmed entry member := by
    obtain ⟨i, here⟩ := getElem?_of_mem member
    rw [(inv.counted.users i entry here).1, inv.counted.device, here, bind_some, RlEntry.setting]
    split
    · rw [if_neg (by omega)]
    · rw [if_pos (by omega)]

theorem rlTable_sound {packetPacingUid : Bool} {table : RlTable} (start : table.Start)
    {run : RlRun} (steps : Relation.ReflTransGen (RlStep packetPacingUid) ⟨table, []⟩ run) :
    run.table.Sound ∧ (∀ (i : Nat) (entry : RlEntry), run.table.entries[i]? = some entry →
        entry.index = i + 1 ∧ entry.refcount = usersAt run.uses i) ∧
      (∀ use ∈ run.uses, (mlx5RlRemoveRateRaw run.table use.index).isSome = true) ∧
      ∀ env rlIn uid dedicated after err,
        mlx5RlAddRateRaw run.table env rlIn uid dedicated = (after, .error err) →
          Kept run.table after := by
  have inv := RlRun.Inv.run start steps
  refine ⟨inv.sound, inv.counted.users, ?_, ?_⟩
  · intro use member
    obtain ⟨after, removed, _⟩ := mlx5RlRemoveRateRaw_step inv member
    rw [removed]
    rfl
  · intro env rlIn uid dedicated after err failed
    rcases mlx5RlAddRateRaw_step inv failed with ⟨_, _, _, kept⟩ | ⟨_, success, _⟩
    · exact kept
    · cases success

def sevenRate : RateLimit := ⟨7, 0, 0⟩

def twoRates : RlTable := ⟨2, 100, 1, none, 0, fun _ => none⟩

/-- A rate shared by two users and dedicated to a third; one of the two and the third go. -/
theorem rlTable_sound_shared : ∃ run, Relation.ReflTransGen (RlStep false) ⟨twoRates, []⟩ run ∧
    run.uses = [⟨1, sevenRate.rlRaw, 0, false⟩] ∧ run.table.entries.map RlEntry.refcount = [1, 0] ∧
    run.table.device 1 = some (sevenRate.rlRaw, 0) ∧ run.table.device 2 = none ∧ run.table.Sound := by
  have shared : Relation.ReflTransGen (RlStep false) ⟨twoRates, []⟩ _ :=
    .tail (.single (.addRate _ ⟨true, 0⟩ sevenRate)) (.addRate _ ⟨true, 0⟩ sevenRate)
  have dedicated := shared.tail (.addRateRaw _ ⟨true, 0⟩ sevenRate.rlRaw 0 true)
  have oneGone := dedicated.tail (.removeRate _ sevenRate (by decide) ⟨1, sevenRate.rlRaw, 0, false⟩
    (by decide +kernel) rfl rfl rfl)
  have thirdGone := oneGone.tail (.removeRateRaw _ ⟨2, sevenRate.rlRaw, 0, true⟩ (by decide +kernel) _
    (Option.some_get (by decide +kernel)).symm)
  exact ⟨_, thirdGone, by decide +kernel, by decide +kernel, by decide +kernel, by decide +kernel,
    (rlTable_sound ⟨rfl, rfl, fun _ => rfl⟩ thirdGone).1⟩

end MlnxOfed.Rl
