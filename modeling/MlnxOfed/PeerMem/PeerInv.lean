/-
The invariant of a peer umem: who holds its lock, who has a reference and who is to unmap it, and the steps
of an invalidation. A late one finds nothing mapped; one that finds the memory mapped has the lock, so that
the owner waits.
-/

import MlnxOfed.PeerMem.PeerUmem

namespace MlnxOfed.PeerMem

open Prod List
open Bool (toNat_false toNat_true)
open Inval UnmapStage MappedState

/-- The owner holds the lock, after `ib_peer_umem_get` where the client may invalidate. -/
def Owner.locks (hasXaId : Bool) : Owner → Bool
  | .locked | .entered | .gotPages | .failPages | .failXa | .failUnlock => true
  | .holding => hasXaId
  | .stopLocked | .stopUnmap _ _ | .stopUnlock _ => true
  | _ => false

def Inval.locks : Inval → Bool
  | .loaded | .putting | .done => false
  | _ => true

def Owner.refs : Owner → Bool
  | .idle | .refused | .failClient | .failed | .released => false
  | _ => true

def Inval.refs : Inval → Bool
  | .done => false
  | _ => true

def Owner.uses : Owner → Bool
  | .idle | .failed | .relForget | .relPut | .released => false
  | _ => true

def Owner.letGo : Owner → Bool
  | .failClient | .failed | .released => true
  | _ => false

def Owner.early : Owner → Bool
  | .idle | .refused | .locked | .entered | .gotPages => true
  | .failPages | .failXa | .failUnlock | .failPut | .failClient | .failed => true
  | _ => false

def Owner.pinned : Owner → Bool
  | .gotPages | .failPages => true
  | _ => false

/-- The owner undoes what a failed `ib_peer_umem_get` did, without pages. -/
def Owner.fails : Owner → Bool
  | .failXa | .failUnlock | .failPut | .failClient | .failed => true
  | _ => false

def Owner.unmapping : Owner → Option (MappedState × UnmapStage)
  | .stopUnmap cur stage => some (cur, stage)
  | .stopUnlock (some cur) => some (cur, .enter)
  | .stopGap cur stage => some (cur, stage)
  | .relUnmap cur stage => some (cur, stage)
  | _ => none

def UnmapStage.tally : UnmapStage → Tally
  | .enter => ⟨1, 1, 0, 0, 0⟩
  | .pages => ⟨1, 1, 1, 0, 0⟩
  | .state => ⟨1, 1, 1, 1, 0⟩

structure Locked (umem : PeerUmem) : Prop where
  owner : umem.mappingLock = some .owner ↔ umem.owner.locks umem.hasXaId = true
  inval : ∀ i, umem.mappingLock = some (.inval i) ↔ ∃ stage, umem.invals[i]? = some stage ∧ stage.locks = true

def PeerUmem.flags (umem : PeerUmem) : Bool × Bool × Bool × Bool :=
  (umem.hasXaId, umem.xaEntry, umem.invalidationFunc, umem.ibPeerClient)

/-- The entry of the array, the function and the pointer at each place of the owner. -/
def Placed (client : PeerClient) (umem : PeerUmem) : Prop :=
  match umem.owner with
  | .idle | .refused => umem.flags = (false, false, false, false)
  | .locked => umem.flags = (false, false, false, true)
  | .entered | .gotPages | .failPages | .failXa | .holding | .relUnmap _ _ | .relErase =>
    umem.flags = (client.invalidationRequired, client.invalidationRequired, false, true)
  | .failUnlock | .failPut | .failClient | .failed =>
    umem.flags = (false, false, false, true) ∨ umem.flags = (client.invalidationRequired, false, false, true)
  | .active =>
    umem.flags = (client.invalidationRequired, client.invalidationRequired, client.invalidationRequired, true)
  | .stopLock => client.invalidationRequired = true ∧ umem.flags = (true, true, true, true)
  | .stopLocked | .stopUnmap _ _ | .stopUnlock _ | .stopGap _ _ | .stopped =>
    client.invalidationRequired = true ∧ umem.flags = (true, true, false, true)
  | .relClient | .relForget => umem.flags = (client.invalidationRequired, false, false, true)
  | .relPut | .released => umem.flags = (client.invalidationRequired, false, false, false)
  | .deadlocked => False

structure Counted (umem : PeerUmem) : Prop where
  kref : umem.kref = umem.owner.refs.toNat + umem.invals.countP refs
  usecnt : umem.usecnt = 1 + umem.owner.uses.toNat
  freed : umem.owner.letGo = true → umem.kref = 0 → umem.freed = 1
  kept : umem.owner.letGo = false ∨ umem.kref ≠ 0 → umem.freed = 0

def Others (umem : PeerUmem) : Prop :=
  ∀ (i : Nat) (cur : MappedState) (stage : UnmapStage),
    umem.invals[i]? = some (.unmapping cur stage) → cur ≠ .mapped ∧ stage = .enter

def Called (umem : PeerUmem) : Prop :=
  umem.calls = [] ∨ umem.calls = [(.mapped, true)]

def Hidden (umem : PeerUmem) : Prop :=
  umem.xaEntry = false ∧ umem.invals = []

/-- Who is to unmap the memory. -/
inductive Phase (client : PeerClient) (umem : PeerUmem) : Prop where
  | early (isEarly : umem.owner.early = true) (notMapped : umem.mappedState ≠ .mapped)
      (others : Others umem) (noCalls : umem.calls = [])
      (pinned : umem.owner.pinned = true → umem.tally = ⟨1, 0, 0, 0, 0⟩)
      (unpinned : umem.owner.pinned = false → umem.tally = ⟨0, 0, 0, 0, 0⟩ ∨
        umem.tally = ⟨1, 0, 0, 1, 0⟩ ∧ umem.owner.fails = true)
  | mapped (waits : umem.owner = .holding ∨ umem.owner = .active ∨ umem.owner = .stopLock ∨
        umem.owner = .stopLocked)
      (isMapped : umem.mappedState = .mapped)
      (none : ∀ (i : Nat) (cur : MappedState) (stage : UnmapStage),
        umem.invals[i]? ≠ some (.unmapping cur stage))
      (tally : umem.tally = enter.tally)
      (calls : umem.calls = [] ∨ umem.calls = [(.mapped, true)] ∧
        ∃ i, umem.mappingLock = some (.inval i) ∧ umem.invals[i]? = some .notified)
  | inval (i : Nat) (stage : UnmapStage) (waits : umem.owner = .active ∨ umem.owner = .stopLock)
      (isMapped : umem.mappedState = .mapped)
      (unmaps : umem.invals[i]? = some (.unmapping .mapped stage))
      (whole : ibPeerUnmapOnInvalidate client = true → stage = .enter)
      (tally : umem.tally = stage.tally) (called : Called umem)
  | owner (stage : UnmapStage) (unmaps : umem.owner.unmapping = some (.mapped, stage))
      (alone : umem.mappedState = .mapped → umem.owner = .stopUnmap .mapped stage ∨ Hidden umem)
      (others : Others umem) (tally : umem.tally = stage.tally) (called : Called umem)
  | ended (late : umem.owner.early = false) (notMapped : umem.mappedState ≠ .mapped) (others : Others umem)
      (unmaps : ∀ cur stage, umem.owner.unmapping = some (cur, stage) → cur ≠ .mapped ∧ stage = .enter)
      (tally : umem.tally = ⟨1, 1, 1, 1, 0⟩ ∨ umem.tally = ⟨1, 1, 0, 0, 1⟩) (called : Called umem)

structure Inv (client : PeerClient) (umem : PeerUmem) : Prop where
  faults : umem.faults = []
  locked : Locked umem
  placed : Placed client umem
  found : umem.invals ≠ [] → umem.hasXaId = true
  counted : Counted umem
  phase : Phase client umem

variable {client : PeerClient} {umem next : PeerUmem}

/-! ### The lock -/

variable (locked : Locked umem)

include locked

theorem Locked.owner_stays (lock : next.mappingLock = umem.mappingLock) (invals : next.invals = umem.invals)
    (same : next.owner.locks next.hasXaId = umem.owner.locks umem.hasXaId) : Locked next where
  owner := by
    rw [lock, same]
    exact locked.owner
  inval := by
    rw [lock, invals]
    exact locked.inval

variable {i : Nat} {stage : Inval}

theorem Locked.inval_out (held : umem.owner.locks umem.hasXaId = true)
    (place : umem.invals[i]? = some stage) : stage.locks = false := by
  have isOwner := locked.owner.mpr held
  refine eq_false_of_ne_true ?_
  intro locks
  have isInval := (locked.inval i).mpr ⟨stage, place, locks⟩
  rw [isOwner] at isInval
  cases isInval

theorem Locked.inval_held (place : umem.invals[i]? = some stage) (locks : stage.locks = true) :
    umem.mappingLock = some (.inval i) :=
  (locked.inval i).mpr ⟨stage, place, locks⟩

theorem Locked.owner_out
    (held : umem.mappingLock = some (.inval i)) : umem.owner.locks umem.hasXaId = false := by
  refine eq_false_of_ne_true ?_
  intro locks
  have isOwner := locked.owner.mpr locks
  rw [held] at isOwner
  cases isOwner

theorem Locked.inval_same {i j : Nat} {first second : Inval}
    (placeFirst : umem.invals[i]? = some first) (firstLocks : first.locks = true)
    (placeSecond : umem.invals[j]? = some second) (secondLocks : second.locks = true) : i = j := by
  have heldFirst := locked.inval_held placeFirst firstLocks
  have heldSecond := locked.inval_held placeSecond secondLocks
  rw [heldFirst] at heldSecond
  cases heldSecond
  rfl

theorem Locked.owner_unlocks (held : umem.owner.locks umem.hasXaId = true) (lock : next.mappingLock = none)
    (invals : next.invals = umem.invals) (out : next.owner.locks next.hasXaId = false) : Locked next where
  owner := by
    rw [lock, out]
    exact ⟨nofun, nofun⟩
  inval i := by
    rw [lock, invals]
    refine ⟨nofun, ?_⟩
    rintro ⟨stage, place, locks⟩
    rw [locked.inval_out held place] at locks
    cases locks

theorem Locked.owner_locks (free : umem.mappingLock = none) (lock : next.mappingLock = some .owner)
    (invals : next.invals = umem.invals) (isIn : next.owner.locks next.hasXaId = true) : Locked next where
  owner := ⟨fun _ => isIn, fun _ => lock⟩
  inval i := by
    rw [lock, invals]
    refine ⟨nofun, ?_⟩
    rintro ⟨stage, place, locks⟩
    have held := locked.inval_held place locks
    rw [free] at held
    cases held

omit locked

theorem getElem?_set_self {old} (place : umem.invals[i]? = some old)
    (new) : (umem.invals.set i new)[i]? = some new := by
  have within : i < umem.invals.length := by
    obtain ⟨within, -⟩ := List.getElem?_eq_some_iff.mp place
    exact within
  rw [List.getElem?_set_self within]

theorem getElem?_set_cases {i j new stage} (place : (umem.invals.set i new)[j]? = some stage) :
    (j = i ∧ stage = new) ∨ (j ≠ i ∧ umem.invals[j]? = some stage) := by
  by_cases same : j = i
  · subst same
    refine .inl ⟨rfl, ?_⟩
    rw [getElem?_set] at place
    rw [if_pos rfl] at place
    split at place
    · cases place
      rfl
    · cases place
  · rw [getElem?_set_ne (Ne.symm same)] at place
    exact .inr ⟨same, place⟩

variable {old new : Inval}

theorem Locked.inval_stays (locked : Locked umem)
    (place : umem.invals[i]? = some old) (invals : next.invals = umem.invals.set i new)
    (same : new.locks = old.locks) (lock : next.mappingLock = umem.mappingLock)
    (owner : next.owner = umem.owner) (xaId : next.hasXaId = umem.hasXaId) : Locked next where
  owner := by
    rw [lock, owner, xaId]
    exact locked.owner
  inval j := by
    rw [lock, invals, locked.inval j]
    constructor
    · rintro ⟨stage, placed, locks⟩
      by_cases same_j : j = i
      · subst same_j
        rw [place] at placed
        cases placed
        exact ⟨new, getElem?_set_self place new, same.trans locks⟩
      · exact ⟨stage, by rw [getElem?_set_ne (Ne.symm same_j)]; exact placed, locks⟩
    · rintro ⟨stage, placed, locks⟩
      rcases getElem?_set_cases placed with ⟨rfl, rfl⟩ | ⟨-, placed⟩
      · exact ⟨old, place, same.symm.trans locks⟩
      · exact ⟨stage, placed, locks⟩

theorem Locked.inval_locks (locked : Locked umem) (place : umem.invals[i]? = some old) (isIn : new.locks = true)
    (free : umem.mappingLock = none) (lock : next.mappingLock = some (.inval i))
    (invals : next.invals = umem.invals.set i new) (owner : next.owner = umem.owner)
    (xaId : next.hasXaId = umem.hasXaId) : Locked next where
  owner := by
    rw [lock, owner, xaId, ← locked.owner, free]
    exact ⟨nofun, nofun⟩
  inval j := by
    rw [lock, invals]
    constructor
    · intro same
      cases same
      exact ⟨new, getElem?_set_self place new, isIn⟩
    rintro ⟨stage, placed, locks⟩
    rcases getElem?_set_cases placed with ⟨rfl, rfl⟩ | ⟨-, placed⟩
    · rfl
    · have held := locked.inval_held placed locks
      rw [free] at held
      cases held

theorem Locked.inval_unlocks (locked : Locked umem)
    (place : umem.invals[i]? = some old) (wasIn : old.locks = true) (out : new.locks = false)
    (lock : next.mappingLock = none) (invals : next.invals = umem.invals.set i new)
    (owner : next.owner = umem.owner) (xaId : next.hasXaId = umem.hasXaId) : Locked next where
  owner := by
    rw [lock, owner, xaId, locked.owner_out (locked.inval_held place wasIn)]
    exact ⟨nofun, nofun⟩
  inval j := by
    rw [lock, invals]
    refine ⟨nofun, ?_⟩
    rintro ⟨stage, placed, locks⟩
    rcases getElem?_set_cases placed with ⟨rfl, rfl⟩ | ⟨apart, placed⟩
    · rw [out] at locks
      cases locks
    · exact absurd (locked.inval_same placed locks place wasIn) apart

theorem countP_refs_set {old} (place : umem.invals[i]? = some old) (new) :
    (umem.invals.set i new).countP refs + old.refs.toNat = umem.invals.countP refs + new.refs.toNat := by
  obtain ⟨within, atPlace⟩ := List.getElem?_eq_some_iff.mp place
  have counted := @countP_set _ refs umem.invals i new within
  have pos : old.refs = true → 0 < umem.invals.countP refs := by
    intro refs
    exact countP_pos_iff.mpr ⟨old, mem_of_getElem? place, refs⟩
  rw [atPlace] at counted
  cases oldRefs : old.refs with
  | false =>
    rw [oldRefs, if_neg Bool.false_ne_true] at counted
    cases newRefs : new.refs with
    | false =>
      rw [newRefs, if_neg Bool.false_ne_true] at counted
      rw [toNat_false]
      omega
    | true =>
      rw [newRefs, if_pos rfl] at counted
      rw [toNat_false, toNat_true]
      omega
  | true =>
    have some := pos oldRefs
    rw [oldRefs, if_pos rfl] at counted
    cases newRefs : new.refs with
    | false =>
      rw [newRefs, if_neg Bool.false_ne_true] at counted
      rw [toNat_false, toNat_true]
      omega
    | true =>
      rw [newRefs, if_pos rfl] at counted
      rw [toNat_true]
      omega

variable (counted : Counted umem)

include counted

theorem Counted.owner_stays (kref : next.kref = umem.kref)
    (usecnt : next.usecnt = umem.usecnt) (freed : next.freed = umem.freed)
    (invals : next.invals = umem.invals) (refs : next.owner.refs = umem.owner.refs)
    (uses : next.owner.uses = umem.owner.uses) (letGo : next.owner.letGo = umem.owner.letGo) :
    Counted next where
  kref := by rw [kref, refs, invals]; exact counted.kref
  usecnt := by rw [usecnt, uses]; exact counted.usecnt
  freed := by rw [freed, letGo, kref]; exact counted.freed
  kept := by rw [freed, letGo, kref]; exact counted.kept

theorem Counted.inval_stays (place : umem.invals[i]? = some old) (invals : next.invals = umem.invals.set i new)
    (same : new.refs = old.refs) (kref : next.kref = umem.kref) (usecnt : next.usecnt = umem.usecnt)
    (freed : next.freed = umem.freed) (owner : next.owner = umem.owner) : Counted next where
  kref := by
    have moved := countP_refs_set place new
    have old := counted.kref
    rw [kref, owner, invals]
    rw [same] at moved
    omega
  usecnt := by rw [usecnt, owner]; exact counted.usecnt
  freed := by rw [freed, owner, kref]; exact counted.freed
  kept := by rw [freed, owner, kref]; exact counted.kept

theorem Counted.inval_puts (place : umem.invals[i]? = some .putting)
    (gone : umem.owner.refs = false → umem.owner.letGo = true)
    (kref : next.kref = umem.kref - 1) (usecnt : next.usecnt = umem.usecnt)
    (freed : next.freed = if umem.kref = 1 then umem.freed + 1 else umem.freed)
    (invals : next.invals = umem.invals.set i .done) (owner : next.owner = umem.owner) :
    Counted next := by
  have moved := countP_refs_set place .done
  have was := counted.kref
  dsimp only [refs, toNat_true, toNat_false] at moved
  have kept : umem.freed = 0 := counted.kept (.inr (by omega))
  refine ⟨?_, ?_, ?_, ?_⟩
  · rw [kref, owner, invals]
    omega
  · rw [usecnt, owner]
    exact counted.usecnt
  · intro _letGo empty
    rw [freed, if_pos (by omega), kept]
  intro still
  rw [freed, kept]
  by_cases last : umem.kref = 1
  · rw [last] at was
    have none : umem.owner.refs = false := by
      cases refs : umem.owner.refs with
      | false => rfl
      | true =>
        rw [refs, toNat_true] at was
        omega
    rw [owner, gone none, kref, last] at still
    rcases still with clash | clash
    · cases clash
    · exact absurd rfl clash
  · rw [if_neg last]

theorem Counted.owner_puts (refs : umem.owner.refs = true)
    (kref : next.kref = umem.kref - 1) (usecnt : next.usecnt = umem.usecnt)
    (freed : next.freed = if umem.kref = 1 then umem.freed + 1 else umem.freed)
    (invals : next.invals = umem.invals) (noRefs : next.owner.refs = false)
    (uses : next.owner.uses = umem.owner.uses) (letGo : next.owner.letGo = true) :
    Counted next := by
  have was := counted.kref
  rw [refs, toNat_true] at was
  have kept : umem.freed = 0 := counted.kept (.inr (by omega))
  refine ⟨?_, ?_, ?_, ?_⟩
  · rw [kref, noRefs, invals, toNat_false]
    omega
  · rw [usecnt, uses]
    exact counted.usecnt
  · intro _letGo empty
    rw [freed, if_pos (by omega), kept]
  · intro still
    rw [letGo] at still
    rcases still with never | some
    · cases never
    · rw [freed, if_neg (by omega), kept]

theorem Counted.owner_unuses (uses : umem.owner.uses = true) (noUses : next.owner.uses = false)
    (usecnt : next.usecnt = umem.usecnt - 1) (kref : next.kref = umem.kref) (freed : next.freed = umem.freed)
    (invals : next.invals = umem.invals) (refs : next.owner.refs = umem.owner.refs)
    (letGo : next.owner.letGo = umem.owner.letGo) : Counted next where
  kref := by rw [kref, refs, invals]; exact counted.kref
  usecnt := by
    rw [usecnt, noUses, counted.usecnt, uses]
    rfl
  freed := by rw [freed, letGo, kref]; exact counted.freed
  kept := by rw [freed, letGo, kref]; exact counted.kept

omit counted

/-! ### Who unmaps, over the steps of an invalidation -/

theorem Others.set (others : Others umem) {new}
    (fits : ∀ cur stage, new = .unmapping cur stage → cur ≠ .mapped ∧ stage = .enter)
    (invals : next.invals = umem.invals.set i new) : Others next := by
  intro j cur stage place
  rw [invals] at place
  rcases getElem?_set_cases place with ⟨-, same⟩ | ⟨-, old⟩
  · exact fits cur stage same.symm
  · exact others j cur stage old

theorem Phase.inval_outside (phase : Phase client umem) (place : umem.invals[i]? = some old)
    (invals : next.invals = umem.invals.set i new)
    (quiet : ∀ cur stage, old ≠ .unmapping cur stage) (notNotified : old ≠ .notified)
    (fits : ∀ cur stage, new ≠ .unmapping cur stage) (owner : next.owner = umem.owner)
    (state : next.mappedState = umem.mappedState) (tally : next.tally = umem.tally)
    (calls : next.calls = umem.calls)
    (lock : next.mappingLock = umem.mappingLock ∨ umem.mappingLock = none ∨
      umem.mappingLock = some (.inval i)) : Phase client next := by
  have fine cur stage (same : new = .unmapping cur stage) : cur ≠ .mapped ∧ stage = .enter :=
      absurd same (fits cur stage)
  have keeps {j : Nat} {stage : Inval} (apart : j ≠ i) (placed : umem.invals[j]? = some stage) :
      (umem.invals.set i new)[j]? = some stage := by
    rw [getElem?_set_ne (Ne.symm apart)]
    exact placed
  cases next
  cases invals
  cases owner
  cases state
  cases tally
  cases calls
  cases phase with
  | early isEarly notMapped others noCalls pinned unpinned =>
    exact .early isEarly notMapped (others.set fine rfl) noCalls pinned unpinned
  | mapped waits isMapped none isTally called =>
    refine .mapped waits isMapped ?_ isTally ?_
    · intro j cur stage placed
      rcases getElem?_set_cases placed with ⟨-, same⟩ | ⟨-, oldPlace⟩
      · exact fits cur stage same.symm
      · exact none j cur stage oldPlace
    refine called.imp id ?_
    rintro ⟨single, j, held, notified⟩
    have apart : j ≠ i := by
      intro same
      subst same
      rw [place] at notified
      cases notified
      exact notNotified rfl
    refine ⟨single, j, ?_, keeps apart notified⟩
    rcases lock with same | free | own
    · rw [same]; exact held
    · rw [free] at held
      cases held
    · rw [own] at held
      cases held
      exact absurd rfl apart
  | inval j stage waits isMapped unmaps whole isTally called =>
    have apart : j ≠ i := by
      intro same
      subst same
      rw [place] at unmaps
      cases unmaps
      exact quiet _ _ rfl
    exact .inval j stage waits isMapped (keeps apart unmaps) whole isTally called
  | owner stage unmaps alone others isTally called =>
    refine .owner stage unmaps ?_ (others.set fine rfl) isTally called
    intro isMapped
    refine (alone isMapped).imp id fun hidden => ?_
    rw [hidden.2] at place
    cases place
  | ended late notMapped others unmaps isTally called =>
    exact .ended late notMapped (others.set fine rfl) unmaps isTally called

theorem Phase.inval_unmapped (phase : Phase client umem) (notMapped : umem.mappedState ≠ .mapped) {new}
    (fits : ∀ cur stage, new = .unmapping cur stage → cur ≠ .mapped ∧ stage = .enter)
    (invals : next.invals = umem.invals.set i new) (owner : next.owner = umem.owner)
    (state : next.mappedState ≠ .mapped) (tally : next.tally = umem.tally) (calls : next.calls = umem.calls) :
    Phase client next := by
  cases next
  cases invals
  cases owner
  cases tally
  cases calls
  cases phase with
  | early isEarly _ others noCalls pinned unpinned =>
    exact .early isEarly state (others.set fits rfl) noCalls pinned unpinned
  | mapped _ isMapped => exact absurd isMapped notMapped
  | inval _ _ _ isMapped => exact absurd isMapped notMapped
  | owner stage unmaps _ others isTally called =>
    exact .owner stage unmaps (fun isMapped => absurd isMapped state) (others.set fits rfl) isTally called
  | ended late _ others unmaps isTally called =>
    exact .ended late state (others.set fits rfl) unmaps isTally called

theorem Inv.mapped_cases (inv : Inv client umem) (isMapped : umem.mappedState = .mapped)
    (place : umem.invals[i]? = some stage) (locks : stage.locks = true) :
    (umem.owner = .active ∨ umem.owner = .stopLock) ∧ ((∀ (j : Nat) (cur : MappedState) (left : UnmapStage),
          umem.invals[j]? ≠ some (.unmapping cur left)) ∧
        umem.tally = enter.tally ∧
        (umem.calls = [] ∨ umem.calls = [(.mapped, true)] ∧ stage = .notified) ∨
      ∃ left, stage = .unmapping .mapped left ∧ (ibPeerUnmapOnInvalidate client = true → left = .enter) ∧
        umem.tally = left.tally ∧ Called umem) := by
  have held := inv.locked.inval_held place locks
  have out := inv.locked.owner_out held
  have some : umem.invals ≠ [] := by
    intro empty
    rw [empty] at place
    cases place
  cases inv.phase with
  | early _ notMapped => exact absurd isMapped notMapped
  | mapped waits _ none tally called =>
    constructor
    · rcases waits with holding | active | stopLock | stopLocked
      · rw [holding, inv.found some] at out
        cases out
      · exact .inl active
      · exact .inr stopLock
      · rw [stopLocked] at out
        cases out
    · refine .inl ⟨none, tally, called.imp id ?_⟩
      rintro ⟨single, j, heldBy, notified⟩
      rw [held] at heldBy
      cases heldBy
      rw [place] at notified
      cases notified
      exact ⟨single, rfl⟩
  | inval j left waits _ unmaps whole tally called =>
    have same : i = j := inv.locked.inval_same place locks unmaps rfl
    subst same
    rw [place] at unmaps
    cases unmaps
    exact ⟨waits, .inr ⟨left, rfl, whole, tally, called⟩⟩
  | owner _ _ alone =>
    rcases alone isMapped with stops | hidden
    · rw [stops] at out
      cases out
    · exact absurd hidden.2 some
  | ended _ notMapped => exact absurd isMapped notMapped

theorem Placed.ibPeerClient (placed : Placed client umem)
    (waits : umem.owner = .active ∨ umem.owner = .stopLock) : umem.ibPeerClient = true := by
  unfold Placed at placed
  rcases waits with active | stopLock
  · rw [active] at placed
    simp only [PeerUmem.flags, mk.injEq] at placed
    exact placed.2.2.2
  · rw [stopLock] at placed
    simp only [PeerUmem.flags, mk.injEq] at placed
    exact placed.2.2.2.2

theorem Placed.notifies (placed : Placed client umem) (func : umem.invalidationFunc = true) :
    umem.owner.notifies = true := by
  unfold Placed at placed
  simp only [PeerUmem.flags, func, mk.injEq, Bool.true_eq_false, false_and, and_false, or_self] at placed
  cases owner : umem.owner with
  | active => rfl
  | stopLock => rfl
  | _ =>
    rw [owner] at placed
    exact placed.elim

theorem Placed.letGo (placed : Placed client umem) (some : umem.hasXaId = true)
    (refs : umem.owner.refs = false) : umem.owner.letGo = true := by
  unfold Placed at placed
  cases owner : umem.owner with
  | idle | refused =>
    rw [owner] at placed
    simp [PeerUmem.flags, some] at placed
  | failClient => rfl
  | failed => rfl
  | released => rfl
  | _ =>
    rw [owner] at refs
    cases refs

/-! ### A step of an invalidation -/

variable (inv : Inv client umem)

include inv

theorem found_set {old} (place : umem.invals[i]? = some old) : umem.hasXaId = true := by
  refine inv.found ?_
  intro empty
  rw [empty] at place
  cases place

theorem Inv.inval_section
    (place : umem.invals[i]? = some old) (locks : old.locks = true) (newLocks : new.locks = true)
    (state tally) (calls : List (MappedState × Bool))
    (phase : Phase client { umem with
      mappedState := state
      tally := tally
      calls := calls
      invals := umem.invals.set i new }) :
    Inv client { umem with
      mappedState := state
      tally := tally
      calls := calls
      invals := umem.invals.set i new } :=
  { inv with
    locked := inv.locked.inval_stays place rfl (newLocks.trans locks.symm) rfl rfl rfl
    found _some := by
      have xaId := found_set inv place
      exact xaId
    counted := by
      refine inv.counted.inval_stays place rfl ?_ rfl rfl rfl rfl
      have newRefs : new.refs = true := by
        cases new with
        | done => cases newLocks
        | _ => rfl
      have oldRefs : old.refs = true := by
        cases old with
        | done => cases locks
        | _ => rfl
      rw [newRefs, oldRefs]
    phase := phase }

theorem Inv.inval_notifies (place : umem.invals[i]? = some .locked) : Inv client { umem with
      calls := if umem.mappedState = .mapped ∧ umem.invalidationFunc = true then
          umem.calls ++ [(umem.mappedState, umem.owner.notifies)]
        else umem.calls
      invals := umem.invals.set i .notified } := by
  refine inv.inval_section place rfl rfl umem.mappedState umem.tally _ ?_
  have fits : ∀ cur stage, notified = .unmapping cur stage → cur ≠ .mapped ∧ stage = .enter := nofun
  by_cases isMapped : umem.mappedState = .mapped
  · obtain ⟨waits, rest⟩ := inv.mapped_cases isMapped place rfl
    rcases rest with ⟨none, tally, noCalls | ⟨-, never⟩⟩ | ⟨_, never, -⟩
    · refine .mapped ?_ isMapped ?_ tally ?_
      · rcases waits with active | stopLock
        · exact .inr (.inl active)
        · exact .inr (.inr (.inl stopLock))
      · intro j cur stage placed
        rcases getElem?_set_cases placed with ⟨-, same⟩ | ⟨-, oldPlace⟩
        · cases same
        · exact none j cur stage oldPlace
      by_cases func : umem.invalidationFunc = true
      · refine .inr ⟨?_, i, inv.locked.inval_held place rfl, getElem?_set_self place _⟩
        rw [if_pos ⟨isMapped, func⟩, noCalls, isMapped, inv.placed.notifies func]
        rfl
      · refine .inl ?_
        rw [if_neg (fun both => func both.2), noCalls]
    · cases never
    · cases never
  · refine inv.phase.inval_unmapped isMapped fits rfl rfl isMapped rfl ?_
    exact if_neg fun both => isMapped both.1

theorem Inv.inval_reads (place : umem.invals[i]? = some .notified) :
    Inv client { umem with invals := umem.invals.set i (.unmapping umem.mappedState .enter) } := by
  refine inv.inval_section place rfl rfl umem.mappedState umem.tally umem.calls ?_
  by_cases isMapped : umem.mappedState = .mapped
  · obtain ⟨waits, rest⟩ := inv.mapped_cases isMapped place rfl
    rcases rest with ⟨-, tally, calls⟩ | ⟨_, never, -⟩
    · refine .inval i .enter waits isMapped ?_ (fun _ => rfl) tally (calls.imp id And.left)
      rw [isMapped]
      exact getElem?_set_self place _
    · cases never
  · refine inv.phase.inval_unmapped isMapped ?_ rfl rfl isMapped rfl rfl
    intro cur stage same
    cases same
    exact ⟨isMapped, rfl⟩

theorem Inv.inval_oopses {old} (place : umem.invals[i]? = some old) (locks : old.locks = true)
    (forgot : umem.ibPeerClient = false) :
    Inv client { umem with invals := umem.invals.set i .oopsed } := by
  refine inv.inval_section place locks rfl umem.mappedState umem.tally umem.calls ?_
  by_cases isMapped : umem.mappedState = .mapped
  · obtain ⟨waits, -⟩ := inv.mapped_cases isMapped place locks
    rw [inv.placed.ibPeerClient waits] at forgot
    cases forgot
  · have fits : ∀ cur stage, oopsed = .unmapping cur stage → cur ≠ .mapped ∧ stage = .enter := nofun
    exact inv.phase.inval_unmapped isMapped fits rfl rfl isMapped rfl rfl

omit inv

def invalTarget (client : PeerClient) : MappedState :=
  if ibPeerUnmapOnInvalidate client then .invalidated else .unmapped

private theorem invalTarget_ne (client) : invalTarget client ≠ .mapped := by
  unfold invalTarget
  split
  · exact noConfusion
  · exact noConfusion

theorem Inv.none_set (inv : Inv client umem) (place : umem.invals[i]? = some old) (locks : old.locks = true)
    (notUnmapping : ∀ cur stage, new ≠ .unmapping cur stage) (j : Nat) (cur : MappedState)
    (stage : UnmapStage) : (umem.invals.set i new)[j]? ≠ some (.unmapping cur stage) := by
  intro placed
  rcases getElem?_set_cases placed with ⟨-, same⟩ | ⟨apart, oldPlace⟩
  · exact notUnmapping cur stage same.symm
  · exact apart (inv.locked.inval_same oldPlace rfl place locks)

theorem Inv.inval_unmaps (inv : Inv client umem) {cur}
    {stage} (place : umem.invals[i]? = some (.unmapping cur stage))
    (moved : (match umem.ibUnmapPeerClient cur (invalTarget client) stage with
      | (umem, some stage) =>
        some { umem with invals := umem.invals.set i (.unmapping cur stage) }
      | (umem, none) => some { umem with invals := umem.invals.set i .unlocking }) = some next) :
    Inv client next := by
  by_cases isMapped : umem.mappedState = .mapped
  · obtain ⟨waits, rest⟩ := inv.mapped_cases isMapped place rfl
    rcases rest with ⟨none, -⟩ | ⟨left, same, whole, tally, called⟩
    · exact absurd place (none i cur stage)
    cases same
    have late : umem.owner.early = false ∧ umem.owner.unmapping = none := by
      rcases waits with active | stopLock
      · rw [active]; exact ⟨rfl, rfl⟩
      · rw [stopLock]; exact ⟨rfl, rfl⟩
    have ended : ∀ (state : MappedState) (final : Tally), state ≠ .mapped →
        final = ⟨1, 1, 1, 1, 0⟩ ∨ final = ⟨1, 1, 0, 0, 1⟩ →
        Inv client { umem with
          mappedState := state
          tally := final
          calls := umem.calls
          invals := umem.invals.set i .unlocking } := by
      intro state final notMapped isFinal
      refine inv.inval_section place rfl rfl state final umem.calls ?_
      refine .ended late.1 notMapped ?_ ?_ isFinal called
      · intro j cur stage placed
        have notUnmapping cur stage : Inval.unlocking ≠ .unmapping cur stage := Inval.noConfusion
        exact absurd placed (inv.none_set place rfl notUnmapping j cur stage)
      · intro cur stage unmaps
        rw [late.2] at unmaps
        cases unmaps
    have goes : ∀ (after : UnmapStage), (ibPeerUnmapOnInvalidate client = true → after = .enter) →
        Inv client { umem with
          mappedState := umem.mappedState
          tally := after.tally
          calls := umem.calls
          invals := umem.invals.set i (.unmapping .mapped after) } := by
      intro after whole
      refine inv.inval_section place rfl rfl umem.mappedState after.tally umem.calls ?_
      exact .inval i after waits isMapped (getElem?_set_self place _) whole rfl called
    unfold invalTarget at moved
    by_cases unmaps : ibPeerUnmapOnInvalidate client = true
    · cases whole unmaps
      rw [if_pos unmaps] at moved
      have final := ended .invalidated ⟨1, 1, 0, 0, 1⟩ noConfusion (.inr rfl)
      simp [PeerUmem.ibUnmapPeerClient, tally, tally] at moved
      rw [← moved]
      exact final
    rw [if_neg unmaps] at moved
    cases stage with
    | enter =>
      have after := goes .pages (fun isUnmaps => absurd isUnmaps unmaps)
      simp [PeerUmem.ibUnmapPeerClient, tally, tally] at moved
      rw [← moved]
      exact after
    | pages =>
      have after := goes .state (fun isUnmaps => absurd isUnmaps unmaps)
      simp [PeerUmem.ibUnmapPeerClient, tally, tally] at moved
      rw [← moved]
      exact after
    | state =>
      have final := ended .unmapped ⟨1, 1, 1, 1, 0⟩ noConfusion (.inl rfl)
      simp [PeerUmem.ibUnmapPeerClient] at moved
      rw [← moved]
      exact tally ▸ final
  · have fits : cur ≠ .mapped ∧ stage = .enter := by
      cases inv.phase with
      | early _ _ others => exact others i cur stage place
      | mapped _ mapped => exact absurd mapped isMapped
      | inval _ _ _ mapped => exact absurd mapped isMapped
      | owner _ _ _ others => exact others i cur stage place
      | ended _ _ others => exact others i cur stage place
    obtain ⟨notCur, rfl⟩ := fits
    have ends cur stage : Inval.unlocking = .unmapping cur stage → cur ≠ .mapped ∧ stage = .enter :=
        Inval.noConfusion
    dsimp only [PeerUmem.ibUnmapPeerClient] at moved
    rw [if_neg (fun both => notCur both.1), if_neg (fun both => notCur both.1)] at moved
    cases moved
    refine inv.inval_section place rfl rfl (invalTarget client) umem.tally umem.calls ?_
    exact inv.phase.inval_unmapped isMapped ends rfl rfl (invalTarget_ne client) rfl rfl

theorem Inv.inval_step (inv : Inv client umem)
    (moved : umem.invalStep client i = some next) : Inv client next := by
  unfold PeerUmem.invalStep at moved
  split at moved
  case h_1 place =>
    unfold PeerUmem.mutexLock at moved
    split at moved
    case h_1 free =>
      cases moved
      exact
        { inv with
          locked := inv.locked.inval_locks place rfl free rfl rfl rfl rfl
          found _ := inv.found (ne_nil_of_mem (mem_of_getElem? place))
          counted := inv.counted.inval_stays place rfl rfl rfl rfl rfl rfl
          phase := inv.phase.inval_outside place rfl nofun nofun nofun rfl rfl rfl rfl (.inr (.inl free)) }
    case h_2 holder held =>
      split at moved
      case isTrue same =>
        subst same
        obtain ⟨stage, placed, locks⟩ := (inv.locked.inval i).mp held
        rw [place] at placed
        cases placed
        cases locks
      case isFalse => cases moved
  case h_2 place =>
    cases moved
    exact inv.inval_notifies place
  case h_3 place =>
    split at moved
    case isTrue =>
      cases moved
      exact inv.inval_reads place
    case isFalse forgot =>
      cases moved
      exact inv.inval_oopses place rfl (eq_false_of_ne_true forgot)
  case h_4 cur stage place =>
    split at moved
    case isTrue forgot =>
      cases moved
      exact inv.inval_oopses place rfl forgot.2
    case isFalse =>
      refine inv.inval_unmaps place ?_
      rw [← moved]
      unfold invalTarget
      dsimp only
      generalize umem.ibUnmapPeerClient cur _ stage = res
      obtain ⟨after, left⟩ := res
      cases left with
      | none => rfl
      | some left => rfl
  case h_5 place =>
    have held := inv.locked.inval_held place rfl
    cases moved
    exact
      { faults := by
          dsimp only [PeerUmem.mutexUnlock]
          rw [if_pos held]
          exact inv.faults
        locked := inv.locked.inval_unlocks place rfl rfl rfl rfl rfl rfl
        placed := inv.placed
        found _ := inv.found (ne_nil_of_mem (mem_of_getElem? place))
        counted := inv.counted.inval_stays place rfl rfl rfl rfl rfl rfl
        phase := inv.phase.inval_outside place rfl nofun nofun nofun rfl rfl rfl rfl (.inr (.inr held)) }
  case h_6 place =>
    have xaId := found_set inv place
    cases moved
    exact
      { inv with
        locked := inv.locked.inval_stays place rfl rfl rfl rfl rfl
        found _ := xaId
        counted := inv.counted.inval_puts place (inv.placed.letGo xaId) rfl rfl rfl rfl rfl
        phase := inv.phase.inval_outside place rfl nofun nofun nofun rfl rfl rfl rfl (.inl rfl) }
  case h_7 => cases moved

end MlnxOfed.PeerMem
