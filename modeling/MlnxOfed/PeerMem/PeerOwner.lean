/-
The steps of a peer umem's owner, from `ib_peer_umem_get` and its error paths to `ib_peer_umem_release`. The
stop takes the unmapping over under the lock; for a client whose invalidations unmap it does the work after
giving the lock back.
-/

import MlnxOfed.PeerMem.PeerInv

namespace MlnxOfed.PeerMem

open Prod Option Owner

variable {client : PeerClient} {umem next : PeerUmem}

def Owner.roles (owner : Owner) (hasXaId : Bool) : Bool × Bool × Bool × Bool :=
  (owner.locks hasXaId, owner.refs, owner.uses, owner.letGo)

def PeerUmem.counts (umem : PeerUmem) : List Fault × Option Context × List Inval × Nat × Nat × Nat :=
  (umem.faults, umem.mappingLock, umem.invals, umem.kref, umem.usecnt, umem.freed)

def PeerUmem.mapping (umem : PeerUmem) : MappedState × List Inval × List (MappedState × Bool) × Tally :=
  (umem.mappedState, umem.invals, umem.calls, umem.tally)

private theorem Inv.of_owner (inv : Inv client umem) (faults : next.faults = umem.faults)
    (invals : next.invals = umem.invals) (locked : Locked next) (counted : Counted next)
    (found : umem.hasXaId = true → next.hasXaId = true) (placed : Placed client next)
    (phase : Phase client next) : Inv client next :=
  { faults := faults.trans inv.faults
    locked := locked
    placed := placed
    found := by rw [invals]; exact fun some => found (inv.found some)
    counted := counted
    phase := phase }

theorem Inv.owner_goes (inv : Inv client umem) (counts : next.counts = umem.counts)
    (roles : next.owner.roles next.hasXaId = umem.owner.roles umem.hasXaId)
    (found : umem.hasXaId = true → next.hasXaId = true) (placed : Placed client next)
    (phase : Phase client next) : Inv client next := by
  simp only [PeerUmem.counts, mk.injEq] at counts
  simp only [Owner.roles, mk.injEq] at roles
  obtain ⟨faults, lock, invals, kref, usecnt, freed⟩ := counts
  obtain ⟨locks, refs, uses, letGo⟩ := roles
  exact inv.of_owner faults invals (inv.locked.owner_stays lock invals locks)
    (inv.counted.owner_stays kref usecnt freed invals refs uses letGo) found placed phase

theorem Inv.owner_unlocks (inv : Inv client umem) (locks : umem.owner.locks umem.hasXaId = true)
    (counts : next.counts = (umem.mutexUnlock .owner).counts)
    (roles : next.owner.roles next.hasXaId = (false, umem.owner.refs, umem.owner.uses, umem.owner.letGo))
    (found : umem.hasXaId = true → next.hasXaId = true) (placed : Placed client next)
    (phase : Phase client next) : Inv client next := by
  simp only [PeerUmem.counts, PeerUmem.mutexUnlock, mk.injEq, if_pos (inv.locked.owner.mpr locks)] at counts
  simp only [Owner.roles, mk.injEq] at roles
  obtain ⟨faults, lock, invals, kref, usecnt, freed⟩ := counts
  obtain ⟨out, refs, uses, letGo⟩ := roles
  exact inv.of_owner faults invals (inv.locked.owner_unlocks locks lock invals out)
    (inv.counted.owner_stays kref usecnt freed invals refs uses letGo) found placed phase

theorem Inv.owner_puts (inv : Inv client umem) (wasRefs : umem.owner.refs = true)
    (counts : next.counts = umem.krefPut.counts)
    (roles : next.owner.roles next.hasXaId = (umem.owner.locks umem.hasXaId, false, umem.owner.uses, true))
    (found : umem.hasXaId = true → next.hasXaId = true) (placed : Placed client next)
    (phase : Phase client next) : Inv client next := by
  simp only [PeerUmem.counts, PeerUmem.krefPut, mk.injEq] at counts
  simp only [Owner.roles, mk.injEq] at roles
  obtain ⟨faults, lock, invals, kref, usecnt, freed⟩ := counts
  obtain ⟨locks, refs, uses, letGo⟩ := roles
  exact inv.of_owner faults invals (inv.locked.owner_stays lock invals locks)
    (inv.counted.owner_puts wasRefs kref usecnt freed invals refs uses letGo) found placed phase

theorem Inv.owner_unuses (inv : Inv client umem) (wasUses : umem.owner.uses = true)
    (counts : next.counts = { umem with usecnt := umem.usecnt - 1 }.counts)
    (roles : next.owner.roles next.hasXaId =
      (umem.owner.locks umem.hasXaId, umem.owner.refs, false, umem.owner.letGo))
    (found : umem.hasXaId = true → next.hasXaId = true) (placed : Placed client next)
    (phase : Phase client next) : Inv client next := by
  simp only [PeerUmem.counts, mk.injEq] at counts
  simp only [Owner.roles, mk.injEq] at roles
  obtain ⟨faults, lock, invals, kref, usecnt, freed⟩ := counts
  obtain ⟨locks, refs, uses, letGo⟩ := roles
  exact inv.of_owner faults invals (inv.locked.owner_stays lock invals locks)
    (inv.counted.owner_unuses wasUses uses usecnt kref freed invals refs letGo) found placed phase

/-! ### Where the owner is, and who is to unmap -/

def Owner.Waits (owner : Owner) : Prop :=
  owner = .holding ∨ owner = .active ∨ owner = .stopLock ∨ owner = .stopLocked

def Owner.Settled (owner : Owner) : Prop :=
  owner.early = false ∧ owner.unmapping = none ∧ ¬ owner.Waits

variable {owner : Owner}

theorem Owner.Waits.late (waits : owner.Waits) : owner.early = false ∧ owner.unmapping = none := by
  rcases waits with rfl | rfl | rfl | rfl
  all_goals exact ⟨rfl, rfl⟩

theorem Owner.late_of_unmapping {place} (unmaps : owner.unmapping = some place) : owner.early = false := by
  cases owner with
  | stopUnmap | stopUnlock | stopGap | relUnmap => rfl
  | _ => cases unmaps

theorem Owner.waits_of_inval (waits : owner = .active ∨ owner = .stopLock) : owner.Waits := by
  rcases waits with active | stopLock
  · exact .inr (.inl active)
  · exact .inr (.inr (.inl stopLock))

theorem Phase.of_early (phase : Phase client umem) (isEarly : umem.owner.early = true) :
    umem.mappedState ≠ .mapped ∧ Others umem ∧ umem.calls = [] ∧
      (umem.owner.pinned = true → umem.tally = ⟨1, 0, 0, 0, 0⟩) ∧
      (umem.owner.pinned = false → umem.tally = ⟨0, 0, 0, 0, 0⟩ ∨
        umem.tally = ⟨1, 0, 0, 1, 0⟩ ∧ umem.owner.fails = true) := by
  have notLate : umem.owner.early ≠ false := by
    rw [isEarly]
    exact Bool.noConfusion
  cases phase with
  | early _ notMapped others noCalls pinned unpinned =>
    exact ⟨notMapped, others, noCalls, pinned, unpinned⟩
  | mapped waits => exact absurd (Waits.late waits).1 notLate
  | inval _ _ waits => exact absurd (waits_of_inval waits).late.1 notLate
  | owner _ unmaps => exact absurd (late_of_unmapping unmaps) notLate
  | ended late => exact absurd late notLate

theorem Phase.of_late (phase : Phase client umem) (settled : umem.owner.Settled) :
    umem.mappedState ≠ .mapped ∧ Others umem ∧
      (umem.tally = ⟨1, 1, 1, 1, 0⟩ ∨ umem.tally = ⟨1, 1, 0, 0, 1⟩) ∧ Called umem := by
  obtain ⟨late, noUnmapping, notWaits⟩ := settled
  cases phase with
  | early isEarly =>
    rw [late] at isEarly
    cases isEarly
  | mapped waits => exact absurd waits notWaits
  | inval _ _ waits => exact absurd (waits_of_inval waits) notWaits
  | owner _ unmaps =>
    rw [noUnmapping] at unmaps
    cases unmaps
  | ended _ notMapped others _ tally called => exact ⟨notMapped, others, tally, called⟩

theorem Inv.no_invals (inv : Inv client umem) (noXaId : umem.hasXaId = false) : umem.invals = [] := by
  cases isInvals : umem.invals with
  | nil => rfl
  | cons first rest =>
    have xaId := inv.found (by rw [isInvals]; exact List.cons_ne_nil _ _)
    rw [noXaId] at xaId
    cases xaId

theorem Locked.free (locked : Locked umem) (out : umem.owner.locks umem.hasXaId = false)
    (noInvals : umem.invals = []) : umem.mappingLock = none := by
  cases lock : umem.mappingLock with
  | none => rfl
  | some who =>
    cases who with
    | owner =>
      rw [locked.owner.mp lock] at out
      cases out
    | inval i =>
      obtain ⟨stage, place, -⟩ := (locked.inval i).mp lock
      rw [noInvals] at place
      cases place

theorem Locked.none_unmapping (locked : Locked umem) (held : umem.owner.locks umem.hasXaId = true) (i : Nat)
    (cur : MappedState) (stage : UnmapStage) : umem.invals[i]? ≠ some (.unmapping cur stage) :=
  fun place => Bool.noConfusion (locked.inval_out held place)

variable (phase : Phase client umem)

include phase

theorem Phase.early_step (wasEarly : umem.owner.early = true) (isEarly : next.owner.early = true)
    (mapping : next.mapping = umem.mapping) (pinned : next.owner.pinned = umem.owner.pinned)
    (fails : umem.owner.fails = true → next.owner.fails = true) : Phase client next := by
  cases next
  simp only [PeerUmem.mapping, mk.injEq] at mapping
  obtain ⟨rfl, rfl, rfl, rfl⟩ := mapping
  obtain ⟨notMapped, others, noCalls, wasPinned, wasUnpinned⟩ := phase.of_early wasEarly
  refine .early isEarly notMapped others noCalls ?_ ?_
  · rw [pinned]
    exact wasPinned
  · rw [pinned]
    exact fun isUnpinned => (wasUnpinned isUnpinned).imp id (And.imp id fails)

theorem Phase.late_step (settled : umem.owner.Settled) (mapping : next.mapping = umem.mapping)
    (nextLate : next.owner.early = false) (nextUnmaps : next.owner.unmapping = none) : Phase client next := by
  cases next
  simp only [PeerUmem.mapping, mk.injEq] at mapping
  obtain ⟨rfl, rfl, rfl, rfl⟩ := mapping
  obtain ⟨notMapped, others, isTally, called⟩ := phase.of_late settled
  refine .ended nextLate notMapped others ?_ isTally called
  intro cur stage unmapping
  rw [nextUnmaps] at unmapping
  cases unmapping

theorem Phase.wait_step (waits : umem.owner.Waits)
    (nextWaits : next.owner.Waits) (mapping : next.mapping = umem.mapping)
    (lock : next.mappingLock = umem.mappingLock ∨ ∀ i, umem.mappingLock ≠ some (.inval i))
    (joins : (next.owner = .active ∨ next.owner = .stopLock) ∨
      ∀ (i : Nat) (stage : UnmapStage), umem.invals[i]? ≠ some (.unmapping .mapped stage)) :
    Phase client next := by
  cases next
  simp only [PeerUmem.mapping, mk.injEq] at mapping
  obtain ⟨rfl, rfl, rfl, rfl⟩ := mapping
  cases phase with
  | early isEarly =>
    rw [waits.late.1] at isEarly
    cases isEarly
  | mapped _ isMapped none isTally called =>
    refine .mapped nextWaits isMapped none isTally ?_
    refine called.imp id (And.imp id ?_)
    rintro ⟨i, held, notified⟩
    rcases lock with same | free
    · exact ⟨i, same.trans held, notified⟩
    · exact absurd held (free i)
  | inval i stage _ isMapped unmaps whole isTally called =>
    rcases joins with joins | none
    · exact .inval i stage joins isMapped unmaps whole isTally called
    · exact absurd unmaps (none i stage)
  | owner _ unmaps =>
    rw [waits.late.2] at unmaps
    cases unmaps
  | ended _ notMapped others _ isTally called =>
    refine .ended nextWaits.late.1 notMapped others ?_ isTally called
    rw [nextWaits.late.2]
    exact nofun

theorem Phase.takes (waits : umem.owner.Waits)
    (none : ∀ (i : Nat) (stage : UnmapStage), umem.invals[i]? ≠ some (.unmapping .mapped stage))
    (state : MappedState) (owner : Owner) (unmaps : owner.unmapping = some (umem.mappedState, .enter))
    (alone : umem.mappedState = .mapped → state = .mapped → owner = .stopUnmap .mapped .enter ∨ Hidden umem)
    (stays : umem.mappedState ≠ .mapped → state ≠ .mapped) :
    Phase client { umem with mappedState := state, owner := owner } := by
  cases phase with
  | early isEarly =>
    rw [waits.late.1] at isEarly
    cases isEarly
  | mapped _ isMapped noUnmapping tally calls =>
    refine .owner .enter ?_ (alone isMapped)
      (fun i cur stage place => absurd place (noUnmapping i cur stage)) tally
      (calls.imp id And.left)
    rw [unmaps, isMapped]
  | inval i stage _ _ isUnmapping => exact absurd isUnmapping (none i stage)
  | owner _ isUnmapping =>
    rw [waits.late.2] at isUnmapping
    cases isUnmapping
  | ended _ notMapped others _ tally called =>
    refine .ended (late_of_unmapping unmaps) (stays notMapped) others ?_ tally called
    intro cur stage isUnmapping
    rw [unmaps] at isUnmapping
    cases isUnmapping
    exact ⟨notMapped, rfl⟩

omit phase

/-! ### The steps of the owner before the memory is mapped -/

variable (inv : Inv client umem)

include inv

theorem Inv.get_step {given} (moved : step client umem (.get given) = some next) : Inv client next := by
  obtain ⟨notIdle, moved⟩ := ite_none_left_eq_some.mp moved
  have idle := not_not.mp notIdle
  cases umem
  cases idle
  have placed := inv.placed
  simp only [Placed, PeerUmem.flags, mk.injEq] at placed
  obtain ⟨rfl, rfl, rfl, rfl⟩ := placed
  have noInvals := inv.no_invals rfl
  have kref := inv.counted.kref
  have usecnt := inv.counted.usecnt
  have freed := inv.counted.kept (.inl rfl)
  cases noInvals
  cases given with
  | false =>
    cases moved
    exact
      { inv with
        locked := inv.locked.owner_stays rfl rfl rfl
        counted := ⟨kref, congrArg (· + 1) usecnt, (absurd · Bool.false_ne_true), fun _ => freed⟩
        phase := inv.phase.early_step rfl rfl rfl rfl (absurd · Bool.false_ne_true) }
  | true =>
    cases moved
    exact
      { inv with
        locked := inv.locked.owner_locks (inv.locked.free rfl rfl) rfl rfl rfl
        placed := rfl
        counted := ⟨rfl, congrArg (· + 1) usecnt, (absurd · Bool.false_ne_true), fun _ => freed⟩
        phase := inv.phase.early_step rfl rfl rfl rfl (absurd · Bool.false_ne_true) }

theorem Inv.xaAlloc_step {stored}
    (moved : step client umem (.xaAlloc stored) = some next) : Inv client next := by
  obtain ⟨notLocked, moved⟩ := ite_none_left_eq_some.mp moved
  have isLocked := not_not.mp notLocked
  cases umem
  cases isLocked
  have placed := inv.placed
  simp only [Placed, PeerUmem.flags, mk.injEq] at placed
  obtain ⟨rfl, rfl, rfl, rfl⟩ := placed
  split at moved
  case isTrue noInvalidation =>
    cases moved
    refine inv.owner_goes rfl rfl id ?_ (inv.phase.early_step rfl rfl rfl rfl (absurd · Bool.false_ne_true))
    simp only [Placed, PeerUmem.flags, noInvalidation]
  case isFalse invalidation =>
    have required : client.invalidationRequired = true := eq_true_of_ne_false invalidation
    split at moved
    case isTrue =>
      cases moved
      refine inv.owner_goes rfl rfl (fun _ => rfl) ?_
        (inv.phase.early_step rfl rfl rfl rfl (absurd · Bool.false_ne_true))
      simp only [Placed, PeerUmem.flags, required]
    case isFalse =>
      cases moved
      exact inv.owner_goes rfl rfl id (.inl rfl) (inv.phase.early_step rfl rfl rfl rfl (fun _ => rfl))

theorem Inv.getPages_step {pinned}
    (moved : step client umem (.getPages pinned) = some next) : Inv client next := by
  obtain ⟨notEntered, moved⟩ := ite_none_left_eq_some.mp moved
  have entered := not_not.mp notEntered
  cases umem
  cases entered
  split at moved
  case isTrue =>
    cases moved
    obtain ⟨notMapped, others, noCalls, -, isUnpinned⟩ := inv.phase.of_early rfl
    rcases isUnpinned rfl with tally | ⟨-, fails⟩
    · cases tally
      exact inv.owner_goes rfl rfl id inv.placed (.early rfl notMapped others noCalls (fun _ => rfl) nofun)
    · cases fails
  case isFalse =>
    cases moved
    exact inv.owner_goes rfl rfl id inv.placed (inv.phase.early_step rfl rfl rfl rfl (fun _ => rfl))

theorem Inv.dmaMap_step {mapped}
    (moved : step client umem (.dmaMap mapped) = some next) : Inv client next := by
  obtain ⟨notGot, moved⟩ := ite_none_left_eq_some.mp moved
  have got := not_not.mp notGot
  cases umem
  cases got
  obtain ⟨-, -, noCalls, isPinned, -⟩ := inv.phase.of_early rfl
  cases isPinned rfl
  split at moved
  case isTrue =>
    have none := inv.locked.none_unmapping rfl
    dsimp only at moved
    split at moved
    case isTrue xaId =>
      cases moved
      exact inv.owner_goes rfl (congrArg (·, true, true, false) xaId) id inv.placed
        (.mapped (.inl rfl) rfl none rfl (.inl noCalls))
    case isFalse noXaId =>
      cases moved
      exact inv.owner_unlocks rfl rfl
        (congrArg (·, true, true, false) (eq_false_of_ne_true noXaId)) id inv.placed
        (.mapped (.inl rfl) rfl none rfl (.inl noCalls))
  case isFalse =>
    cases moved
    exact inv.owner_goes rfl rfl id inv.placed (inv.phase.early_step rfl rfl rfl rfl (absurd · Bool.false_ne_true))

theorem Inv.failPages_step (isOwner : umem.owner = .failPages) : Inv client
    { umem with tally := { umem.tally with putPages := umem.tally.putPages + 1 }, owner := .failXa } := by
  cases umem
  cases isOwner
  obtain ⟨notMapped, others, noCalls, isPinned, -⟩ := inv.phase.of_early rfl
  cases isPinned rfl
  exact inv.owner_goes rfl rfl id inv.placed
    (.early rfl notMapped others noCalls nofun (fun _ => .inr ⟨rfl, rfl⟩))

theorem Inv.failXa_step (isOwner : umem.owner = .failXa) :
    Inv client { umem with xaEntry := false, owner := .failUnlock } := by
  cases umem
  cases isOwner
  have placed := inv.placed
  simp only [Placed, PeerUmem.flags, mk.injEq] at placed
  obtain ⟨xaId, -, func, ibClient⟩ := placed
  refine inv.owner_goes rfl rfl id ?_ (inv.phase.early_step rfl rfl rfl rfl (fun _ => rfl))
  simp only [Placed, PeerUmem.flags, xaId, func, ibClient, or_true]

theorem Inv.failUnlock_step (isOwner : umem.owner = .failUnlock) :
    Inv client { umem.mutexUnlock .owner with owner := .failPut } := by
  cases umem
  cases isOwner
  exact inv.owner_unlocks rfl rfl rfl id inv.placed (inv.phase.early_step rfl rfl rfl rfl (fun _ => rfl))

theorem Inv.failPut_step (isOwner : umem.owner = .failPut) :
    Inv client { umem.krefPut with owner := .failClient } := by
  cases umem
  cases isOwner
  exact inv.owner_puts rfl rfl rfl id inv.placed (inv.phase.early_step rfl rfl rfl rfl (fun _ => rfl))

theorem Inv.failClient_step (isOwner : umem.owner = .failClient) :
    Inv client { umem with usecnt := umem.usecnt - 1, owner := .failed } := by
  cases umem
  cases isOwner
  exact inv.owner_unuses rfl rfl rfl id inv.placed (inv.phase.early_step rfl rfl rfl rfl (fun _ => rfl))

theorem Inv.refused_step (isOwner : umem.owner = .refused) :
    Inv client { umem with usecnt := umem.usecnt - 1, owner := .idle } := by
  cases umem
  cases isOwner
  exact inv.owner_unuses rfl rfl rfl id inv.placed (inv.phase.early_step rfl rfl rfl rfl (absurd · Bool.false_ne_true))

omit inv

/-! ### The steps of the owner that activate, stop and release -/

variable (inv : Inv client umem)

include inv

theorem Inv.activate_step (moved : step client umem .activate = some next) : Inv client next := by
  obtain ⟨notHolding, moved⟩ := ite_none_left_eq_some.mp moved
  have holding := not_not.mp notHolding
  cases umem
  cases holding
  have placed := inv.placed
  simp only [Placed, PeerUmem.flags, mk.injEq] at placed
  obtain ⟨xaId, entry, func, ibClient⟩ := placed
  split at moved
  case isTrue hasXaId =>
    cases hasXaId
    have held := inv.locked.owner.mpr rfl
    cases moved
    refine inv.owner_unlocks rfl rfl rfl id ?_
      (inv.phase.wait_step (.inl rfl) (.inr (.inl rfl)) rfl (.inr ?_) (.inl (.inl rfl)))
    · simp only [Placed, PeerUmem.flags, PeerUmem.mutexUnlock, entry, ← xaId, ibClient]
    · intro i heldBy
      rw [held] at heldBy
      cases heldBy
  case isFalse noXaId =>
    cases eq_false_of_ne_true noXaId
    cases moved
    refine inv.owner_goes rfl rfl id ?_
      (inv.phase.wait_step (.inl rfl) (.inr (.inl rfl)) rfl (.inl rfl) (.inl (.inl rfl)))
    simp only [Placed, PeerUmem.flags, entry, func, ← xaId, ibClient]

theorem Inv.stop_step (func : umem.invalidationFunc = true)
    (moved : step client umem .stop = some next) : Inv client next := by
  have notifies := inv.placed.notifies func
  obtain ⟨isOwner, moved⟩ := ite_none_right_eq_some.mp moved
  cases umem
  cases func
  rcases isOwner with holding | active
  · cases holding
    cases notifies
  cases active
  cases moved
  have placed := inv.placed
  simp only [Placed, PeerUmem.flags, mk.injEq] at placed
  obtain ⟨xaId, entry, required, ibClient⟩ := placed
  refine inv.owner_goes rfl rfl id ?_
    (inv.phase.wait_step (.inr (.inl rfl)) (.inr (.inr (.inl rfl))) rfl (.inl rfl) (.inl (.inr rfl)))
  simp only [Placed, PeerUmem.flags, xaId, entry, ibClient, ← required, and_self]

theorem Inv.stopLock_step (isOwner : umem.owner = .stopLock) (moved : umem.mutexLock .owner
        (fun umem => { umem with invalidationFunc := false, owner := .stopLocked })
        (fun umem => { umem with owner := .deadlocked }) = some next) : Inv client next := by
  unfold PeerUmem.mutexLock at moved
  split at moved
  case h_1 free =>
    cases umem
    cases isOwner
    cases free
    cases moved
    have placed := inv.placed
    simp only [Placed, PeerUmem.flags, mk.injEq] at placed
    obtain ⟨required, xaId, entry, -, ibClient⟩ := placed
    refine
      { inv with
        locked := inv.locked.owner_locks rfl rfl rfl rfl
        placed := by simp only [Placed, PeerUmem.flags, xaId, entry, ibClient, required, and_self]
        counted := inv.counted.owner_stays rfl rfl rfl rfl rfl rfl rfl
        phase := inv.phase.wait_step (.inr (.inr (.inl rfl))) (.inr (.inr (.inr rfl))) rfl
          (.inr fun _ => (some_ne_none _).symm) (.inr ?_) }
    intro i stage unmaps
    cases inv.locked.inval_held unmaps rfl
  case h_2 holder held =>
    split at moved
    case isTrue same =>
      subst same
      have locks := inv.locked.owner.mp held
      rw [isOwner] at locks
      cases locks
    case isFalse => cases moved

theorem Inv.stopLocked_step (isOwner : umem.owner = .stopLocked)
    (moved : (if ibPeerUnmapOnInvalidate client then
        some { umem with mappedState := .unmapped, owner := .stopUnlock (some umem.mappedState) }
      else some { umem with owner := .stopUnmap umem.mappedState .enter }) = some next) :
    Inv client next := by
  have waits : umem.owner.Waits := .inr (.inr (.inr isOwner))
  have locks : umem.owner.locks umem.hasXaId = true := by rw [isOwner]; rfl
  have none := fun i => inv.locked.none_unmapping locks i .mapped
  split at moved
  case isTrue =>
    cases moved
    have phase := inv.phase.takes waits none .unmapped
      (.stopUnlock (some umem.mappedState)) rfl nofun (fun _ => MappedState.noConfusion)
    cases umem
    cases isOwner
    exact inv.owner_goes rfl rfl id inv.placed phase
  case isFalse =>
    cases moved
    have phase := inv.phase.takes waits none umem.mappedState
      (.stopUnmap umem.mappedState .enter) rfl (fun isMapped _ => .inl (by rw [isMapped])) id
    cases umem
    cases isOwner
    exact inv.owner_goes rfl rfl id inv.placed phase

variable {stage : UnmapStage} {cur : MappedState}

theorem Inv.unmap_cases (unmaps : umem.owner.unmapping = some (cur, stage)) : (∃ after, ∃ left : UnmapStage,
      umem.ibUnmapPeerClient cur .unmapped stage = ({ umem with tally := after }, some left) ∧
      (umem.mappedState = .mapped → umem.owner = .stopUnmap .mapped stage ∨ Hidden umem) ∧
      ∀ owner : Owner, owner.unmapping = some (cur, left) →
        (umem.mappedState = .mapped → owner = .stopUnmap .mapped left ∨ Hidden umem) →
        Phase client { umem with tally := after, owner := owner }) ∨
    (∃ after, umem.ibUnmapPeerClient cur .unmapped stage =
        ({ umem with mappedState := .unmapped, tally := after }, none) ∧
      ∀ owner : Owner, owner.early = false → owner.unmapping = none →
        Phase client { umem with mappedState := .unmapped, tally := after, owner := owner }) := by
  have final : ∀ (after : Tally), after = ⟨1, 1, 1, 1, 0⟩ ∨ after = ⟨1, 1, 0, 0, 1⟩ →
      Others umem → Called umem → ∀ owner : Owner, owner.early = false → owner.unmapping = none →
      Phase client { umem with mappedState := .unmapped, tally := after, owner := owner } := by
    intro after isFinal others called owner late noUnmapping
    refine .ended late nofun others ?_ isFinal called
    intro cur stage unmapping
    rw [noUnmapping] at unmapping
    cases unmapping
  have notWaits : ¬ umem.owner.Waits := by
    intro waits
    rw [waits.late.2] at unmaps
    cases unmaps
  cases inv.phase with
  | early isEarly =>
    rw [late_of_unmapping unmaps] at isEarly
    cases isEarly
  | mapped waits => exact absurd waits notWaits
  | inval _ _ waits => exact absurd (waits_of_inval waits) notWaits
  | owner left isUnmapping alone others tally called =>
    rw [unmaps] at isUnmapping
    cases isUnmapping
    have goes : ∀ (next : UnmapStage) (owner : Owner), owner.unmapping = some (.mapped, next) →
        (umem.mappedState = .mapped → owner = .stopUnmap .mapped next ∨ Hidden umem) →
        Phase client { umem with tally := next.tally, owner := owner } :=
      fun next owner unmapping isAlone => .owner next unmapping isAlone others rfl called
    cases stage with
    | enter =>
      refine .inl ⟨UnmapStage.pages.tally, .pages, ?_, alone, goes .pages⟩
      simp [PeerUmem.ibUnmapPeerClient, tally, UnmapStage.tally]
    | pages =>
      refine .inl ⟨UnmapStage.state.tally, .state, ?_, alone, goes .state⟩
      simp [PeerUmem.ibUnmapPeerClient, tally, UnmapStage.tally]
    | state =>
      exact .inr ⟨umem.tally, rfl, final umem.tally (.inl tally) others called⟩
  | ended _ _ others isUnmapping tally called =>
    obtain ⟨notCur, rfl⟩ := isUnmapping cur stage unmaps
    refine .inr ⟨umem.tally, ?_, final umem.tally tally others called⟩
    dsimp only [PeerUmem.ibUnmapPeerClient]
    rw [if_neg (fun both => notCur both.1), if_neg (fun both => notCur both.1)]

theorem Inv.unmap_step (goes : UnmapStage → Owner) (ends) (isOwner : umem.owner = goes stage)
    (unmaps : ∀ left, (goes left).unmapping = some (cur, left))
    (roles : ∀ left, (goes left).roles = (goes stage).roles)
    (endRoles : ends.roles = (goes stage).roles) (late : ends.early = false)
    (ended : ends.unmapping = none)
    (stops : ∀ left, goes stage = .stopUnmap .mapped stage → goes left = .stopUnmap .mapped left)
    (placed : ∀ tally left, Placed client { umem with tally := tally, owner := goes left })
    (endPlaced : ∀ state tally, Placed client { umem with mappedState := state, tally := tally, owner := ends })
    (moved : (let (umem, left) := umem.ibUnmapPeerClient cur .unmapped stage
      match left with
      | some stage => some { umem with owner := goes stage }
      | none => some { umem with owner := ends }) = some next) : Inv client next := by
  rcases inv.unmap_cases (by rw [isOwner]; exact unmaps stage) with
    ⟨after, left, same, alone, phase⟩ | ⟨after, same, phase⟩
  · rw [same] at moved
    cases moved
    refine inv.owner_goes rfl ?_ id (placed after left) (phase _ (unmaps left) ?_)
    · rw [isOwner]
      exact congrFun (roles left) _
    · rw [isOwner] at alone
      exact fun isMapped => (alone isMapped).imp (stops left) id
  · rw [same] at moved
    cases moved
    refine inv.owner_goes rfl ?_ id (endPlaced _ after) (phase _ late ended)
    rw [isOwner]
    exact congrFun endRoles _

theorem Inv.stopUnlock_step {cur} (isOwner : umem.owner = .stopUnlock cur)
    (moved : umem.ownerStep client = some next) : Inv client next := by
  cases umem
  cases isOwner
  cases cur with
  | none =>
    cases moved
    exact inv.owner_unlocks rfl rfl rfl id inv.placed
      (inv.phase.late_step ⟨rfl, rfl, by simp [Waits]⟩ rfl rfl rfl)
  | some cur =>
    cases moved
    refine inv.owner_unlocks rfl rfl rfl id inv.placed ?_
    cases inv.phase with
    | early isEarly => cases isEarly
    | mapped waits => cases (Waits.late waits).2
    | inval _ _ waits => cases (waits_of_inval waits).late.2
    | owner stage unmaps alone others tally called =>
      cases unmaps
      refine .owner .enter rfl ?_ others tally called
      intro isMapped
      rcases alone isMapped with stops | hidden
      · cases stops
      · exact .inr hidden
    | ended _ notMapped others unmaps tally called =>
      exact .ended rfl notMapped others unmaps tally called

theorem Inv.release_step (moved : step client umem .release = some next) : Inv client next := by
  obtain ⟨isOwner, moved⟩ := ite_none_right_eq_some.mp moved
  cases moved
  -- a umem that no invalidation can find
  have hidden : umem.hasXaId = false → umem.xaEntry = false → umem.owner.Waits →
      Phase client { umem with owner := .relUnmap umem.mappedState .enter } := by
    intro noXaId noEntry waits
    have noInvals := inv.no_invals noXaId
    refine inv.phase.takes waits ?_ _ _ rfl (fun _ _ => .inr ⟨noEntry, noInvals⟩) id
    intro i stage
    rw [noInvals]
    exact nofun
  rcases isOwner with stopped | ⟨noInvalidation, holding | active⟩
  · have placed := inv.placed
    unfold Placed at placed
    rw [stopped] at placed
    obtain ⟨notMapped, others, tally, called⟩ := inv.phase.of_late
      (by rw [stopped]; exact ⟨rfl, rfl, by simp [Waits]⟩)
    refine inv.owner_goes rfl (by rw [stopped]; rfl) id ?_ ?_
    · unfold Placed
      dsimp only
      rw [placed.1]
      exact placed.2
    · refine .ended rfl notMapped others ?_ tally called
      intro cur stage unmaps
      cases unmaps
      exact ⟨notMapped, rfl⟩
  · have placed := inv.placed
    unfold Placed at placed
    rw [holding] at placed
    have flags := placed
    simp only [PeerUmem.flags, mk.injEq, noInvalidation] at flags
    exact inv.owner_goes rfl (by rw [holding, flags.1]; rfl) id placed (hidden flags.1 flags.2.1 (.inl holding))
  · have placed := inv.placed
    unfold Placed at placed
    rw [active] at placed
    have flags := placed
    simp only [PeerUmem.flags, mk.injEq, noInvalidation] at flags
    refine inv.owner_goes rfl (by rw [active]; rfl) id ?_ (hidden flags.1 flags.2.1 (.inr (.inl active)))
    rw [noInvalidation] at placed
    unfold Placed
    dsimp only
    rw [noInvalidation]
    exact placed

theorem Inv.relErase_step (isOwner : umem.owner = .relErase) :
    Inv client { umem with xaEntry := false, owner := .relClient } := by
  cases umem
  cases isOwner
  have placed := inv.placed
  simp only [Placed, PeerUmem.flags, mk.injEq] at placed
  obtain ⟨xaId, -, func, ibClient⟩ := placed
  refine inv.owner_goes rfl rfl id ?_ (inv.phase.late_step ⟨rfl, rfl, by simp [Waits]⟩ rfl rfl rfl)
  simp only [Placed, PeerUmem.flags, xaId, func, ibClient]

theorem Inv.relClient_step (isOwner : umem.owner = .relClient) :
    Inv client { umem with usecnt := umem.usecnt - 1, owner := .relForget } := by
  cases umem
  cases isOwner
  exact inv.owner_unuses rfl rfl rfl id inv.placed (inv.phase.late_step ⟨rfl, rfl, by simp [Waits]⟩ rfl rfl rfl)

theorem Inv.relForget_step (isOwner : umem.owner = .relForget) :
    Inv client { umem with ibPeerClient := false, owner := .relPut } := by
  cases umem
  cases isOwner
  have placed := inv.placed
  simp only [Placed, PeerUmem.flags, mk.injEq] at placed
  obtain ⟨xaId, entry, func, -⟩ := placed
  refine inv.owner_goes rfl rfl id ?_ (inv.phase.late_step ⟨rfl, rfl, by simp [Waits]⟩ rfl rfl rfl)
  simp only [Placed, PeerUmem.flags, xaId, entry, func]

theorem Inv.relPut_step (isOwner : umem.owner = .relPut) :
    Inv client { umem.krefPut with owner := .released } := by
  cases umem
  cases isOwner
  exact inv.owner_puts rfl rfl rfl id inv.placed (inv.phase.late_step ⟨rfl, rfl, by simp [Waits]⟩ rfl rfl rfl)

theorem Inv.owner_step (moved : umem.ownerStep client = some next) : Inv client next := by
  cases umem with
  | mk state lock xaId entry kref usecnt func ibClient owner =>
    have placed := inv.placed
    cases owner with
    | stopUnmap cur stage =>
      refine inv.unmap_step (.stopUnmap cur) (.stopUnlock none) rfl (fun _ => rfl)
        (fun _ => rfl) rfl rfl rfl ?_ (fun _ _ => placed) (fun _ _ => placed) moved
      intro left same
      cases same
      rfl
    | stopGap cur stage =>
      exact inv.unmap_step (.stopGap cur) .stopped rfl (fun _ => rfl) (fun _ => rfl) rfl
        rfl rfl (fun _ => nofun) (fun _ _ => placed) (fun _ _ => placed) moved
    | relUnmap cur stage =>
      exact inv.unmap_step (.relUnmap cur) .relErase rfl (fun _ => rfl) (fun _ => rfl) rfl
        rfl rfl (fun _ => nofun) (fun _ _ => placed) (fun _ _ => placed) moved
    | stopUnlock cur => exact inv.stopUnlock_step rfl moved
    | stopLock => exact inv.stopLock_step rfl moved
    | stopLocked => exact inv.stopLocked_step rfl moved
    | refused => cases moved; exact inv.refused_step rfl
    | failPages => cases moved; exact inv.failPages_step rfl
    | failXa => cases moved; exact inv.failXa_step rfl
    | failUnlock => cases moved; exact inv.failUnlock_step rfl
    | failPut => cases moved; exact inv.failPut_step rfl
    | failClient => cases moved; exact inv.failClient_step rfl
    | relErase => cases moved; exact inv.relErase_step rfl
    | relClient => cases moved; exact inv.relClient_step rfl
    | relForget => cases moved; exact inv.relForget_step rfl
    | relPut => cases moved; exact inv.relPut_step rfl
    | _ => cases moved

omit inv

end MlnxOfed.PeerMem
