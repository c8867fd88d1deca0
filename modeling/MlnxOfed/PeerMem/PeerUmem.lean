/-
A umem whose memory belongs to a peer (core/peer_mem.c): its mapping, the lock taken in one function and
given back in another, and the peer's invalidations at any time.

The owner is one thread, each call of `ib_invalidate_peer_memory` another. A step is a statement that
another may see; in a section that holds the lock, or before the umem can be found, statements are taken
together. The statistics are left out. `tally` and `calls` say what was called of the peer and of the user.
-/

import Mathlib.Algebra.Order.Ring.Int
import Mathlib.Data.List.Basic


namespace MlnxOfed.PeerMem

/-- `struct ib_peer_memory_client` with what is read of `struct peer_memory_client_ex`. -/
structure PeerClient where
  invalidationRequired : Bool
  versionEnd : Nat
  exSize : Nat
  flags : Nat

/-- `offsetofend(struct peer_memory_client_ex, flags)`. -/
def flagsEnd : Nat := 148

/-- `PEER_MEM_INVALIDATE_UNMAPS`, the number of its bit. -/
def peerMemInvalidateUnmaps : Nat := 0

def ibPeerUnmapOnInvalidate (client : PeerClient) : Bool :=
  if client.versionEnd = 0 then false
  else if client.exSize < flagsEnd then false
  else client.flags.testBit peerMemInvalidateUnmaps

inductive MappedState where
  | unmapped
  | mapped
  | invalidated
  deriving DecidableEq

/-- How far `ib_unmap_peer_client` is: its start, `put_pages`, the new state. -/
inductive UnmapStage where
  | enter
  | pages
  | state
  deriving DecidableEq

/-- Where the owner is: `fail` in a failed `ib_peer_umem_get`, `rel` in `ib_peer_umem_release`; `stopGap` is
the part of `ib_umem_stop_invalidation_notifier` without the lock. -/
inductive Owner where
  | idle
  | refused
  | locked
  | entered
  | gotPages
  | failPages
  | failXa
  | failUnlock
  | failPut
  | failClient
  | failed
  | holding
  | active
  | stopLock
  | stopLocked
  | stopUnmap (cur : MappedState) (stage : UnmapStage)
  | stopUnlock (cur : Option MappedState)
  | stopGap (cur : MappedState) (stage : UnmapStage)
  | stopped
  | deadlocked
  | relUnmap (cur : MappedState) (stage : UnmapStage)
  | relErase
  | relClient
  | relForget
  | relPut
  | released
  deriving DecidableEq

/-- Where a call of `ib_invalidate_peer_memory` that found the umem is. -/
inductive Inval where
  | loaded
  | locked
  | notified
  | unmapping (cur : MappedState) (stage : UnmapStage)
  | unlocking
  | putting
  | done
  | oopsed

inductive Context where
  | owner
  | inval (i : Nat)
  deriving DecidableEq

inductive Fault where
  | unlock (who : Context)
  | relock (who : Context)
  deriving DecidableEq

/-- The calls of the peer that succeeded, and the invalidations that unmapped. -/
structure Tally where
  gotPages : Nat
  dmaMaps : Nat
  dmaUnmaps : Nat
  putPages : Nat
  peerUnmaps : Nat
  deriving DecidableEq

/-- `struct ib_umem_peer`. `hasXaId`: `xa_id` is not `PEER_NO_INVALIDATION_ID`; `xaEntry`: the client's
array has an entry for it; `ibPeerClient` is false for NULL. `calls` keeps the state that each call of the
invalidation function found, and whether the owner was between an activation and the stop. -/
structure PeerUmem where
  mappedState : MappedState
  mappingLock : Option Context
  hasXaId : Bool
  xaEntry : Bool
  kref : Nat
  usecnt : Nat
  invalidationFunc : Bool
  ibPeerClient : Bool
  owner : Owner
  invals : List Inval
  tally : Tally
  calls : List (MappedState × Bool)
  freed : Nat
  faults : List Fault

def PeerUmem.init : PeerUmem where
  mappedState := .unmapped
  mappingLock := none
  hasXaId := false
  xaEntry := false
  kref := 0
  usecnt := 1
  invalidationFunc := false
  ibPeerClient := false
  owner := .idle
  invals := []
  tally := ⟨0, 0, 0, 0, 0⟩
  calls := []
  freed := 0
  faults := []

def Owner.notifies : Owner → Bool
  | .active => true
  | .stopLock => true
  | _ => false

namespace PeerUmem

/-- `mutex_lock` waits for another thread, and for ever for the caller itself. -/
def mutexLock (umem : PeerUmem) (who : Context) (got stuck : PeerUmem → PeerUmem) : Option PeerUmem :=
  match umem.mappingLock with
  | none => some (got { umem with mappingLock := some who })
  | some holder =>
    if holder = who then some (stuck { umem with faults := umem.faults ++ [.relock who] })
    else none

def mutexUnlock (umem : PeerUmem) (who : Context) : PeerUmem :=
  { umem with
    mappingLock := none
    faults := if umem.mappingLock = some who then umem.faults else umem.faults ++ [.unlock who] }

def krefPut (umem : PeerUmem) : PeerUmem :=
  { umem with
    kref := umem.kref - 1
    freed := if umem.kref = 1 then umem.freed + 1 else umem.freed }

/-- `ib_unmap_peer_client`, the next part of a call and what is left of it. -/
def ibUnmapPeerClient (umem : PeerUmem) (cur target : MappedState) : UnmapStage → PeerUmem × Option UnmapStage
  | .enter =>
    if cur = .mapped ∧ target = .unmapped then
      ({ umem with tally := { umem.tally with dmaUnmaps := umem.tally.dmaUnmaps + 1 } }, some .pages)
    else if cur = .mapped ∧ target = .invalidated then
      ({ umem with
          mappedState := target
          tally := { umem.tally with peerUnmaps := umem.tally.peerUnmaps + 1 } }, none)
    else ({ umem with mappedState := target }, none)
  | .pages =>
    ({ umem with tally := { umem.tally with putPages := umem.tally.putPages + 1 } }, some .state)
  | .state => ({ umem with mappedState := target }, none)

/-- The next statement of the function that the owner is in. -/
def ownerStep (client : PeerClient) (umem : PeerUmem) : Option PeerUmem :=
  match umem.owner with
  | .refused => some { umem with usecnt := umem.usecnt - 1, owner := .idle }
  | .failPages =>
    some { umem with
      tally := { umem.tally with putPages := umem.tally.putPages + 1 }
      owner := .failXa }
  | .failXa => some { umem with xaEntry := false, owner := .failUnlock }
  | .failUnlock => some { umem.mutexUnlock .owner with owner := .failPut }
  | .failPut => some { umem.krefPut with owner := .failClient }
  | .failClient => some { umem with usecnt := umem.usecnt - 1, owner := .failed }
  | .stopLock =>
    umem.mutexLock .owner (fun umem => { umem with invalidationFunc := false, owner := .stopLocked })
      (fun umem => { umem with owner := .deadlocked })
  | .stopLocked =>
    if ibPeerUnmapOnInvalidate client then
      some { umem with mappedState := .unmapped, owner := .stopUnlock (some umem.mappedState) }
    else some { umem with owner := .stopUnmap umem.mappedState .enter }
  | .stopUnmap cur stage =>
    let (umem, left) := umem.ibUnmapPeerClient cur .unmapped stage
    match left with
    | some stage => some { umem with owner := .stopUnmap cur stage }
    | none => some { umem with owner := .stopUnlock none }
  | .stopUnlock cur =>
    match cur with
    | some cur => some { umem.mutexUnlock .owner with owner := .stopGap cur .enter }
    | none => some { umem.mutexUnlock .owner with owner := .stopped }
  | .stopGap cur stage =>
    let (umem, left) := umem.ibUnmapPeerClient cur .unmapped stage
    match left with
    | some stage => some { umem with owner := .stopGap cur stage }
    | none => some { umem with owner := .stopped }
  | .relUnmap cur stage =>
    let (umem, left) := umem.ibUnmapPeerClient cur .unmapped stage
    match left with
    | some stage => some { umem with owner := .relUnmap cur stage }
    | none => some { umem with owner := .relErase }
  | .relErase => some { umem with xaEntry := false, owner := .relClient }
  | .relClient => some { umem with usecnt := umem.usecnt - 1, owner := .relForget }
  | .relForget => some { umem with ibPeerClient := false, owner := .relPut }
  | .relPut => some { umem.krefPut with owner := .released }
  | _ => none

/-- The next part of a call of `ib_invalidate_peer_memory`. -/
def invalStep (client : PeerClient) (umem : PeerUmem) (i : Nat) : Option PeerUmem :=
  match umem.invals[i]? with
  | some .loaded =>
    umem.mutexLock (.inval i) (fun umem => { umem with invals := umem.invals.set i .locked })
      (fun umem => { umem with invals := umem.invals.set i .oopsed })
  | some .locked =>
    some { umem with
      calls :=
        if umem.mappedState = .mapped ∧ umem.invalidationFunc = true then
          umem.calls ++ [(umem.mappedState, umem.owner.notifies)]
        else umem.calls
      invals := umem.invals.set i .notified }
  | some .notified =>
    -- `ib_peer_unmap_on_invalidate` follows the pointer to the client
    if umem.ibPeerClient then
      some { umem with invals := umem.invals.set i (.unmapping umem.mappedState .enter) }
    else some { umem with invals := umem.invals.set i .oopsed }
  | some (.unmapping cur stage) =>
    if stage = .enter ∧ umem.ibPeerClient = false then
      some { umem with invals := umem.invals.set i .oopsed }
    else
      let target := if ibPeerUnmapOnInvalidate client then .invalidated else .unmapped
      let (umem, left) := umem.ibUnmapPeerClient cur target stage
      match left with
      | some stage => some { umem with invals := umem.invals.set i (.unmapping cur stage) }
      | none => some { umem with invals := umem.invals.set i .unlocking }
  | some .unlocking => some { umem.mutexUnlock (.inval i) with invals := umem.invals.set i .putting }
  | some .putting => some { umem.krefPut with invals := umem.invals.set i .done }
  | _ => none

end PeerUmem

inductive Move where
  | get (allocated : Bool)
  | xaAlloc (stored : Bool)
  | getPages (pinned : Bool)
  | dmaMap (mapped : Bool)
  | activate
  | stop
  | release
  | owner
  | invalidate
  | inval (i : Nat)

/-- A step of a thread. The owner calls the functions in their documented order: a umem of a client that
invalidates is released after the stop. -/
def step (client : PeerClient) (umem : PeerUmem) : Move → Option PeerUmem
  | .get allocated =>
    if umem.owner ≠ .idle then none
    else if allocated then
      some { umem with
        usecnt := umem.usecnt + 1
        kref := 1
        ibPeerClient := true
        mappingLock := some .owner
        owner := .locked }
    else some { umem with usecnt := umem.usecnt + 1, owner := .refused }
  | .xaAlloc stored =>
    if umem.owner ≠ .locked then none
    else if client.invalidationRequired = false then some { umem with owner := .entered }
    else if stored then some { umem with hasXaId := true, xaEntry := true, owner := .entered }
    else some { umem with owner := .failUnlock }
  | .getPages pinned =>
    if umem.owner ≠ .entered then none
    else if pinned then
      some { umem with
        tally := { umem.tally with gotPages := umem.tally.gotPages + 1 }
        owner := .gotPages }
    else some { umem with owner := .failXa }
  | .dmaMap mapped =>
    if umem.owner ≠ .gotPages then none
    else if mapped then
      let umem :=
        { umem with
          tally := { umem.tally with dmaMaps := umem.tally.dmaMaps + 1 }
          mappedState := .mapped
          owner := .holding }
      some (if umem.hasXaId then umem else umem.mutexUnlock .owner)
    else some { umem with owner := .failPages }
  | .activate =>
    if umem.owner ≠ .holding then none
    else if umem.hasXaId then
      some { { umem with invalidationFunc := true }.mutexUnlock .owner with owner := .active }
    else some { umem with owner := .active }
  | .stop =>
    if umem.owner = .holding ∨ umem.owner = .active then
      if umem.invalidationFunc || umem.hasXaId then some { umem with owner := .stopLock }
      else some { umem with owner := .stopLocked }
    else none
  | .release =>
    if umem.owner = .stopped ∨ client.invalidationRequired = false ∧
        (umem.owner = .holding ∨ umem.owner = .active) then
      some { umem with owner := .relUnmap umem.mappedState .enter }
    else none
  | .owner => umem.ownerStep client
  | .invalidate =>
    if umem.xaEntry then
      some { umem with kref := umem.kref + 1, invals := umem.invals ++ [.loaded] }
    else some umem
  | .inval i => umem.invalStep client i

end MlnxOfed.PeerMem
