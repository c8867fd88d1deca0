/-
A peer umem over whole runs: its memory is unmapped once. The stop must be called while the notifier is
active; before an activation it takes the lock a second time, and for a client without invalidation it gives
back a lock it has not.
-/

import MlnxOfed.PeerMem.PeerOwner

namespace MlnxOfed.PeerMem

open List PeerUmem

variable {client : PeerClient} {umem next : PeerUmem}

theorem getElem?_loaded {i : Nat} {stage : Inval} (place : (umem.invals ++ [Inval.loaded])[i]? = some stage) :
    umem.invals[i]? = some stage ∨ stage = .loaded := by
  by_cases within : i < umem.invals.length
  · rw [getElem?_append_left within] at place
    exact .inl place
  · rw [getElem?_append_right (Nat.le_of_not_lt within)] at place
    have member := mem_of_getElem? place
    exact .inr (mem_singleton.mp member)

theorem getElem?_kept {i : Nat} {stage : Inval} (place : umem.invals[i]? = some stage) :
    (umem.invals ++ [Inval.loaded])[i]? = some stage := by
  obtain ⟨within, -⟩ := List.getElem?_eq_some_iff.mp place
  rw [getElem?_append_left within]
  exact place

theorem Locked.invalidate (locked : Locked umem) :
    Locked { umem with kref := umem.kref + 1, invals := umem.invals ++ [.loaded] } where
  owner := locked.owner
  inval i := by
    rw [locked.inval i]
    constructor
    · rintro ⟨stage, place, locks⟩
      exact ⟨stage, getElem?_kept place, locks⟩
    · rintro ⟨stage, place, locks⟩
      rcases getElem?_loaded place with old | rfl
      · exact ⟨stage, old, locks⟩
      · cases locks

theorem Others.invalidate (others : Others umem) :
    Others { umem with kref := umem.kref + 1, invals := umem.invals ++ [.loaded] } := by
  intro i cur stage place
  rcases getElem?_loaded place with old | clash
  · exact others i cur stage old
  · cases clash

theorem Placed.entry (placed : Placed client umem) (entry : umem.xaEntry = true) :
    umem.hasXaId = true ∧ umem.owner.letGo = false := by
  unfold Placed at placed
  simp only [flags, entry, Prod.mk.injEq, Bool.true_eq_false, false_and, and_false, or_self] at placed
  cases owner : umem.owner with
  | entered | gotPages | failPages | failXa | holding | relUnmap _ _ | relErase | active =>
    rw [owner] at placed
    exact ⟨placed.1.trans placed.2.1.symm, rfl⟩
  | stopLock | stopLocked | stopUnmap _ _ | stopUnlock _ | stopGap _ _ | stopped =>
    rw [owner] at placed
    exact ⟨placed.2.1, rfl⟩
  | _ =>
    rw [owner] at placed
    exact placed.elim

theorem Inv.invalidate_step (inv : Inv client umem)
    (moved : step client umem .invalidate = some next) : Inv client next := by
  dsimp only [step] at moved
  split at moved
  case isFalse =>
    cases moved
    exact inv
  case isTrue entry =>
    obtain ⟨xaId, notLetGo⟩ := inv.placed.entry entry
    cases moved
    refine
      { inv with
        locked := inv.locked.invalidate
        found _ := xaId
        counted := ⟨?_, inv.counted.usecnt, ?_, ?_⟩
        phase := ?_ }
    · have kref := inv.counted.kref
      dsimp only
      have one : [Inval.loaded].countP Inval.refs = 1 := rfl
      rw [countP_append, one]
      omega
    · intro letGo
      rw [notLetGo] at letGo
      cases letGo
    · intro _still
      exact inv.counted.kept (.inl notLetGo)
    cases inv.phase with
    | early isEarly notMapped others noCalls pinned unpinned =>
      exact .early isEarly notMapped others.invalidate noCalls pinned unpinned
    | mapped waits isMapped none tally calls =>
      refine .mapped waits isMapped ?_ tally (calls.imp id ?_)
      · intro i cur stage place
        rcases getElem?_loaded place with old | clash
        · exact none i cur stage old
        · cases clash
      · rintro ⟨single, i, held, notified⟩
        exact ⟨single, i, held, getElem?_kept notified⟩
    | inval i stage waits isMapped unmaps whole tally called =>
      exact .inval i stage waits isMapped (getElem?_kept unmaps) whole tally called
    | owner stage unmaps alone others tally called =>
      refine .owner stage unmaps ?_ others.invalidate tally called
      intro isMapped
      rcases alone isMapped with stops | hidden
      · exact .inl stops
      · rw [hidden.1] at entry
        cases entry
    | ended late notMapped others unmaps tally called =>
      exact .ended late notMapped others.invalidate unmaps tally called

/-! ### Whole runs -/

def Heeded (umem : PeerUmem) : Move → Prop
  | .stop => umem.invalidationFunc = true
  | _ => True

instance (umem : PeerUmem) (move : Move) : Decidable (Heeded umem move) :=
  match move with
  | .stop => inferInstanceAs (Decidable (umem.invalidationFunc = true))
  | .get _ | .xaAlloc _ | .getPages _ | .dmaMap _ | .activate | .release | .owner | .invalidate
  | .inval _ => inferInstanceAs (Decidable True)

theorem Inv.step (inv : Inv client umem) {move} (heeded : Heeded umem move)
    (moved : step client umem move = some next) : Inv client next := by
  cases move with
  | get given => exact inv.get_step moved
  | xaAlloc stored => exact inv.xaAlloc_step moved
  | getPages pinned => exact inv.getPages_step moved
  | dmaMap mapped => exact inv.dmaMap_step moved
  | activate => exact inv.activate_step moved
  | stop => exact inv.stop_step heeded moved
  | release => exact inv.release_step moved
  | owner => exact inv.owner_step moved
  | invalidate => exact inv.invalidate_step moved
  | inval i => exact inv.inval_step moved

theorem init_inv (client) : Inv client init where
  faults := rfl
  locked := ⟨⟨nofun, nofun⟩, fun _ => ⟨nofun, fun ⟨_, place, _⟩ => nomatch place⟩⟩
  placed := rfl
  found some := absurd rfl some
  counted := ⟨rfl, rfl, nofun, fun _ => rfl⟩
  phase := .early rfl nofun nofun rfl nofun (fun _ => .inl rfl)

inductive Reachable (client : PeerClient) (kind : PeerUmem → Move → Prop) : PeerUmem → Prop where
  | init : Reachable client kind init
  | step {umem next : PeerUmem} (move : Move) (reached : Reachable client kind umem)
      (isKind : kind umem move) (moved : step client umem move = some next) :
      Reachable client kind next

theorem reachable_inv (reached : Reachable client Heeded umem) : Inv client umem := by
  induction reached with
  | init => exact init_inv client
  | step move _ heeded moved ih => exact ih.step heeded moved

def Owner.over : Owner → Bool
  | .failed => true
  | .released => true
  | _ => false

/-- The lock is given back by its holder and not taken again by it; what came from the peer goes back once,
or not where an invalidation unmapped it; the invalidation function is called at most once, with the memory
mapped and the notifier active; the client's references and uses are those held, and the umem is freed once.
-/
structure UnmappedOnce (umem : PeerUmem) : Prop where
  locking : umem.faults = []
  atMostOnce : umem.tally.dmaUnmaps ≤ umem.tally.dmaMaps ∧
    umem.tally.putPages ≤ umem.tally.gotPages ∧ umem.tally.dmaMaps ≤ 1 ∧ umem.tally.gotPages ≤ 1
  notAfter : umem.tally.peerUnmaps ≠ 0 → umem.tally.dmaUnmaps = 0 ∧ umem.tally.putPages = 0
  unmapped : umem.owner.over = true → umem.tally.dmaUnmaps + umem.tally.peerUnmaps = umem.tally.dmaMaps ∧
      umem.tally.putPages + umem.tally.peerUnmaps = umem.tally.gotPages
  called : umem.calls.length ≤ 1 ∧ ∀ call ∈ umem.calls, call = (.mapped, true)
  refs : umem.kref = umem.owner.refs.toNat + umem.invals.countP Inval.refs
  uses : umem.usecnt = 1 + umem.owner.uses.toNat
  freed : umem.freed ≤ 1 ∧ (umem.freed = 1 → umem.owner.letGo = true ∧ umem.kref = 0)

theorem Phase.tally_cases (phase : Phase client umem) :
    umem.tally = ⟨0, 0, 0, 0, 0⟩ ∨ (umem.tally = ⟨1, 0, 0, 0, 0⟩ ∧ umem.owner.over = false) ∨
      umem.tally = ⟨1, 0, 0, 1, 0⟩ ∨
      ((∃ stage : UnmapStage, umem.tally = stage.tally) ∧ umem.owner.over = false) ∨
      umem.tally = ⟨1, 1, 1, 1, 0⟩ ∨ umem.tally = ⟨1, 1, 0, 0, 1⟩ := by
  cases phase with
  | early _ _ _ _ pinned unpinned =>
    cases isPinned : umem.owner.pinned with
    | true =>
      refine .inr (.inl ⟨pinned isPinned, ?_⟩)
      cases owner : umem.owner with
      | failed => rw [owner] at isPinned; cases isPinned
      | released => rw [owner] at isPinned; cases isPinned
      | _ => rfl
    | false =>
      rcases unpinned isPinned with none | ⟨put, -⟩
      · exact .inl none
      · exact .inr (.inr (.inl put))
  | mapped waits _ _ tally =>
    refine .inr (.inr (.inr (.inl ⟨⟨_, tally⟩, ?_⟩)))
    rcases waits with isOwner | isOwner | isOwner | isOwner
    all_goals rw [isOwner]
    all_goals rfl
  | inval _ _ waits _ _ _ tally =>
    refine .inr (.inr (.inr (.inl ⟨⟨_, tally⟩, ?_⟩)))
    rcases waits with isOwner | isOwner
    all_goals rw [isOwner]
    all_goals rfl
  | owner _ unmaps _ _ tally =>
    refine .inr (.inr (.inr (.inl ⟨⟨_, tally⟩, ?_⟩)))
    cases owner : umem.owner with
    | failed => rw [owner] at unmaps; cases unmaps
    | released => rw [owner] at unmaps; cases unmaps
    | _ => rfl
  | ended _ _ _ _ tally => exact .inr (.inr (.inr (.inr tally)))

theorem Phase.called (phase : Phase client umem) : Called umem := by
  cases phase with
  | early _ _ _ noCalls => exact .inl noCalls
  | mapped _ _ _ _ calls => exact calls.imp id And.left
  | inval _ _ _ _ _ _ _ called => exact called
  | owner _ _ _ _ _ called => exact called
  | ended _ _ _ _ _ called => exact called

theorem Counted.freed_once (counted : Counted umem) :
    umem.freed ≤ 1 ∧ (umem.freed = 1 → umem.owner.letGo = true ∧ umem.kref = 0) := by
  by_cases gone : umem.owner.letGo = true ∧ umem.kref = 0
  · rw [counted.freed gone.1 gone.2]
    exact ⟨Nat.le_refl 1, fun _ => gone⟩
  have kept : umem.freed = 0 := by
    refine counted.kept ?_
    by_cases letGo : umem.owner.letGo = true
    · exact .inr fun none => gone ⟨letGo, none⟩
    · exact Or.inl (eq_false_of_ne_true letGo)
  rw [kept]
  exact ⟨Nat.zero_le 1, nofun⟩

/-- In every run whose stop is called while the notifier is active, with invalidations at any time, the
peer's memory is unmapped once. -/
theorem peer_unmapped_once (client : PeerClient) (umem : PeerUmem)
    (reached : Reachable client Heeded umem) : UnmappedOnce umem := by
  have inv := reachable_inv reached
  have once : (umem.tally.dmaUnmaps ≤ umem.tally.dmaMaps ∧ umem.tally.putPages ≤ umem.tally.gotPages ∧
        umem.tally.dmaMaps ≤ 1 ∧ umem.tally.gotPages ≤ 1) ∧
      (umem.tally.peerUnmaps ≠ 0 → umem.tally.dmaUnmaps = 0 ∧ umem.tally.putPages = 0) := by
    rcases inv.phase.tally_cases with tally | ⟨tally, -⟩ | tally | ⟨⟨stage, tally⟩, -⟩ | tally | tally
    case inr.inr.inr.inl =>
      rw [tally]
      cases stage with
      | enter => decide
      | pages => decide
      | state => decide
    all_goals
      rw [tally]
      decide
  refine
    { locking := inv.faults
      atMostOnce := once.1
      notAfter := once.2
      unmapped := ?_
      called := ?_
      refs := inv.counted.kref
      uses := inv.counted.usecnt
      freed := inv.counted.freed_once }
  · intro isOver
    rcases inv.phase.tally_cases with
      tally | ⟨-, notOver⟩ | tally | ⟨-, notOver⟩ | tally | tally
    case inr.inl => rw [isOver] at notOver; cases notOver
    case inr.inr.inr.inl => rw [isOver] at notOver; cases notOver
    all_goals
      rw [tally]
      decide
  · rcases inv.phase.called with none | single
    · rw [none]
      exact ⟨Nat.zero_le 1, nofun⟩
    · rw [single]
      exact ⟨Nat.le_refl 1, fun call member => mem_singleton.mp member⟩

def run (client : PeerClient) (test : PeerUmem → Move → Bool) (umem : PeerUmem) : List Move → Option PeerUmem
  | [] => some umem
  | move :: rest =>
    if test umem move then (step client umem move).bind fun next => run client test next rest
    else none

theorem Reachable.run {kind test}
    (reached : Reachable client kind umem) (tests : ∀ umem move, test umem move = true → kind umem move)
    (moves) (moved : run client test umem moves = some next) : Reachable client kind next := by
  induction moves generalizing umem with
  | nil =>
    cases moved
    exact reached
  | cons move rest ih =>
    unfold PeerMem.run at moved
    split at moved
    case isTrue isKind =>
      obtain ⟨middle, first, rested⟩ := Option.bind_eq_some_iff.mp moved
      exact ih (reached.step move (tests umem move isKind) first) rested
    case isFalse => cases moved

def unmappingClient : PeerClient := ⟨true, 1, flagsEnd, 1⟩

def invalidatingClient : PeerClient := ⟨true, 0, 0, 0⟩

/-- The client invalidates after the stop gave back the lock and unmapped nothing, and the owner then
releases the umem. -/
def lateRun : List Move :=
  [.get true, .xaAlloc true, .getPages true, .dmaMap true, .activate, .stop, .owner, .owner, .owner,
    .invalidate, .inval 0, .inval 0, .inval 0, .inval 0, .inval 0, .inval 0, .owner, .owner, .owner,
    .release, .owner, .owner, .owner, .owner, .owner]

theorem peer_unmapped_once_late : ∃ umem,
    run unmappingClient (fun umem move => decide (Heeded umem move)) init lateRun = some umem ∧
      (umem.owner, umem.tally, umem.calls, umem.freed) = (.released, ⟨1, 1, 1, 1, 0⟩, [], 1) ∧
      UnmappedOnce umem := by
  have ends : (run unmappingClient (fun umem move => decide (Heeded umem move)) init
      lateRun).map (fun umem => (umem.owner, umem.tally, umem.calls, umem.freed)) =
        some (.released, ⟨1, 1, 1, 1, 0⟩, [], 1) := by decide +kernel
  obtain ⟨umem, moved, final⟩ := Option.map_eq_some_iff.mp ends
  have start : Reachable unmappingClient Heeded init := .init
  have reached := start.run (fun umem move test => of_decide_eq_true test) lateRun moved
  exact ⟨umem, moved, final, peer_unmapped_once unmappingClient umem reached⟩

/-- No region was created, so the owner stops the notifier before an activation. -/
def earlyStopRun : List Move :=
  [.get true, .xaAlloc true, .getPages true, .dmaMap true, .stop, .owner]

/-- The owner takes the lock again that it has since `ib_peer_umem_get`. -/
theorem early_stop_relocks : ¬ ∀ (client : PeerClient) (umem : PeerUmem),
      Reachable client (fun _ _ => True) umem → UnmappedOnce umem := by
  intro always
  have ends : (run invalidatingClient (fun _ _ => true) init earlyStopRun).map
      (fun umem => umem.faults) = some [.relock .owner] := by decide +kernel
  obtain ⟨umem, moved, final⟩ := Option.map_eq_some_iff.mp ends
  have start : Reachable invalidatingClient (fun _ _ => True) init := .init
  have reached := start.run (fun _ _ _ => trivial) earlyStopRun moved
  have locking := (always invalidatingClient umem reached).locking
  rw [final] at locking
  cases locking

end MlnxOfed.PeerMem
