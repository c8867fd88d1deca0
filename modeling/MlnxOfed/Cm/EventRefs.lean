/-
References and destruction of an id in every run: a reference for each posted MAD, for each thread that has
one to drop and for the user until `cm_destroy_id` drops it; and one call of `cm_destroy_id` once the id is
doomed.
-/

import MlnxOfed.Cm.EventQueue

namespace MlnxOfed.Cm

open Bool List Lib Thread CmId

variable {id after : CmId} {t : Thread} {rest : List Thread} {clock : Nat}

/-- The threads that have a reference to drop. One that found no work never drops it. -/
def Thread.holds : Thread → Bool
  | .acquired _ | .stale | .handling _ | .returned | .fetching | .parked | .leaving | .erring _
  | .refusing => true
  | _ => false

/-- The threads that are to call `cm_destroy_id` or have. -/
def Thread.destroyer : Thread → Bool
  | .refusing | .destroying | .erasing | .dropping | .waiting | .finished => true
  | _ => false

def Thread.ended : Thread → Bool
  | .waiting | .finished => true
  | _ => false

def Thread.isRefusing : Thread → Bool
  | .refusing => true
  | _ => false

def Thread.isFinished : Thread → Bool
  | .finished => true
  | _ => false

structure Counts (id : CmId) : Prop where
  refs : id.conn.refcount + id.threads.countP ended = 1 + id.conn.sends.length + id.threads.countP holds
  doom : id.threads.countP destroyer = id.doomed.toNat
  calls : id.destroys + id.threads.countP isRefusing = id.doomed.toNat
  freed : id.threads.countP isFinished = id.freed.toNat
  gone : id.freed = true → id.conn.refcount = 0

theorem ended_le_destroyer (threads : List Thread) : threads.countP ended ≤ threads.countP destroyer := by
  apply countP_mono_left
  intro thread _ ended
  cases thread <;> first | rfl | cases ended

theorem finished_le_ended (threads : List Thread) : threads.countP isFinished ≤ threads.countP ended := by
  apply countP_mono_left
  intro thread _ finished
  cases thread <;> first | rfl | cases finished

section

variable (counts : Counts id)

include counts

theorem Counts.alone (freed : id.freed = true) : id.conn.sends = [] ∧ id.threads.countP holds = 0 := by
  have refs := counts.refs
  have doom := counts.doom
  have finished := counts.freed
  have least := ended_le_destroyer id.threads
  have most := finished_le_ended id.threads
  have limit := toNat_le id.doomed
  rw [counts.gone freed] at refs
  rw [freed] at finished
  refine ⟨length_eq_zero_iff.1 ?_, ?_⟩ <;> omega

theorem Counts.live (split : id.threads.Perm (t :: rest)) (holder : t.holds = true) :
    id.freed = false ∧ id.conn.refcount ≠ 0 := by
  have here : 0 < id.threads.countP holds := by
    rw [split.countP_eq, countP_cons_of_pos holder]
    omega
  have refs := counts.refs
  have doom := counts.doom
  have least := ended_le_destroyer id.threads
  have limit := toNat_le id.doomed
  constructor
  · cases freed : id.freed with
    | false => rfl
    | true =>
      have none := (counts.alone freed).2
      omega
  · omega

omit counts in
theorem Counts.move (old fresh) (counts : Counts id) (split : id.threads.Perm (old ++ rest))
    (threads : after.threads = fresh ++ rest)
    (refs : after.conn.refcount + fresh.countP ended + id.conn.sends.length + old.countP holds =
      id.conn.refcount + old.countP ended + after.conn.sends.length + fresh.countP holds)
    (doom : fresh.countP destroyer + id.doomed.toNat = old.countP destroyer + after.doomed.toNat)
    (calls : after.destroys + fresh.countP isRefusing + id.doomed.toNat =
      id.destroys + old.countP isRefusing + after.doomed.toNat)
    (freed : fresh.countP isFinished + id.freed.toNat = old.countP isFinished + after.freed.toNat)
    (gone : after.freed = true → after.conn.refcount = 0) : Counts after := by
  have each (p : Thread → Bool) : id.threads.countP p = old.countP p + rest.countP p ∧
        after.threads.countP p = fresh.countP p + rest.countP p := by
    constructor
    · rw [split.countP_eq, countP_append]
    · rw [threads, countP_append]
  have ended := each ended
  have holds := each holds
  have destroyers := each destroyer
  have refusing := each isRefusing
  have finished := each isFinished
  have before := counts.refs
  have beforeDoom := counts.doom
  have beforeCalls := counts.calls
  have beforeFreed := counts.freed
  exact ⟨by omega, by omega, by omega, by omega, gone⟩

theorem Counts.keep {conn} (keeps : id.conn.Keeps clock conn) (live : id.freed = false)
    (same : after.conn = conn) (threads : after.threads = id.threads) (doomed : after.doomed = id.doomed)
    (destroys : after.destroys = id.destroys) (freed : after.freed = id.freed) : Counts after := by
  obtain ⟨refs, more, _⟩ := keeps
  refine counts.move [] [] (.refl _) threads ?_ ?_ ?_ ?_ ?_
  · rw [same]
    omega
  · rw [doomed]
  · rw [doomed, destroys]
  · rw [freed]
  · intro gone
    rw [freed, live] at gone
    cases gone

theorem Counts.acquire (live : id.conn.refcount ≠ 0) (holder : t.holds = true)
    (passive : t.destroyer = false) : Counts (id.acquire t) := by
  have alive : id.freed = false := by
    cases freed : id.freed with
    | false => rfl
    | true => exact absurd (counts.gone freed) live
  have plain : t.ended = false ∧ t.isRefusing = false ∧ t.isFinished = false := by
    cases t <;> first | exact ⟨rfl, rfl, rfl⟩ | cases passive
  refine counts.move [] [t] (.refl _) rfl ?_ ?_ ?_ ?_ ?_
  · simp [CmId.acquire, holder, plain]
    omega
  · simp [CmId.acquire, passive]
  · simp [CmId.acquire, plain]
  · simp [CmId.acquire, plain]
  · intro gone
    change id.freed = true at gone
    rw [alive] at gone
    cases gone

variable (split : id.threads.Perm (t :: rest))

include split

theorem Counts.drop (holder : t.holds = true)
    (plain : t.destroyer = false) : Counts (id.withThreads rest).deref := by
  obtain ⟨alive, pos⟩ := counts.live split holder
  have passive : t.ended = false ∧ t.isRefusing = false ∧ t.isFinished = false := by
    cases t <;> first | exact ⟨rfl, rfl, rfl⟩ | cases plain
  refine counts.move [t] [] split rfl ?_ ?_ ?_ ?_ ?_
  · simp [deref, withThreads, holder, passive]
    omega
  · simp [deref, withThreads, plain]
  · simp [deref, withThreads, passive]
  · simp [deref, withThreads, passive]
  · intro gone
    change id.freed = true at gone
    rw [alive] at gone
    cases gone

theorem Counts.pass {u} (threads : after.threads = u :: rest) (holder : t.holds = true)
    (plain : t.destroyer = false) (laterHolder : u.holds = true) (laterPlain : u.destroyer = false)
    (keeps : id.conn.Keeps clock after.conn) (doomed : after.doomed = id.doomed)
    (destroys : after.destroys = id.destroys) (freed : after.freed = id.freed) : Counts after := by
  obtain ⟨alive, pos⟩ := counts.live split holder
  obtain ⟨refs, more, _⟩ := keeps
  have none (v : Thread) (passive : v.destroyer = false) :
      v.ended = false ∧ v.isRefusing = false ∧ v.isFinished = false := by
    cases v <;> first | exact ⟨rfl, rfl, rfl⟩ | cases passive
  have before := none t plain
  have later := none u laterPlain
  refine counts.move [t] [u] split threads ?_ ?_ ?_ ?_ ?_
  · simp [holder, before, laterHolder, later]
    omega
  · simp [plain, laterPlain, doomed]
  · simp [before, later, doomed, destroys]
  · simp [before, later, freed]
  · intro gone
    rw [freed, alive] at gone
    cases gone

theorem Counts.queue {work}
    (holder : t.holds = true) (plain : t.destroyer = false) {conn} (keeps : id.conn.Keeps clock conn) :
    Counts (cmQueueWorkUnlock ({ id.withThreads rest with conn := conn }.take work) work) := by
  unfold cmQueueWorkUnlock
  dsimp only
  split
  · exact counts.pass split rfl holder plain rfl rfl keeps rfl rfl rfl
  · have kept : Counts { id with conn := conn } :=
      counts.keep keeps (counts.live split holder).1 rfl rfl rfl rfl rfl
    have dropped := kept.drop split holder plain
    exact { dropped with }

omit split in
theorem Counts.enter {message} (split : id.threads.Perm (.acquired message :: rest)) :
    Counts ((id.withThreads rest).enter message) := by
  unfold CmId.enter
  split
  · exact counts.pass split rfl rfl rfl rfl rfl (.refl _ : id.conn.Keeps 0 id.conn) rfl rfl rfl
  · rename_i conn taken
    have keeps : id.conn.Keeps 0 conn := Conn.receive_keeps taken
    split
    · exact counts.pass split rfl rfl rfl rfl rfl keeps rfl rfl rfl
    · exact counts.queue split rfl rfl keeps

variable {sends : List Send}

omit split in
theorem Counts.sent {send} (split : id.conn.sends.Perm (send :: sends)) :
    Counts { id with conn := { id.conn with sends := sends } }.deref ∧
      ∀ conn work, ({ id.conn with sends := sends } : Conn).Keeps 0 conn →
        Counts (({ id with conn := conn }.take work).deliver work (.erring work)) := by
  have length : id.conn.sends.length = sends.length + 1 := split.length_eq
  have alive : id.freed = false := by
    cases freed : id.freed with
    | false => rfl
    | true =>
      have none := (counts.alone freed).1
      rw [none] at length
      cases length
  have refs := counts.refs
  have doom := counts.doom
  have least := ended_le_destroyer id.threads
  have limit := toNat_le id.doomed
  constructor
  · refine counts.move [] [] (.refl _) rfl ?_ rfl rfl rfl ?_
    · simp [CmId.deref]
      omega
    · intro gone
      rw [show id.freed = true from gone] at alive
      cases alive
  intro conn work keeps
  obtain ⟨kept, more, _⟩ := keeps
  dsimp only at kept more
  refine counts.move [] [.erring work] (.refl _) rfl ?_ ?_ ?_ ?_ ?_
  · simp [CmId.deliver, CmId.take, Thread.ended, Thread.holds]
    omega
  · simp [CmId.deliver, CmId.take, Thread.destroyer]
  · simp [CmId.deliver, CmId.take, Thread.isRefusing]
  · simp [CmId.deliver, CmId.take, Thread.isFinished]
  · intro gone
    rw [show id.freed = true from gone] at alive
    cases alive

omit split in
theorem Counts.sendFailed {send device} (split : id.conn.sends.Perm (send :: sends)) :
    Counts ({ id with conn := { id.conn with sends := sends } }.sendFailed device send) := by
  obtain ⟨dropped, reported⟩ := counts.sent split
  unfold CmId.sendFailed
  split
  · exact dropped
  · split
    · exact dropped
    · rename_i conn event taken
      exact reported conn _ (cmProcessSendError_keeps taken)

theorem Counts.answer {success}
    (moved : (id.withThreads rest).answer success t = some after) : Counts after := by
  have unfreed (gone : id.freed = true) : id.conn.refcount = 0 := counts.gone gone
  cases t with
  | handling work | erring work =>
    dsimp only [answer] at moved
    split_ifs at moved with fine doomed
    · cases moved
      exact counts.pass split rfl rfl rfl rfl rfl (.refl _ : id.conn.Keeps 0 id.conn) rfl rfl rfl
    cases moved
    have clear : id.doomed = false := not_eq_true _ ▸ doomed
    refine counts.move [_] [.refusing] split rfl ?_ ?_ ?_ rfl unfreed
    · rfl
    · simp [refuse, release, withThreads, destroyer, clear]
    · simp [refuse, release, withThreads, isRefusing, clear]
  | requested work =>
    dsimp only [answer] at moved
    split_ifs at moved with fine doomed
    · cases moved
      exact counts.move [.requested work] [] split rfl rfl rfl rfl rfl unfreed
    cases moved
    have clear : id.doomed = false := not_eq_true _ ▸ doomed
    refine counts.move [.requested work] [.destroying] split rfl ?_ ?_ ?_ rfl unfreed
    · rfl
    · simp [refuse, release, withThreads, destroyer, clear]
    · simp [refuse, release, withThreads, isRefusing, clear]
  | _ => cases moved

theorem Counts.destroyed_later
    (destroyer : t.destroyer = true) (unfinished : t.isFinished = false) : id.freed = false := by
  have doom := counts.doom
  have finished := counts.freed
  have limit := toNat_le id.doomed
  have least := ended_le_destroyer rest
  have most := finished_le_ended rest
  rw [split.countP_eq, countP_cons_of_pos destroyer] at doom
  rw [split.countP_eq, countP_cons_of_neg (by rw [unfinished]; decide)] at finished
  cases freed : id.freed with
  | false => rfl
  | true =>
    rw [freed] at finished
    change _ = 1 at finished
    omega

omit split

theorem Counts.undoomed (clear : id.doomed = false) : id.freed = false := by
  have doom := counts.doom
  have finished := counts.freed
  have least := ended_le_destroyer id.threads
  have most := finished_le_ended id.threads
  rw [clear] at doom
  change _ = 0 at doom
  cases freed : id.freed with
  | false => rfl
  | true =>
    rw [freed] at finished
    change _ = 1 at finished
    omega

theorem Counts.step {move} (moved : step id move = some after) : Counts after := by
  have unfreed (gone : id.freed = true) : id.conn.refcount = 0 := counts.gone gone
  have alive (live : id.freed = false) (gone : id.freed = true) : after.conn.refcount = 0 := by
    rw [live] at gone
    cases gone
  cases step_changed moved with
  | call call clear =>
    exact counts.keep (Conn.call_keeps _ _ call) (counts.undoomed clear) rfl rfl rfl rfl rfl
  | acquire received live => exact counts.acquire live rfl rfl
  | acquireStale live => exact counts.acquire live rfl rfl
  | @establishFound index work rest found live =>
    have taken : Counts { id with conn := { id.conn with establishes := rest } } :=
      { counts with }
    exact taken.acquire live rfl rfl
  | establishLost found => exact { counts with }
  | timewaitFound live =>
    have taken : Counts { id with conn := { id.conn with timewaits := id.conn.timewaits - 1 } } :=
      { counts with }
    exact taken.acquire live rfl rfl
  | timewaitLost => exact { counts with }
  | entered found => exact counts.enter (pull_perm found)
  | @disconnected index device posted rest found =>
    have keeps : id.conn.Keeps 0 (cmSendDreqLocked id.conn device posted) := cmSendDreqLocked_keeps _ _ _
    exact counts.pass (pull_perm found) rfl rfl rfl rfl rfl keeps rfl rfl rfl
  | answered found acted => exact counts.answer (pull_perm found) acted
  | counted found =>
    refine counts.pass (pull_perm found) rfl rfl rfl ?_ ?_ (.refl _ : id.conn.Keeps 0 id.conn) rfl rfl rfl
    · split_ifs <;> rfl
    · split_ifs <;> rfl
  | parked found empty | fetched found queued =>
    exact counts.pass (pull_perm found) rfl rfl rfl rfl rfl (.refl _ : id.conn.Keeps 0 id.conn) rfl rfl rfl
  | left found => exact counts.drop (pull_perm found) rfl rfl
  | refused found =>
    have split := pull_perm found
    obtain ⟨live, pos⟩ := counts.live split rfl
    refine counts.move [.refusing] [.destroying] split rfl ?_ rfl ?_ rfl (alive live)
    · simp [CmId.deref, CmId.withThreads, Thread.ended, Thread.holds]
      omega
    · simp [CmId.deref, CmId.withThreads, Thread.isRefusing]
  | sendDone found => exact (counts.sent (pull_perm found)).1
  | sendError found => exact counts.sendFailed (pull_perm found)
  | destroy clear =>
    refine counts.move [] [.destroying] (.refl _) rfl rfl ?_ ?_ rfl unfreed
    · simp [CmId.refuse, Thread.destroyer, clear]
    · simp [CmId.refuse, Thread.isRefusing, clear]
  | @unlocked index device posted xrcTgt rest conn found ended =>
    have split := pull_perm found
    obtain ⟨refs, more, _⟩ := (cmDestroyLocked_keeps ended : id.conn.Keeps 0 conn)
    refine counts.move [.destroying] [.erasing] split rfl ?_ rfl rfl rfl
      (alive (counts.destroyed_later split rfl rfl))
    simp [Thread.ended, Thread.holds]
    omega
  | erased found => exact counts.move [.erasing] [.dropping] (pull_perm found) rfl rfl rfl rfl rfl unfreed
  | @dropped index rest found =>
    have split := pull_perm found
    have refs := counts.refs
    have doom := counts.doom
    have limit := toNat_le id.doomed
    have least := ended_le_destroyer rest
    rw [split.countP_eq, countP_cons_of_pos rfl] at doom
    rw [split.countP_eq, countP_cons_of_neg (by decide)] at refs
    refine counts.move [.dropping] [.waiting] split rfl ?_ rfl rfl rfl
      (alive (counts.destroyed_later split rfl rfl))
    simp [CmId.deref, CmId.withThreads, Thread.ended, Thread.holds]
    omega
  | finished found unused =>
    have split := pull_perm found
    have live := counts.destroyed_later split rfl rfl
    refine counts.move [.waiting] [.finished] split rfl rfl rfl rfl ?_ fun _ => unused
    simp [Thread.isFinished, live]

end

theorem Start.counts (start : Start id) : Counts id := by
  cases start with
  | created => exact ⟨rfl, rfl, rfl, rfl, nofun⟩
  | req remoteId => exact ⟨rfl, rfl, rfl, rfl, nofun⟩
  | sidr remoteId => exact ⟨rfl, rfl, rfl, rfl, nofun⟩

theorem Reachable.counts {ok} (reach : Reachable ok id) : Counts id := by
  induction reach with
  | start start => exact start.counts
  | step _ _ moved ih => exact ih.step moved

end MlnxOfed.Cm
