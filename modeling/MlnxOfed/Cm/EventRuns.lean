/-
Runs in which an event outside the work list finds the handler free and none goes through the list after a
SIDR reply: there the handler runs one call at a time, in the order of the state changes, once for each
event.
-/

import MlnxOfed.Cm.EventRefs

namespace MlnxOfed.Cm

open List Lib CmId Thread

variable {id after : CmId} {t : Thread} {rest : List Thread} {sole : Option Thread}

def Thread.active : Thread → Bool
  | .handling _ | .returned | .fetching | .erring _ | .requested _ => true
  | _ => false

def Active (t : Thread) : Prop := t.active = true

def CmId.HandlerFree (id : CmId) : Prop := ∀ t ∈ id.threads, ¬Active t

/-- The works freed, that of the handler and the queued ones are all that were taken, in order; those freed
were given to the handler or freed by the destruction. -/
def CmId.Filed (id : CmId) (busy : List Work) : Prop :=
  id.released ++ busy ++ id.workList = id.accepted ∧ id.delivered ++ id.discarded = id.released ++ busy

def CmId.Quiet (id : CmId) : Prop := id.workCount < 0 ∧ id.workList = []

def CmId.Paired (id : CmId) : Prop := id.workCount = id.workList.length

def Engaged (id : CmId) : Option Thread → Prop
  | none =>
    id.Filed [] ∧ (id.Quiet ∨ id.freed = true ∧ id.workList = [] ∨ id.doomed = true ∧ id.Paired)
  | some (.handling work) => id.Filed [work] ∧ (id.Quiet ∨ id.Paired)
  | some .returned => id.Filed [] ∧ (id.Quiet ∨ id.Paired)
  | some .fetching => id.Filed [] ∧ 0 ≤ id.workCount ∧ id.workCount + 1 = id.workList.length
  | some (.erring work) => id.Filed [work] ∧ id.Quiet
  | some (.requested work) => id.Filed [work] ∧ id.Quiet
  | _ => False

structure Served (id : CmId) : Prop where
  engaged : ∃ sole, Solo Active id.threads sole ∧ Engaged id sole
  kept : id.freed = false → id.discarded = []
  emptied : id.freed = true → id.workList = []

/-- What the service of the events is about. -/
def CmId.service (id : CmId) : Int × List Work × List Work × List Work × List Work × List Work :=
  (id.workCount, id.workList, id.accepted, id.delivered, id.released, id.discarded)

theorem Engaged.of_same (engaged : Engaged id sole) (same : after.service = id.service)
    (doomed : id.doomed = true → after.doomed = true) (freed : id.freed = true → after.freed = true) :
    Engaged after sole := by
  cases after
  cases same
  cases sole with
  | none =>
    refine ⟨engaged.1, ?_⟩
    rcases engaged.2 with none | ⟨gone, empty⟩ | ⟨doom, pair⟩
    · exact .inl none
    · exact .inr (.inl ⟨freed gone, empty⟩)
    · exact .inr (.inr ⟨doomed doom, pair⟩)
  | some t => cases t <;> exact engaged

theorem Served.of_same (served : Served id) (threads : ∀ {sole}, Solo Active id.threads sole →
      Solo Active after.threads sole) (same : after.service = id.service)
    (doomed : id.doomed = true → after.doomed = true) (freed : after.freed = id.freed) :
    Served after := by
  obtain ⟨sole, solo, engaged⟩ := served.engaged
  refine ⟨⟨sole, threads solo, engaged.of_same same doomed freed.trans⟩, ?_, ?_⟩
  · intro live
    cases after
    cases same
    exact served.kept (freed.symm.trans live)
  · intro gone
    cases after
    cases same
    exact served.emptied (freed.symm.trans gone)

theorem Solo.swap {u pool} (solo : Solo Active pool sole)
    (split : pool.Perm (t :: rest)) (passive : ¬Active t) (later : ¬Active u) :
    Solo Active (u :: rest) sole :=
  (solo.tail_of_not split passive).cons_of_not later

theorem Served.idle (served : Served id) (free : id.HandlerFree) (negative : id.workCount < 0)
    (live : id.freed = false) : id.Filed [] ∧ id.workList = [] ∧ id.discarded = [] := by
  obtain ⟨sole, solo, engaged⟩ := served.engaged
  rw [solo.sole_eq_none free] at engaged
  refine ⟨engaged.1, ?_, served.kept live⟩
  rcases engaged.2 with quiet | ⟨gone, _⟩ | ⟨_, paired⟩
  · exact quiet.2
  · rw [live] at gone
    cases gone
  · unfold Paired at paired
    omega

variable {work : Work}

theorem CmId.Filed.deliver (filed : id.Filed []) (empty : id.workList = [])
    (kept : id.discarded = []) (accepted : after.accepted = id.accepted ++ [work])
    (delivered : after.delivered = id.delivered ++ [work]) (released : after.released = id.released)
    (list : after.workList = []) (discarded : after.discarded = []) : after.Filed [work] := by
  obtain ⟨all, given⟩ := filed
  rw [empty, append_nil, append_nil] at all
  rw [kept, append_nil, append_nil] at given
  constructor
  · rw [released, list, accepted, all, append_nil]
  · rw [released, delivered, discarded, given, append_nil]

theorem CmId.Filed.queue {busy} (filed : id.Filed busy)
    (accepted : after.accepted = id.accepted ++ [work]) (delivered : after.delivered = id.delivered)
    (released : after.released = id.released) (list : after.workList = id.workList ++ [work])
    (discarded : after.discarded = id.discarded) : after.Filed busy := by
  constructor
  · rw [released, list, accepted, ← append_assoc, filed.1]
  · rw [released, delivered, discarded]
    exact filed.2

theorem Engaged.queue (engaged : Engaged id sole) (counted : 0 ≤ id.workCount)
    (live : id.freed = false) (accepted : after.accepted = id.accepted ++ [work])
    (delivered : after.delivered = id.delivered) (released : after.released = id.released)
    (list : after.workList = id.workList ++ [work]) (discarded : after.discarded = id.discarded)
    (count : after.workCount = id.workCount + 1) (doomed : after.doomed = id.doomed) :
    Engaged after sole := by
  have filed {busy : List Work} (old : id.Filed busy) : after.Filed busy :=
    old.queue accepted delivered released list discarded
  have loud : ¬id.Quiet := by
    intro quiet
    have negative := quiet.1
    omega
  have length : after.workList.length = id.workList.length + 1 := by
    rw [list]
    exact length_append
  have paired (old : id.Paired) : after.Paired := by
    unfold Paired at old ⊢
    omega
  have busy (either : id.Quiet ∨ id.Paired) : after.Quiet ∨ after.Paired :=
    .inr (paired (either.resolve_left loud))
  cases sole with
  | none =>
    refine ⟨filed engaged.1, ?_⟩
    rcases engaged.2 with quiet | ⟨gone, _⟩ | ⟨doom, pair⟩
    · exact absurd quiet loud
    · rw [live] at gone
      cases gone
    · exact .inr (.inr ⟨doomed.trans doom, paired pair⟩)
  | some t =>
    cases t with
    | handling work | returned => exact ⟨filed engaged.1, busy engaged.2⟩
    | fetching =>
      obtain ⟨old, pos, remaining⟩ := engaged
      exact ⟨filed old, by omega, by omega⟩
    | erring work | requested work => exact absurd engaged.2 loud
    | _ => exact engaged.elim

/-- The handler has the event of `cm_queue_work_unlock` or `cm_process_work`. -/
def CmId.Queueable (id : CmId) : Prop := 0 ≤ id.workCount ∨ id.workCount = -1 ∧ id.HandlerFree

section

variable (served : Served id)

include served

theorem Served.queueWork {conn} (split : id.threads.Perm (t :: rest)) (passive : ¬Active t)
    (live : id.freed = false) (queueable : id.Queueable) :
    Served (cmQueueWorkUnlock ({ id.withThreads rest with conn := conn }.take work) work) := by
  unfold cmQueueWorkUnlock
  dsimp only
  split
  · rename_i first
    change id.workCount + 1 = 0 at first
    have negative : id.workCount < 0 := by omega
    have free : id.HandlerFree := by
      rcases queueable with counted | ⟨_, free⟩
      · omega
      · exact free
    obtain ⟨filed, empty, kept⟩ := served.idle free negative live
    have others : Solo Active rest none := (Solo.none free).tail_of_not split passive
    refine ⟨⟨some (.handling work), others.cons rfl, ?_, ?_⟩, fun _ => kept, fun _ => empty⟩
    · exact filed.deliver empty kept rfl rfl rfl empty kept
    · refine .inr ?_
      change id.workCount + 1 = id.workList.length
      rw [first, empty]
      rfl
  · rename_i later
    change ¬id.workCount + 1 = 0 at later
    have counted : 0 ≤ id.workCount := by
      rcases queueable with counted | ⟨start, _⟩
      · exact counted
      · omega
    obtain ⟨sole, solo, engaged⟩ := served.engaged
    refine ⟨⟨sole, solo.tail_of_not split passive,
      engaged.queue counted live rfl rfl rfl rfl rfl rfl rfl⟩, served.kept, fun gone => absurd gone ?_⟩
    change ¬id.freed = true
    rw [live]
    decide

theorem Served.direct {conn} (u) (others : Solo Active rest none) (free : id.HandlerFree)
    (negative : id.workCount < 0) (live : id.freed = false) (active : u = .handling work ∨ u = .erring work) :
    Served (({ id.withThreads rest with conn := conn }.take work).deliver work u) := by
  obtain ⟨filed, empty, kept⟩ := served.idle free negative live
  have later : (({ id.withThreads rest with conn := conn }.take work).deliver work u).Filed [work] :=
    filed.deliver empty kept rfl rfl rfl empty kept
  have quiet : (({ id.withThreads rest with conn := conn }.take work).deliver work u).Quiet :=
    ⟨negative, empty⟩
  rcases active with rfl | rfl
  · exact ⟨⟨some (.handling work), others.cons rfl, later, .inl quiet⟩, fun _ => kept, fun _ => empty⟩
  · exact ⟨⟨some (.erring work), others.cons rfl, later, quiet⟩, fun _ => kept, fun _ => empty⟩

/-! ### The steps -/

omit served in
/-- An event past the work list comes while no thread has the handler and the counter shows none; any other
comes while a thread has it and counts, or with counter and handler as at the start; and `USER_ESTABLISHED`
work finds no event taken after its state change. -/
def Move.Calm (id : CmId) : Move → Prop
  | .enter index =>
    ∀ message rest, pull index id.threads = some (.acquired message, rest) → (id.conn.receive message).isSome →
      (message = .sidrRep → id.HandlerFree ∧ id.workCount < 0) ∧
      (message ≠ .sidrRep → id.Queueable) ∧
      ∀ stamp, message = .userEstablished stamp → ∀ work ∈ id.accepted, work.stamp < stamp
  | .sendError index device =>
    ∀ send rest, pull index id.conn.sends = some (send, rest) → send.context ≠ none →
      (cmProcessSendError { id.conn with sends := rest } device send).isSome →
      id.HandlerFree ∧ id.workCount < 0
  | _ => True

variable {index : Nat} {message : Message}

theorem Served.enter (found : pull index id.threads = some (.acquired message, rest)) (live : id.freed = false)
    (calm : (Move.enter index).Calm id) : Served ((id.withThreads rest).enter message) := by
  have split := pull_perm found
  have passive : ¬Active (.acquired message) := by nofun
  unfold CmId.enter
  split
  · exact served.of_same (fun solo => Solo.swap solo split passive (by intro active; cases active)) rfl (fun doom => doom) rfl
  rename_i conn taken
  have accepts : (id.conn.receive message).isSome := by
    change id.conn.receive message = some conn at taken
    rw [taken]
    rfl
  obtain ⟨direct, queued, _⟩ := calm message rest found accepts
  split
  · rename_i sidr
    obtain ⟨free, negative⟩ := direct sidr
    exact served.direct _ ((Solo.none free).tail_of_not split passive) free negative live (.inl rfl)
  · rename_i other
    exact served.queueWork split passive live (queued other)

theorem Served.sendFailed {send sends}
    {device} (found : pull index id.conn.sends = some (send, sends)) (live : id.freed = false)
    (calm : (Move.sendError index device).Calm id) :
    Served ({ id with conn := { id.conn with sends := sends } }.sendFailed device send) := by
  unfold CmId.sendFailed
  split
  · exact served.of_same (fun solo => solo) rfl (fun doom => doom) rfl
  rename_i reported
  split
  · exact served.of_same (fun solo => solo) rfl (fun doom => doom) rfl
  rename_i conn event taken
  have accepts : (cmProcessSendError { id.conn with sends := sends } device send).isSome := by
    rw [taken]
    rfl
  obtain ⟨free, negative⟩ := calm send sends found reported accepts
  exact served.direct _ (.none free) free negative live (.inr rfl)

omit served in
theorem CmId.Filed.release (filed : id.Filed [work]) (accepted : after.accepted = id.accepted)
    (delivered : after.delivered = id.delivered) (released : after.released = id.released ++ [work])
    (list : after.workList = id.workList) (discarded : after.discarded = id.discarded) : after.Filed [] := by
  constructor
  · rw [released, list, accepted, append_nil]
    exact filed.1
  · rw [released, delivered, discarded, append_nil]
    exact filed.2

theorem Served.answer {success} (split : id.threads.Perm (t :: rest))
    (moved : (id.withThreads rest).answer success t = some after) : Served after := by
  obtain ⟨sole, solo, engaged⟩ := served.engaged
  have kept := served.kept
  have emptied := served.emptied
  cases t with
  | handling work =>
    obtain ⟨rfl, others⟩ := solo.tail split rfl
    obtain ⟨filed, count⟩ := engaged
    dsimp only [answer] at moved
    split_ifs at moved
    · cases moved
      exact ⟨⟨some .returned, others.cons rfl, filed.release rfl rfl rfl rfl rfl, count⟩, kept, emptied⟩
    cases moved
    refine ⟨⟨none, others.cons_of_not (by intro active; cases active),
      filed.release rfl rfl rfl rfl rfl, ?_⟩, kept, emptied⟩
    rcases count with quiet | paired
    · exact .inl quiet
    · exact .inr (.inr ⟨rfl, paired⟩)
  | erring work =>
    obtain ⟨rfl, others⟩ := solo.tail split rfl
    obtain ⟨filed, quiet⟩ := engaged
    dsimp only [answer] at moved
    split_ifs at moved
    all_goals
      cases moved
      exact ⟨⟨none, others.cons_of_not (by intro active; cases active),
        filed.release rfl rfl rfl rfl rfl, .inl quiet⟩, kept, emptied⟩
  | requested work =>
    obtain ⟨rfl, others⟩ := solo.tail split rfl
    obtain ⟨filed, quiet⟩ := engaged
    dsimp only [answer] at moved
    split_ifs at moved
    · cases moved
      exact ⟨⟨none, others, filed.release rfl rfl rfl rfl rfl, .inl quiet⟩, kept, emptied⟩
    · cases moved
      exact ⟨⟨none, others.cons_of_not (by intro active; cases active),
        filed.release rfl rfl rfl rfl rfl, .inl quiet⟩, kept, emptied⟩
  | _ => cases moved

theorem Served.counted (split : id.threads.Perm (.returned :: rest)) : Served { id with
        workCount := id.workCount - 1
        threads := (if id.workCount - 1 < 0 then .leaving else .fetching) :: rest } := by
  obtain ⟨sole, solo, engaged⟩ := served.engaged
  obtain ⟨rfl, others⟩ := solo.tail split rfl
  obtain ⟨filed, count⟩ := engaged
  split_ifs with negative
  · refine ⟨⟨none, others.cons_of_not (by intro active; cases active), filed, .inl ⟨negative, ?_⟩⟩,
      served.kept, served.emptied⟩
    rcases count with quiet | paired
    · exact quiet.2
    · unfold Paired at paired
      change id.workList = []
      exact length_eq_zero_iff.1 (by omega)
  refine ⟨⟨some .fetching, others.cons rfl, filed, ?_, ?_⟩, served.kept, served.emptied⟩
  · change 0 ≤ id.workCount - 1
    omega
  change id.workCount - 1 + 1 = id.workList.length
  rcases count with quiet | paired
  · have below := quiet.1
    omega
  · unfold Paired at paired
    omega

variable {works : List Work}

theorem Served.fetched (split : id.threads.Perm (.fetching :: rest)) (queued : id.workList = work :: works)
    (live : id.freed = false) :
    Served
      { id with
        workList := works
        delivered := id.delivered ++ [work]
        threads := .handling work :: rest } := by
  obtain ⟨sole, solo, engaged⟩ := served.engaged
  obtain ⟨rfl, others⟩ := solo.tail split rfl
  obtain ⟨⟨all, given⟩, _, remaining⟩ := engaged
  have kept := served.kept live
  rw [queued] at all remaining
  rw [kept, append_nil, append_nil] at given
  refine ⟨⟨some (.handling work), others.cons rfl, ⟨?_, ?_⟩, .inr ?_⟩, served.kept, ?_⟩
  · rw [← all, append_nil, append_assoc]
    rfl
  · rw [given, kept, append_nil]
  · change id.workCount = works.length
    rw [length_cons] at remaining
    omega
  · intro gone
    rw [live] at gone
    cases gone

theorem Served.finished (counts : Counts id)
    (split : id.threads.Perm (.waiting :: rest)) (unused : id.conn.refcount = 0) :
    Served
      { id with
        freed := true
        released := id.released ++ id.workList
        discarded := id.discarded ++ id.workList
        workList := []
        threads := .finished :: rest } := by
  have live := counts.destroyed_later split rfl rfl
  have kept := served.kept live
  obtain ⟨sole, solo, engaged⟩ := served.engaged
  have later : Solo Active (.finished :: rest) sole :=
    Solo.swap solo split (by intro active; cases active) (by intro active; cases active)
  have unheld (u : Thread) (present : u ∈ id.threads) (holder : u.holds = true) : False := by
    obtain ⟨n, others, found⟩ := exists_pull present
    exact (counts.live (pull_perm found) holder).2 unused
  refine ⟨⟨sole, later, ?_⟩, (fun never => by cases never), fun _ => rfl⟩
  cases sole with
  | none =>
    obtain ⟨⟨all, given⟩, _⟩ := engaged
    rw [append_nil] at all
    rw [kept, append_nil, append_nil] at given
    refine ⟨⟨?_, ?_⟩, .inr (.inl ⟨rfl, rfl⟩)⟩
    · rw [append_nil, append_nil]
      exact all
    · rw [kept, given, append_nil]
      rfl
  | some u =>
    have present := solo.mem.1
    cases u with
    | requested work =>
      obtain ⟨⟨all, given⟩, negative, empty⟩ := engaged
      refine ⟨⟨?_, ?_⟩, negative, rfl⟩
      · dsimp only
        rw [← all, empty]
        simp
      · dsimp only
        rw [empty, append_nil, append_nil]
        exact given
    | handling work => exact (unheld _ present rfl).elim
    | returned => exact (unheld _ present rfl).elim
    | fetching => exact (unheld _ present rfl).elim
    | erring work => exact (unheld _ present rfl).elim
    | _ => exact engaged.elim

variable {move : Move}

theorem Served.step (counts : Counts id) (calm : move.Calm id)
    (moved : step id move = some after) : Served after := by
  have inert {u : Thread} (plain : u.active = false) : ¬Active u := by
    unfold Active
    rw [plain]
    decide
  have holder {u : Thread} {others : List Thread} {index : Nat}
      (found : pull index id.threads = some (u, others)) (holds : u.holds = true) : id.freed = false :=
    (counts.live (pull_perm found) holds).1
  cases step_changed moved with
  | call call clear | establishLost found | timewaitLost | sendDone found =>
    exact served.of_same (fun solo => solo) rfl (fun doom => doom) rfl
  | acquire received live | acquireStale live | establishFound found live | timewaitFound live =>
    exact served.of_same (fun solo => solo.cons_of_not (inert rfl)) rfl (fun doom => doom) rfl
  | entered found => exact served.enter found (holder found rfl) calm
  | disconnected found | refused found | unlocked found ended | erased found | dropped found =>
    exact served.of_same (fun solo => Solo.swap solo (pull_perm found) (inert rfl) (inert rfl)) rfl (fun doom => doom) rfl
  | answered found acted => exact served.answer (pull_perm found) acted
  | counted found => exact served.counted (pull_perm found)
  | parked found empty =>
    obtain ⟨sole, solo, engaged⟩ := served.engaged
    obtain ⟨rfl, _⟩ := solo.tail (pull_perm found) rfl
    obtain ⟨_, pos, remaining⟩ := engaged
    rw [empty] at remaining
    change id.workCount + 1 = 0 at remaining
    omega
  | fetched found queued => exact served.fetched (pull_perm found) queued (holder found rfl)
  | left found =>
    exact served.of_same (fun solo => solo.tail_of_not (pull_perm found) (inert rfl)) rfl (fun doom => doom) rfl
  | sendError found =>
    have live : id.freed = false := by
      cases freed : id.freed with
      | false => rfl
      | true =>
        have none := (counts.alone freed).1
        have length := (pull_perm found).length_eq
        rw [none] at length
        cases length
    exact served.sendFailed found live calm
  | destroy clear =>
    exact served.of_same (fun solo => solo.cons_of_not (inert rfl)) rfl (fun _ => rfl) rfl
  | finished found unused => exact served.finished counts (pull_perm found) unused

end

/-! ### The order of the state changes -/

/-- Events were taken in the order of their state changes, none numbered ahead of its time. -/
structure Stamped (id : CmId) : Prop where
  sorted : id.accepted.Pairwise fun first second => first.stamp < second.stamp
  past : ∀ work ∈ id.accepted, work.stamp < id.clock
  queued : ∀ work ∈ id.conn.establishes, work.stamp < id.clock
  looked : ∀ stamp, .acquired (.userEstablished stamp) ∈ id.threads → stamp < id.clock

section

variable (stamped : Stamped id)

include stamped

theorem Stamped.of_same (accepted : after.accepted = id.accepted)
    (establishes : ∀ work ∈ after.conn.establishes, work ∈ id.conn.establishes)
    (threads : ∀ stamp, .acquired (.userEstablished stamp) ∈ after.threads → stamp < id.clock)
    (clock : after.clock = id.clock) : Stamped after := by
  refine ⟨?_, ?_, ?_, ?_⟩
  · rw [accepted]
    exact stamped.sorted
  · rw [accepted, clock]
    exact stamped.past
  · intro work here
    rw [clock]
    exact stamped.queued work (establishes work here)
  · rw [clock]
    exact threads

theorem Stamped.take (work) (later : ∀ past ∈ id.accepted, past.stamp < work.stamp)
    (timely : work.stamp < id.clock + 1) (accepted : after.accepted = id.accepted ++ [work])
    (establishes : ∀ past ∈ after.conn.establishes, past ∈ id.conn.establishes)
    (threads : ∀ stamp, .acquired (.userEstablished stamp) ∈ after.threads → stamp < id.clock)
    (clock : after.clock = id.clock + 1) : Stamped after := by
  refine ⟨?_, ?_, ?_, ?_⟩
  · rw [accepted, pairwise_append]
    refine ⟨stamped.sorted, pairwise_singleton _ _, ?_⟩
    intro past here last own
    rw [mem_singleton.1 own]
    exact later past here
  · intro past here
    rw [accepted, mem_append] at here
    rw [clock]
    rcases here with old | own
    · exact Nat.lt_succ_of_lt (stamped.past past old)
    · rw [mem_singleton.1 own]
      exact timely
  · intro past here
    rw [clock]
    exact Nat.lt_succ_of_lt (stamped.queued past (establishes past here))
  · intro stamp here
    rw [clock]
    exact Nat.lt_succ_of_lt (threads stamp here)

/-- The threads left when one not at `USER_ESTABLISHED` work is taken. -/
theorem Stamped.others (split : id.threads.Perm (t :: rest)) (fresh)
    (plain : ∀ stamp, .acquired (.userEstablished stamp) ∉ fresh) (stamp)
    (here : .acquired (.userEstablished stamp) ∈ fresh ++ rest) : stamp < id.clock := by
  rcases mem_append.1 here with own | other
  · exact absurd own (plain stamp)
  · exact stamped.looked stamp (split.mem_iff.2 (.tail _ other))

theorem Stamped.enter
    (found : pull index id.threads = some (.acquired message, rest)) (calm : (Move.enter index).Calm id) :
    Stamped ((id.withThreads rest).enter message) := by
  have split := pull_perm found
  unfold CmId.enter
  split
  · refine stamped.of_same rfl (fun _ here => here) ?_ rfl
    exact stamped.others split [.leaving] (by simp)
  rename_i conn taken
  have accepts : (id.conn.receive message).isSome := by
    change id.conn.receive message = some conn at taken
    rw [taken]
    rfl
  obtain ⟨_, _, ordered⟩ := calm message rest found accepts
  have owed (work : EstablishWork) (here : work ∈ conn.establishes) : work ∈ id.conn.establishes :=
    Conn.Keeps.establishes (fun _ => Conn.receive_keeps taken) here
  have later : ∀ past ∈ id.accepted, past.stamp < message.stamp id.clock := by
    cases message with
    | userEstablished stamp => exact ordered stamp rfl
    | _ => exact stamped.past
  have timely : message.stamp id.clock < id.clock + 1 := by
    cases message with
    | userEstablished stamp =>
      have seen := stamped.looked stamp (split.mem_iff.2 (.head _))
      exact Nat.lt_succ_of_lt seen
    | _ => exact Nat.lt_succ_self _
  have plain (work : Work) (stamp : Nat)
      (here : .acquired (.userEstablished stamp) ∈ handling work :: rest) : stamp < id.clock :=
    stamped.others split [.handling work] (by simp) stamp here
  have alone (stamp : Nat) (here : .acquired (.userEstablished stamp) ∈ rest) : stamp < id.clock :=
    stamped.others split [] (by simp) stamp here
  split
  · exact stamped.take _ later timely rfl owed (plain _) rfl
  · unfold cmQueueWorkUnlock
    dsimp only
    split
    · exact stamped.take _ later timely rfl owed (plain _) rfl
    · exact stamped.take _ later timely rfl owed alone rfl

theorem Stamped.step (calm : move.Calm id) (moved : step id move = some after) : Stamped after := by
  have plain {index : Nat} {u v : Thread} {others : List Thread}
      (found : pull index id.threads = some (u, others))
      (other : ∀ stamp, v ≠ .acquired (.userEstablished stamp)) (stamp : Nat)
      (here : .acquired (.userEstablished stamp) ∈ v :: others) : stamp < id.clock :=
    stamped.others (pull_perm found) [v] (fun _ own => other _ (mem_singleton.1 own).symm) stamp here
  have added {v : Thread} (bound : ∀ stamp, v = .acquired (.userEstablished stamp) → stamp < id.clock)
      (stamp : Nat) (here : .acquired (.userEstablished stamp) ∈ v :: id.threads) : stamp < id.clock := by
    rcases mem_cons.1 here with own | before
    · exact bound stamp own.symm
    · exact stamped.looked stamp before
  have same (work : EstablishWork) (here : work ∈ id.conn.establishes) :
      work ∈ id.conn.establishes := here
  cases step_changed moved with
  | call call clear =>
    refine ⟨stamped.sorted, fun work here => Nat.lt_succ_of_lt (stamped.past work here), ?_,
      fun stamp here => Nat.lt_succ_of_lt (stamped.looked stamp here)⟩
    intro work here
    change work.stamp < id.clock + 1
    rcases (Conn.call_keeps id.conn id.clock call).2.2.2 work here with before | own
    · exact Nat.lt_succ_of_lt (stamped.queued work before)
    · omega
  | @acquire remoteId message received live =>
    refine stamped.of_same rfl same (added ?_) rfl
    intro stamp own
    cases own
    cases received
  | acquireStale live =>
    refine stamped.of_same rfl same (added ?_) rfl
    intro stamp own
    cases own
  | @establishFound index work rest found live =>
    have split := pull_perm found
    refine stamped.of_same rfl ?_ (added ?_) rfl
    · intro other here
      exact split.mem_iff.2 (.tail _ here)
    · intro stamp own
      cases own
      exact stamped.queued work (split.mem_iff.2 (.head _))
  | establishLost found =>
    refine stamped.of_same rfl ?_ stamped.looked rfl
    intro other here
    exact (pull_perm found).mem_iff.2 (.tail _ here)
  | timewaitFound live =>
    refine stamped.of_same rfl same (added ?_) rfl
    intro stamp own
    cases own
  | timewaitLost => exact stamped.of_same rfl same stamped.looked rfl
  | entered found => exact stamped.enter found calm
  | @disconnected index device posted rest found =>
    refine stamped.of_same rfl ?_ (plain found (by intro stamp own; cases own)) rfl
    intro work here
    exact Conn.Keeps.establishes (fun _ => cmSendDreqLocked_keeps _ _ _) here
  | @answered index success t rest after found acted =>
    cases t with
    | handling work | erring work =>
      dsimp only [answer] at acted
      split_ifs at acted
      all_goals
        cases acted
        exact stamped.of_same rfl same (plain found (by intro stamp own; cases own)) rfl
    | requested work =>
      dsimp only [answer] at acted
      split_ifs at acted
      · cases acted
        exact stamped.of_same rfl same (stamped.others (pull_perm found) [] fun _ none => by cases none) rfl
      · cases acted
        exact stamped.of_same rfl same (plain found (by intro stamp own; cases own)) rfl
    | _ => cases acted
  | counted found =>
    refine stamped.of_same rfl same (plain found ?_) rfl
    intro stamp own
    split_ifs at own
  | parked found empty | fetched found queued | refused found =>
    exact stamped.of_same rfl same (plain found (by intro stamp own; cases own)) rfl
  | left found =>
    exact stamped.of_same rfl same (stamped.others (pull_perm found) [] fun _ none => by cases none) rfl
  | sendDone found => exact stamped.of_same rfl same stamped.looked rfl
  | @sendError index device send rest found =>
    unfold sendFailed
    split
    · exact stamped.of_same rfl same stamped.looked rfl
    split
    · exact stamped.of_same rfl same stamped.looked rfl
    rename_i conn event taken
    refine stamped.take ⟨event, id.clock⟩ stamped.past (Nat.lt_succ_self _) rfl ?_ (added ?_) rfl
    · intro work here
      exact Conn.Keeps.establishes (fun _ => cmProcessSendError_keeps taken) here
    · intro stamp own
      cases own
  | destroy clear =>
    refine stamped.of_same rfl same (added ?_) rfl
    intro stamp own
    cases own
  | unlocked found ended =>
    refine stamped.of_same rfl ?_ (plain found (by intro stamp own; cases own)) rfl
    intro work here
    exact Conn.Keeps.establishes (fun _ => cmDestroyLocked_keeps ended) here
  | erased found | dropped found | finished found unused =>
    exact stamped.of_same rfl same (plain found (by intro stamp own; cases own)) rfl

end

theorem Start.stamped (start : Start id) : Stamped id := by
  have created : Stamped ibCreateCmId := by
    refine ⟨.nil, ?_, ?_, ?_⟩
    · intro work here
      cases here
    · intro work here
      cases here
    · intro stamp here
      cases here
  cases start with
  | created => exact created
  | req remoteId =>
    refine created.take ⟨.reqReceived, 0⟩ (fun _ none => by cases none) (Nat.lt_succ_self 0) rfl
      (fun _ none => by cases none) ?_ rfl
    intro stamp here
    cases mem_singleton.1 here
  | sidr remoteId =>
    refine created.take ⟨.sidrReqReceived, 0⟩ (fun _ none => by cases none) (Nat.lt_succ_self 0) rfl
      (fun _ none => by cases none) ?_ rfl
    intro stamp here
    cases mem_singleton.1 here

theorem Start.served (start : Start id) : Served id := by
  have nobody : Solo Active ([] : List Thread) none := .none fun _ here => by cases here
  cases start with
  | created => exact ⟨⟨none, nobody, ⟨rfl, rfl⟩, .inl ⟨by decide, rfl⟩⟩, fun _ => rfl, fun _ => rfl⟩
  | req remoteId =>
    exact ⟨⟨_, nobody.cons rfl, ⟨rfl, rfl⟩, .inr rfl⟩, fun _ => rfl, fun _ => rfl⟩
  | sidr remoteId =>
    have negative : (-1 : Int) < 0 := by decide
    exact ⟨⟨_, nobody.cons rfl, ⟨rfl, rfl⟩, negative, rfl⟩, fun _ => rfl, fun _ => rfl⟩

def Calm (id : CmId) (move : Move) : Prop := move.Calm id

theorem Reachable.served (reach : Reachable Calm id) : Served id ∧ Stamped id := by
  induction reach with
  | start start => exact ⟨start.served, start.stamped⟩
  | step old calm moved ih => exact ⟨ih.1.step old.counts calm moved, ih.2.step calm moved⟩

def runSteps (id : CmId) : List Move → Option CmId
  | [] => some id
  | move :: moves => (step id move).bind fun id => runSteps id moves

/-- The steps of `cm_process_work` when the handler returns 0. -/
def Move.drains : Move → Bool
  | .answer _ success => success
  | .count _ => true
  | .fetch _ => true
  | _ => false

/-- Some steps of the thread that calls the handler get `ends` done. -/
def Drains (id : CmId) (ends : CmId → Prop) : Prop :=
  ∃ moves later, (∀ move ∈ moves, move.drains = true) ∧ runSteps id moves = some later ∧ ends later

variable {ends : CmId → Prop}

theorem Drains.step (drains : move.drains = true)
    (moved : Cm.step id move = some after) (rest : Drains after ends) : Drains id ends := by
  obtain ⟨moves, later, all, run, done⟩ := rest
  refine ⟨move :: moves, later, forall_mem_cons.2 ⟨drains, all⟩, ?_, done⟩
  change (Cm.step id move).bind _ = _
  rw [moved]
  exact run

theorem step_thread {act} (found : pull index id.threads = some (t, rest)) :
    id.thread index act = act (id.withThreads rest) t := by
  unfold thread
  rw [found]
  rfl

/-- Once the events before `works` are handled the rest can be. -/
def Resumes (id : CmId) (works : List Work) (ends : CmId → Prop) : Prop :=
  ∀ after, Served after → Counts after → after.workList = works → after.doomed = id.doomed →
    after.accepted = id.accepted → Drains after ends

theorem drain_fetching (served : Served id)
    (counts : Counts id) (solo : Solo Active id.threads (some .fetching))
    (queued : id.workList = work :: works)
    (rest : Resumes id works ends) : Drains id ends := by
  obtain ⟨index, others, found⟩ := exists_pull solo.mem.1
  have moved : step id (.fetch index) = some
      { id with
        workList := works
        delivered := id.delivered ++ [work]
        threads := .handling work :: others } := by
    dsimp only [step]
    rw [step_thread found]
    dsimp only [fetch, withThreads]
    rw [queued]
    rfl
  have calm : (Move.fetch index).Calm id := trivial
  exact Drains.step rfl moved (rest _ (served.step counts calm moved) (counts.step moved) rfl rfl rfl)

theorem drain_returned (served : Served id)
    (counts : Counts id) (solo : Solo Active id.threads (some .returned)) (paired : id.Paired)
    (queued : id.workList = work :: works)
    (rest : Resumes id works ends) : Drains id ends := by
  obtain ⟨index, others, found⟩ := exists_pull solo.mem.1
  have counted : ¬id.workCount - 1 < 0 := by
    unfold CmId.Paired at paired
    rw [queued, length_cons] at paired
    omega
  have moved : step id (.count index) = some
      { id with workCount := id.workCount - 1, threads := .fetching :: others } := by
    dsimp only [step]
    rw [step_thread found]
    dsimp only [CmId.count, CmId.withThreads]
    rw [if_neg counted]
  have calm : (Move.count index).Calm id := trivial
  have next : Solo Active (.fetching :: others) (some .fetching) :=
    (solo.tail (pull_perm found) rfl).2.cons rfl
  exact Drains.step rfl moved
    (drain_fetching (served.step counts calm moved) (counts.step moved) next queued rest)

private theorem drain_handling {work held} (served : Served id)
    (counts : Counts id) (solo : Solo Active id.threads (some (.handling held))) (paired : id.Paired)
    (queued : id.workList = work :: works)
    (rest : Resumes id works ends) : Drains id ends := by
  obtain ⟨index, others, found⟩ := exists_pull solo.mem.1
  have moved : step id (.answer index true) = some
      { id with released := id.released ++ [held], threads := .returned :: others } := by
    dsimp only [step]
    rw [step_thread found]
    rfl
  have calm : (Move.answer index true).Calm id := trivial
  have next : Solo Active (.returned :: others) (some .returned) :=
    (solo.tail (pull_perm found) rfl).2.cons rfl
  exact Drains.step rfl moved
    (drain_returned (served.step counts calm moved) (counts.step moved) next paired queued rest)

theorem Served.drain : ∀ (works) {id}, Served id → Counts id → id.doomed = false →
    id.workList = works → Drains id fun later => later.delivered = id.accepted := by
  intro works
  induction works with
  | nil =>
    intro id served counts clear empty
    refine ⟨[], id, forall_mem_nil _, rfl, ?_⟩
    have kept := served.kept (counts.undoomed clear)
    obtain ⟨sole, _, engaged⟩ := served.engaged
    have settled {busy : List Work} (filed : id.Filed busy) : id.delivered = id.accepted := by
      obtain ⟨all, given⟩ := filed
      rw [kept, append_nil] at given
      rw [given, ← all, empty, append_nil]
    cases sole with
    | none => exact settled engaged.1
    | some t =>
      cases t with
      | handling work => exact settled engaged.1
      | returned => exact settled engaged.1
      | fetching => exact settled engaged.1
      | erring work => exact settled engaged.1
      | requested work => exact settled engaged.1
      | _ => exact engaged.elim
  | cons work works ih =>
    intro id served counts clear queued
    obtain ⟨sole, solo, engaged⟩ := served.engaged
    have loud : ¬id.Quiet := by
      intro quiet
      rw [quiet.2] at queued
      cases queued
    have rest (after : CmId) (laterServed : Served after) (laterCounts : Counts after)
        (list : after.workList = works) (doomed : after.doomed = id.doomed)
        (accepted : after.accepted = id.accepted) :
        Drains after fun later => later.delivered = id.accepted := by
      rw [← accepted]
      exact ih laterServed laterCounts (doomed.trans clear) list
    cases sole with
    | none =>
      rcases engaged.2 with quiet | ⟨_, empty⟩ | ⟨doom, _⟩
      · exact absurd quiet loud
      · rw [empty] at queued
        cases queued
      · rw [clear] at doom
        cases doom
    | some t =>
      cases t with
      | handling held =>
        exact drain_handling served counts solo (engaged.2.resolve_left loud) queued rest
      | returned => exact drain_returned served counts solo (engaged.2.resolve_left loud) queued rest
      | fetching => exact drain_fetching served counts solo queued rest
      | erring held => exact absurd engaged.2 loud
      | requested held => exact absurd engaged.2 loud
      | _ => exact engaged.elim

/-! ### One call at a time -/

def Thread.inHandler : Thread → Option Work
  | .handling work | .erring work | .requested work => some work
  | _ => none

def CmId.handlerCalls (id : CmId) : List Work := id.threads.filterMap inHandler

theorem handlerCalls_none (passive : id.HandlerFree) : id.handlerCalls = [] := by
  unfold handlerCalls
  rw [filterMap_eq_nil_iff]
  intro t here
  have idle := passive t here
  cases t with
  | handling work => exact absurd rfl idle
  | erring work => exact absurd rfl idle
  | requested work => exact absurd rfl idle
  | _ => rfl

private theorem handlerCalls_one (solo : Solo Active id.threads (some t)) : id.handlerCalls = t.inHandler.toList := by
  cases solo with
  | @one t rest split holds others =>
    have others : (id.withThreads rest).HandlerFree := others
    have none : rest.filterMap inHandler = [] := handlerCalls_none others
    have same := split.filterMap inHandler
    cases call : t.inHandler with
    | none =>
      rw [filterMap_cons_none call, none] at same
      exact perm_nil.1 same
    | some work =>
      rw [filterMap_cons_some call, none] at same
      exact perm_singleton.1 same

theorem Served.handlerCalls (served : Served id) : id.handlerCalls.length ≤ 1 ∧ id.Filed id.handlerCalls := by
  obtain ⟨sole, solo, engaged⟩ := served.engaged
  cases sole with
  | none =>
    cases solo with
    | none others =>
      rw [handlerCalls_none others]
      exact ⟨Nat.zero_le 1, engaged.1⟩
  | some t =>
    rw [handlerCalls_one solo]
    cases t with
    | handling work => exact ⟨Nat.le_refl 1, engaged.1⟩
    | returned => exact ⟨Nat.zero_le 1, engaged.1⟩
    | fetching => exact ⟨Nat.zero_le 1, engaged.1⟩
    | erring work => exact ⟨Nat.le_refl 1, engaged.1⟩
    | requested work => exact ⟨Nat.le_refl 1, engaged.1⟩
    | _ => exact engaged.elim

/-- Only a thread that finds no work in the list is parked. -/
theorem Changed.parks {move} (changed : Changed id move after) (here : .parked ∈ after.threads) :
    .parked ∈ id.threads ∨ id.workList = [] ∧ .fetching ∈ id.threads := by
  have kept {index : Nat} {u : Thread} {others : List Thread}
      (found : pull index id.threads = some (u, others)) (old : .parked ∈ others) : .parked ∈ id.threads :=
    (pull_perm found).mem_iff.2 (.tail _ old)
  have swapped {index : Nat} {u v : Thread} {others : List Thread}
      (found : pull index id.threads = some (u, others)) (old : .parked ∈ v :: others)
      (plain : v ≠ .parked) : .parked ∈ id.threads :=
    kept found ((mem_cons.1 old).resolve_left plain.symm)
  cases changed with
  | parked found empty => exact .inr ⟨empty, (pull_perm found).mem_iff.2 (.head _)⟩
  | entered found =>
    refine .inl (kept found ?_)
    simp only [enter, cmQueueWorkUnlock] at here
    split at here
    · simpa [withThreads] using here
    split_ifs at here <;> simpa [CmId.take, deliver, deref, withThreads] using here
  | answered found acted =>
    rename_i t _
    refine .inl (kept found ?_)
    cases t <;> simp only [answer] at acted <;> try split_ifs at acted
    all_goals
      cases acted
      try simpa [withThreads, release, refuse] using here
  | counted found =>
    refine .inl (swapped found here ?_)
    split_ifs <;> simp
  | sendError found =>
    simp only [sendFailed] at here
    split_ifs at here
    · exact .inl here
    · split at here <;> exact .inl (by simpa [CmId.take, deliver, deref] using here)
  | left found => exact .inl (kept found here)
  | disconnected found | fetched found | refused found | unlocked found | erased found
  | dropped found | finished found => exact .inl (swapped found here (by simp))
  | _ => exact .inl (by simpa [CmId.acquire, refuse, deref] using here)

theorem Reachable.unparked (reach : Reachable Calm id) : .parked ∉ id.threads := by
  induction reach with
  | start start =>
    intro here
    cases start with
    | created => cases here
    | req remoteId => cases mem_singleton.1 here
    | sidr remoteId => cases mem_singleton.1 here
  | step before calm moved ih =>
    intro here
    rcases (step_changed moved).parks here with old | ⟨empty, fetching⟩
    · exact ih old
    obtain ⟨sole, solo, engaged⟩ := before.served.1.engaged
    obtain ⟨index, rest, found⟩ := exists_pull fetching
    obtain ⟨rfl, _⟩ := solo.tail (pull_perm found) rfl
    obtain ⟨_, pos, remaining⟩ := engaged
    rw [empty] at remaining
    change _ + 1 = 0 at remaining
    omega

/-- In a run of calm steps: handler calls do not overlap; the handler gets the events in the order of their
state changes; of those taken it had the first, the destruction discarded the next, and the last are queued;
unless the id is doomed none is discarded and `cm_process_work` brings the handler all; every work freed was
handled or discarded, once, and the destruction leaves none; `cm_destroy_id` is called once if the user
destroys the id or the handler fails, else not; the references are those of the user, the posted MADs
and the threads with one to drop; and no thread is parked, so each of these is on its way to drop it. -/
theorem cm_events_serialised (reach : Reachable Calm id) : id.handlerCalls.length ≤ 1 ∧
    (id.delivered.Pairwise fun first second => first.stamp < second.stamp) ∧
    id.delivered ++ id.discarded ++ id.workList = id.accepted ∧
    (id.doomed = false → id.discarded = [] ∧ Drains id fun later => later.delivered = id.accepted) ∧
    id.released ++ id.handlerCalls ++ id.workList = id.accepted ∧
    (id.freed = true → id.workList = []) ∧
    id.destroys + id.threads.countP isRefusing = id.doomed.toNat ∧
    id.conn.refcount + id.threads.countP ended =
      1 + id.conn.sends.length + id.threads.countP holds ∧
    .parked ∉ id.threads := by
  obtain ⟨served, stamped⟩ := reach.served
  have counts := reach.counts
  obtain ⟨single, all, given⟩ := served.handlerCalls
  have order : id.delivered ++ id.discarded ++ id.workList = id.accepted := by
    rw [given]
    exact all
  refine ⟨single, ?_, order, ?_, all, served.emptied, counts.calls, counts.refs, reach.unparked⟩
  · have sorted := stamped.sorted
    rw [← order, append_assoc] at sorted
    exact (pairwise_append.1 sorted).1
  · intro clear
    exact ⟨served.kept (counts.undoomed clear), served.drain id.workList counts clear rfl⟩

theorem Reachable.runSteps {ok moves}
    (reach : Reachable ok id) (meets : ∀ id, ∀ move ∈ moves, ok id move)
    (run : runSteps id moves = some after) : Reachable ok after := by
  induction moves generalizing id with
  | nil =>
    cases run
    exact reach
  | cons move moves ih =>
    obtain ⟨middle, moved, later⟩ := Option.bind_eq_some_iff.1 run
    obtain ⟨here, rest⟩ := forall_and.1 fun id => forall_mem_cons.1 (meets id)
    exact ih (reach.step (here id) moved) rest later

/-- The id of a REQ whose RTU comes while the handler still has the REQ. -/
def earlyRtu : CmId :=
  { cmReqHandler 7 with
    conn :=
      { newConn .established 7 3 true with
        msg := some 0
        sends := [⟨0, some .repSent⟩]
        nextSend := 1 }
    workCount := 1
    workList := [⟨.rtuReceived, 2⟩]
    clock := 3
    accepted := [⟨.reqReceived, 0⟩, ⟨.rtuReceived, 2⟩] }

theorem cm_events_serialised_rtu : earlyRtu.handlerCalls = [⟨.reqReceived, 0⟩] ∧
    Drains earlyRtu fun later => later.delivered = [⟨.reqReceived, 0⟩, ⟨.rtuReceived, 2⟩] := by
  have looked : Reachable Calm
      { earlyRtu with
        conn := { earlyRtu.conn with state := .repSent, refcount := 4 }
        workCount := 0
        workList := []
        threads := [.acquired .rtu, .handling ⟨.reqReceived, 0⟩]
        clock := 2
        accepted := [⟨.reqReceived, 0⟩] } := by
    have requested : Reachable Calm (cmReqHandler 7) := .start (.req 7)
    have sent := requested.step (show Calm _ (.call (.sendRep true)) from trivial) rfl
    exact sent.step (show Calm _ (.acquire 7 .rtu) from trivial) rfl
  have reach : Reachable Calm earlyRtu := by
    refine looked.step (show Calm _ (.enter 0) from ?_) rfl
    intro message rest found accepts
    cases found
    refine ⟨?_, fun _ => .inl (by decide), ?_⟩
    · nofun
    · intro stamp own
      cases own
  have events := cm_events_serialised reach
  exact ⟨rfl, (events.2.2.2.1 rfl).2⟩

/-- An MRA arrives for a request that times out while the handler has it. -/
def lateMra : List Move :=
  [.call (.sendReq true), .acquire 0 (.mra .req true), .enter 0, .sendError 0 .up]

def sidrFirst : List Move :=
  [.call (.sendSidrReq true), .acquire 0 .sidrRep, .enter 0, .answer 0 true, .count 0, .leave 0,
    .call (.sendReq true), .acquire 0 (.rep 7 true), .enter 0]

/-- A LAP is handled between `cm_establish` and the work it queued. -/
def lapFirst : List Move :=
  [.call (.sendRep true), .call (.establish .up), .acquire 7 (.lap true), .enter 0, .establishWork 0,
    .enter 0, .answer 0 true, .count 0, .fetch 0, .answer 0 true, .count 0, .fetch 0]

/-- Two handler calls at once; an event in the list with no thread to fetch it; and events out of order. -/
theorem cm_events_overlap : (∃ id, Reachable (fun _ _ => True) id ∧
      id.handlerCalls.map Work.event = [.reqError, .mraReceived]) ∧
    (∃ id, Reachable (fun _ _ => True) id ∧ id.doomed = false ∧ id.threads = [] ∧
      id.workList.map Work.event = [.repReceived]) ∧
    ∃ id, Reachable (fun _ _ => True) id ∧
      id.delivered = [⟨.reqReceived, 0⟩, ⟨.lapReceived, 3⟩, ⟨.userEstablished, 2⟩] := by
  have reached {id after : CmId} (start : Start id) {moves : List Move}
      (run : runSteps id moves = some after) : Reachable (fun _ _ => True) after :=
    (Reachable.start start).runSteps (fun _ _ _ => trivial) run
  refine ⟨?_, ?_, ?_⟩
  · obtain ⟨after, run⟩ : ∃ after, runSteps ibCreateCmId lateMra = some after := ⟨_, rfl⟩
    refine ⟨after, reached .created run, ?_⟩
    cases run
    decide
  · obtain ⟨after, run⟩ : ∃ after, runSteps ibCreateCmId sidrFirst = some after := ⟨_, rfl⟩
    refine ⟨after, reached .created run, ?_⟩
    cases run
    decide
  · obtain ⟨after, run⟩ : ∃ after, runSteps (cmReqHandler 7) lapFirst = some after := ⟨_, rfl⟩
    refine ⟨after, reached (.req 7) run, ?_⟩
    cases run
    decide

end MlnxOfed.Cm
