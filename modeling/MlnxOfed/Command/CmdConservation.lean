/-
The account of the messages over every step: which calls lose messages, and that without them every message
is released once and every callback called once.
-/

import MlnxOfed.Command.CmdMessages

namespace MlnxOfed.Command.Entries

open Prod
open Nat (count)
open Option Function Lib

variable {config : Config} {dev : Dev} {start : List MsgCache} {e : Nat}

/-! ### Completion -/

variable {after : Dev}

section

variable (kept : Kept start dev)

include kept

theorem Kept.of_same (same : SameMessages dev after)
    (bare : ∀ x, (after.ents x).bare = (dev.ents x).bare) : Kept start after := by
  have holds (msg : Msg) (x : Nat) : after.holds msg x ↔ dev.holds msg x := by
    unfold Dev.holds
    rw [eq_of_bare Ent.held (bare x) fun _ => rfl, same.calls]
  constructor
  case settled =>
    intro x below
    rw [same.next] at below
    rw [same.calls]
    exact (kept.settled x below).of_bare (bare x)
  case fresh =>
    intro x above
    rw [same.next] at above
    rw [bare x]
    exact kept.fresh x above
  case placed =>
    intro i x there
    rw [same.entArr] at there
    rw [same.next, eq_of_bare Ent.early (bare x) fun _ => rfl]
    exact kept.placed i x there
  case inflight =>
    intro ctx
    rw [same.numInflight, same.next, kept.inflight ctx]
    apply congrArg (1 + ·)
    apply count_congr_below
    intro x _
    unfold Dev.flies
    rw [eq_of_bare Ent.callback (bare x) fun _ => rfl,
      eq_of_bare Ent.completions (bare x) fun _ => rfl, same.calls]
  case caches =>
    refine kept.caches.of_holds same.caches ?_
    intro msg _
    rw [same.next]
    exact count_congr_below fun x _ => holds msg x

theorem Kept.put : Kept start (cmdEntPut dev e) :=
  kept.of_same (cmdEntPut_messages ..) fun _ => bare_of_core (cmdEntPut_core ..)

variable {ent : Ent}

theorem Kept.setEnt (born : e < dev.next)
    (settled : Settled ent (dev.calls e)) (late : ent.early → (dev.ents e).early)
    (held : ent.held = (dev.ents e).held) (callback : ent.callback = (dev.ents e).callback)
    (completions : (dev.ents e).callback = true → ent.completions = (dev.ents e).completions) :
    Kept start (dev.setEnt e ent) := by
  have changed : OneChanged dev (dev.setEnt e ent) e :=
    ⟨rfl, rfl, fun x apart => by rw [setEnt_other _ _ apart], fun _ _ => rfl, rfl, rfl⟩
  refine kept.keep born changed ?_ ?_ ?_ ?_ ?_ rfl rfl
  · rw [setEnt_self]
    exact settled
  · rw [setEnt_self]
    exact late
  · rw [setEnt_self]
    exact held
  · rw [setEnt_self]
    exact callback
  · rw [setEnt_self]
    exact completions

theorem Kept.setEnt_bare (bare : ent.bare = (dev.ents e).bare) : Kept start (dev.setEnt e ent) := by
  refine kept.of_same (setEnt_messages ..) ?_
  intro x
  by_cases same : x = e
  · rw [same, setEnt_self]
    exact bare
  · rw [setEnt_other _ _ same]

variable {call : Call}

omit kept in
theorem Settled.progress {old new} (settled : Settled old call)
    (sync : old.callback = false) (callback : new.callback = false)
    (waiter : new.waiter = old.waiter) (early : ¬new.early) : Settled new call := by
  have held : new.held = old.held := by
    unfold Ent.held
    rw [sync, callback, waiter]
    rfl
  constructor
  · rw [held]
    exact settled.inFrees
  · rw [held]
    exact settled.outFrees
  · rw [held]
    exact settled.holds
  · rw [callback]
    exact nofun
  · exact fun _ => settled.sync sync
  · exact fun async _ => settled.failed async sync
  · rw [callback]
    exact nofun
  · exact fun never => absurd never early
  · rw [callback]
    exact nofun
  · rw [waiter]
    exact fun waits => ⟨callback, (settled.waits waits).2⟩

theorem Kept.finish {new : Ent} (born : e < dev.next)
    (core : ∀ x, (after.ents x).core = if x = e then new.core else (dev.ents x).core)
    (callback : new.callback = (dev.ents e).callback) (polling : new.polling = (dev.ents e).polling)
    (completions : new.completions = (dev.ents e).completions + 1)
    (waiter : new.waiter = (dev.ents e).waiter) (idle : new.pendingComp = false) (late : ¬new.early)
    (first : (dev.ents e).callback = true → (dev.ents e).completions = 0)
    (called : (dev.ents e).callback = true → CalledBack dev after e)
    (messages : (dev.ents e).callback = false → SameMessages dev after) : Kept start after := by
  have own := core e
  rw [if_pos rfl] at own
  have others (x : Nat) (apart : x ≠ e) : (after.ents x).bare = (dev.ents x).bare := by
    have same := core x
    rw [if_neg apart] at same
    exact bare_of_core same
  rw [← eq_of_core Ent.callback own fun _ => rfl] at callback
  rw [← eq_of_core Ent.polling own fun _ => rfl] at polling
  rw [← eq_of_core Ent.completions own fun _ => rfl] at completions
  rw [← eq_of_core Ent.waiter own fun _ => rfl] at waiter
  rw [← eq_of_core Ent.pendingComp own fun _ => rfl] at idle
  rw [← eq_of_core Ent.early own fun _ => rfl] at late
  cases async : (dev.ents e).callback with
  | true =>
    refine kept.called born (called async) others async (first async) (callback.trans async) polling ?_
      waiter late idle
    rw [completions, first async]
  | false =>
    have messages := messages async
    have sync := callback.trans async
    have changed : OneChanged dev after e :=
      ⟨messages.next, messages.entArr, others, fun x _ => by rw [messages.calls],
        by rw [messages.calls], by rw [messages.calls]⟩
    refine kept.keep born changed ?_ (fun early => absurd early late) ?_ callback ?_
      messages.numInflight messages.caches
    · rw [messages.calls]
      exact (kept.settled e born).progress async sync waiter late
    · unfold Ent.held
      rw [callback, async, waiter]
      rfl
    · rw [async]
      exact nofun

theorem Kept.complete (born : e < dev.next) (callback : ent.callback = (dev.ents e).callback)
    (polling : ent.polling = (dev.ents e).polling) (completions : ent.completions = (dev.ents e).completions)
    (waiter : ent.waiter = (dev.ents e).waiter) (idle : ent.pendingComp = false) (late : ¬ent.early)
    (first : (dev.ents e).callback = true → (dev.ents e).completions = 0) (type)
    (down triggered reply) :
    Kept start (completeEnt (dev.setEnt e ent) e type down triggered reply) := by
  have self : ((dev.setEnt e ent).ents e).callback = (dev.ents e).callback := by
    rw [setEnt_self]
    exact callback
  have core (x : Nat) : ((completeEnt (dev.setEnt e ent) e type down triggered reply).ents x).core =
      if x = e then ent.finished.core else (dev.ents x).core := by
    rw [completeEnt_core, setEnt_self]
    by_cases same : x = e
    · rw [if_pos same, if_pos same]
    · rw [if_neg same, if_neg same, setEnt_other _ _ same]
  refine kept.finish born core callback polling (congrArg (· + 1) completions) waiter idle late first ?_ ?_
  · exact fun async => (completeEnt_called (self.trans async) ..).of_same (setEnt_messages ..)
      SameMessages.rfl
  · exact fun async => (setEnt_messages ..).trans (completeEnt_messages (self.trans async) ..)

theorem Kept.compHandler {i type}
    (polled : type = .polling → ∀ x, dev.entArr i = some x → (dev.ents x).callback = true →
      (dev.ents x).pendingComp = true) (down triggered reply) :
    Kept start (compHandler dev i type down triggered reply) := by
  unfold Entries.compHandler
  cases there : dev.entArr i with
  | none => exact kept
  | some x =>
    obtain ⟨born, late⟩ := kept.placed i x there
    have settled := kept.settled x born
    have same : dev.setEnt x (dev.ents x) = dev := by
      unfold Dev.setEnt
      rw [update_eq_self]
    dsimp only
    by_cases pending : (dev.ents x).pendingComp = true
    · rw [if_pos pending]
      split
      · rename_i both
        -- a command that is polled has no callback
        have sync : (dev.ents x).callback = false := by
          cases async : (dev.ents x).callback with
          | false => rfl
          | true =>
            have unforced := (settled.async async).2.2.2.2
            rw [both.1] at unforced
            cases unforced
        refine kept.setEnt born ?_ id rfl rfl fun _ => rfl
        exact settled.progress sync sync rfl late
      refine kept.complete born ?_ ?_ ?_ ?_ ?_ ?_ ?_ type down triggered reply
      · rfl
      · rfl
      · rfl
      · rfl
      · rfl
      · exact late
      · exact fun async => settled.pending async pending
    · rw [if_neg pending]
      split
      · split
        · exact kept.put
        · exact kept
      rename_i isPolling
      have type_eq : type = .polling := not_not.mp isPolling
      have notEvent : ¬(type = .event ∧ (dev.ents x).polling = false) := by
        rw [type_eq]
        rintro ⟨never, _⟩
        cases never
      rw [if_neg notEvent]
      have sync : (dev.ents x).callback = false := by
        cases async : (dev.ents x).callback with
        | false => rfl
        | true => exact absurd (polled type_eq x there async) pending
      have idle : (dev.ents x).pendingComp = false := by
        rw [Bool.not_eq_true] at pending
        exact pending
      have completed := kept.complete born rfl rfl rfl rfl idle late
        (fun async => by rw [sync] at async; cases async) type down triggered reply
      rw [same] at completed
      exact completed

theorem Kept.compHandlerOf {type}
    (polled : type = .polling → ∀ i x, (dev.ents e).idx = some i → dev.entArr i = some x →
      (dev.ents x).callback = true → (dev.ents x).pendingComp = true)
    (down reply) : Kept start (compHandlerOf dev e type down reply) := by
  unfold Entries.compHandlerOf
  cases idx : (dev.ents e).idx with
  | none => exact kept
  | some i => exact kept.compHandler (fun isPolling x => polled isPolling i x idx) down false reply

/-! ### Waiting -/

theorem Kept.born_of_work (working : (dev.ents e).work ≠ .idle) : e < dev.next := by
  by_contra above
  have none := kept.fresh e (Nat.le_of_not_lt above)
  have work : (dev.ents e).bare.work = Ent.none.work := congrArg Ent.work none
  exact working work

theorem Kept.born_of_waiter (waiter : (dev.ents e).waiter = true) : e < dev.next := by
  by_contra above
  have none := kept.fresh e (Nat.le_of_not_lt above)
  have unset : (dev.ents e).bare.waiter = Ent.none.waiter := congrArg Ent.waiter none
  change (dev.ents e).waiter = false at unset
  rw [waiter] at unset
  cases unset

theorem Kept.returnWaiter (waiter : (dev.ents e).waiter = true)
    (output) : Kept start (returnWaiter dev e output) := by
  have born := kept.born_of_waiter waiter
  have settled := kept.settled e born
  obtain ⟨sync, noCtx⟩ := settled.waits waiter
  have held : (dev.ents e).held = true := by
    unfold Ent.held
    rw [sync]
    exact waiter
  obtain ⟨someIn, out⟩ := settled.holds held
  obtain ⟨msg, inb⟩ := isSome_iff_exists.mp someIn
  have put := (setEnt_messages dev e { dev.ents e with waiter := false }).trans (cmdEntPut_messages _ e)
  have bare (x : Nat) : ((Entries.returnWaiter dev e output).ents x).bare =
      ((dev.setEnt e { dev.ents e with waiter := false }).ents x).bare :=
    bare_of_core (cmdEntPut_core ..)
  have own : ((Entries.returnWaiter dev e output).ents e).bare =
      ({ dev.ents e with waiter := false } : Ent).bare := by
    rw [bare e, setEnt_self]
  have freed : ((Entries.returnWaiter dev e output).ents e).held = false := by
    rw [eq_of_bare Ent.held own fun _ => rfl]
    change (if (dev.ents e).callback = true then _ else false) = false
    rw [sync]
    rfl
  have self : ∃ err, (Entries.returnWaiter dev e output).calls e = { dev.calls e with
        outFrees := (dev.calls e).outFrees + 1
        inFrees := (dev.calls e).inFrees + 1
        result := some err } := by
    unfold Entries.returnWaiter
    dsimp only
    rw [setCall_self, freeMsgs_self, put.calls]
    exact ⟨_, rfl⟩
  obtain ⟨err, self⟩ := self
  have changed : OneChanged dev (Entries.returnWaiter dev e output) e := by
    refine ⟨put.next, put.entArr, ?_, ?_, by rw [self], by rw [self]⟩
    · intro x apart
      rw [bare x, setEnt_other _ _ apart]
    · intro x apart
      unfold Entries.returnWaiter
      dsimp only
      rw [setCall_other _ _ apart, freeMsgs_other _ apart, put.calls]
  refine kept.release born changed ?_ ?_ held freed inb ?_ ?_ ?_
  · have inFrees := settled.inFrees
    have outFrees := settled.outFrees
    rw [held, if_neg (fun both => by cases both.2)] at inFrees outFrees
    have callback : ((Entries.returnWaiter dev e output).ents e).callback = false := by
      rw [eq_of_bare Ent.callback own fun _ => rfl]
      exact sync
    rw [self]
    constructor
    · change (dev.calls e).inFrees + 1 = _
      rw [inFrees, if_pos ⟨someIn, freed⟩]
    · change (dev.calls e).outFrees + 1 = _
      rw [outFrees, if_pos ⟨out, freed⟩]
    · rw [freed]
      exact nofun
    · rw [callback]
      exact nofun
    · exact fun _ => settled.sync sync
    · change (dev.calls e).ctx.isSome = true → _
      rw [noCtx]
      exact nofun
    · rw [callback]
      exact nofun
    · rw [eq_of_bare Ent.early own fun _ => rfl, eq_of_bare Ent.completions own fun _ => rfl,
        eq_of_bare Ent.pendingComp own fun _ => rfl]
      exact settled.early
    · rw [callback]
      exact nofun
    · exact fun _ => ⟨callback, noCtx⟩
  · rw [eq_of_bare Ent.early own fun _ => rfl]
    exact id
  · have kept : ((cmdEntPut (dev.setEnt e { dev.ents e with waiter := false }) e).calls e).inb =
        some msg := by
      rw [put.calls]
      exact inb
    change (freeMsgs _ e).caches = _
    rw [freeMsgs_caches kept, put.caches]
  · intro ctx
    have grounded : ¬dev.flies ctx e := by
      rintro ⟨async, _⟩
      rw [sync] at async
      cases async
    rw [if_neg grounded]
    change (cmdEntPut _ e).numInflight ctx + 0 = _
    rw [put.numInflight]
    rfl
  · rintro ctx ⟨async, _⟩
    rw [eq_of_bare Ent.callback own fun _ => rfl] at async
    rw [sync] at async
    cases async

omit kept in
private theorem compHandler_waiter (dev i type down triggered reply)
    (x) : ((compHandler dev i type down triggered reply).ents x).waiter = (dev.ents x).waiter := by
  have cleared (y : Nat) : ((dev.setEnt y { dev.ents y with pendingComp := false }).ents x).waiter =
        (dev.ents x).waiter := by
    by_cases same : x = y
    · rw [same, setEnt_self]
    · rw [setEnt_other _ _ same]
  have completed (dev : Dev) (y : Nat) :
      ((completeEnt dev y type down triggered reply).ents x).waiter = (dev.ents x).waiter := by
    have core := completeEnt_core dev y type down triggered reply x
    by_cases same : x = y
    · rw [if_pos same] at core
      rw [eq_of_core Ent.waiter core fun _ => rfl, same]
      rfl
    · rw [if_neg same] at core
      exact eq_of_core Ent.waiter core fun _ => rfl
  have put (dev : Dev) (y : Nat) : ((cmdEntPut dev y).ents x).waiter = (dev.ents x).waiter :=
    eq_of_core Ent.waiter (cmdEntPut_core ..) fun _ => rfl
  unfold compHandler
  split
  · rfl
  dsimp only
  split
  · split
    · exact cleared _
    · rw [completed]
      exact cleared _
  split
  · split
    · exact put ..
    · rfl
  · rw [completed]
    split
    · exact put ..
    · rfl

theorem Kept.force (down reply) :
    Kept start (Entries.compHandlerOf (dev.setEnt e { dev.ents e with ret := etimedout }) e .forced
      down reply) := by
  have changed : Kept start (dev.setEnt e { dev.ents e with ret := etimedout }) :=
    kept.setEnt_bare rfl
  exact changed.compHandlerOf (fun never => by cases never) down reply

theorem Kept.waitTimeout (waiter : (dev.ents e).waiter = true) (down reply) : Kept start (Entries.returnWaiter
        (Entries.compHandlerOf (dev.setEnt e { dev.ents e with ret := etimedout }) e .forced down reply)
        e 0) := by
  refine (kept.force down reply).returnWaiter ?_ 0
  unfold Entries.compHandlerOf
  split
  · rw [compHandler_waiter, setEnt_self]
    exact waiter
  · rw [setEnt_self]
    exact waiter

theorem Kept.waitCanceled (waiter : (dev.ents e).waiter = true) : Kept start
      (Entries.returnWaiter (dev.setEnt e { dev.ents e with work := .idle, ret := ecanceled }) e 0) := by
  have born := kept.born_of_waiter waiter
  have settled := kept.settled e born
  obtain ⟨sync, _⟩ := settled.waits waiter
  have late : ¬({ dev.ents e with work := .idle, ret := ecanceled } : Ent).early := by
    rintro (clash | clash) <;> cases clash
  have changed : Kept start (dev.setEnt e { dev.ents e with work := .idle, ret := ecanceled }) := by
    refine kept.setEnt born ?_ (fun early => absurd early late) rfl rfl fun _ => rfl
    exact settled.progress sync sync rfl late
  refine changed.returnWaiter ?_ 0
  rw [setEnt_self]
  exact waiter

theorem Kept.handle (queued : (dev.ents e).work = .queued) :
    Kept start (dev.setEnt e { dev.ents e with work := .blocked }) := by
  have born := kept.born_of_work (e := e) (by rw [queued]; decide)
  have settled := kept.settled e born
  have early : (dev.ents e).early := .inl queued
  refine kept.setEnt born ?_ (fun _ => early) rfl rfl fun _ => rfl
  exact { settled with
    flying _ _ := .inl (.inr rfl)
    early _ := settled.early early }

theorem Kept.place (blocked : (dev.ents e).work = .blocked) {i}
    {sem pagesSem event work} (late : work = .idle ∨ work = .polling) :
    Kept start (({ dev with sem := sem, pagesSem := pagesSem } : Dev).place e i event work) := by
  have born := kept.born_of_work (e := e) (by rw [blocked]; decide)
  have settled := kept.settled e born
  have early : (dev.ents e).early := .inr blocked
  have notEarly := (dev.ents e).placed_late i event late
  have placed : Kept start (dev.setEnt e ((dev.ents e).placed i event work)) := by
    refine kept.setEnt born ?_ (fun impossible => absurd impossible notEarly) rfl rfl fun _ => rfl
    exact { settled with
      flying _ _ := .inr rfl
      early impossible := absurd impossible notEarly
      pending _ _ := (settled.early early).1 }
  refine { placed with placed := ?_, caches := ?_ }
  · intro j x there
    change update dev.entArr i (some e) j = some x at there
    by_cases here : j = i
    · rw [here, update_self] at there
      rw [← some.inj there]
      refine ⟨born, ?_⟩
      change ¬((dev.setEnt e ((dev.ents e).placed i event work)).ents e).early
      rw [setEnt_self]
      exact notEarly
    · rw [update_of_ne here] at there
      exact placed.placed j x there
  · exact { placed.caches with }

theorem Kept.post (blocked : (dev.ents e).work = .blocked) (i sem pagesSem down downAfter reply) :
    Kept start (postCmd config { dev with sem := sem, pagesSem := pagesSem } e i down downAfter reply) := by
  cases down with
  | false =>
    rw [postCmd_up]
    refine kept.place blocked ?_
    split
    · exact .inr rfl
    · exact .inl rfl
  | true =>
    unfold postCmd
    dsimp only
    rw [if_pos rfl, takeSlot_eq]
    have placed : Kept start (({ dev with sem := sem, pagesSem := pagesSem } : Dev).place e i
        (dev.ents e).event .idle) := kept.place blocked (.inl rfl)
    refine Kept.compHandler (placed.setEnt_bare ?_) ?_ downAfter false reply
    · rfl
    · nofun

theorem Kept.slotFailed (blocked : (dev.ents e).work = .blocked) : Kept start (slotFailed dev e) := by
  have born := kept.born_of_work (e := e) (by rw [blocked]; decide)
  obtain ⟨none, idle⟩ := (kept.settled e born).early (.inr blocked)
  refine kept.finish born (slotFailed_core dev e) rfl rfl rfl rfl idle ?_ (fun _ => none) ?_ ?_
  · rintro (clash | clash) <;> cases clash
  · intro async
    unfold Entries.slotFailed
    dsimp only
    rw [if_pos async]
    exact (calledBack_before_free (dev.setEnt e (dev.ents e).slotless) e eagain).of_same
      (setEnt_messages ..) ((cmdEntPut_messages ..).trans (upSem_messages ..))
  · intro sync
    unfold Entries.slotFailed
    dsimp only
    rw [if_neg (Bool.not_eq_true _ ▸ sync)]
    exact ((setEnt_messages ..).trans (setEnt_messages ..)).trans (upSem_messages ..)

end

/-! ### Calls -/

variable {inSize : Nat}

theorem allocMsg_cases {caches after fresh found} (own : ∀ msg, fresh = some msg → msg.parent = none)
    (given : allocMsg caches inSize fresh = (after, found)) :
    (after = caches ∧ ∀ msg, found = some msg → msg.parent = none) ∨
      ∃ (k : Nat) (ch : MsgCache) (msg : Msg) (others : List Msg), caches[k]? = some ch ∧
        ch.head = msg :: others ∧ found = some msg ∧
        after = caches.set k { ch with head := others, free := ch.free - 1 } := by
  unfold allocMsg at given
  split at given
  · rw [mk.injEq] at given
    refine .inl ⟨given.1.symm, ?_⟩
    rw [← given.2]
    exact own
  split at given
  · rename_i caches' msg taken
    rw [mk.injEq] at given
    obtain ⟨k, ch, others, there, head, set⟩ := takeMsg_found taken
    exact .inr ⟨k, ch, msg, others, there, head, given.2.symm, given.1.symm.trans set⟩
  · rename_i caches' missed
    rw [mk.injEq] at given
    refine .inl ⟨given.1.symm.trans (takeMsg_missed missed), ?_⟩
    rw [← given.2]
    exact own

variable {msg : Msg} {fresh : Option Msg}

theorem CachesKept.take (kept : CachesKept start dev) (own : ∀ msg, fresh = some msg → msg.parent = none)
    (given : allocMsg dev.caches inSize fresh = (after.caches, some msg))
    (next : after.next = dev.next + 1) (holds : after.holds msg dev.next)
    (others : ∀ m x, x < dev.next → (after.holds m x ↔ dev.holds m x)) : CachesKept start after := by
  have count (m : Msg) : count (after.holds m) after.next =
      count (dev.holds m) dev.next + if m = msg then 1 else 0 := by
    rw [next, Nat.count_succ, count_congr_below (others m)]
    apply congrArg (count (dev.holds m) dev.next + ·)
    apply if_congr _ rfl rfl
    constructor
    · intro held
      have here := held.2
      rw [holds.2] at here
      exact (some.inj here).symm
    · intro same
      rw [same]
      exact holds
  obtain ⟨same, orphan⟩ | ⟨k, ch, taken, rest, there, head, found, set⟩ := allocMsg_cases own given
  · refine kept.of_holds same ?_
    intro m cached
    have apart : m ≠ msg := by
      intro equal
      rw [equal] at cached
      exact cached (orphan msg rfl)
    rw [count m, if_neg apart]
    rfl
  have msg_eq : msg = taken := some.inj found
  subst msg_eq
  have cached : msg.parent = some k := by
    refine kept.parent k ch there msg ?_
    rw [head]
    exact List.mem_cons_self
  refine kept.set there set ?_ ?_ ?_ ?_
  · intro free
    rw [free, head, List.length_cons, Nat.add_sub_cancel]
  · intro m mem
    rw [head]
    exact .inl (List.mem_cons_of_mem _ mem)
  · intro m _
    change rest.count m + _ = _
    rw [count m, head, List.count_cons]
    by_cases equal : m = msg
    · rw [if_pos equal, if_pos (by rw [equal]; exact beq_self_eq_true msg)]
      omega
    · rw [if_neg equal, if_neg (by simpa using fun other => equal other.symm)]
      omega
  · intro m known
    have apart : m ≠ msg := by
      intro equal
      rw [equal] at known
      exact known cached
    rw [count m, if_neg apart]
    rfl

variable {middle : List MsgCache}

theorem CachesKept.cycle (kept : CachesKept start dev) (own : ∀ msg, fresh = some msg → msg.parent = none)
    (given : allocMsg dev.caches inSize fresh = (middle, some msg)) (caches : after.caches = freeMsg middle msg)
    (holds : ∀ m, count (after.holds m) after.next = count (dev.holds m) dev.next) :
    CachesKept start after := by
  obtain ⟨same, orphan⟩ | ⟨k, ch, taken, rest, there, head, found, set⟩ := allocMsg_cases own given
  · refine kept.of_holds ?_ fun m _ => holds m
    rw [caches, same]
    unfold freeMsg
    rw [orphan msg rfl]
  have bound : k < dev.caches.length := (List.getElem?_eq_some_iff.mp there).1
  have msg_eq : msg = taken := some.inj found
  subst msg_eq
  have cached : msg.parent = some k := by
    refine kept.parent k ch there msg ?_
    rw [head]
    exact List.mem_cons_self
  have back : after.caches = dev.caches.set k
      { ch with head := rest ++ [msg], free := ch.free - 1 + 1 } := by
    rw [caches, set]
    unfold freeMsg
    rw [cached]
    dsimp only
    rw [List.modify_eq_set_getElem?, List.getElem?_set_self bound]
    change (dev.caches.set k _).set k _ = _
    rw [List.set_set]
  have rotated : (rest ++ [msg]).Perm ch.head := by
    rw [head]
    exact List.perm_append_singleton msg rest
  refine kept.set there back ?_ ?_ ?_ fun m _ => holds m
  · intro free
    rw [rotated.length_eq, free, head]
    rfl
  · exact fun m mem => .inl (rotated.subset mem)
  · intro m _
    rw [holds m]
    exact congrArg (· + _) (rotated.count_eq m)

theorem Kept.extend (kept : Kept start dev) (next : after.next = dev.next + 1)
    (entArr : after.entArr = dev.entArr)
    (ents : ∀ x, x ≠ dev.next → after.ents x = dev.ents x)
    (calls : ∀ x, x ≠ dev.next → after.calls x = dev.calls x)
    (settled : Settled (after.ents dev.next) (after.calls dev.next))
    (inflight : ∀ ctx, after.numInflight ctx = dev.numInflight ctx + if after.flies ctx dev.next then 1 else 0)
    (caches : CachesKept start after) : Kept start after := by
  constructor
  case settled =>
    intro x below
    rw [next] at below
    by_cases same : x = dev.next
    · rw [same]
      exact settled
    · rw [ents x same, calls x same]
      exact kept.settled x (by omega)
  case fresh =>
    intro x above
    rw [next] at above
    rw [ents x (by omega)]
    exact kept.fresh x (by omega)
  case placed =>
    intro i x there
    rw [entArr] at there
    obtain ⟨below, late⟩ := kept.placed i x there
    rw [next, ents x (by omega)]
    exact ⟨by omega, late⟩
  case inflight =>
    intro ctx
    rw [inflight ctx, kept.inflight ctx, next, Nat.count_succ, add_assoc]
    apply congrArg (1 + ·)
    apply congrArg (· + if after.flies ctx dev.next then 1 else 0)
    apply count_congr_below
    intro x below
    unfold Dev.flies
    rw [ents x (by omega), calls x (by omega)]
  case caches => exact caches

structure Added (dev after : Dev) (call : Call) : Prop where
  next : after.next = dev.next + 1
  entArr : after.entArr = dev.entArr
  numInflight : after.numInflight = dev.numInflight
  other : ∀ x, x ≠ dev.next → after.calls x = dev.calls x
  self : after.calls dev.next = call

def failedCall (args : CallArgs) (msg : Msg) (outb : Bool) (err : Int) : Call :=
  { ctx := args.api.ctx
    inb := some msg
    outb := outb
    inFrees := if args.api.ctx.isSome then 0 else 1
    outFrees := if args.api.ctx.isSome then 0 else if outb then 1 else 0
    callbacks := []
    result := some err }

inductive ExecCase (dev : Dev) (args : CallArgs) (after : Dev) : Prop
  | refused (err : Int) (added : Added dev after { Call.none with ctx := args.api.ctx, result := some err })
      (ents : after.ents = dev.ents) (caches : after.caches = dev.caches)
      (why : args.down = true ∧ err = internalErrRetValue args.op ∨ err = enomem)
  | failed (msg : Msg) (middle : List MsgCache) (outb : Bool) (err : Int)
      (allocated : allocMsg dev.caches args.inSize (freshMsg dev args) = (middle, some msg))
      (added : Added dev after (failedCall args msg outb err)) (ents : after.ents = dev.ents)
      (caches : after.caches = if args.api.ctx.isSome then middle else freeMsg middle msg)
      (up : args.down = false)
      (why : args.copyErr ≠ 0 ∨ args.outMemory = false ∨ ∃ error, cmdInvoke args = .inr error)
  | started (msg : Msg) (ent : Ent)
      (allocated : allocMsg dev.caches args.inSize (freshMsg dev args) = (after.caches, some msg))
      (invoked : cmdInvoke args = .inl ent)
      (added : Added dev after
        { Call.none with
          ctx := args.api.ctx, inb := some msg, outb := true
          result := if ent.callback then some 0 else none })
      (ents : after.ents = update dev.ents dev.next ent)

private theorem failCall_self (dev c err) : (failCall dev c err).calls c = { dev.calls c with
        outFrees := (dev.calls c).outFrees +
          if (dev.calls c).ctx.isSome then 0 else if (dev.calls c).outb then 1 else 0
        inFrees := (dev.calls c).inFrees +
          if (dev.calls c).ctx.isSome then 0 else if (dev.calls c).inb.isSome then 1 else 0
        result := some err } := by
  unfold failCall
  dsimp only
  rw [setCall_self]
  split
  · rfl
  · change { (update dev.calls c _ c : Call) with result := some err } = _
    rw [update_self]

private theorem failCall_other (dev) {c x} (err) (apart : x ≠ c) : (failCall dev c err).calls x = dev.calls x := by
  unfold failCall
  dsimp only
  rw [setCall_other _ _ apart]
  split
  · rfl
  · exact setCall_other _ _ apart

theorem failCall_caches (dev c err) : (failCall dev c err).caches =
      if (dev.calls c).ctx.isSome then dev.caches
      else
        match (dev.calls c).inb with
        | some msg => freeMsg dev.caches msg
        | none => dev.caches := by
  unfold failCall
  dsimp only
  split <;> rfl

theorem failCall_rest (dev c err) :
    (failCall dev c err).next = dev.next ∧ (failCall dev c err).entArr = dev.entArr ∧
      (failCall dev c err).numInflight = dev.numInflight ∧
      (failCall dev c err).ents = dev.ents := by
  unfold failCall
  dsimp only
  split <;> exact ⟨rfl, rfl, rfl, rfl⟩

def Call.fail (call : Call) (err : Int) : Call :=
  { call with
    outFrees := call.outFrees + if call.ctx.isSome then 0 else if call.outb then 1 else 0
    inFrees := call.inFrees + if call.ctx.isSome then 0 else if call.inb.isSome then 1 else 0
    result := some err }

theorem Added.failCall (added : Added dev after call) (err) :
    Added dev (failCall after dev.next err) (call.fail err) := by
  obtain ⟨next, entArr, numInflight, _⟩ := failCall_rest after dev.next err
  refine ⟨next.trans added.next, entArr.trans added.entArr, numInflight.trans added.numInflight, ?_, ?_⟩
  · intro x apart
    rw [failCall_other _ _ apart]
    exact added.other x apart
  · rw [failCall_self, added.self]
    rfl

theorem Added.setCall (added : Added dev after call) (new) : Added dev (after.setCall dev.next new) new :=
  ⟨added.next, added.entArr, added.numInflight, fun x apart => by
    rw [setCall_other _ _ apart]
    exact added.other x apart, setCall_self ..⟩

def bareCall (args : CallArgs) : Call := { Call.none with ctx := args.api.ctx }

private theorem bareCall_fail (args err) :
    (bareCall args).fail err = { Call.none with ctx := args.api.ctx, result := some err } := by
  unfold Call.fail bareCall
  cases args.api.ctx <;> rfl

private theorem messageCall_fail (args msg outb err) :
    ({ bareCall args with inb := some msg, outb := outb } : Call).fail err =
      failedCall args msg outb err := by
  unfold Call.fail bareCall failedCall
  cases args.api.ctx <;> cases outb <;> rfl

private theorem failCall_bare (args) (added : Added dev after (bareCall args))
    (ents : after.ents = dev.ents) (caches : after.caches = dev.caches) {err}
    (why : args.down = true ∧ err = internalErrRetValue args.op ∨ err = enomem) :
    ExecCase dev args (failCall after dev.next err) := by
  refine .refused err ?_ ?_ ?_ why
  · rw [← bareCall_fail]
    exact added.failCall err
  · exact (failCall_rest after dev.next err).2.2.2.trans ents
  · rw [failCall_caches, added.self]
    split
    · exact caches
    · exact caches

private theorem failCall_message (args) {outb}
    (added : Added dev after { bareCall args with inb := some msg, outb := outb })
    (ents : after.ents = dev.ents)
    (given : allocMsg dev.caches args.inSize (freshMsg dev args) = (after.caches, some msg))
    (err : Int) (up : args.down = false)
    (why : args.copyErr ≠ 0 ∨ args.outMemory = false ∨ ∃ error, cmdInvoke args = .inr error) :
    ExecCase dev args (failCall after dev.next err) := by
  refine .failed msg after.caches outb err given ?_ ?_ ?_ up why
  · rw [← messageCall_fail]
    exact added.failCall err
  · exact (failCall_rest after dev.next err).2.2.2.trans ents
  · rw [failCall_caches, added.self]
    rfl

variable {args : CallArgs}

theorem freshMsg_parent (fresh : freshMsg dev args = some msg) : msg.parent = none := by
  unfold freshMsg at fresh
  split at fresh
  · rw [← some.inj fresh]
  · cases fresh

theorem beginCall_added (dev args) : Added dev (beginCall dev args) (bareCall args) :=
  ⟨rfl, rfl, rfl, fun _ apart => setCall_other _ _ apart, setCall_self ..⟩

theorem giveIn_added (dev args caches msg) : Added dev (giveIn (beginCall dev args) dev.next caches msg)
      { bareCall args with inb := some msg, outb := false } := by
  have base := beginCall_added dev args
  refine ⟨rfl, rfl, rfl, ?_, ?_⟩
  · intro x apart
    exact (setCall_other _ _ apart).trans (base.other x apart)
  · unfold giveIn
    rw [base.self]
    exact setCall_self ..

private theorem giveOut_added (dev args caches msg) :
    Added dev (giveOut (giveIn (beginCall dev args) dev.next caches msg) dev.next)
      { bareCall args with inb := some msg, outb := true } := by
  have base := giveIn_added dev args caches msg
  unfold giveOut
  rw [base.self]
  exact base.setCall _

theorem cmdExec_cases (dev args) : ExecCase dev args (cmdExec dev args) := by
  unfold cmdExec
  dsimp only
  split
  · rename_i down
    exact failCall_bare args (beginCall_added dev args) rfl rfl (.inl ⟨down, rfl⟩)
  rename_i notDown
  have up : args.down = false := by
    rw [Bool.not_eq_true] at notDown
    exact notDown
  split
  · rename_i caches allocated
    have same : caches = dev.caches := by
      obtain ⟨same, _⟩ | ⟨_, _, _, _, _, _, found, _⟩ := allocMsg_cases (fun msg => freshMsg_parent) allocated
      · exact same
      · cases found
    have base := beginCall_added dev args
    have kept : Added dev { beginCall dev args with caches := caches } (bareCall args) :=
      ⟨rfl, rfl, rfl, base.other, base.self⟩
    exact failCall_bare args kept rfl same (.inr rfl)
  rename_i caches msg allocated
  have given := giveIn_added dev args caches msg
  split
  · rename_i copy
    exact failCall_message args given rfl allocated args.copyErr up (.inl copy)
  split
  · rename_i memory
    exact failCall_message args given rfl allocated enomem up (.inr (.inl memory))
  have both := giveOut_added dev args caches msg
  split
  · rename_i err failed
    exact failCall_message args both rfl allocated err up (.inr (.inr ⟨err, failed⟩))
  rename_i ent invoked
  refine .started msg ent ?_ invoked ?_ ?_
  · unfold startEnt
    dsimp only
    split <;> exact allocated
  · unfold startEnt
    dsimp only
    split
    · have entered : Added dev ((giveOut (giveIn (beginCall dev args) dev.next caches msg)
          dev.next).setEnt dev.next ent)
          { bareCall args with inb := some msg, outb := true } :=
        { both with }
      rw [entered.self]
      exact entered.setCall _
    · exact { both with }
  · unfold startEnt
    split <;> rfl

/-- Steps that lose no message or callback: a call with callback must not fail once it has its input
message, nor succeed on an interface that is down; no result is polled for a callback that was called. -/
def Conserving (dev : Dev) : Step → Prop
  | .exec args => args.api.ctx.isSome = true → (args.down = true → internalErrRetValue args.op ≠ 0) ∧
      (args.down = false → (allocMsg dev.caches args.inSize (freshMsg dev args)).2.isSome = true →
        args.copyErr = 0 ∧ args.outMemory = true ∧ args.op ≠ opManagePages ∧
          args.entMemory = true ∧ args.queued = true)
  | .polled e timedOut _ _ => timedOut = false → ∀ i x, (dev.ents e).idx = some i →
      dev.entArr i = some x → (dev.ents x).callback = true → (dev.ents x).pendingComp = true
  | _ => True

theorem cmdInvoke_callback (invoked : cmdInvoke args = .inl ent) :
    ent.callback = args.api.ctx.isSome ∧ (args.api.ctx.isSome = true → ent.polling = false) := by
  unfold cmdInvoke at invoked
  dsimp only at invoked
  split at invoked
  · cases invoked
  split at invoked
  · cases invoked
  · split at invoked
    · cases invoked
    · cases invoked
      refine ⟨rfl, ?_⟩
      cases api : args.api <;> simp [Api.ctx, Api.forcePolling]

theorem Conserving.invokes (ok : Conserving dev (.exec args))
    (async : args.api.ctx.isSome = true) (up : args.down = false)
    (given : allocMsg dev.caches args.inSize (freshMsg dev args) = (middle, some msg)) :
    ¬(args.copyErr ≠ 0 ∨ args.outMemory = false ∨ ∃ error, cmdInvoke args = .inr error) := by
  obtain ⟨copied, out, regular, entered, queued⟩ := (ok async).2 up (by rw [given]; rfl)
  rintro (copy | memory | ⟨error, failed⟩)
  · exact copy copied
  · rw [out] at memory
    cases memory
  · unfold cmdInvoke at failed
    rw [if_neg (fun both => absurd (of_decide_eq_true both.2) regular), entered, queued,
      if_neg (by decide), if_neg (fun both => by cases both.2)] at failed
    cases failed

section

variable (kept : Kept start dev)

include kept

theorem Kept.exec {old numInflight} (ok : Conserving dev (.exec args))
    (way : ExecCase { dev with numInflight := old } args after)
    (inflight : ∀ ctx, numInflight ctx = dev.numInflight ctx + if after.flies ctx dev.next then 1 else 0) :
    Kept start { after with numInflight := numInflight } := by
  have none : (dev.ents dev.next).bare = Ent.none := kept.fresh dev.next le_rfl
  have idle (call : Call) (ents : after.ents = dev.ents)
      (inFrees : call.inFrees = if call.inb.isSome = true then 1 else 0)
      (outFrees : call.outFrees = if call.outb = true then 1 else 0)
      (callbacks : call.callbacks = [])
      (failed : call.ctx.isSome = true → ∃ err, call.result = some err ∧ err ≠ 0) :
      Settled (after.ents dev.next) call := by
    have settled : Settled Ent.none call := by
      constructor
      · rw [inFrees]
        exact if_congr ⟨fun some => ⟨some, rfl⟩, fun both => both.1⟩ rfl rfl
      · rw [outFrees]
        exact if_congr ⟨fun some => ⟨some, rfl⟩, fun both => both.1⟩ rfl rfl
      · nofun
      · nofun
      · exact fun _ => callbacks
      · exact fun async _ => failed async
      · nofun
      · rintro (clash | clash) <;> cases clash
      · nofun
      · nofun
    rw [ents]
    exact settled.of_bare none
  have counts (ents : after.ents = dev.ents) (next : after.next = dev.next + 1)
      (other : ∀ x, x ≠ dev.next → after.calls x = dev.calls x) (m : Msg) :
      count (after.holds m) after.next = count (dev.holds m) dev.next := by
    have unheld : ¬after.holds m dev.next := by
      rintro ⟨held, _⟩
      have idle : (dev.ents dev.next).held = false := congrArg Ent.held none
      rw [ents, idle] at held
      cases held
    rw [next, Nat.count_succ, if_neg unheld]
    apply count_congr_below
    intro x below
    unfold Dev.holds
    rw [ents, other x (Nat.ne_of_lt below)]
  cases way with
  | refused err added ents caches why =>
    refine kept.extend added.next added.entArr (fun x _ => congrFun ents x) added.other ?_ inflight ?_
    · change Settled (after.ents dev.next) (after.calls dev.next)
      rw [added.self]
      refine idle _ ents rfl rfl rfl ?_
      intro async
      refine ⟨err, rfl, ?_⟩
      obtain ⟨down, value⟩ | value := why
      · rw [value]
        exact (ok async).1 down
      · rw [value]
        decide
    · exact kept.caches.of_holds caches fun msg _ => counts ents added.next added.other msg
  | failed msg middle outb err allocated added ents caches up why =>
    cases async : args.api.ctx.isSome with
    | true => exact absurd why (ok.invokes async up allocated)
    | false =>
      rw [async, if_neg Bool.false_ne_true] at caches
      refine kept.extend added.next added.entArr (fun x _ => congrFun ents x) added.other ?_ inflight ?_
      · change Settled (after.ents dev.next) (after.calls dev.next)
        rw [added.self]
        refine idle _ ents ?_ ?_ rfl ?_
        · unfold failedCall
          rw [async]
          rfl
        · unfold failedCall
          rw [async]
          rfl
        · change args.api.ctx.isSome = true → _
          rw [async]
          exact nofun
      · exact kept.caches.cycle (fun msg => freshMsg_parent) allocated caches
          (counts ents added.next added.other)
  | started msg ent allocated invoked added ents =>
    have entry := cmdInvoke_invoked invoked
    obtain ⟨callback, unforced⟩ := cmdInvoke_callback invoked
    have own : after.ents dev.next = ent := by
      rw [ents]
      exact update_self ..
    have other (x : Nat) (apart : x ≠ dev.next) : after.ents x = dev.ents x := by
      rw [ents]
      exact update_of_ne apart ..
    refine kept.extend added.next added.entArr other added.other ?_ inflight ?_
    · change Settled (after.ents dev.next) (after.calls dev.next)
      rw [added.self, own]
      constructor
      · rw [entry.held]
        rfl
      · rw [entry.held]
        rfl
      · exact fun _ => ⟨rfl, rfl⟩
      · intro async
        refine ⟨?_, ?_, ?_, ?_, ?_⟩
        · rw [← callback]
          exact async
        · exact if_pos async
        · exact entry.completions.symm
        · rw [entry.completions]
          exact Nat.zero_le 1
        · exact unforced (by rw [← callback]; exact async)
      · exact fun _ => rfl
      · change args.api.ctx.isSome = true → _
        rw [← callback]
        intro async sync
        rw [async] at sync
        cases sync
      · exact fun _ _ => .inl entry.early
      · exact fun _ => ⟨entry.completions, entry.pending⟩
      · exact fun _ _ => entry.completions
      · intro waits
        have sync := entry.waits waits
        refine ⟨sync, ?_⟩
        rw [callback, Option.isSome_eq_false_iff, Option.isNone_iff_eq_none] at sync
        exact sync
    · refine kept.caches.take (fun msg => freshMsg_parent) allocated added.next ?_ ?_
      · refine ⟨?_, ?_⟩
        · change (after.ents dev.next).held = true
          rw [own]
          exact entry.held
        · change (after.calls dev.next).inb = some msg
          rw [added.self]
      · intro m x below
        unfold Dev.holds
        dsimp only
        rw [other x (Nat.ne_of_lt below), added.other x (Nat.ne_of_lt below)]

theorem not_flies_of_ents (ents : after.ents = dev.ents) (ctx) : ¬after.flies ctx dev.next := by
  rintro ⟨async, _⟩
  have none : (dev.ents dev.next).bare.callback = Ent.none.callback :=
    congrArg Ent.callback (kept.fresh dev.next le_rfl)
  change (dev.ents dev.next).callback = false at none
  rw [ents, none] at async
  cases async

omit kept in
private theorem inflight_of_grounded (grounded : ∀ ctx, ¬after.flies ctx dev.next)
    (same : after.numInflight = dev.numInflight) (ctx) :
    after.numInflight ctx = dev.numInflight ctx + if after.flies ctx dev.next then 1 else 0 := by
  rw [if_neg (grounded ctx), same]
  rfl

theorem Kept.execSync (ok : Conserving dev (.exec args)) (sync : args.api.ctx = none) :
    Kept start (cmdExec dev args) := by
  have way := cmdExec_cases dev args
  have grounded (ctx : Nat) : ¬(cmdExec dev args).flies ctx dev.next := by
    cases way with
    | refused err added ents caches why => exact not_flies_of_ents kept ents ctx
    | failed msg middle outb err given added ents caches up why =>
      exact not_flies_of_ents kept ents ctx
    | started msg ent given invoked added ents =>
      rintro ⟨_, _, known⟩
      rw [added.self] at known
      rw [sync] at known
      cases known
  have same : (cmdExec dev args).numInflight = dev.numInflight := by
    cases way with
    | refused err added => exact added.numInflight
    | failed msg middle outb err given added => exact added.numInflight
    | started msg ent given invoked added => exact added.numInflight
  have done := kept.exec ok way (inflight_of_grounded grounded same)
  exact done

theorem Kept.execAsync {ctx} (ok : Conserving dev (.exec args)) (api : args.api = .execCb ctx) :
    Kept start (Entries.exec dev args) := by
  have async : args.api.ctx = some ctx := by rw [api]; rfl
  have pos : dev.numInflight ctx ≠ 0 := by
    rw [kept.inflight ctx]
    omega
  let begun : Dev := { dev with numInflight := update dev.numInflight ctx (dev.numInflight ctx + 1) }
  have way : ExecCase begun args (cmdExec begun args) := cmdExec_cases begun args
  have exec_eq : Entries.exec dev args = if ((cmdExec begun args).calls dev.next).result ≠ some 0 then
        { cmdExec begun args with
          numInflight := update (cmdExec begun args).numInflight ctx
            ((cmdExec begun args).numInflight ctx - 1) }
      else cmdExec begun args := by
    unfold Entries.exec
    rw [api]
    dsimp only
    rw [if_neg pos]
  -- a call that failed gives its count back at once
  have lowered (same : (cmdExec begun args).numInflight = begun.numInflight)
      (grounded : ∀ other, ¬(cmdExec begun args).flies other dev.next) (other : Nat) :
      update (cmdExec begun args).numInflight ctx ((cmdExec begun args).numInflight ctx - 1) other =
        dev.numInflight other + if (cmdExec begun args).flies other dev.next then 1 else 0 := by
    have raised : begun.numInflight ctx = dev.numInflight ctx + 1 := update_self ..
    rw [if_neg (grounded other), same, raised]
    by_cases own : other = ctx
    · rw [own, update_self]
      rfl
    · rw [update_of_ne own]
      exact update_of_ne own ..
  rw [exec_eq]
  cases way with
  | refused err added ents caches why =>
    have failed : ((cmdExec begun args).calls dev.next).result ≠ some 0 := by
      have self : (cmdExec begun args).calls dev.next = _ := added.self
      rw [self]
      intro zero
      have value : err = 0 := some.inj zero
      obtain ⟨down, isErr⟩ | isErr := why
      · exact (ok (by rw [async]; rfl)).1 down (isErr.symm.trans value)
      · rw [isErr] at value
        exact absurd value (by decide)
    rw [if_pos failed]
    exact kept.exec ok (cmdExec_cases begun args)
      (lowered added.numInflight fun other => not_flies_of_ents kept ents other)
  | failed msg middle outb err given added ents caches up why =>
    exact absurd why (ok.invokes (by rw [async]; rfl) up given)
  | started msg ent given invoked added ents =>
    have entry := cmdInvoke_invoked invoked
    have callback : ent.callback = true := by
      rw [(cmdInvoke_callback invoked).1, async]
      rfl
    have self : (cmdExec begun args).calls dev.next = _ := added.self
    have own : (cmdExec begun args).ents dev.next = ent := by
      rw [ents]
      exact update_self ..
    have zero : ((cmdExec begun args).calls dev.next).result = some 0 := by
      rw [self]
      exact if_pos callback
    rw [if_neg (not_not_intro zero)]
    have counted (other : Nat) : (cmdExec begun args).numInflight other =
        dev.numInflight other + if (cmdExec begun args).flies other dev.next then 1 else 0 := by
      rw [added.numInflight]
      by_cases mine : other = ctx
      · have flies : (cmdExec begun args).flies other dev.next := by
          refine ⟨by rw [own]; exact callback, by rw [own]; exact entry.completions, ?_⟩
          rw [self, mine]
          exact async
        rw [if_pos flies, mine]
        exact update_self ..
      have grounded : ¬(cmdExec begun args).flies other dev.next := by
        rintro ⟨_, _, known⟩
        rw [self] at known
        rw [async] at known
        exact mine (some.inj known).symm
      rw [if_neg grounded]
      exact update_of_ne mine ..
    have done := kept.exec ok (cmdExec_cases begun args) counted
    exact done

/-! ### Runs -/

theorem Kept.step {move} (ok : Conserving dev move) (moved : step config dev move = some after) :
    Kept start after := by
  cases move with
  | exec args =>
    rw [← some.inj moved]
    cases api : args.api with
    | execCb ctx => exact kept.execAsync ok api
    | exec | execPolling =>
      have same : Entries.exec dev args = cmdExec dev args := by
        unfold Entries.exec
        rw [api]
      rw [same]
      exact kept.execSync ok (by rw [api]; rfl)
  | handle e =>
    obtain ⟨queued, rfl⟩ := ite_some_none_eq_some.mp moved
    exact kept.handle queued
  | post e down downAfter reply =>
    obtain ⟨working, moved⟩ := ite_none_left_eq_some.mp moved
    have blocked : (dev.ents e).work = .blocked := not_not.mp working
    split at moved
    · split at moved
      · cases moved
      · rw [← some.inj moved]
        exact kept.post blocked config.maxRegCmds dev.sem (dev.pagesSem - 1) down downAfter reply
    split at moved
    · cases moved
    split at moved
    · rename_i i _
      rw [← some.inj moved]
      exact kept.post blocked i (dev.sem - 1) dev.pagesSem down downAfter reply
    · rw [← some.inj moved]
      have passed : Kept start { dev with sem := dev.sem - 1 } :=
        kept.of_same ⟨rfl, rfl, rfl, rfl, rfl⟩ fun _ => rfl
      exact passed.slotFailed blocked
  | polled e timedOut down reply =>
    obtain ⟨polling, rfl⟩ := ite_some_none_eq_some.mp moved
    have born := kept.born_of_work (e := e) (by rw [polling]; decide)
    have settled := kept.settled e born
    have late : ∀ ret : Int, ¬({ dev.ents e with work := .idle, ret := ret } : Ent).early := by
      rintro ret (clash | clash) <;> cases clash
    have notEarly : ¬(dev.ents e).early := by
      rintro (queued | blocked)
      · rw [polling] at queued
        cases queued
      · rw [polling] at blocked
        cases blocked
    have idle : Kept start (dev.setEnt e { dev.ents e with
        work := .idle, ret := if timedOut then etimedout else 0 }) := by
      refine kept.setEnt born ?_ (fun early => absurd early (late _)) rfl rfl fun _ => rfl
      exact { settled with
        flying async none := .inr ((settled.flying async none).resolve_left notEarly)
        early early := absurd early (late _) }
    refine idle.compHandlerOf ?_ down reply
    intro isPolling i x idx there
    rw [setEnt_self] at idx
    have res : timedOut = false := by
      cases timedOut with
      | false => rfl
      | true => cases isPolling
    intro async
    by_cases same : x = e
    · subst same
      rw [setEnt_self] at async ⊢
      exact ok res i x idx there async
    · rw [setEnt_other _ _ same] at async ⊢
      exact ok res i x idx there async
  | event e down reply =>
    obtain ⟨-, rfl⟩ := ite_some_none_eq_some.mp moved
    have delivered : Kept start (dev.setEnt e { dev.ents e with event := false }) :=
      kept.setEnt_bare rfl
    exact delivered.compHandlerOf (fun clash => by cases clash) down reply
  | expire e =>
    obtain ⟨-, rfl⟩ := ite_some_none_eq_some.mp moved
    exact kept.setEnt_bare rfl
  | cbTimeout e down reply =>
    obtain ⟨-, rfl⟩ := ite_some_none_eq_some.mp moved
    unfold cbTimeoutHandler
    dsimp only
    split
    · apply Kept.put
      apply (kept.force down reply).setEnt_bare
      rfl
    · apply Kept.put
      apply kept.setEnt_bare
      rfl
  | waitCanceled e =>
    obtain ⟨both, rfl⟩ := ite_some_none_eq_some.mp moved
    exact kept.waitCanceled (Ent.waiter_of_waits both.1)
  | waitDone e output =>
    obtain ⟨both, rfl⟩ := ite_some_none_eq_some.mp moved
    exact kept.returnWaiter (Ent.waiter_of_waits both.1) output
  | waitTimeout e down reply =>
    obtain ⟨all, rfl⟩ := ite_some_none_eq_some.mp moved
    exact kept.waitTimeout (Ent.waiter_of_waits all.1) down reply
  | trigger =>
    obtain ⟨-, rfl⟩ := ite_some_none_eq_some.mp moved
    have loop (slots : List Nat) : ∀ {dev : Dev}, Kept start dev →
        Kept start (slots.foldl triggerSlot dev) := by
      induction slots with
      | nil => exact fun kept => kept
      | cons i rest ih =>
        intro dev kept
        apply ih
        unfold triggerSlot
        split
        · exact kept
        · rename_i x _
          have got : Kept start (cmdEntGet dev x) := kept.setEnt_bare rfl
          exact got.of_same ⟨rfl, rfl, rfl, rfl, rfl⟩ fun _ => rfl
    exact loop _ kept
  | triggerComplete i down reply =>
    obtain ⟨-, moved⟩ := ite_none_left_eq_some.mp moved
    cases moved
    have same : Kept start { dev with
        toComplete := update dev.toComplete i (dev.toComplete i - 1)
        toPut := update dev.toPut i (dev.toPut i + 1) } :=
      kept.of_same ⟨rfl, rfl, rfl, rfl, rfl⟩ fun _ => rfl
    exact same.compHandler (fun clash => by cases clash) down true reply
  | triggerPut i =>
    obtain ⟨-, moved⟩ := ite_none_left_eq_some.mp moved
    split at moved
    · rw [← some.inj moved]
      have same : Kept start { dev with
          toPut := update dev.toPut i (dev.toPut i - 1) } :=
        kept.of_same ⟨rfl, rfl, rfl, rfl, rfl⟩ fun _ => rfl
      exact same.put
    · cases moved

end

theorem Kept.init (config isSf filled) :
    Kept (createMsgCache isSf filled) (Dev.init config (createMsgCache isSf filled)) := by
  constructor
  case settled => exact fun x below => absurd below (Nat.not_lt_zero x)
  case fresh => exact fun _ _ => rfl
  case placed =>
    intro i x never
    cases never
  case inflight =>
    intro ctx
    rfl
  case caches =>
    have known (k : Nat) (ch : MsgCache) (there : (createMsgCache isSf filled)[k]? = some ch) :
        ch.free = ch.head.length ∧ ∀ msg ∈ ch.head, msg.parent = some k := by
      unfold createMsgCache at there
      rw [List.getElem?_mapIdx] at there
      obtain ⟨size, _, made⟩ := map_eq_some_iff.mp there
      rw [← made]
      split
      · exact ⟨rfl, fun msg never => absurd never List.not_mem_nil⟩
      · refine ⟨?_, ?_⟩
        · rw [List.length_map, List.length_range]
        · intro msg mem
          obtain ⟨j, _, built⟩ := List.mem_map.mp mem
          rw [← built]
    constructor
    · rfl
    · exact fun k ch there => (known k ch there).1
    · exact fun k ch there => (known k ch there).2
    · intro k msg _
      exact congrArg (headCount _ k msg + ·) (Nat.count_zero _)

theorem Reachable.kept {isSf filled}
    (reached : Reachable config (createMsgCache isSf filled) Conserving dev) :
    Kept (createMsgCache isSf filled) dev := by
  induction reached with
  | init => exact Kept.init config isSf filled
  | step move old ok moved ih => exact ih.step ok moved

def Finished (dev : Dev) : Prop :=
  ∀ x, x < dev.next → (dev.ents x).waiter = false ∧ ¬(dev.ents x).inProgress

theorem Kept.unheld (kept : Kept start dev) (finished : Finished dev) {x}
    (below : x < dev.next) : (dev.ents x).held = false := by
  obtain ⟨unwaited, quiesced⟩ := finished x below
  unfold Ent.held
  cases async : (dev.ents x).callback with
  | false => exact unwaited
  | true =>
    rw [if_pos rfl]
    apply decide_eq_false
    intro none
    obtain early | pending := (kept.settled x below).flying async none
    · exact quiesced (Or.inl early)
    · exact quiesced (Or.inr (Or.inl pending))

end MlnxOfed.Command.Entries
