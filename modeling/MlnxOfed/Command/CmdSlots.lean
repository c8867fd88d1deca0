/-
The slots of the command queue over every interleaving: which steps keep an entry alive while it is referred
to, complete it once and give no slot away whose event is still to come.
-/

import MlnxOfed.Command.CmdCompletion

namespace MlnxOfed.Command.Entries

open Option Function Ent

variable {config : Config} {dev : Dev} {e : Nat}

/-- Completions and the semaphore of one entry, at every stage of its life. -/
structure Ent.Counted (ent : Ent) : Prop where
  once : ent.completions ≤ 1
  early : ent.early → ent.completions = 0 ∧ ent.downs = 0 ∧ ent.pendingComp = false
  pending : ent.pendingComp = true → ent.completions = 0
  posted : ent.awaited = true → ent.downs = 1
  polled : ent.work = .polling → ent.completions = 0 → ent.pendingComp = false →
    ent.polling = true ∧ ent.event = false
  forced : ent.polling = true → ent.event = true → ent.pendingComp = true → ent.work = .polling
  downs : ent.downs ≤ 1
  ups : ent.ups = if ent.downs = 1 then ent.completions else 0
  waits : ent.waiter = true → ent.callback = false
  quiesced : ent.completions = 0 → ent.work = .idle → ent.pendingComp = false → ent.downs = 0 ∧ ent.held = false

variable {ent : Ent}

theorem counted_core : ent.core.Counted = ent.Counted := by
  apply propext
  constructor
  · intro c
    exact { c with }
  · intro c
    exact { c with }

/-- The command is between its `down` and its `up` of `pages_sem`. -/
def Ent.inPages (ent : Ent) : Prop :=
  ent.pageQueue = true ∧ ent.ups < ent.downs

structure PagesGuarded (dev : Dev) : Prop where
  one : ∀ x y, (dev.ents x).inPages → (dev.ents y).inPages → x = y
  zero : ∀ x, (dev.ents x).inPages → dev.pagesSem = 0
  bound : dev.pagesSem ≤ 1

structure Sound (config : Config) (dev : Dev) : Prop where
  referenced : Referenced config dev 0 0
  counted : ∀ x, (dev.ents x).Counted
  pages : PagesGuarded dev

theorem Ent.Counted.finished (late : ¬ent.early) (first : ent.completions = 0)
    (down : ent.downs = 1) (up : ent.ups = 0) (idle : ent.pendingComp = false)
    (waits : ent.waiter = true → ent.callback = false) : ent.finished.Counted := by
  constructor
  case once => exact le_of_eq (congrArg (· + 1) first)
  case early => exact fun early => absurd early late
  case pending =>
    intro pending
    change ent.pendingComp = true at pending
    rw [idle] at pending
    cases pending
  case posted => exact fun _ => down
  case polled => exact fun _ none => absurd none (Nat.succ_ne_zero _)
  case forced =>
    intro _ _ pending
    change ent.pendingComp = true at pending
    rw [idle] at pending
    cases pending
  case downs => exact le_of_eq down
  case ups =>
    change ent.ups + 1 = if ent.downs = 1 then ent.completions + 1 else 0
    rw [if_pos down, up, first]
  case waits => exact waits
  case quiesced => exact fun none => absurd none (Nat.succ_ne_zero _)

theorem PagesGuarded.of_core {after} (pages : PagesGuarded dev)
    (core : ∀ x, (after.ents x).core = (dev.ents x).core)
    (pagesSem : after.pagesSem = dev.pagesSem) : PagesGuarded after := by
  have inPages (x : Nat) : (after.ents x).inPages = (dev.ents x).inPages :=
    eq_of_core inPages (core x) fun _ => rfl
  constructor
  · intro x y
    rw [inPages, inPages]
    exact pages.one x y
  · intro x
    rw [inPages, pagesSem]
    exact pages.zero x
  · rw [pagesSem]
    exact pages.bound

theorem PagesGuarded.setEnt (pages : PagesGuarded dev)
    (same : ent.inPages ↔ (dev.ents e).inPages) : PagesGuarded (dev.setEnt e ent) := by
  have inPages (x : Nat) : ((dev.setEnt e ent).ents x).inPages ↔ (dev.ents x).inPages := by
    by_cases own : x = e
    · rw [own, setEnt_self]
      exact same
    · rw [setEnt_other _ _ own]
  constructor
  · intro x y left right
    exact pages.one x y ((inPages x).mp left) ((inPages y).mp right)
  · intro x inside
    exact pages.zero x ((inPages x).mp inside)
  · exact pages.bound

theorem Sound.setEnt (sound : Sound config dev) (born : e < dev.next) (keeps : (dev.ents e).Keeps config ent)
    (refs : ent.refs ≤ (dev.ents e).refs) (counted : ent.Counted) (pages : ent.inPages ↔ (dev.ents e).inPages) :
    Sound config (dev.setEnt e ent) := by
  constructor
  · exact ((sound.referenced.move e).setEnt born keeps refs).move 0
  · intro x
    by_cases same : x = e
    · rw [same, setEnt_self]
      exact counted
    · rw [setEnt_other _ _ same]
      exact sound.counted x
  · exact sound.pages.setEnt pages

theorem Sound.setEnt_put (sound : Sound config dev) (born : e < dev.next)
    (keeps : (dev.ents e).Keeps config ent) (refs : ent.refs + 1 ≤ (dev.ents e).refs)
    (counted : ent.Counted) (pages : ent.inPages ↔ (dev.ents e).inPages) :
    Sound config (cmdEntPut (dev.setEnt e ent) e) := by
  constructor
  · exact ((sound.referenced.move e).setEnt born keeps refs).put.move 0
  · intro x
    rw [← counted_core, cmdEntPut_core, counted_core]
    by_cases same : x = e
    · rw [same, setEnt_self]
      exact counted
    · rw [setEnt_other _ _ same]
      exact sound.counted x
  · exact (sound.pages.setEnt pages).of_core (fun x => cmdEntPut_core ..) (cmdEntPut_pagesSem ..)

variable {down : Bool} {type : CompType}

theorem Sound.complete (sound : Sound config dev) (triggered reply) (born : e < dev.next)
    (keeps : (dev.ents e).Keeps config ent) (refs : ent.refs + eventRefs type down ≤ (dev.ents e).refs)
    (idle : ent.pendingComp = false) (late : ¬ent.early) (first : ent.completions = 0) (downs : ent.downs = 1)
    (ups : ent.ups = 0) (same : ent.inPages ↔ (dev.ents e).inPages)
    (waits : ent.waiter = true → ent.callback = false) :
    Sound config (completeEnt (dev.setEnt e ent) e type down triggered reply) := by
  have spare := (sound.referenced.move e).setEnt born keeps refs
  have core (x : Nat) := completeEnt_core (dev.setEnt e ent) e type down triggered reply x
  have counted : ent.finished.Counted := Counted.finished late first downs ups idle waits
  constructor
  · refine (spare.completeEnt born ?_ ?_ triggered reply).move 0
    · rw [setEnt_self]
      exact late
    · rw [setEnt_self]
      exact first
  · intro x
    rw [← counted_core, core x]
    split_ifs with own
    · rw [setEnt_self]
      rw [counted_core]
      exact counted
    · rw [setEnt_other _ _ own, counted_core]
      exact sound.counted x
  have pages := sound.pages.setEnt same
  have outside : ¬((completeEnt (dev.setEnt e ent) e type down triggered reply).ents e).inPages := by
    intro inside
    have counters : ((completeEnt (dev.setEnt e ent) e type down triggered reply).ents e).inPages =
        ent.finished.inPages := by
      apply eq_of_core inPages _ fun _ => rfl
      rw [core e, if_pos rfl, setEnt_self]
    rw [counters] at inside
    have less : ent.ups + 1 < ent.downs := inside.2
    omega
  have others {x : Nat}
      (inside : ((completeEnt (dev.setEnt e ent) e type down triggered reply).ents x).inPages) :
      x ≠ e ∧ ((dev.setEnt e ent).ents x).inPages := by
    have own : x ≠ e := by
      intro equal
      rw [equal] at inside
      exact outside inside
    have unchanged := core x
    rw [if_neg own] at unchanged
    have counters := eq_of_core inPages unchanged fun _ => rfl
    rw [counters] at inside
    exact ⟨own, inside⟩
  have sem := completeEnt_pagesSem (dev.setEnt e ent) e type down triggered reply
  rw [setEnt_self] at sem
  cases page : ent.pageQueue with
  | true =>
    have inside : ((dev.setEnt e ent).ents e).inPages := by
      rw [setEnt_self]
      exact ⟨page, by omega⟩
    have locked := pages.zero e inside
    rw [page, if_pos rfl, locked] at sem
    constructor
    · intro x y left _
      obtain ⟨own, old⟩ := others left
      exact absurd (pages.one x e old inside) own
    · intro x left
      obtain ⟨own, old⟩ := others left
      exact absurd (pages.one x e old inside) own
    · rw [sem]
  | false =>
    rw [page, if_neg Bool.false_ne_true, add_zero] at sem
    constructor
    · intro x y left right
      exact pages.one x y (others left).2 (others right).2
    · intro x left
      rw [sem]
      exact pages.zero x (others left).2
    · rw [sem]
      exact pages.bound

theorem setEnt_setEnt (dev : Dev) (e : Nat) (old new : Ent) :
    (dev.setEnt e old).setEnt e new = dev.setEnt e new := by
  unfold Dev.setEnt
  rw [update_idem]

variable {reply : Reply} {i : Nat}

theorem compHandler_completes {down triggered} (there : dev.entArr i = some e)
    (completes : if ent.pendingComp then ¬(ent.polling = true ∧ type = .event) else type = .polling) :
    compHandler (dev.setEnt e ent) i type down triggered reply =
      completeEnt (dev.setEnt e { ent with pendingComp := false }) e type down triggered reply := by
  have found : (dev.setEnt e ent).entArr i = some e := there
  unfold compHandler
  rw [found]
  dsimp only
  rw [setEnt_self]
  cases pending : ent.pendingComp with
  | true =>
    rw [pending, if_pos rfl] at completes
    rw [if_pos rfl, if_neg completes, setEnt_setEnt]
  | false =>
    rw [pending, if_neg Bool.false_ne_true] at completes
    subst completes
    have same : { ent with pendingComp := false } = ent := by rw [← pending]
    have notEvent : ¬(CompType.polling = .event ∧ ent.polling = false) := by
      rintro ⟨never, _⟩
      cases never
    rw [if_neg Bool.false_ne_true, if_neg (not_not_intro rfl), if_neg notEvent, same]

theorem compHandler_late {down triggered} (there : dev.entArr i = some e)
    (done : ent.pendingComp = false) (notPolling : type ≠ .polling) :
    compHandler (dev.setEnt e ent) i type down triggered reply =
      if type = .event ∧ ent.polling = false then cmdEntPut (dev.setEnt e ent) e
      else dev.setEnt e ent := by
  have found : (dev.setEnt e ent).entArr i = some e := there
  unfold compHandler
  rw [found]
  dsimp only
  rw [setEnt_self, done, if_neg Bool.false_ne_true, if_pos notPolling]

private theorem compHandler_polled {down triggered} (there : dev.entArr i = some e)
    (pending : ent.pendingComp = true) (polled : ent.polling = true) :
    compHandler (dev.setEnt e ent) i .event down triggered reply =
      dev.setEnt e { ent with pendingComp := false } := by
  have found : (dev.setEnt e ent).entArr i = some e := there
  unfold compHandler
  rw [found]
  dsimp only
  rw [setEnt_self, pending, if_pos rfl, if_pos ⟨polled, rfl⟩, setEnt_setEnt]

theorem compHandlerOf_eq (type down reply) (idx : ent.idx = some i) :
    compHandlerOf (dev.setEnt e ent) e type down reply =
      compHandler (dev.setEnt e ent) i type down false reply := by
  unfold compHandlerOf
  rw [setEnt_self, idx]

theorem Sound.born_of_refs (sound : Sound config dev) (refs : 0 < (dev.ents e).refs) : e < dev.next := by
  have counted := sound.referenced.counted e
  exact (sound.referenced.move e).born (by omega)

theorem Ent.refs_of_awaited (awaited : ent.awaited = true) : 0 < ent.refs := by
  unfold refs
  rw [awaited, if_pos rfl]
  omega

theorem Ent.refs_of_held (held : ent.held = true) : 0 < ent.refs := by
  unfold refs
  rw [held, if_pos rfl]
  omega

theorem Ent.refs_of_timer (timer : ent.cbTimeout ≠ .idle) : 0 < ent.refs := by
  unfold refs
  rw [if_neg timer]
  omega

theorem Ent.awaited_of_pending (pending : ent.pendingComp = true) : ent.awaited = true := by
  unfold awaited
  rw [pending, Bool.true_or, Bool.true_or]

theorem Ent.awaited_of_event (event : ent.event = true) : ent.awaited = true := by
  unfold awaited
  rw [event, Bool.or_true, Bool.true_or]

theorem Ent.awaited_of_polling (polling : ent.work = .polling) : ent.awaited = true := by
  unfold awaited
  rw [polling, decide_eq_true rfl, Bool.or_true]

theorem Ent.awaited_eq_false (pending : ent.pendingComp = false)
    (event : ent.event = false) (work : ent.work ≠ .polling) : ent.awaited = false := by
  unfold awaited
  rw [pending, event, decide_eq_false work]
  rfl

variable {old new : Ent}

theorem Ent.refs_unawaited (awaited : old.awaited = true) (done : new.awaited = false)
    (held : new.held = old.held) (timer : new.cbTimeout = old.cbTimeout) : new.refs + 1 = old.refs := by
  unfold refs
  rw [awaited, done, held, timer, if_pos rfl, if_neg Bool.false_ne_true]

theorem Ent.refs_mono (awaited : new.awaited = true → old.awaited = true)
    (held : new.held = old.held) (timer : new.cbTimeout = old.cbTimeout) : new.refs ≤ old.refs := by
  unfold refs
  rw [held, timer]
  cases done : new.awaited with
  | true =>
    rw [awaited done]
  | false =>
    rw [if_neg Bool.false_ne_true]
    omega

private theorem eventRefs_le_one (type down) : eventRefs type down ≤ 1 := by
  unfold eventRefs
  split <;> omega

theorem Ent.refs_completed (awaited : old.awaited = true) (done : new.awaited = false)
    (held : new.held = old.held) (timer : new.cbTimeout = old.cbTimeout) (type down) :
    new.refs + eventRefs type down ≤ old.refs := by
  rw [← refs_unawaited awaited done held timer]
  exact Nat.add_le_add_left (eventRefs_le_one type down) _

theorem Ent.Counted.late (counted : (dev.ents e).Counted) (awaited : (dev.ents e).awaited = true) :
    ¬(dev.ents e).early := by
  intro early
  have none := (counted.early early).2.1
  rw [counted.posted awaited] at none
  cases none

theorem Ent.Counted.unawaited (counted : (dev.ents e).Counted) (early : (dev.ents e).early) :
    (dev.ents e).awaited = false :=
  Bool.eq_false_iff.mpr fun awaited => counted.late awaited early

/-! ### Steps -/

/-- The steps without a defect. No command is forced to complete while the interface is down and its event
is to come, nor by its caller before it has a slot; a polled result comes after the event of its doorbell
and before other completions, a polling timeout before that event; a page command takes the page slot when
the last one is done with it. -/
def Orderly (config : Config) (dev : Dev) : Step → Prop
  | .post e _ _ _ => (dev.ents e).pageQueue = true → ∀ x, dev.entArr config.maxRegCmds = some x →
      (dev.ents x).event = false ∧ (dev.ents x).work ≠ .polling ∧
        dev.toComplete config.maxRegCmds + dev.toPut config.maxRegCmds = 0
  | .polled e timedOut down _ =>
    if timedOut then
      if (dev.ents e).pendingComp then down = true → (dev.ents e).event = false
      else 0 < (dev.ents e).completions
    else (dev.ents e).completions = 0 ∧ (dev.ents e).event = false
  | .cbTimeout e down _ => down = true → (dev.ents e).pendingComp = false
  | .waitTimeout e down _ => (dev.ents e).work ≠ .blocked ∧ (down = true → (dev.ents e).pendingComp = false)
  | .triggerComplete i down _ => down = true → ∀ x, dev.entArr i = some x → (dev.ents x).pendingComp = false
  | _ => True

theorem Ent.Keeps.update (idx : new.idx = old.idx) (refcnt : new.refcnt = old.refcnt)
    (idxFrees : new.idxFrees = old.idxFrees) (pageQueue : new.pageQueue = old.pageQueue)
    (awaited : new.awaited = true → old.awaited = true) (late : ¬new.early)
    (events : new.event = true → old.event = true)
    (polls : new.work = .polling → old.work = .polling) (polling : new.polling = old.polling) :
    old.Keeps config new :=
  ⟨idx, refcnt, idxFrees, pageQueue, awaited, fun early => absurd early late, events,
    fun working => ⟨polls working, polling⟩⟩

variable (sound : Sound config dev)

include sound

theorem Sound.handle (queued : (dev.ents e).work = .queued) :
    Sound config (dev.setEnt e { dev.ents e with work := .blocked }) := by
  have early : (dev.ents e).early := .inl queued
  have counted := sound.counted e
  obtain ⟨idx, held⟩ := sound.referenced.early e early
  have born := sound.born_of_refs (refs_of_held held)
  have quiet := counted.unawaited early
  have still : ({ dev.ents e with work := .blocked } : Ent).awaited = false := by
    unfold awaited at quiet ⊢
    rw [queued] at quiet
    exact quiet
  refine sound.setEnt born ?_ ?_ ?_ .rfl
  · refine ⟨rfl, rfl, rfl, rfl, ?_, fun _ => ⟨early, held⟩, id, ?_⟩
    · rw [still]
      exact nofun
    · nofun
  · refine refs_mono ?_ rfl rfl
    rw [still]
    exact nofun
  obtain ⟨none, down, pending⟩ := counted.early early
  exact { counted with
    early _ := ⟨none, down, pending⟩
    posted := by
      rw [still]
      exact nofun
    polled := by nofun
    forced _ _ set := by
      rw [pending] at set
      cases set
    quiesced _ idle := by
      cases idle }

theorem Sound.expire (armed : (dev.ents e).cbTimeout = .armed) :
    Sound config (dev.setEnt e { dev.ents e with cbTimeout := .running }) := by
  have timer : (dev.ents e).cbTimeout ≠ .idle := by
    rw [armed]
    decide
  have counted := sound.counted e
  refine sound.setEnt (sound.born_of_refs (refs_of_timer timer)) ?_ ?_ ?_ .rfl
  · exact Keeps.of_core rfl rfl rfl fun early => (sound.referenced.early e early).2
  · unfold refs
    rw [if_neg timer]
    exact le_rfl
  · rw [← counted_core]
    change (dev.ents e).core.Counted
    rw [counted_core]
    exact counted

theorem Sound.unwait (waiter : (dev.ents e).waiter = true) (done : 0 < (dev.ents e).completions) :
    Sound config (cmdEntPut (dev.setEnt e { dev.ents e with waiter := false }) e) := by
  have counted := sound.counted e
  have callback := counted.waits waiter
  have held : (dev.ents e).held = true := by
    unfold Ent.held
    rw [callback]
    exact waiter
  have late : ¬(dev.ents e).early := fun early => by
    have none := (counted.early early).1
    omega
  refine sound.setEnt_put (sound.born_of_refs (Ent.refs_of_held held)) ?_ ?_ ?_ .rfl
  · exact Ent.Keeps.update rfl rfl rfl rfl id late id id rfl
  · have gone : ({ dev.ents e with waiter := false } : Ent).held = false := by
      unfold Ent.held
      rw [callback]
      rfl
    unfold Ent.refs
    rw [gone, held, if_pos rfl, if_neg Bool.false_ne_true]
    change 0 + (if (dev.ents e).cbTimeout = .idle then 0 else 1) +
      (if (dev.ents e).awaited then 1 else 0) + 1 ≤ _
    omega
  · exact { counted with
      early early := absurd early late
      waits := by nofun
      quiesced none := by
        change (dev.ents e).completions = 0 at none
        omega }

theorem Sound.canceled (waiter : (dev.ents e).waiter = true) (queued : (dev.ents e).work = .queued) (ret) :
    Sound config
      (cmdEntPut (dev.setEnt e { dev.ents e with work := .idle, ret := ret, waiter := false }) e) := by
  have counted := sound.counted e
  have callback := counted.waits waiter
  have early : (dev.ents e).early := .inl queued
  have held := (sound.referenced.early e early).2
  obtain ⟨none, down, pending⟩ := counted.early early
  have late : ¬({ dev.ents e with work := .idle, ret := ret, waiter := false } : Ent).early := by
    rintro (clash | clash) <;> cases clash
  have gone : ({ dev.ents e with work := .idle, ret := ret, waiter := false } : Ent).held = false := by
    unfold Ent.held
    rw [callback]
    rfl
  have quiet := counted.unawaited early
  have still : ({ dev.ents e with work := .idle, ret := ret, waiter := false } : Ent).awaited = false := by
    unfold Ent.awaited at quiet ⊢
    rw [queued] at quiet
    exact quiet
  refine sound.setEnt_put (sound.born_of_refs (Ent.refs_of_held held)) ?_ ?_ ?_ .rfl
  · refine Ent.Keeps.update rfl rfl rfl rfl ?_ late id ?_ rfl
    · rw [still]
      exact nofun
    · nofun
  · unfold Ent.refs
    rw [gone, still, held, quiet, if_pos rfl, if_neg Bool.false_ne_true]
    change 0 + (if (dev.ents e).cbTimeout = .idle then 0 else 1) + 0 + 1 ≤ _
    omega
  exact { counted with
    early early := absurd early late
    posted := by
      rw [still]
      exact nofun
    polled := by nofun
    forced _ _ set := by
      rw [pending] at set
      cases set
    waits := by nofun
    quiesced _ _ _ := ⟨down, gone⟩ }

omit sound in
theorem Ent.Counted.unfinished (counted : ent.Counted)
    (none : ent.completions = 0) (awaited : ent.awaited = true) : ent.downs = 1 ∧ ent.ups = 0 := by
  have down := counted.posted awaited
  have ups := counted.ups
  rw [if_pos down, none] at ups
  exact ⟨down, ups⟩

theorem Sound.event (event : (dev.ents e).event = true) (down reply) : Sound config
      (compHandlerOf (dev.setEnt e { dev.ents e with event := false }) e .event down reply) := by
  have awaited := awaited_of_event event
  have counted := sound.counted e
  have late := counted.late awaited
  have born := sound.born_of_refs (refs_of_awaited awaited)
  obtain ⟨i, idx, there⟩ := sound.referenced.awaited e awaited
  have notPolls (unforced : (dev.ents e).polling = false) : (dev.ents e).work ≠ .polling := by
    intro polls
    obtain forced | mode := sound.referenced.polls e polls
    · rw [forced] at unforced
      cases unforced
    · rw [sound.referenced.events e event] at mode
      cases mode
  rw [compHandlerOf_eq (i := i)]
  case idx => exact idx
  cases pending : (dev.ents e).pendingComp with
  | true =>
    have none := counted.pending pending
    obtain ⟨downs, ups⟩ := counted.unfinished none awaited
    cases polling : (dev.ents e).polling with
    | false =>
      have quiet : ({ dev.ents e with event := false, pendingComp := false } : Ent).awaited =
          false := awaited_eq_false rfl rfl (notPolls polling)
      rw [compHandler_completes there]
      · refine sound.complete false reply born ?_ ?_ rfl late none downs ups .rfl
          counted.waits
        · refine Keeps.update rfl rfl rfl rfl (fun _ => awaited) late ?_ id rfl
          nofun
        · exact refs_completed awaited quiet rfl rfl ..
      · rw [if_pos pending]
        rintro ⟨never, _⟩
        rw [polling] at never
        cases never
    | true =>
      have polls := counted.forced polling event pending
      rw [compHandler_polled there]
      case pending => exact pending
      case polled => exact polling
      refine sound.setEnt born ?_ ?_ ?_ .rfl
      · refine Keeps.update rfl rfl rfl rfl (fun _ => awaited) late ?_ id rfl
        nofun
      · exact refs_mono (fun _ => awaited) rfl rfl
      exact { counted with
        early early := absurd early late
        pending := by nofun
        posted _ := downs
        polled _ _ _ := ⟨polling, rfl⟩
        forced _ never := by
          cases never
        quiesced _ idle := by
          rw [polls] at idle
          cases idle }
  | false =>
    have after : ({ dev.ents e with event := false } : Ent).Counted := by
      exact { counted with
        early early := absurd early late
        posted _ := counted.posted awaited
        polled polls none idle := by exact ⟨(counted.polled polls none idle).1, rfl⟩
        forced _ never := by
          cases never }
    have keeps : (dev.ents e).Keeps config { dev.ents e with event := false } := by
      refine Keeps.update rfl rfl rfl rfl (fun _ => awaited) late ?_ id rfl
      nofun
    rw [compHandler_late there]
    case done => exact pending
    case notPolling => decide
    cases polling : (dev.ents e).polling with
    | false =>
      rw [if_pos ⟨rfl, rfl⟩]
      refine sound.setEnt_put born keeps ?_ after .rfl
      have quiet : ({ dev.ents e with event := false } : Ent).awaited = false :=
        awaited_eq_false pending rfl (notPolls polling)
      exact le_of_eq (refs_unawaited awaited quiet rfl rfl)
    | true =>
      rw [if_neg (fun both => by cases both.2)]
      exact sound.setEnt born keeps (refs_mono (fun _ => awaited) rfl rfl) after .rfl

theorem Sound.polled (polls : (dev.ents e).work = .polling) {timedOut down}
    (orderly : Orderly config dev (.polled e timedOut down reply)) (ret) :
    Sound config (compHandlerOf (dev.setEnt e { dev.ents e with work := .idle, ret := ret }) e
        (if timedOut then .forced else .polling) down reply) := by
  have awaited := awaited_of_polling polls
  have counted := sound.counted e
  have born := sound.born_of_refs (refs_of_awaited awaited)
  obtain ⟨i, idx, there⟩ := sound.referenced.awaited e awaited
  have late : ∀ pendingComp, ¬({ dev.ents e with
      work := .idle, ret := ret, pendingComp := pendingComp } : Ent).early := by
    rintro pendingComp (impossible | impossible) <;> cases impossible
  have idle : ∀ pendingComp, ({ dev.ents e with
      work := .idle, ret := ret, pendingComp := pendingComp } : Ent).work ≠ .polling := by
    intro pendingComp impossible
    cases impossible
  have keeps : ∀ pendingComp, (dev.ents e).Keeps config { dev.ents e with
      work := .idle, ret := ret, pendingComp := pendingComp } := by
    intro pendingComp
    refine Keeps.update rfl rfl rfl rfl (fun _ => awaited) (late _) id ?_ rfl
    exact fun impossible => absurd impossible (idle _)
  have quiet (noEvent : (dev.ents e).event = false) : ({ dev.ents e with
      work := .idle, ret := ret, pendingComp := false } : Ent).awaited = false :=
    awaited_eq_false rfl noEvent (idle false)
  rw [compHandlerOf_eq (i := i)]
  case idx => exact idx
  cases timedOut with
  | false =>
    obtain ⟨none, noEvent⟩ := orderly
    obtain ⟨downs, ups⟩ := counted.unfinished none awaited
    rw [if_neg Bool.false_ne_true, compHandler_completes there]
    · refine sound.complete false reply born (keeps false) ?_ rfl (late _) none downs ups
        .rfl counted.waits
      exact refs_completed awaited (quiet noEvent) rfl rfl ..
    · split
      · rintro ⟨_, impossible⟩
        cases impossible
      · rfl
  | true =>
    rw [if_pos rfl]
    cases pending : (dev.ents e).pendingComp with
    | true =>
      have none := counted.pending pending
      obtain ⟨downs, ups⟩ := counted.unfinished none awaited
      change (if (dev.ents e).pendingComp then down = true → (dev.ents e).event = false
        else 0 < (dev.ents e).completions) at orderly
      rw [if_pos pending] at orderly
      rw [compHandler_completes there]
      · refine sound.complete false reply born (keeps false) ?_ rfl (late _) none downs ups
          .rfl counted.waits
        cases down with
        | false => exact refs_mono (fun _ => awaited) rfl rfl
        | true =>
          exact refs_completed awaited (quiet (orderly rfl)) rfl rfl ..
      · rw [if_pos pending]
        rintro ⟨_, impossible⟩
        cases impossible
    | false =>
      change (if (dev.ents e).pendingComp then down = true → (dev.ents e).event = false
        else 0 < (dev.ents e).completions) at orderly
      rw [pending, if_neg Bool.false_ne_true] at orderly
      rw [compHandler_late there, if_neg (fun both => by cases both.1)]
      case done => exact pending
      case notPolling => decide
      have keeps : (dev.ents e).Keeps config { dev.ents e with work := .idle, ret := ret } := by
        refine Keeps.update rfl rfl rfl rfl (fun _ => awaited) ?_ id ?_ rfl
        · rintro (impossible | impossible) <;> cases impossible
        · exact fun impossible => absurd impossible (idle false)
      refine sound.setEnt born keeps (refs_mono (fun _ => awaited) rfl rfl) ?_ .rfl
      exact { counted with
        early := by rintro (impossible | impossible) <;> cases impossible
        posted _ := counted.posted awaited
        polled impossible := absurd impossible (idle false)
        forced _ _ set := by
          rw [pending] at set
          cases set
        quiesced none := by
          change (dev.ents e).completions = 0 at none
          omega }

theorem Sound.born_of_slot (there : dev.entArr i = some e) : e < dev.next := by
  by_contra late
  have idx := sound.referenced.placed i e there
  rw [sound.referenced.fresh e (Nat.le_of_not_lt late)] at idx
  cases idx

theorem Sound.forced (there : dev.entArr i = some e) (safe : down = true → (dev.ents e).pendingComp = false)
    (ret triggered reply) :
    Sound config
      (compHandler (dev.setEnt e { dev.ents e with ret := ret }) i .forced down triggered reply) := by
  have counted := sound.counted e
  have born := sound.born_of_slot there
  cases pending : (dev.ents e).pendingComp with
  | true =>
    have awaited := awaited_of_pending pending
    have late := counted.late awaited
    have none := counted.pending pending
    obtain ⟨downs, ups⟩ := counted.unfinished none awaited
    have up : down = false := by
      cases down with
      | false => rfl
      | true =>
        rw [safe rfl] at pending
        cases pending
    subst up
    rw [compHandler_completes there]
    · refine sound.complete triggered reply born ?_ ?_ rfl late none downs ups .rfl
        counted.waits
      · exact Keeps.update rfl rfl rfl rfl (fun _ => awaited) late id id rfl
      · exact refs_mono (fun _ => awaited) rfl rfl
    · rw [if_pos pending]
      rintro ⟨_, never⟩
      cases never
  | false =>
    rw [compHandler_late there, if_neg (fun both => by cases both.1)]
    case done => exact pending
    case notPolling => decide
    refine sound.setEnt born ?_ le_rfl ?_ .rfl
    · exact Keeps.of_core rfl rfl rfl fun early => (sound.referenced.early e early).2
    · rw [← counted_core]
      change (dev.ents e).core.Counted
      rw [counted_core]
      exact counted

omit sound in
theorem completeEnt_running (dev e type down triggered)
    (reply) (running : (dev.ents e).cbTimeout = .running) :
    ((completeEnt dev e type down triggered reply).ents e).cbTimeout = .running := by
  have cancelled : ((cancelTimeout dev e).ents e).cbTimeout = .running := by
    unfold cancelTimeout
    dsimp only
    rw [if_neg ?_]
    · exact running
    · rw [running]
      rintro ⟨_, never⟩
      cases never
  have put (dev : Dev) :
      ((putEvent dev e type down).ents e).cbTimeout = (dev.ents e).cbTimeout := by
    unfold putEvent
    split
    · exact cmdEntPut_cbTimeout ..
    · rfl
  have result (dev : Dev) :
      ((setResult dev e triggered reply).ents e).cbTimeout = (dev.ents e).cbTimeout := by
    unfold setResult
    dsimp only
    split
    · rw [setEnt_self]
    · rfl
  have finished (dev : Dev) :
      ((finishEnt dev e reply).ents e).cbTimeout = (dev.ents e).cbTimeout := by
    have counted : ((countCompletion dev e).ents e).cbTimeout = (dev.ents e).cbTimeout := by
      rw [countCompletion_ents, if_pos rfl]
    unfold finishEnt
    dsimp only
    split
    · rw [upSem_ents, if_pos rfl, execCbHandler_ents]
      rw [cmdEntPut_cbTimeout]
      exact counted
    · rw [upSem_ents, if_pos rfl]
      exact counted
  unfold completeEnt
  rw [finished, result, put, cancelled]

theorem Sound.timedOut (running : (dev.ents e).cbTimeout = .running) :
    Sound config (cmdEntPut (dev.setEnt e { dev.ents e with cbTimeout := .idle }) e) := by
  have timer : (dev.ents e).cbTimeout ≠ .idle := by
    rw [running]
    decide
  refine sound.setEnt_put (sound.born_of_refs (refs_of_timer timer)) ?_ ?_ ?_ .rfl
  · exact Keeps.of_core rfl rfl rfl fun early => (sound.referenced.early e early).2
  · change (if (dev.ents e).held then 1 else 0) + 0 + (if (dev.ents e).awaited then 1 else 0) + 1 ≤ _
    unfold refs
    rw [if_neg timer]
    omega
  · rw [← counted_core]
    change (dev.ents e).core.Counted
    rw [counted_core]
    exact sound.counted e

theorem Sound.cbTimeout (running : (dev.ents e).cbTimeout = .running)
    (orderly : Orderly config dev (.cbTimeout e down reply)) :
    Sound config (cbTimeoutHandler dev e down reply) := by
  unfold cbTimeoutHandler
  dsimp only
  by_cases pending : (dev.ents e).pendingComp = true
  · obtain ⟨i, idx, there⟩ := sound.referenced.awaited e (awaited_of_pending pending)
    rw [if_pos pending, compHandlerOf_eq (i := i)]
    case idx => exact idx
    refine (sound.forced there orderly etimedout false reply).timedOut ?_
    rw [compHandler_completes there]
    · apply completeEnt_running
      rw [setEnt_self]
      exact running
    · rw [if_pos pending]
      rintro ⟨_, never⟩
      cases never
  · rw [if_neg pending]
    exact sound.timedOut running

theorem Sound.of_same {after} (slots : SameSlots dev after)
    (ents : after.ents = dev.ents) (bitmask : after.bitmask = dev.bitmask)
    (pagesSem : after.pagesSem = dev.pagesSem) : Sound config after := by
  constructor
  · exact sound.referenced.of_same slots ents bitmask
  · rw [ents]
    exact sound.counted
  · exact sound.pages.of_core (fun x => by rw [ents]) pagesSem

omit sound in
theorem returnWaiter_same {dev} (output)
    (sound : Sound config (cmdEntPut (dev.setEnt e { dev.ents e with waiter := false }) e)) :
    Sound config (returnWaiter dev e output) :=
  sound.of_same ⟨rfl, rfl, rfl, rfl⟩ rfl rfl rfl

omit sound in
theorem Ent.waiter_of_waits (waits : ent.waits = true) : ent.waiter = true := by
  exact (Bool.and_eq_true_iff.mp waits).1

theorem Sound.waitCanceled (waits : (dev.ents e).waits = true) (queued : (dev.ents e).work = .queued) :
    Sound config
      (returnWaiter (dev.setEnt e { dev.ents e with work := .idle, ret := ecanceled }) e 0) := by
  apply returnWaiter_same
  rw [setEnt_self, setEnt_setEnt]
  exact sound.canceled (waiter_of_waits waits) queued ecanceled

theorem Sound.waitTimeout (waits : (dev.ents e).waits = true) (started : (dev.ents e).work ≠ .queued)
    (none : (dev.ents e).completions = 0) (mode : config.mode = .events)
    (unforced : (dev.ents e).polling = false) (orderly : Orderly config dev (.waitTimeout e down reply)) :
    Sound config (returnWaiter
        (compHandlerOf (dev.setEnt e { dev.ents e with ret := etimedout }) e .forced down reply) e
        0) := by
  have counted := sound.counted e
  have waiter := Ent.waiter_of_waits waits
  have idle : (dev.ents e).work = .idle := by
    cases work : (dev.ents e).work with
    | idle => rfl
    | queued => exact absurd work started
    | blocked => exact absurd work orderly.1
    | polling =>
      obtain forced | polling := sound.referenced.polls e work
      · rw [forced] at unforced
        cases unforced
      · rw [mode] at polling
        cases polling
  have pending : (dev.ents e).pendingComp = true := by
    cases pending : (dev.ents e).pendingComp with
    | true => rfl
    | false =>
      have gone := (counted.quiesced none idle pending).2
      unfold Ent.held at gone
      rw [counted.waits waiter, waiter] at gone
      cases gone
  obtain ⟨i, idx, there⟩ := sound.referenced.awaited e (Ent.awaited_of_pending pending)
  rw [compHandlerOf_eq (i := i)]
  case idx => exact idx
  have handled : compHandler (dev.setEnt e { dev.ents e with ret := etimedout }) i .forced down false
      reply = completeEnt
        (dev.setEnt e { dev.ents e with ret := etimedout, pendingComp := false }) e .forced down
        false reply := by
    apply compHandler_completes there
    rw [if_pos pending]
    rintro ⟨_, never⟩
    cases never
  have core := completeEnt_core
    (dev.setEnt e { dev.ents e with ret := etimedout, pendingComp := false }) e .forced down false
    reply e
  rw [if_pos rfl, setEnt_self, ← handled] at core
  apply returnWaiter_same
  apply (sound.forced there orderly.2 etimedout false reply).unwait
  · rw [eq_of_core Ent.waiter core fun _ => rfl]
    exact waiter
  · rw [eq_of_core Ent.completions core fun _ => rfl]
    exact Nat.succ_pos _

/-! ### Triggered completions -/

omit sound in
theorem Referenced.retrigger {spare left i} (referenced : Referenced config dev e spare)
    {toComplete toPut} (there : dev.entArr i = some e)
    (own : toComplete i + toPut i + left ≤ dev.toComplete i + dev.toPut i + spare)
    (others : ∀ j, j ≠ i → toComplete j + toPut j = dev.toComplete j + dev.toPut j) :
    Referenced config { dev with toComplete := toComplete, toPut := toPut } e left := by
  exact { referenced with
    counted x := by
      have before := referenced.counted x
      have triggers : Dev.triggers { dev with toComplete := toComplete, toPut := toPut } x +
          (if x = e then left else 0) ≤ dev.triggers x + (if x = e then spare else 0) := by
        unfold Dev.triggers
        by_cases same : x = e
        · subst same
          dsimp only
          rw [referenced.placed i x there]
          dsimp only
          rw [if_pos there, if_pos there, if_pos rfl, if_pos rfl]
          exact own
        rw [if_neg same, if_neg same]
        dsimp only
        cases idx : (dev.ents x).idx with
        | none => exact le_rfl
        | some j =>
          dsimp only
          split
          · rename_i here
            have apart : j ≠ i := by
              intro equal
              rw [equal, there] at here
              exact same (some.inj here).symm
            rw [others j apart]
          · exact le_rfl
      dsimp only at before ⊢
      omega
    triggered j some := by
      by_cases same : j = i
      · rw [same]
        exact ⟨e, there⟩
      · dsimp only at some
        rw [others j same] at some
        exact referenced.triggered j some }

omit sound in
theorem Referenced.get (referenced : Referenced config dev e 0) (live : 0 < (dev.ents e).refcnt) :
    Referenced config (cmdEntGet dev e) e 1 := by
  have other {x : Nat} (apart : x ≠ e) : (cmdEntGet dev e).ents x = dev.ents x :=
    setEnt_other _ _ apart
  have self : (cmdEntGet dev e).ents e = { dev.ents e with refcnt := (dev.ents e).refcnt + 1 } := setEnt_self ..
  have core (x : Nat) : ((cmdEntGet dev e).ents x).core = (dev.ents x).core := by
    by_cases same : x = e
    · rw [same, self]
      rfl
    · rw [other same]
  have timer (x : Nat) : ((cmdEntGet dev e).ents x).cbTimeout = (dev.ents x).cbTimeout := by
    by_cases same : x = e
    · rw [same, self]
    · rw [other same]
  have idx (x : Nat) := eq_of_core Ent.idx (core x) fun _ => rfl
  have alive (x : Nat) : 0 < ((cmdEntGet dev e).ents x).refcnt ↔ 0 < (dev.ents x).refcnt := by
    by_cases same : x = e
    · rw [same, self]
      exact ⟨fun _ => live, fun _ => Nat.succ_pos _⟩
    · rw [other same]
  constructor
  case counted =>
    intro x
    have before := referenced.counted x
    have triggers : (cmdEntGet dev e).triggers x = dev.triggers x := by
      unfold Dev.triggers
      rw [idx]
      rfl
    rw [refs_eq_of_core (core x) (timer x), triggers]
    by_cases same : x = e
    · subst same
      rw [if_pos rfl] at before ⊢
      rw [self]
      dsimp only
      omega
    · rw [if_neg same] at before ⊢
      rw [other same]
      exact before
  case slot =>
    intro x i atSlot pos
    rw [idx] at atSlot
    exact referenced.slot x i atSlot ((alive x).mp pos)
  case awaited =>
    intro x awaited
    rw [eq_of_core Ent.awaited (core x) fun _ => rfl] at awaited
    rw [idx]
    exact referenced.awaited x awaited
  case used =>
    intro i clear
    obtain empty | ⟨x, there, pos⟩ := referenced.used i clear
    · exact .inl empty
    · exact .inr ⟨x, there, (alive x).mpr pos⟩
  case placed =>
    intro i x there
    rw [idx]
    exact referenced.placed i x there
  case triggered => exact referenced.triggered
  case frees =>
    intro x
    by_cases same : x = e
    · have before := referenced.frees x
      rw [same] at before ⊢
      rw [if_neg (fun both => by omega)] at before
      rw [self, if_neg (fun both => Nat.succ_ne_zero _ both.2)]
      exact before
    · rw [other same]
      exact referenced.frees x
  case early =>
    intro x early
    rw [eq_of_core Ent.early (core x) fun _ => rfl] at early
    rw [idx, eq_of_core Ent.held (core x) fun _ => rfl]
    exact referenced.early x early
  case page =>
    intro x i atSlot
    rw [idx] at atSlot
    rw [eq_of_core Ent.pageQueue (core x) fun _ => rfl]
    exact referenced.page x i atSlot
  case events =>
    intro x event
    rw [eq_of_core Ent.event (core x) fun _ => rfl] at event
    exact referenced.events x event
  case polls =>
    intro x polls
    rw [eq_of_core Ent.work (core x) fun _ => rfl] at polls
    rw [eq_of_core Ent.polling (core x) fun _ => rfl]
    exact referenced.polls x polls
  case fresh =>
    intro x late
    have apart : x ≠ e := by
      have born := referenced.born live
      change dev.next ≤ x at late
      omega
    rw [other apart]
    exact referenced.fresh x late

theorem Sound.triggerSlot (used : dev.bitmask i = false) : Sound config (triggerSlot dev i) := by
  unfold Entries.triggerSlot
  cases there : dev.entArr i with
  | none => exact sound
  | some e =>
    have live : 0 < (dev.ents e).refcnt := by
      obtain empty | ⟨x, here, pos⟩ := sound.referenced.used i used
      · rw [there] at empty
        cases empty
      · rw [there] at here
        rw [some.inj here]
        exact pos
    have core (x : Nat) : ((cmdEntGet dev e).ents x).core = (dev.ents x).core := by
      by_cases same : x = e
      · rw [same]
        unfold cmdEntGet
        rw [setEnt_self]
        rfl
      · unfold cmdEntGet
        rw [setEnt_other _ _ same]
    constructor
    · refine (((sound.referenced.move e).get live).retrigger there ?_ ?_).move 0
      · rw [update_self]
        change dev.toComplete i + 1 + dev.toPut i + 0 ≤ dev.toComplete i + dev.toPut i + 1
        omega
      · intro j apart
        rw [update_of_ne apart]
        rfl
    · intro x
      rw [← counted_core]
      change ((cmdEntGet dev e).ents x).core.Counted
      rw [core, counted_core]
      exact sound.counted x
    · exact sound.pages.of_core core rfl

omit sound in
private theorem triggerSlot_bitmask (dev i) : (triggerSlot dev i).bitmask = dev.bitmask := by
  unfold triggerSlot
  split <;> rfl

omit sound in
theorem Sound.trigger {slots : List Nat} : ∀ {dev}, Sound config dev → (∀ i ∈ slots, dev.bitmask i = false) →
      Sound config (slots.foldl Entries.triggerSlot dev) := by
  induction slots with
  | nil =>
    intro dev sound _
    exact sound
  | cons i rest ih =>
    intro dev sound used
    refine ih (sound.triggerSlot (used i List.mem_cons_self)) ?_
    intro j member
    rw [triggerSlot_bitmask]
    exact used j (List.mem_cons_of_mem _ member)

theorem Sound.triggerComplete
    (some : dev.toComplete i ≠ 0) (orderly : Orderly config dev (.triggerComplete i down reply)) :
    Sound config (compHandler
        { dev with
          toComplete := update dev.toComplete i (dev.toComplete i - 1)
          toPut := update dev.toPut i (dev.toPut i + 1) } i .forced down true reply) := by
  obtain ⟨e, there⟩ := sound.referenced.triggered i (by omega)
  have moved : Sound config
      { dev with
        toComplete := update dev.toComplete i (dev.toComplete i - 1)
        toPut := update dev.toPut i (dev.toPut i + 1) } := by
    constructor
    · refine ((sound.referenced.move e).retrigger there ?_ ?_).move 0
      · rw [update_self, update_self]
        omega
      · intro j apart
        rw [update_of_ne apart, update_of_ne apart]
    · exact sound.counted
    · exact sound.pages.of_core (fun _ => rfl) rfl
  have handled := moved.forced there (fun isDown => orderly isDown e there) (dev.ents e).ret true reply
  rw [show Dev.setEnt _ e { dev.ents e with ret := (dev.ents e).ret } = _ from ?_] at handled
  · exact handled
  · unfold Dev.setEnt
    rw [show ({ dev.ents e with ret := (dev.ents e).ret } : Ent) = dev.ents e from rfl]
    rw [update_eq_self]

theorem Sound.triggerPut (some : dev.toPut i ≠ 0) (there : dev.entArr i = .some e) : Sound config
      (cmdEntPut { dev with toPut := update dev.toPut i (dev.toPut i - 1) } e) := by
  constructor
  · refine (Referenced.put ((sound.referenced.move e).retrigger there ?_ ?_)).move 0
    · rw [update_self]
      omega
    · intro j apart
      rw [update_of_ne apart]
  · intro x
    rw [← counted_core, cmdEntPut_core, counted_core]
    exact sound.counted x
  · refine sound.pages.of_core (fun x => ?_) ?_
    · rw [cmdEntPut_core]
    · rw [cmdEntPut_pagesSem]

omit sound

end MlnxOfed.Command.Entries
