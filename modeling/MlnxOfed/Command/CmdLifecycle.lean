/-
From the call of a command to its slot, and every command over a whole run: with steps that keep the order
of completion it is completed once, is alive while anything refers to it, and gets no event but its own.
-/

import MlnxOfed.Command.CmdSlots

namespace MlnxOfed.Command.Entries

open Option List Function

variable {config : Config} {dev : Dev} {e : Nat}

/-! ### Taking a slot -/

structure FreeSlot (config : Config) (dev : Dev) (i : Nat) : Prop where
  unused : ∀ x, dev.entArr i = some x → (dev.ents x).awaited = false ∧ dev.toComplete i + dev.toPut i = 0
  regular : i ≠ config.maxRegCmds → ∀ x, (dev.ents x).idx = some i → (dev.ents x).refcnt = 0

variable {ent : Ent} {i : Nat}

section

variable (referenced : Referenced config dev e 0)

include referenced

theorem Referenced.none_due (free : FreeSlot config dev i) : dev.toComplete i + dev.toPut i = 0 := by
  cases there : dev.entArr i with
  | none =>
    by_contra some
    obtain ⟨x, here⟩ := referenced.triggered i (Nat.pos_of_ne_zero some)
    rw [there] at here
    cases here
  | some x => exact (free.unused x there).2

theorem Referenced.elsewhere (early : (dev.ents e).early) {j x : Nat} (there : dev.entArr j = some x) :
    x ≠ e := by
  intro same
  have placed := referenced.placed j x there
  rw [same, (referenced.early e early).1] at placed
  cases placed

/-- The entry that loses the slot to `e` has no trigger on it left. -/
theorem Referenced.counted_place (free : FreeSlot config dev i) (idx : ent.idx = some i)
    (refs : ent.refs ≤ ent.refcnt) (x) :
    ((dev.setEnt e ent).ents x).refs + Dev.triggers { dev.setEnt e ent with
        entArr := update dev.entArr i (some e) } x ≤ ((dev.setEnt e ent).ents x).refcnt := by
  have before := referenced.counted x
  rw [ite_self] at before
  have sum := referenced.none_due free
  unfold Dev.triggers at before ⊢
  dsimp only
  by_cases same : x = e
  · subst same
    rw [setEnt_self, idx]
    dsimp only
    rw [if_pos (update_self ..)]
    change ent.refs + (dev.toComplete i + dev.toPut i) ≤ ent.refcnt
    rw [sum]
    exact refs
  rw [setEnt_other _ _ same]
  cases slot : (dev.ents x).idx with
  | none =>
    rw [slot] at before
    exact before
  | some j =>
    rw [slot] at before
    dsimp only at before ⊢
    by_cases here : j = i
    · have moved : update dev.entArr i (some e) j ≠ some x := by
        rw [here, update_self]
        exact fun equal => same (some.inj equal).symm
      rw [if_neg moved]
      omega
    · have kept : update dev.entArr i (some e) j = dev.entArr j := update_of_ne here ..
      simp only [kept]
      exact before

theorem Referenced.place (early : (dev.ents e).early)
    (free : FreeSlot config dev i) (born : e < dev.next) (idx : ent.idx = some i)
    (page : i = config.maxRegCmds ↔ ent.pageQueue = true) (live : 0 < ent.refcnt) (refs : ent.refs ≤ ent.refcnt)
    (idxFrees : ent.idxFrees = 0) (late : ¬ent.early) (events : ent.event = true → config.mode = .events)
    (polls : ent.work = .polling → ent.polling = true ∨ config.mode = .polling) :
    Referenced config
      { dev.setEnt e ent with
        bitmask := update dev.bitmask i false
        entArr := update dev.entArr i (some e) } e 0 := by
  have self : (dev.setEnt e ent).ents e = ent := setEnt_self ..
  have other {x : Nat} (apart : x ≠ e) : (dev.setEnt e ent).ents x = dev.ents x :=
    setEnt_other _ _ apart
  constructor
  case counted =>
    intro x
    rw [ite_self]
    exact referenced.counted_place free idx refs x
  case slot =>
    intro x j atSlot pos notPage
    dsimp only at atSlot pos ⊢
    by_cases same : x = e
    · subst same
      rw [self, idx] at atSlot
      rw [← some.inj atSlot, update_self, update_self]
      exact ⟨rfl, rfl⟩
    rw [other same] at atSlot pos
    have apart : j ≠ i := by
      intro equal
      rw [equal] at atSlot notPage
      have dead := free.regular notPage x atSlot
      omega
    rw [update_of_ne apart, update_of_ne apart]
    exact referenced.slot x j atSlot pos notPage
  case awaited =>
    refine setEnt_each (p := fun x ent => ent.awaited = true →
        ∃ j, ent.idx = some j ∧ update dev.entArr i (some e) j = some x)
      (fun _ => ⟨i, idx, update_self ..⟩) fun x awaited => ?_
    obtain ⟨j, atSlot, there⟩ := referenced.awaited x awaited
    refine ⟨j, atSlot, ?_⟩
    rw [update_of_ne ?_]
    · exact there
    · intro equal
      rw [equal] at there
      rw [(free.unused x there).1] at awaited
      cases awaited
  case used =>
    intro j clear
    dsimp only at clear ⊢
    by_cases here : j = i
    · refine .inr ⟨e, ?_, ?_⟩
      · rw [here, update_self]
      · rw [self]
        exact live
    rw [update_of_ne here] at clear ⊢
    obtain empty | ⟨x, there, pos⟩ := referenced.used j clear
    · exact .inl empty
    · refine .inr ⟨x, there, ?_⟩
      rw [other (referenced.elsewhere early there)]
      exact pos
  case placed =>
    intro j x there
    dsimp only at there ⊢
    by_cases here : j = i
    · rw [here, update_self] at there
      rw [here, ← some.inj there, self]
      exact idx
    · rw [update_of_ne here] at there
      rw [other (referenced.elsewhere early there)]
      exact referenced.placed j x there
  case triggered =>
    intro j some
    change 0 < dev.toComplete j + dev.toPut j at some
    obtain ⟨x, there⟩ := referenced.triggered j some
    dsimp only
    by_cases here : j = i
    · exact ⟨e, by rw [here, update_self]⟩
    · rw [update_of_ne here]
      exact ⟨x, there⟩
  case frees =>
    refine setEnt_each (p := fun _ ent => ent.idxFrees =
      if ent.idx.isSome = true ∧ ent.refcnt = 0 then 1 else 0) ?_ referenced.frees
    rw [idxFrees, if_neg (fun both => by omega)]
  case early =>
    exact setEnt_each (p := fun _ ent => ent.early → ent.idx = none ∧ ent.held = true)
      (fun waiting => absurd waiting late) referenced.early
  case page =>
    refine setEnt_each (p := fun _ ent => ∀ j, ent.idx = some j →
      (j = config.maxRegCmds ↔ ent.pageQueue = true)) ?_ referenced.page
    intro j atSlot
    rw [idx] at atSlot
    rw [← some.inj atSlot]
    exact page
  case events =>
    exact setEnt_each (p := fun _ ent => ent.event = true → config.mode = .events) events referenced.events
  case polls =>
    exact setEnt_each (p := fun _ ent => ent.work = .polling → ent.polling = true ∨ config.mode = .polling)
      polls referenced.polls
  case fresh =>
    intro x later
    have apart : x ≠ e := by
      change dev.next ≤ x at later
      omega
    rw [other apart]
    exact referenced.fresh x later

end

variable {after : Dev}

theorem PagesGuarded.place (pages : PagesGuarded dev)
    (self : after.ents e = ent) (other : ∀ x, x ≠ e → after.ents x = dev.ents x)
    (sem : after.pagesSem = dev.pagesSem - if ent.pageQueue then 1 else 0)
    (pos : ent.pageQueue = true → dev.pagesSem ≠ 0) : PagesGuarded after := by
  have others {x : Nat} (apart : x ≠ e) : (after.ents x).inPages ↔ (dev.ents x).inPages := by
    rw [other x apart]
  cases page : ent.pageQueue with
  | true =>
    have one : dev.pagesSem = 1 := by
      have bound := pages.bound
      have some := pos page
      omega
    have only {x : Nat} (inside : (after.ents x).inPages) : x = e := by
      by_contra apart
      have zero := pages.zero x ((others apart).mp inside)
      omega
    rw [page, if_pos rfl, one] at sem
    constructor
    · intro x y left right
      rw [only left, only right]
    · intro x _
      exact sem
    · rw [sem]
      omega
  | false =>
    rw [page, if_neg Bool.false_ne_true, Nat.sub_zero] at sem
    have apart {x : Nat} (inside : (after.ents x).inPages) : x ≠ e := by
      intro same
      rw [same, self] at inside
      have set := inside.1
      rw [page] at set
      cases set
    constructor
    · intro x y left right
      exact pages.one x y ((others (apart left)).mp left) ((others (apart right)).mp right)
    · intro x inside
      rw [sem]
      exact pages.zero x ((others (apart inside)).mp inside)
    · rw [sem]
      exact pages.bound

theorem Ent.Counted.place (pending : ent.pendingComp = true)
    (none : ent.completions = 0) (down : ent.downs = 1) (up : ent.ups = 0) (late : ¬ent.early)
    (forced : ent.polling = true → ent.event = true → ent.work = .polling)
    (waits : ent.waiter = true → ent.callback = false) : ent.Counted := by
  constructor
  case once =>
    rw [none]
    exact Nat.zero_le 1
  case early => exact fun early => absurd early late
  case pending => exact fun _ => none
  case posted => exact fun _ => down
  case polled =>
    intro _ _ idle
    rw [pending] at idle
    cases idle
  case forced => exact fun polling event _ => forced polling event
  case downs => exact le_of_eq down
  case ups => rw [if_pos down, none, up]
  case waits => exact waits
  case quiesced =>
    intro _ _ idle
    rw [pending] at idle
    cases idle

/-- The entry that `takeSlot` writes, with what the doorbell then changes of it. -/
def Ent.placed (ent : Ent) (i : Nat) (event : Bool) (work : Work) : Ent :=
  { ent with
    idx := some i
    work := work
    downs := ent.downs + 1
    cbTimeout := if ent.callback then .armed else .idle
    refcnt := ent.refcnt + (if ent.callback then 1 else 0) + 1
    pendingComp := true
    event := event }

theorem Ent.placed_late (ent : Ent) (i event) {work : Work} (late : work = .idle ∨ work = .polling) :
    ¬(ent.placed i event work).early := by
  rintro (queued | waiting)
  · change work = .queued at queued
    rw [queued] at late
    obtain impossible | impossible := late <;> cases impossible
  · change work = .blocked at waiting
    rw [waiting] at late
    obtain impossible | impossible := late <;> cases impossible

def Dev.place (dev : Dev) (e i : Nat) (event : Bool) (work : Work) : Dev :=
  { dev.setEnt e ((dev.ents e).placed i event work) with
    bitmask := update dev.bitmask i false
    entArr := update dev.entArr i (some e) }

theorem Sound.place (sound : Sound config dev) {sem pagesSem event}
    {work} (blocked : (dev.ents e).work = .blocked) (free : FreeSlot config dev i)
    (page : i = config.maxRegCmds ↔ (dev.ents e).pageQueue = true)
    (lowered : pagesSem = dev.pagesSem - if (dev.ents e).pageQueue then 1 else 0)
    (pos : (dev.ents e).pageQueue = true → dev.pagesSem ≠ 0)
    (events : event = true → config.mode = .events) (late : work = .idle ∨ work = .polling)
    (polls : work = .polling → (dev.ents e).polling = true ∨ config.mode = .polling)
    (forced : (dev.ents e).polling = true → event = true → work = .polling) :
    Sound config (({ dev with sem := sem, pagesSem := pagesSem } : Dev).place e i event work) := by
  have early : (dev.ents e).early := .inr blocked
  have counted := sound.counted e
  obtain ⟨none, down, _⟩ := counted.early early
  have held := (sound.referenced.early e early).2
  have born := sound.born_of_refs (Ent.refs_of_held held)
  have bound := sound.referenced.counted e
  have notEarly := (dev.ents e).placed_late i event late
  have alive : 0 < (dev.ents e).refcnt := by
    have positive := Ent.refs_of_held held
    omega
  have unfreed : (dev.ents e).idxFrees = 0 := by rw [sound.referenced.frees e, if_neg (fun both => by omega)]
  have refs : ((dev.ents e).placed i event work).refs ≤ ((dev.ents e).placed i event work).refcnt := by
    unfold Ent.refs
    rw [Ent.awaited_of_pending rfl]
    have same : ((dev.ents e).placed i event work).held = (dev.ents e).held := rfl
    rw [same, held, if_pos rfl]
    change 1 + (if (if (dev.ents e).callback then Timer.armed else .idle) = .idle then 0 else 1) + 1 ≤
      (dev.ents e).refcnt + (if (dev.ents e).callback then 1 else 0) + 1
    cases callback : (dev.ents e).callback with
    | true =>
      rw [if_pos rfl, if_pos rfl, if_neg (by decide)]
      omega
    | false =>
      rw [if_neg Bool.false_ne_true, if_neg Bool.false_ne_true, if_pos rfl]
      omega
  constructor
  · have placed : Referenced config (dev.place e i event work) e 0 :=
      (sound.referenced.move e).place early free born rfl page (Nat.succ_pos _) refs unfreed
        notEarly events polls
    have lowered : Referenced config
        (({ dev with sem := sem, pagesSem := pagesSem } : Dev).place e i event work) e 0 :=
      placed.of_same ⟨rfl, rfl, rfl, rfl⟩ rfl rfl
    exact lowered.move 0
  · intro x
    change ((dev.setEnt e ((dev.ents e).placed i event work)).ents x).Counted
    by_cases same : x = e
    · rw [same, setEnt_self]
      refine Ent.Counted.place rfl none ?_ ?_ notEarly forced counted.waits
      · change (dev.ents e).downs + 1 = 1
        rw [down]
      · change (dev.ents e).ups = 0
        rw [counted.ups, if_neg (by omega)]
    · rw [setEnt_other _ _ same]
      exact sound.counted x
  · refine sound.pages.place (setEnt_self ..) (fun x apart => setEnt_other _ _ apart) ?_ ?_
    · exact lowered
    · exact pos

theorem takeSlot_eq (dev e i) : takeSlot dev e i = dev.place e i (dev.ents e).event .idle := rfl

theorem postCmd_up (config dev e i downAfter reply) :
    postCmd config dev e i false downAfter reply = dev.place e i (decide (config.mode = .events))
        (if config.mode = .polling ∨ (dev.ents e).polling = true then .polling else .idle) := by
  have self : (takeSlot dev e i).ents e = (dev.ents e).placed i (dev.ents e).event .idle := setEnt_self ..
  unfold postCmd
  dsimp only
  rw [if_neg Bool.false_ne_true, self]
  unfold takeSlot Dev.place Dev.setEnt
  dsimp only
  rw [update_idem]
  rfl

theorem Sound.post (sound : Sound config dev) (sem pagesSem)
    (down downAfter reply) (blocked : (dev.ents e).work = .blocked) (free : FreeSlot config dev i)
    (page : i = config.maxRegCmds ↔ (dev.ents e).pageQueue = true)
    (lowered : pagesSem = dev.pagesSem - if (dev.ents e).pageQueue then 1 else 0)
    (pos : (dev.ents e).pageQueue = true → dev.pagesSem ≠ 0) :
    Sound config (postCmd config { dev with sem := sem, pagesSem := pagesSem } e i down downAfter reply) := by
  have counted := sound.counted e
  have early : (dev.ents e).early := .inr blocked
  have quiet : (dev.ents e).event = false := by
    cases event : (dev.ents e).event with
    | false => rfl
    | true => exact absurd early (counted.late (Ent.awaited_of_event event))
  cases down with
  | false =>
    rw [postCmd_up]
    refine sound.place blocked free page lowered pos ?_ ?_ ?_ ?_
    · exact fun event => of_decide_eq_true event
    · split
      · exact .inr rfl
      · exact .inl rfl
    · split
      · rename_i either
        exact fun _ => Or.symm either
      · nofun
    · intro polling _
      rw [if_pos (.inr polling)]
  | true =>
    obtain ⟨none, unposted, _⟩ := counted.early early
    have placed : Sound config
        (({ dev with sem := sem, pagesSem := pagesSem } : Dev).place e i false .idle) := by
      refine sound.place blocked free page lowered pos ?_ (.inl rfl) ?_ ?_
      · nofun
      · nofun
      · intro _ clash
        cases clash
    have self : (({ dev with sem := sem, pagesSem := pagesSem } : Dev).place e i false .idle).ents e =
        (dev.ents e).placed i false .idle := setEnt_self ..
    have there : (({ dev with sem := sem, pagesSem := pagesSem } : Dev).place e i false .idle).entArr
        i = some e := update_self ..
    have late : ∀ ret : Int, ¬({ (dev.ents e).placed i false .idle with
        ret := ret, pendingComp := false } : Ent).early := by
      rintro ret (clash | clash) <;> cases clash
    have still : ∀ ret : Int, ({ (dev.ents e).placed i false .idle with
        ret := ret, pendingComp := false } : Ent).awaited = false := fun _ => rfl
    unfold postCmd
    dsimp only
    rw [if_pos rfl, takeSlot_eq]
    rw [quiet, self, compHandler_completes there]
    · refine placed.complete false reply (placed.born_of_slot there) ?_ ?_ rfl (late _) none ?_ ?_
        ?_ counted.waits
      · rw [self]
        exact Ent.Keeps.update rfl rfl rfl rfl (fun _ => Ent.awaited_of_pending rfl) (late _) id id
          rfl
      · rw [self]
        have pending : ((dev.ents e).placed i false .idle).awaited = true := Ent.awaited_of_pending rfl
        exact Ent.refs_completed pending (still _) rfl rfl ..
      · change (dev.ents e).downs + 1 = 1
        rw [unposted]
      · change (dev.ents e).ups = 0
        rw [counted.ups, if_neg (by omega)]
      · rw [self]
        exact .rfl
    · change ¬(_ ∧ CompType.forced = .event)
      rintro ⟨_, clash⟩
      cases clash

/-! ### Finding no slot -/

def Ent.refused (ent : Ent) : Ent := { ent.slotless with ups := ent.ups + 1 }

private theorem upSem_core (ent : Ent) (here : (after.ents e).core = ent.core)
    (others : ∀ x, x ≠ e → (after.ents x).core = (dev.ents x).core) (x : Nat) : ((upSem after e).ents x).core =
      if x = e then { ent with ups := ent.ups + 1 }.core else (dev.ents x).core := by
  rw [upSem_ents]
  split_ifs with same
  · have ups := eq_of_core Ent.ups here fun _ => rfl
    have eq : ({ after.ents e with ups := (after.ents e).ups + 1 } : Ent).core =
        { (after.ents e).core with ups := (after.ents e).ups + 1 } := rfl
    rw [eq, here, ups]
    rfl
  · exact others x same

theorem slotFailed_core (dev e x) : ((slotFailed dev e).ents x).core =
      if x = e then (dev.ents e).refused.core else (dev.ents x).core := by
  unfold slotFailed
  dsimp only
  split
  · have ents (y : Nat) : ((cmdEntPut (freeMsgs (execCbHandler (dev.setEnt e (dev.ents e).slotless) e eagain) e)
          e).ents y).core = ((dev.setEnt e (dev.ents e).slotless).ents y).core := by
      rw [cmdEntPut_core]
      change ((execCbHandler _ e eagain).ents y).core = _
      rw [execCbHandler_ents]
    refine upSem_core (dev.ents e).slotless ?_ ?_ x
    · rw [ents, setEnt_self]
    · intro y apart
      rw [ents, setEnt_other _ _ apart]
  · refine upSem_core (dev.ents e).slotless ?_ ?_ x
    · rw [setEnt_self, setEnt_self]
      rfl
    · intro y apart
      rw [setEnt_other _ _ apart, setEnt_other _ _ apart]

private theorem slotFailed_pagesSem (dev) {e} (regular : (dev.ents e).pageQueue = false) :
    (slotFailed dev e).pagesSem = dev.pagesSem := by
  unfold slotFailed
  dsimp only
  split
  · rw [upSem_pagesSem, eq_of_core Ent.pageQueue (cmdEntPut_core ..) fun _ => rfl, cmdEntPut_pagesSem]
    change (execCbHandler _ e eagain).pagesSem + (if ((execCbHandler _ e eagain).ents e).pageQueue
      then 1 else 0) = _
    rw [execCbHandler_pagesSem, execCbHandler_ents, setEnt_self]
    change dev.pagesSem + (if (dev.ents e).pageQueue then 1 else 0) = _
    rw [regular]
    rfl
  · rw [upSem_pagesSem, setEnt_self, setEnt_self]
    change dev.pagesSem + (if (dev.ents e).pageQueue then 1 else 0) = _
    rw [regular]
    rfl

theorem Referenced.slotFailed (referenced : Referenced config dev e 0) (early : (dev.ents e).early)
    (quiet : (dev.ents e).awaited = false) (born : e < dev.next) :
    Referenced config (slotFailed dev e) e 0 := by
  have held := (referenced.early e early).2
  have late : ∀ ret : Int, ¬({ (dev.ents e).slotless with ret := ret } : Ent).early := by
    rintro ret (clash | clash) <;> cases clash
  have still : ∀ ret : Int, ({ (dev.ents e).slotless with ret := ret } : Ent).awaited = false := by
    intro ret
    unfold Ent.awaited at quiet ⊢
    rw [Bool.or_eq_false_iff] at quiet ⊢
    exact ⟨quiet.1, rfl⟩
  have keeps : ∀ ret : Int, (dev.ents e).Keeps config { (dev.ents e).slotless with ret := ret } := by
    intro ret
    refine Ent.Keeps.update rfl rfl rfl rfl ?_ (late ret) id ?_ rfl
    · rw [still ret]
      exact nofun
    · nofun
  unfold Entries.slotFailed
  dsimp only
  split_ifs with callback
  · have gone : (dev.ents e).slotless.held = false := by
      unfold Ent.held
      change (if (dev.ents e).callback = true then
        decide ((dev.ents e).completions + 1 = 0) else (dev.ents e).waiter) = false
      rw [if_pos callback]
      exact decide_eq_false (Nat.succ_ne_zero _)
    have spare : Referenced config (dev.setEnt e (dev.ents e).slotless) e 1 := by
      refine referenced.setEnt born (keeps (dev.ents e).ret) ?_
      have unawaited : (dev.ents e).slotless.awaited = false := still (dev.ents e).ret
      unfold Ent.refs
      rw [gone, unawaited, held, quiet, if_pos rfl, if_neg Bool.false_ne_true]
      change 0 + (if (dev.ents e).cbTimeout = .idle then 0 else 1) + 0 + 1 ≤
        1 + (if (dev.ents e).cbTimeout = .idle then 0 else 1) + 0 + 0
      omega
    have called := spare.of_same (execCbHandler_slots _ e eagain) (execCbHandler_ents ..)
      (execCbHandler_bitmask ..)
    have freed : Referenced config
        (freeMsgs (execCbHandler (dev.setEnt e (dev.ents e).slotless) e eagain) e) e 1 :=
      called.of_same ⟨rfl, rfl, rfl, rfl⟩ rfl rfl
    refine freed.put.upSem ?_
    rw [(cmdEntPut_slots ..).next]
    change e < (execCbHandler _ e eagain).next
    rw [(execCbHandler_slots ..).next]
    exact born
  · refine Referenced.upSem ?_ born
    rw [setEnt_self, setEnt_setEnt]
    refine referenced.setEnt born (keeps eagain) (Ent.refs_mono ?_ ?_ rfl)
    · rw [still eagain]
      exact nofun
    · unfold Ent.held
      change (if (dev.ents e).callback = true then _ else (dev.ents e).waiter) = _
      rw [if_neg callback, if_neg callback]

theorem Ent.Counted.refused (counted : ent.Counted) (early : ent.early) : ent.refused.Counted := by
  obtain ⟨none, unposted, idle⟩ := counted.early early
  have quiet : ent.event = false := by
    cases event : ent.event with
    | false => rfl
    | true =>
      have posted := counted.posted (Ent.awaited_of_event event)
      omega
  constructor
  case once =>
    change ent.completions + 1 ≤ 1
    omega
  case early => rintro (clash | clash) <;> cases clash
  case pending =>
    intro set
    change ent.pendingComp = true at set
    rw [idle] at set
    cases set
  case posted =>
    intro _
    change ent.downs + 1 = 1
    omega
  case polled =>
    nofun
  case forced =>
    intro _ event
    change ent.event = true at event
    rw [quiet] at event
    cases event
  case downs =>
    change ent.downs + 1 ≤ 1
    omega
  case ups =>
    have ups := counted.ups
    rw [if_neg (by omega)] at ups
    change ent.ups + 1 = if ent.downs + 1 = 1 then ent.completions + 1 else 0
    rw [if_pos (by omega)]
    omega
  case waits => exact counted.waits
  case quiesced => exact fun clash => absurd clash (Nat.succ_ne_zero _)

theorem Sound.slotFailed (sound : Sound config dev) (blocked : (dev.ents e).work = .blocked)
    (regular : (dev.ents e).pageQueue = false) : Sound config (slotFailed dev e) := by
  have early : (dev.ents e).early := .inr blocked
  have counted := sound.counted e
  have born := sound.born_of_refs (Ent.refs_of_held (sound.referenced.early e early).2)
  have quiet := counted.unawaited early
  have core := slotFailed_core dev e
  constructor
  · exact ((sound.referenced.move e).slotFailed early quiet born).move 0
  · intro x
    rw [← counted_core, core]
    split
    · rw [counted_core]
      exact counted.refused early
    · rw [counted_core]
      exact sound.counted x
  have others {x : Nat} (inside : ((Entries.slotFailed dev e).ents x).inPages) :
      (dev.ents x).inPages := by
    have here := core x
    by_cases same : x = e
    · rw [if_pos same] at here
      rw [eq_of_core Ent.inPages here fun _ => rfl] at inside
      have page : (dev.ents e).pageQueue = true := inside.1
      rw [regular] at page
      cases page
    · rw [if_neg same] at here
      rw [eq_of_core Ent.inPages here fun _ => rfl] at inside
      exact inside
  have sem := slotFailed_pagesSem dev regular
  constructor
  · intro x y left right
    exact sound.pages.one x y (others left) (others right)
  · intro x inside
    rw [sem]
    exact sound.pages.zero x (others inside)
  · rw [sem]
    exact sound.pages.bound

theorem Sound.free_regular (sound : Sound config dev) (found : cmdAllocIndex config dev = some i) :
    FreeSlot config dev i ∧ i ≠ config.maxRegCmds := by
  have free : dev.bitmask i = true := by
    have property := find?_some found
    exact property
  have regular : i ≠ config.maxRegCmds := by
    have member := mem_of_find?_eq_some found
    have below := mem_range.mp member
    omega
  have dead {x : Nat} (idx : (dev.ents x).idx = some i) : (dev.ents x).refcnt = 0 := by
    by_contra live
    have used := (sound.referenced.slot x i idx (Nat.pos_of_ne_zero live) regular).2
    rw [free] at used
    cases used
  refine ⟨⟨?_, fun _ _ idx => dead idx⟩, regular⟩
  intro x there
  have idx := sound.referenced.placed i x there
  have counted := sound.referenced.counted x
  unfold Dev.triggers at counted
  rw [dead idx, idx] at counted
  dsimp only at counted
  rw [if_pos there] at counted
  refine ⟨?_, by omega⟩
  cases awaited : (dev.ents x).awaited with
  | false => rfl
  | true =>
    have positive := Ent.refs_of_awaited awaited
    omega

theorem Sound.free_page (sound : Sound config dev) (passed : dev.pagesSem ≠ 0)
    (orderly : ∀ x, dev.entArr config.maxRegCmds = some x →
      (dev.ents x).event = false ∧ (dev.ents x).work ≠ .polling ∧
        dev.toComplete config.maxRegCmds + dev.toPut config.maxRegCmds = 0) :
    FreeSlot config dev config.maxRegCmds := by
  refine ⟨?_, fun regular => absurd rfl regular⟩
  intro x there
  obtain ⟨event, work, triggers⟩ := orderly x there
  refine ⟨Ent.awaited_eq_false ?_ event work, triggers⟩
  -- a pending page command would still hold `pages_sem`
  cases pending : (dev.ents x).pendingComp with
  | false => rfl
  | true =>
    have counted := sound.counted x
    have none := counted.pending pending
    obtain ⟨down, up⟩ := counted.unfinished none (Ent.awaited_of_pending pending)
    have idx := sound.referenced.placed config.maxRegCmds x there
    have page := (sound.referenced.page x config.maxRegCmds idx).mp rfl
    exact absurd (sound.pages.zero x ⟨page, by omega⟩) passed

theorem Sound.cmdWorkHandler (sound : Sound config dev) {down downAfter reply}
    (moved : cmdWorkHandler config dev e down downAfter reply = some after)
    (orderly : Orderly config dev (.post e down downAfter reply)) : Sound config after := by
  obtain ⟨working, moved⟩ := ite_none_left_eq_some.mp moved
  have blocked : (dev.ents e).work = .blocked := not_not.mp working
  cases page : (dev.ents e).pageQueue with
  | true =>
    rw [page, if_pos rfl] at moved
    obtain ⟨passed, moved⟩ := ite_none_left_eq_some.mp moved
    cases moved
    have free := sound.free_page passed (orderly page)
    refine sound.post dev.sem (dev.pagesSem - 1) down downAfter reply blocked free ?_ ?_ ?_
    · rw [page]
      exact ⟨fun _ => rfl, fun _ => rfl⟩
    · rw [page]
      rfl
    · exact fun _ => passed
  | false =>
    rw [page, if_neg Bool.false_ne_true] at moved
    obtain ⟨-, moved⟩ := ite_none_left_eq_some.mp moved
    cases found : cmdAllocIndex config dev with
    | some i =>
      rw [found] at moved
      rw [← some.inj moved]
      obtain ⟨free, regular⟩ := sound.free_regular found
      refine sound.post (dev.sem - 1) dev.pagesSem down downAfter reply blocked free ?_ ?_ ?_
      · rw [page]
        exact ⟨fun equal => absurd equal regular, nofun⟩
      · rw [page]
        rfl
      · rw [page]
        exact nofun
    | none =>
      rw [found] at moved
      rw [← some.inj moved]
      have passed : Sound config { dev with sem := dev.sem - 1 } :=
        sound.of_same ⟨rfl, rfl, rfl, rfl⟩ rfl rfl rfl
      exact passed.slotFailed blocked page

/-! ### Calls -/

/-- A call leaves all but the messages, and may add an entry of its own. -/
structure Called (dev after : Dev) (args : CallArgs) : Prop where
  next : after.next = dev.next + 1
  entArr : after.entArr = dev.entArr
  toComplete : after.toComplete = dev.toComplete
  toPut : after.toPut = dev.toPut
  bitmask : after.bitmask = dev.bitmask
  pagesSem : after.pagesSem = dev.pagesSem
  ents : after.ents = dev.ents ∨ ∃ ent, cmdInvoke args = .inl ent ∧ after.ents = update dev.ents dev.next ent

variable {args : CallArgs}

theorem Called.failCall {dev after} (called : Called dev after args)
    (c err) : Called dev (failCall after c err) args := by
  unfold Entries.failCall
  dsimp only
  split <;> exact { called with }

private theorem cmdExec_called (dev args) : Called dev (cmdExec dev args) args := by
  unfold cmdExec
  dsimp only
  split
  · apply Called.failCall
    exact ⟨rfl, rfl, rfl, rfl, rfl, rfl, .inl rfl⟩
  split
  · apply Called.failCall
    exact ⟨rfl, rfl, rfl, rfl, rfl, rfl, .inl rfl⟩
  split
  · apply Called.failCall
    exact ⟨rfl, rfl, rfl, rfl, rfl, rfl, .inl rfl⟩
  split
  · apply Called.failCall
    exact ⟨rfl, rfl, rfl, rfl, rfl, rfl, .inl rfl⟩
  split
  · apply Called.failCall
    exact ⟨rfl, rfl, rfl, rfl, rfl, rfl, .inl rfl⟩
  rename_i ent invoked
  unfold startEnt
  dsimp only
  split
  · exact ⟨rfl, rfl, rfl, rfl, rfl, rfl, .inr ⟨ent, invoked, rfl⟩⟩
  · exact ⟨rfl, rfl, rfl, rfl, rfl, rfl, .inr ⟨ent, invoked, rfl⟩⟩

private theorem exec_called (dev args) : Called dev (exec dev args) args := by
  unfold exec
  split
  · rename_i ctx api
    split
    · exact ⟨rfl, rfl, rfl, rfl, rfl, rfl, .inl rfl⟩
    · have called := cmdExec_called
        { dev with
          numInflight := update dev.numInflight ctx (dev.numInflight ctx + 1) } args
      dsimp only
      split <;> exact { called with }
  · exact cmdExec_called dev args

structure Ent.Invoked (ent : Ent) : Prop where
  idx : ent.idx = Option.none
  refcnt : ent.refcnt = 1
  early : ent.early
  held : ent.held = true
  timer : ent.cbTimeout = .idle
  quiet : ent.awaited = false
  pending : ent.pendingComp = false
  event : ent.event = false
  completions : ent.completions = 0
  downs : ent.downs = 0
  ups : ent.ups = 0
  idxFrees : ent.idxFrees = 0
  waits : ent.waiter = true → ent.callback = false

theorem cmdInvoke_invoked (invoked : cmdInvoke args = .inl ent) : ent.Invoked := by
  unfold cmdInvoke at invoked
  dsimp only at invoked
  split at invoked
  · cases invoked
  split at invoked
  · cases invoked
  split at invoked
  · cases invoked
  cases invoked
  constructor
  case early =>
    split
    · exact .inr rfl
    · exact .inl rfl
  case held =>
    cases args.api.ctx.isSome <;> rfl
  case quiet =>
    cases decide (args.op = opManagePages) <;> rfl
  case waits =>
    cases args.api.ctx.isSome <;> simp
  all_goals rfl

theorem Ent.Invoked.counted (invoked : ent.Invoked) : ent.Counted := by
  constructor
  case once =>
    rw [invoked.completions]
    exact Nat.zero_le 1
  case early => exact fun _ => ⟨invoked.completions, invoked.downs, invoked.pending⟩
  case pending =>
    rw [invoked.pending]
    exact nofun
  case posted =>
    rw [invoked.quiet]
    exact nofun
  case polled =>
    intro polling
    have awaited := Ent.awaited_of_polling polling
    rw [invoked.quiet] at awaited
    cases awaited
  case forced =>
    rw [invoked.event]
    exact fun _ never => absurd never Bool.false_ne_true
  case downs =>
    rw [invoked.downs]
    exact Nat.zero_le 1
  case ups => rw [invoked.ups, invoked.downs, if_neg (by decide)]
  case waits => exact invoked.waits
  case quiesced =>
    intro _ idle
    obtain queued | blocked := invoked.early
    · rw [queued] at idle
      cases idle
    · rw [blocked] at idle
      cases idle

theorem Sound.extend (sound : Sound config dev) (called : Called dev after args)
    (other : ∀ x, x ≠ dev.next → after.ents x = dev.ents x) (idx : (after.ents dev.next).idx = none)
    (refs : (after.ents dev.next).refs ≤ (after.ents dev.next).refcnt)
    (quiet : (after.ents dev.next).awaited = false)
    (held : (after.ents dev.next).early → (after.ents dev.next).held = true)
    (idxFrees : (after.ents dev.next).idxFrees = 0) (counted : (after.ents dev.next).Counted)
    (unposted : (after.ents dev.next).downs = 0) :
    Sound config after := by
  have quiet := quiet
  have notPolling : (after.ents dev.next).work ≠ .polling := by
    intro polling
    rw [Ent.awaited_of_polling polling] at quiet
    cases quiet
  have noEvent : (after.ents dev.next).event ≠ true := by
    intro event
    rw [Ent.awaited_of_event event] at quiet
    cases quiet
  have elsewhere {i x : Nat} (there : dev.entArr i = some x) : x ≠ dev.next := by
    have born := sound.born_of_slot there
    omega
  constructor
  · constructor
    case counted =>
      intro x
      have none : (if x = 0 then 0 else 0) = 0 := by split <;> rfl
      rw [none]
      unfold Dev.triggers
      by_cases same : x = dev.next
      · rw [same, idx]
        exact refs
      · have before := sound.referenced.counted x
        rw [none] at before
        unfold Dev.triggers at before
        rw [other x same, called.entArr, called.toComplete, called.toPut]
        exact before
    case slot =>
      intro x i atSlot
      by_cases same : x = dev.next
      · rw [same, idx] at atSlot
        cases atSlot
      · rw [other x same] at atSlot ⊢
        rw [called.entArr, called.bitmask]
        exact sound.referenced.slot x i atSlot
    case awaited =>
      intro x awaited
      by_cases same : x = dev.next
      · rw [same, quiet] at awaited
        cases awaited
      · rw [other x same] at awaited ⊢
        rw [called.entArr]
        exact sound.referenced.awaited x awaited
    case used =>
      intro i clear
      rw [called.bitmask] at clear
      rw [called.entArr]
      obtain empty | ⟨x, there, live⟩ := sound.referenced.used i clear
      · exact .inl empty
      · refine .inr ⟨x, there, ?_⟩
        rw [other x (elsewhere there)]
        exact live
    case placed =>
      intro i x there
      rw [called.entArr] at there
      rw [other x (elsewhere there)]
      exact sound.referenced.placed i x there
    case triggered =>
      rw [called.entArr, called.toComplete, called.toPut]
      exact sound.referenced.triggered
    case frees =>
      intro x
      by_cases same : x = dev.next
      · rw [same, idxFrees, idx, if_neg (fun both => by cases both.1)]
      · rw [other x same]
        exact sound.referenced.frees x
    case early =>
      intro x early
      by_cases same : x = dev.next
      · rw [same] at early ⊢
        exact ⟨idx, held early⟩
      · rw [other x same] at early ⊢
        exact sound.referenced.early x early
    case page =>
      intro x i atSlot
      by_cases same : x = dev.next
      · rw [same, idx] at atSlot
        cases atSlot
      · rw [other x same] at atSlot ⊢
        exact sound.referenced.page x i atSlot
    case events =>
      intro x event
      by_cases same : x = dev.next
      · rw [same] at event
        exact absurd event noEvent
      · rw [other x same] at event
        exact sound.referenced.events x event
    case polls =>
      intro x polling
      by_cases same : x = dev.next
      · rw [same] at polling
        exact absurd polling notPolling
      · rw [other x same] at polling ⊢
        exact sound.referenced.polls x polling
    case fresh =>
      intro x late
      rw [called.next] at late
      rw [other x (by omega)]
      exact sound.referenced.fresh x (by omega)
  · intro x
    by_cases same : x = dev.next
    · rw [same]
      exact counted
    · rw [other x same]
      exact sound.counted x
  · have others {x : Nat} (inside : (after.ents x).inPages) : (dev.ents x).inPages := by
      by_cases same : x = dev.next
      · rw [same] at inside
        have less := inside.2
        omega
      · rw [other x same] at inside
        exact inside
    constructor
    · intro x y left right
      exact sound.pages.one x y (others left) (others right)
    · intro x inside
      rw [called.pagesSem]
      exact sound.pages.zero x (others inside)
    · rw [called.pagesSem]
      exact sound.pages.bound

theorem Sound.exec (sound : Sound config dev) (args) : Sound config (exec dev args) := by
  have called := exec_called dev args
  obtain same | ⟨ent, started, added⟩ := called.ents
  · have none : (Entries.exec dev args).ents dev.next = Ent.none := by
      rw [same]
      exact sound.referenced.fresh dev.next le_rfl
    have counted := sound.counted dev.next
    rw [← same] at counted
    refine sound.extend called (fun x _ => by rw [same]) ?_ ?_ ?_ ?_ ?_ counted ?_
    · rw [none]
      rfl
    · rw [none]
      exact le_rfl
    · rw [none]
      rfl
    · rw [none]
      rintro (clash | clash) <;> cases clash
    · rw [none]
      rfl
    · rw [none]
      rfl
  · have invoked := cmdInvoke_invoked started
    have own : (Entries.exec dev args).ents dev.next = ent := by rw [added, update_self]
    rw [← own] at invoked
    refine sound.extend called ?_ invoked.idx ?_ invoked.quiet (fun _ => invoked.held)
      invoked.idxFrees invoked.counted invoked.downs
    · intro x apart
      rw [added, update_of_ne apart]
    · unfold Ent.refs
      rw [invoked.held, invoked.timer, invoked.quiet, invoked.refcnt]
      exact le_rfl

/-! ### Runs -/

theorem Sound.init (config caches) : Sound config (Dev.init config caches) := by
  constructor
  · constructor
    case counted =>
      intro x
      exact le_of_eq (by split <;> rfl)
    case slot =>
      intro x i clash
      cases clash
    case awaited =>
      intro x clash
      cases clash
    case used => exact fun _ _ => .inl rfl
    case placed =>
      intro i x clash
      cases clash
    case triggered => exact fun _ clash => absurd clash (lt_irrefl 0)
    case frees => exact fun _ => rfl
    case early => rintro x (clash | clash) <;> cases clash
    case page =>
      intro x i clash
      cases clash
    case events =>
      intro x clash
      cases clash
    case polls =>
      intro x clash
      cases clash
    case fresh => exact fun _ _ => rfl
  · intro x
    constructor
    case once => exact Nat.zero_le 1
    case early => rintro (clash | clash) <;> cases clash
    case pending => exact fun _ => rfl
    case posted =>
      nofun
    case polled =>
      nofun
    case forced =>
      nofun
    case downs => exact Nat.zero_le 1
    case ups => rfl
    case waits => exact fun _ => rfl
    case quiesced => exact fun _ _ _ => ⟨rfl, rfl⟩
  · constructor
    · rintro x y ⟨clash, _⟩
      cases clash
    · rintro x ⟨clash, _⟩
      cases clash
    · exact Nat.le_refl 1

theorem Sound.step (sound : Sound config dev) {move}
    (orderly : Orderly config dev move) (moved : step config dev move = some after) :
    Sound config after := by
  cases move with
  | exec args =>
    rw [← Option.some.inj moved]
    exact sound.exec args
  | handle e =>
    obtain ⟨queued, rfl⟩ := Option.ite_some_none_eq_some.mp moved
    exact sound.handle queued
  | post e down downAfter reply => exact sound.cmdWorkHandler moved orderly
  | polled e timedOut down reply =>
    obtain ⟨polling, rfl⟩ := Option.ite_some_none_eq_some.mp moved
    exact sound.polled polling orderly _
  | event e down reply =>
    obtain ⟨event, rfl⟩ := Option.ite_some_none_eq_some.mp moved
    exact sound.event event down reply
  | expire e =>
    obtain ⟨armed, rfl⟩ := Option.ite_some_none_eq_some.mp moved
    exact sound.expire armed
  | cbTimeout e down reply =>
    obtain ⟨running, rfl⟩ := Option.ite_some_none_eq_some.mp moved
    exact sound.cbTimeout running orderly
  | waitCanceled e =>
    obtain ⟨both, rfl⟩ := Option.ite_some_none_eq_some.mp moved
    exact sound.waitCanceled both.1 both.2
  | waitDone e output =>
    obtain ⟨both, rfl⟩ := Option.ite_some_none_eq_some.mp moved
    exact returnWaiter_same output (sound.unwait (Ent.waiter_of_waits both.1) both.2)
  | waitTimeout e down reply =>
    obtain ⟨all, moved⟩ := Option.ite_none_right_eq_some.mp moved
    obtain ⟨waits, started, none, mode, unforced⟩ := all
    rw [← Option.some.inj moved]
    exact sound.waitTimeout waits started none mode unforced orderly
  | trigger =>
    obtain ⟨-, rfl⟩ := Option.ite_some_none_eq_some.mp moved
    refine Sound.trigger sound ?_
    intro i mem
    have clear := (mem_filter.mp mem).2
    rw [Bool.not_eq_true'] at clear
    exact clear
  | triggerComplete i down reply =>
    obtain ⟨some, moved⟩ := Option.ite_none_left_eq_some.mp moved
    cases moved
    exact sound.triggerComplete some orderly
  | triggerPut i =>
    obtain ⟨some, moved⟩ := Option.ite_none_left_eq_some.mp moved
    split at moved
    · rename_i e there
      rw [← Option.some.inj moved]
      exact sound.triggerPut some there
    · cases moved

theorem Reachable.sound {caches}
    (reached : Reachable config caches (Orderly config) dev) : Sound config dev := by
  induction reached with
  | init => exact Sound.init config caches
  | step move old ok moved ih => exact ih.step ok moved

def Ent.inProgress (ent : Ent) : Prop :=
  ent.early ∨ ent.pendingComp = true ∨ ent.work = .polling

/-- Its work, its caller, the delayed work or the event will use the entry. -/
def Ent.referred (ent : Ent) : Prop :=
  ent.early ∨ ent.work = .polling ∨ ent.waiter = true ∨ ent.cbTimeout ≠ .idle ∨ ent.event = true

structure LifeCycle (config : Config) (dev : Dev) : Prop where
  once : ∀ e, (dev.ents e).completions ≤ 1
  /-- A command neither completed nor in progress never passed its semaphore, and nobody waits. -/
  finished : ∀ e, (dev.ents e).completions = 0 → ¬(dev.ents e).inProgress →
    (dev.ents e).downs = 0 ∧ (dev.ents e).waiter = false
  semaphore : ∀ e, (dev.ents e).downs ≤ 1 ∧
    (dev.ents e).ups = if (dev.ents e).downs = 1 then (dev.ents e).completions else 0
  alive : ∀ e, (dev.ents e).referred → 0 < (dev.ents e).refcnt
  frees : ∀ e, (dev.ents e).idxFrees ≤ 1
  /-- The slot of an undelivered event is still that of its command. -/
  slots : ∀ e, (dev.ents e).event = true → ∃ i, (dev.ents e).idx = some i ∧
    dev.entArr i = some e ∧ (i ≠ config.maxRegCmds → dev.bitmask i = false)

/-- In runs of orderly steps commands are completed exactly once with one `up` for their `down`, no entry is
freed while referred to, and no slot is given away while its event is undelivered. -/
theorem command_life_cycle (config : Config) (caches : List MsgCache) (dev : Dev)
    (reached : Reachable config caches (Orderly config) dev) : LifeCycle config dev := by
  have sound := reached.sound
  constructor
  case once => exact fun e => (sound.counted e).once
  case finished =>
    intro e none quiesced
    have counted := sound.counted e
    have idle : (dev.ents e).work = .idle := by
      cases work : (dev.ents e).work with
      | idle => rfl
      | queued => exact absurd (Or.inl (Or.inl work)) quiesced
      | blocked => exact absurd (Or.inl (Or.inr work)) quiesced
      | polling => exact absurd (.inr (.inr work)) quiesced
    have unset : (dev.ents e).pendingComp = false := by
      cases pending : (dev.ents e).pendingComp with
      | false => rfl
      | true => exact absurd (.inr (.inl pending)) quiesced
    obtain ⟨down, unheld⟩ := counted.quiesced none idle unset
    refine ⟨down, ?_⟩
    cases waiter : (dev.ents e).waiter with
    | false => rfl
    | true =>
      unfold Ent.held at unheld
      rw [counted.waits waiter, waiter] at unheld
      cases unheld
  case semaphore => exact fun e => ⟨(sound.counted e).downs, (sound.counted e).ups⟩
  case alive =>
    intro e referred
    have bound := sound.referenced.counted e
    have refs : 0 < (dev.ents e).refs := by
      obtain early | polling | waiter | timer | event := referred
      · exact Ent.refs_of_held (sound.referenced.early e early).2
      · exact Ent.refs_of_awaited (Ent.awaited_of_polling polling)
      · apply Ent.refs_of_held
        unfold Ent.held
        rw [(sound.counted e).waits waiter]
        exact waiter
      · exact Ent.refs_of_timer timer
      · exact Ent.refs_of_awaited (Ent.awaited_of_event event)
    omega
  case frees =>
    intro e
    rw [sound.referenced.frees e]
    split <;> omega
  case slots =>
    intro e event
    obtain ⟨i, idx, there⟩ := sound.referenced.awaited e (Ent.awaited_of_event event)
    refine ⟨i, idx, there, ?_⟩
    intro regular
    have positive := Ent.refs_of_awaited (Ent.awaited_of_event event)
    have bound := sound.referenced.counted e
    exact (sound.referenced.slot e i idx (by omega) regular).2

def CallArgs.plain (api : Api) (op : Nat) : CallArgs :=
  { api := api, op := op, inSize := 16, down := false, inMemory := true, copyErr := 0,
    outMemory := true, entMemory := true, queued := true }

def Reply.ok : Reply := { signature := 0, status := 0, output := 0 }

def eventsConfig : Config := { maxRegCmds := 31, mode := .events }

/-- The life cycle of a command while its event is to come, and when its caller has returned. -/
theorem command_life_cycle_done : ∃ posted dev, Reachable eventsConfig [] (Orderly eventsConfig) posted ∧
    (posted.ents 0).event = true ∧ posted.sem = 30 ∧ LifeCycle eventsConfig posted ∧
    run eventsConfig posted [.event 0 false Reply.ok, .waitDone 0 0] = some dev ∧
    (dev.calls 0).result = some 0 ∧ (dev.ents 0).refcnt = 0 ∧ (dev.ents 0).idxFrees = 1 ∧ dev.sem = 31 ∧
    LifeCycle eventsConfig dev := by
  have called : Reachable eventsConfig [] (Orderly eventsConfig) _ :=
    .step (.exec (CallArgs.plain .exec 0x100)) .init trivial rfl
  have handled : Reachable eventsConfig [] (Orderly eventsConfig) _ :=
    .step (.handle 0) called trivial rfl
  have posted : Reachable eventsConfig [] (Orderly eventsConfig) _ :=
    .step (.post 0 false false Reply.ok) handled (fun page => by cases page) rfl
  have answered : Reachable eventsConfig [] (Orderly eventsConfig) _ :=
    .step (.event 0 false Reply.ok) posted trivial rfl
  have returned : Reachable eventsConfig [] (Orderly eventsConfig) _ :=
    .step (.waitDone 0 0) answered trivial rfl
  exact ⟨_, _, posted, rfl, rfl, command_life_cycle _ _ _ posted, rfl, rfl, rfl, rfl, rfl,
    command_life_cycle _ _ _ returned⟩

/-- `mlx5_cmd_exec_polling` in events mode: the result is polled and the caller returns before the event, so
entry and slot are freed. -/
theorem polled_command_freed :
    ∃ dev, Reachable eventsConfig [] (fun _ _ => True) dev ∧ ¬LifeCycle eventsConfig dev := by
  have ran : Reachable eventsConfig [] (fun _ _ => True) _ :=
    .run (fun _ _ => trivial)
      [.exec (CallArgs.plain .execPolling 0x103), .handle 0, .post 0 false false Reply.ok,
        .polled 0 false false Reply.ok, .waitDone 0 0] .init rfl
  refine ⟨_, ran, ?_⟩
  intro cycle
  have alive := cycle.alive 0 (.inr (.inr (.inr (.inr rfl))))
  exact absurd alive (by decide)

end MlnxOfed.Command.Entries
