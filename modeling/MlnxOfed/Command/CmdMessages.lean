/-
Who owns the messages of a command: the waiting caller or, with a callback, the completion. The messages of
every call, their caches and the commands in flight are accounted for over a whole run.
-/

import MlnxOfed.Lib.CountBelow
import MlnxOfed.Command.CmdLifecycle

namespace MlnxOfed.Command.Entries

open Function Prod Option List
open Nat (count)
open Lib

variable {dev : Dev} {start : List MsgCache} {e : Nat}

def Ent.bare (ent : Ent) : Ent :=
  { Ent.none with
    callback := ent.callback, polling := ent.polling, completions := ent.completions,
    work := ent.work, pendingComp := ent.pendingComp, waiter := ent.waiter }

variable {left right : Ent}

theorem eq_of_bare {α : Type} (f : Ent → α) (bare : left.bare = right.bare)
    (blind : ∀ ent, f ent.bare = f ent) : f left = f right := by
  rw [← blind left, ← blind right, bare]

theorem bare_of_core (core : left.core = right.core) : left.bare = right.bare :=
  eq_of_core Ent.bare core fun _ => rfl

/-- Call and entry of one command. `held` also says who owns the messages: a callback until called, a caller
until it returns. -/
structure Settled (ent : Ent) (call : Call) : Prop where
  inFrees : call.inFrees = if call.inb.isSome = true ∧ ent.held = false then 1 else 0
  outFrees : call.outFrees = if call.outb = true ∧ ent.held = false then 1 else 0
  holds : ent.held = true → call.inb.isSome = true ∧ call.outb = true
  async : ent.callback = true → call.ctx.isSome = true ∧ call.result = some 0 ∧
    call.callbacks.length = ent.completions ∧ ent.completions ≤ 1 ∧ ent.polling = false
  sync : ent.callback = false → call.callbacks = []
  failed : call.ctx.isSome = true → ent.callback = false → ∃ err, call.result = some err ∧ err ≠ 0
  flying : ent.callback = true → ent.completions = 0 → ent.early ∨ ent.pendingComp = true
  early : ent.early → ent.completions = 0 ∧ ent.pendingComp = false
  pending : ent.callback = true → ent.pendingComp = true → ent.completions = 0
  waits : ent.waiter = true → ent.callback = false ∧ call.ctx = none

def Dev.flies (dev : Dev) (ctx x : Nat) : Prop :=
  (dev.ents x).callback = true ∧ (dev.ents x).completions = 0 ∧ (dev.calls x).ctx = some ctx

instance (dev : Dev) (ctx : Nat) : DecidablePred (dev.flies ctx) :=
  fun _ => inferInstanceAs (Decidable (_ ∧ _ ∧ _))

def Dev.holds (dev : Dev) (msg : Msg) (x : Nat) : Prop :=
  (dev.ents x).held = true ∧ (dev.calls x).inb = some msg

instance (dev : Dev) (msg : Msg) : DecidablePred (dev.holds msg) :=
  fun _ => inferInstanceAs (Decidable (_ ∧ _))

def headCount (caches : List MsgCache) (k : Nat) (msg : Msg) : Nat :=
  match caches[k]? with
  | some ch => ch.head.count msg
  | none => 0

structure CachesKept (start : List MsgCache) (dev : Dev) : Prop where
  length : dev.caches.length = start.length
  free : ∀ (k : Nat) (ch : MsgCache), dev.caches[k]? = some ch → ch.free = ch.head.length
  parent : ∀ (k : Nat) (ch : MsgCache), dev.caches[k]? = some ch → ∀ msg ∈ ch.head, msg.parent = some k
  counts : ∀ (k : Nat) (msg : Msg), msg.parent = some k →
    headCount dev.caches k msg + count (dev.holds msg) dev.next = headCount start k msg

structure Kept (start : List MsgCache) (dev : Dev) : Prop where
  settled : ∀ x, x < dev.next → Settled (dev.ents x) (dev.calls x)
  fresh : ∀ x, dev.next ≤ x → (dev.ents x).bare = Ent.none
  placed : ∀ i x, dev.entArr i = some x → x < dev.next ∧ ¬(dev.ents x).early
  inflight : ∀ ctx, dev.numInflight ctx = 1 + count (dev.flies ctx) dev.next
  caches : CachesKept start dev

theorem Settled.of_bare {call} (settled : Settled left call)
    (bare : right.bare = left.bare) : Settled right call := by
  have blind : Settled left.bare call := { settled with }
  rw [← bare] at blind
  exact { blind with }

/-! ### Caches -/

variable {msg : Msg}

theorem takeMsg_found {inSize caches after} (found : takeMsg inSize caches = (after, some msg)) :
    ∃ (k : Nat) (ch : MsgCache) (others : List Msg), caches[k]? = some ch ∧ ch.head = msg :: others ∧
      after = caches.set k { ch with head := others, free := ch.free - 1 } := by
  induction caches generalizing after with
  | nil =>
    rw [takeMsg, mk.injEq] at found
    cases found.2
  | cons ch rest ih =>
    rw [takeMsg] at found
    have deeper (found : (ch :: (takeMsg inSize rest).1, (takeMsg inSize rest).2) =
        (after, some msg)) : ∃ (k : Nat) (old : MsgCache) (others : List Msg),
        (ch :: rest)[k]? = some old ∧ old.head = msg :: others ∧
        after = (ch :: rest).set k { old with head := others, free := old.free - 1 } := by
      rw [mk.injEq] at found
      obtain ⟨k, old, others, there, head, rest_eq⟩ :=
        @ih (takeMsg inSize rest).1 (by rw [← found.2])
      refine ⟨k + 1, old, others, ?_, head, ?_⟩
      · rw [getElem?_cons_succ]
        exact there
      · rw [← found.1, set_cons_succ, rest_eq]
    split at found
    · exact deeper found
    split at found
    · exact deeper found
    rename_i others head
    rw [mk.injEq, some.injEq] at found
    rename_i first
    refine ⟨0, ch, others, rfl, ?_, ?_⟩
    · rw [head, found.2]
    · rw [← found.1]
      rfl

theorem takeMsg_missed {inSize caches after}
    (missed : takeMsg inSize caches = (after, none)) : after = caches := by
  induction caches generalizing after with
  | nil =>
    rw [takeMsg, mk.injEq] at missed
    exact missed.1.symm
  | cons ch rest ih =>
    rw [takeMsg] at missed
    have deeper (missed : (ch :: (takeMsg inSize rest).1, (takeMsg inSize rest).2) =
        (after, none)) : after = ch :: rest := by
      rw [mk.injEq] at missed
      rw [← missed.1, @ih (takeMsg inSize rest).1 (by rw [← missed.2])]
    split at missed
    · exact deeper missed
    · split at missed
      · exact deeper missed
      · rw [mk.injEq] at missed
        cases missed.2

variable {old new : MsgCache}

private theorem headCount_set {caches k} (there : caches[k]? = some old) (j msg) :
    headCount (caches.set k new) j msg = if j = k then new.head.count msg else headCount caches j msg := by
  have bound : k < caches.length := (List.getElem?_eq_some_iff.mp there).1
  unfold headCount
  split_ifs with same
  · rw [same, getElem?_set_self bound]
  · rw [getElem?_set_ne (fun equal => same equal.symm)]

variable {after : Dev}

theorem CachesKept.of_holds (kept : CachesKept start dev) (caches : after.caches = dev.caches)
    (holds : ∀ msg : Msg, msg.parent ≠ none → count (after.holds msg) after.next =
      count (dev.holds msg) dev.next) : CachesKept start after := by
  constructor
  · rw [caches]
    exact kept.length
  · rw [caches]
    exact kept.free
  · rw [caches]
    exact kept.parent
  · intro k msg parent
    rw [caches, holds msg (by rw [parent]; exact some_ne_none k)]
    exact kept.counts k msg parent

theorem CachesKept.set (kept : CachesKept start dev) {k}
    (there : dev.caches[k]? = some old) (caches : after.caches = dev.caches.set k new)
    (free : old.free = old.head.length → new.free = new.head.length)
    (parent : ∀ msg ∈ new.head, msg ∈ old.head ∨ msg.parent = some k)
    (counts : ∀ msg : Msg, msg.parent = some k → new.head.count msg + count (after.holds msg) after.next =
        old.head.count msg + count (dev.holds msg) dev.next)
    (others : ∀ msg : Msg, msg.parent ≠ some k →
      count (after.holds msg) after.next = count (dev.holds msg) dev.next) :
    CachesKept start after := by
  have bound : k < dev.caches.length := (List.getElem?_eq_some_iff.mp there).1
  constructor
  · rw [caches, length_set]
    exact kept.length
  · intro j ch present
    rw [caches] at present
    by_cases here : j = k
    · rw [here, getElem?_set_self bound, some.injEq] at present
      rw [← present]
      exact free (kept.free k old there)
    · rw [getElem?_set_ne (Ne.symm here)] at present
      exact kept.free j ch present
  · intro j ch present
    rw [caches] at present
    by_cases here : j = k
    · rw [here, getElem?_set_self bound, some.injEq] at present
      rw [← present, here]
      exact fun msg mem => (parent msg mem).elim (kept.parent k old there msg) id
    · rw [getElem?_set_ne (Ne.symm here)] at present
      exact kept.parent j ch present
  intro j msg cached
  have before := kept.counts j msg cached
  rw [caches, headCount_set there]
  by_cases here : j = k
  · have known : headCount dev.caches k msg = old.head.count msg := by
      unfold headCount
      rw [there]
    rw [here] at before cached ⊢
    rw [if_pos rfl, counts msg cached, ← known]
    exact before
  · rw [if_neg here, others msg (by rw [cached]; exact fun same => here (some.inj same))]
    exact before

theorem CachesKept.release (kept : CachesKept start dev) (born : e < dev.next)
    (inb : (dev.calls e).inb = some msg) (held : (dev.ents e).held = true)
    (freed : (after.ents e).held = false) (next : after.next = dev.next)
    (caches : after.caches = freeMsg dev.caches msg)
    (others : ∀ m x, x ≠ e → (after.holds m x ↔ dev.holds m x)) : CachesKept start after := by
  have dropped : count (dev.holds msg) dev.next = count (after.holds msg) dev.next + 1 := by
    refine count_drop born ⟨held, inb⟩ ?_ fun x _ apart => (others msg x apart).symm
    intro still
    have hold := still.1
    rw [freed] at hold
    cases hold
  have same {m : Msg} (apart : m ≠ msg) :
      count (after.holds m) dev.next = count (dev.holds m) dev.next := by
    apply count_congr_below
    intro x _
    by_cases own : x = e
    · rw [own]
      constructor
      · intro still
        have hold := still.1
        rw [freed] at hold
        cases hold
      · intro old
        have equal := old.2
        rw [inb] at equal
        exact absurd (some.inj equal).symm apart
    · exact others m x own
  cases parent : msg.parent with
  | none =>
    refine kept.of_holds ?_ ?_
    · rw [caches]
      unfold freeMsg
      rw [parent]
    · intro m cached
      rw [next, same (fun equal => cached (by rw [equal, parent]))]
  | some own =>
    have counts := kept.counts own msg parent
    rw [dropped] at counts
    have bound : own < dev.caches.length := by
      rw [kept.length]
      by_contra outside
      unfold headCount at counts
      rw [getElem?_eq_none (by omega : start.length ≤ own)] at counts
      dsimp only at counts
      omega
    have there : dev.caches[own]? = some dev.caches[own] := getElem?_eq_getElem bound
    have put : after.caches = dev.caches.set own
        { dev.caches[own] with
          head := dev.caches[own].head ++ [msg], free := dev.caches[own].free + 1 } := by
      rw [caches]
      unfold freeMsg
      rw [parent]
      dsimp only
      rw [modify_eq_set_getElem?, there]
      rfl
    refine kept.set there put ?_ ?_ ?_ ?_
    · intro free
      rw [length_append, free]
      rfl
    · intro m mem
      refine (mem_append.mp mem).imp id ?_
      intro last
      rw [mem_singleton.mp last]
      exact parent
    · intro m _
      rw [count_append, next]
      by_cases equal : m = msg
      · rw [equal, count_singleton_self]
        omega
      · rw [count_singleton, same equal, if_neg (by simpa using fun other => equal other.symm)]
        omega
    · intro m cached
      rw [next, same (fun equal => cached (by rw [equal, parent]))]

/-- Two states that differ in the entry and the call of one command. -/
structure OneChanged (dev after : Dev) (e : Nat) : Prop where
  next : after.next = dev.next
  entArr : after.entArr = dev.entArr
  ents : ∀ x, x ≠ e → (after.ents x).bare = (dev.ents x).bare
  calls : ∀ x, x ≠ e → after.calls x = dev.calls x
  ctx : (after.calls e).ctx = (dev.calls e).ctx
  inb : (after.calls e).inb = (dev.calls e).inb

theorem OneChanged.holds (changed : OneChanged dev after e) (msg) {x}
    (apart : x ≠ e) : after.holds msg x ↔ dev.holds msg x := by
  unfold Dev.holds
  rw [eq_of_bare Ent.held (changed.ents x apart) fun _ => rfl, changed.calls x apart]

theorem OneChanged.flies (changed : OneChanged dev after e) (ctx) {x}
    (apart : x ≠ e) : after.flies ctx x ↔ dev.flies ctx x := by
  unfold Dev.flies
  rw [eq_of_bare Ent.callback (changed.ents x apart) fun _ => rfl,
    eq_of_bare Ent.completions (changed.ents x apart) fun _ => rfl, changed.calls x apart]

theorem Kept.change (kept : Kept start dev) (born : e < dev.next) (changed : OneChanged dev after e)
    (settled : Settled (after.ents e) (after.calls e)) (late : (after.ents e).early → (dev.ents e).early)
    (inflight : ∀ ctx, after.numInflight ctx = 1 + count (after.flies ctx) dev.next)
    (caches : CachesKept start after) : Kept start after := by
  constructor
  case settled =>
    intro x below
    rw [changed.next] at below
    by_cases same : x = e
    · rw [same]
      exact settled
    · rw [changed.calls x same]
      exact (kept.settled x below).of_bare (changed.ents x same)
  case fresh =>
    intro x above
    rw [changed.next] at above
    rw [changed.ents x (by omega)]
    exact kept.fresh x above
  case placed =>
    intro i x there
    rw [changed.entArr] at there
    obtain ⟨below, notEarly⟩ := kept.placed i x there
    rw [changed.next]
    refine ⟨below, ?_⟩
    by_cases same : x = e
    · rw [same] at notEarly ⊢
      exact fun early => notEarly (late early)
    · rw [eq_of_bare Ent.early (changed.ents x same) fun _ => rfl]
      exact notEarly
  case inflight =>
    intro ctx
    rw [changed.next]
    exact inflight ctx
  case caches => exact caches

theorem Kept.keep (kept : Kept start dev) (born : e < dev.next) (changed : OneChanged dev after e)
    (settled : Settled (after.ents e) (after.calls e)) (late : (after.ents e).early → (dev.ents e).early)
    (held : (after.ents e).held = (dev.ents e).held)
    (callback : (after.ents e).callback = (dev.ents e).callback)
    (completions : (dev.ents e).callback = true → (after.ents e).completions = (dev.ents e).completions)
    (numInflight : after.numInflight = dev.numInflight) (caches : after.caches = dev.caches) :
    Kept start after := by
  refine kept.change born changed settled late ?_ ?_
  · intro ctx
    rw [numInflight, kept.inflight ctx]
    apply congrArg (1 + ·)
    apply count_congr_below
    intro x _
    by_cases same : x = e
    · rw [same]
      unfold Dev.flies
      rw [callback, changed.ctx]
      constructor
      · intro flies
        exact ⟨flies.1, (completions flies.1).trans flies.2.1, flies.2.2⟩
      · intro flies
        exact ⟨flies.1, (completions flies.1).symm.trans flies.2.1, flies.2.2⟩
    · exact (changed.flies ctx same).symm
  · refine kept.caches.of_holds caches ?_
    intro msg _
    rw [changed.next]
    apply count_congr_below
    intro x _
    by_cases same : x = e
    · rw [same]
      unfold Dev.holds
      rw [held, changed.inb]
    · exact changed.holds msg same

theorem Kept.release (kept : Kept start dev) (born : e < dev.next) (changed : OneChanged dev after e)
    (settled : Settled (after.ents e) (after.calls e)) (late : (after.ents e).early → (dev.ents e).early)
    (held : (dev.ents e).held = true) (freed : (after.ents e).held = false)
    (inb : (dev.calls e).inb = some msg) (caches : after.caches = freeMsg dev.caches msg)
    (numInflight : ∀ ctx, after.numInflight ctx + (if dev.flies ctx e then 1 else 0) = dev.numInflight ctx)
    (landed : ∀ ctx, ¬after.flies ctx e) : Kept start after := by
  refine kept.change born changed settled late ?_ ?_
  · intro ctx
    have before := kept.inflight ctx
    have moved := numInflight ctx
    by_cases flies : dev.flies ctx e
    · rw [if_pos flies] at moved
      have dropped := count_drop born flies (landed ctx) fun x _ apart => (changed.flies ctx apart).symm
      omega
    rw [if_neg flies] at moved
    have same : count (after.flies ctx) dev.next = count (dev.flies ctx) dev.next := by
      apply count_congr_below
      intro x _
      by_cases own : x = e
      · rw [own]
        exact ⟨fun up => absurd up (landed ctx), fun up => absurd up flies⟩
      · exact changed.flies ctx own
    omega
  · exact kept.caches.release born inb held freed changed.next caches
      fun m x apart => changed.holds m apart

/-! ### What the functions do to messages -/

structure SameMessages (dev after : Dev) : Prop where
  next : after.next = dev.next
  entArr : after.entArr = dev.entArr
  calls : after.calls = dev.calls
  caches : after.caches = dev.caches
  numInflight : after.numInflight = dev.numInflight

theorem SameMessages.rfl {dev} : SameMessages dev dev :=
  ⟨Eq.refl _, Eq.refl _, Eq.refl _, Eq.refl _, Eq.refl _⟩

theorem SameMessages.trans {dev middle after} (first : SameMessages dev middle)
    (second : SameMessages middle after) : SameMessages dev after :=
  ⟨second.next.trans first.next, second.entArr.trans first.entArr,
    second.calls.trans first.calls, second.caches.trans first.caches,
    second.numInflight.trans first.numInflight⟩

theorem setEnt_messages (dev e ent) : SameMessages dev (dev.setEnt e ent) := ⟨rfl, rfl, rfl, rfl, rfl⟩

theorem cmdEntPut_messages (dev e) : SameMessages dev (cmdEntPut dev e) :=
  ⟨(cmdEntPut_slots dev e).next, (cmdEntPut_slots dev e).entArr, cmdEntPut_calls dev e,
    cmdEntPut_caches dev e, cmdEntPut_numInflight dev e⟩

theorem upSem_messages (dev e) : SameMessages dev (upSem dev e) := by
  unfold upSem
  dsimp only
  split <;> exact ⟨rfl, rfl, rfl, rfl, rfl⟩

theorem completed_messages (dev e type down triggered reply) : SameMessages dev
      (setResult (putEvent (cancelTimeout dev e) e type down) e triggered reply) := by
  have cancelled : SameMessages dev (cancelTimeout dev e) := by
    unfold cancelTimeout
    dsimp only
    split
    · exact (setEnt_messages ..).trans (cmdEntPut_messages ..)
    · exact SameMessages.rfl
  have put (dev : Dev) : SameMessages dev (putEvent dev e type down) := by
    unfold putEvent
    split
    · exact cmdEntPut_messages ..
    · exact SameMessages.rfl
  have res (dev : Dev) : SameMessages dev (setResult dev e triggered reply) := by
    unfold setResult
    dsimp only
    split
    · exact setEnt_messages ..
    · exact SameMessages.rfl
  exact (cancelled.trans (put _)).trans (res _)

/-- The messages of a command are released and its callback is called. -/
structure CalledBack (dev after : Dev) (e : Nat) : Prop where
  next : after.next = dev.next
  entArr : after.entArr = dev.entArr
  self : ∃ err, after.calls e =
    { dev.calls e with
      outFrees := (dev.calls e).outFrees + 1
      inFrees := (dev.calls e).inFrees + 1
      callbacks := (dev.calls e).callbacks ++ [err] }
  other : ∀ x, x ≠ e → after.calls x = dev.calls x
  caches : ∀ msg, (dev.calls e).inb = some msg → after.caches = freeMsg dev.caches msg
  numInflight : ∀ ctx, (dev.calls e).ctx = some ctx →
    after.numInflight = update dev.numInflight ctx (dev.numInflight ctx - 1)

theorem CalledBack.of_same {dev middle after last} (called : CalledBack middle after e)
    (old : SameMessages dev middle) (later : SameMessages after last) : CalledBack dev last e := by
  constructor
  · rw [later.next, called.next, old.next]
  · rw [later.entArr, called.entArr, old.entArr]
  · obtain ⟨err, self⟩ := called.self
    refine ⟨err, ?_⟩
    rw [later.calls, self, old.calls]
  · intro x apart
    rw [later.calls, called.other x apart, old.calls]
  · intro msg inb
    rw [← old.calls] at inb
    rw [later.caches, called.caches msg inb, old.caches]
  · intro ctx known
    rw [← old.calls] at known
    rw [later.numInflight, called.numInflight ctx known, old.numInflight]

theorem setCall_self (dev : Dev) (c call) : (dev.setCall c call).calls c = call := update_self ..

theorem setCall_other (dev : Dev) (call : Call) {c x} (apart : x ≠ c) :
    (dev.setCall c call).calls x = dev.calls x :=
  update_of_ne apart ..

theorem freeMsgs_self (dev e) : (freeMsgs dev e).calls e = { dev.calls e with
        outFrees := (dev.calls e).outFrees + 1, inFrees := (dev.calls e).inFrees + 1 } :=
  setCall_self ..

theorem freeMsgs_other (dev) {e x} (apart : x ≠ e) : (freeMsgs dev e).calls x = dev.calls x :=
  setCall_other _ _ apart

theorem freeMsgs_caches {dev} (inb : (dev.calls e).inb = some msg) :
    (freeMsgs dev e).caches = freeMsg dev.caches msg := by
  unfold freeMsgs
  dsimp only
  rw [inb]

theorem execCbHandler_self (dev e err) : (execCbHandler dev e err).calls e =
      { dev.calls e with callbacks := (dev.calls e).callbacks ++ [err] } := by
  unfold execCbHandler
  dsimp only
  split <;> exact setCall_self ..

theorem execCbHandler_other (dev) {e x} (err) (apart : x ≠ e) :
    (execCbHandler dev e err).calls x = dev.calls x := by
  unfold execCbHandler
  dsimp only
  split <;> exact setCall_other _ _ apart

theorem execCbHandler_caches (dev e err) : (execCbHandler dev e err).caches = dev.caches := by
  unfold execCbHandler
  dsimp only
  split <;> rfl

theorem execCbHandler_numInflight {dev ctx} (known : (dev.calls e).ctx = some ctx)
    (err) : (execCbHandler dev e err).numInflight = update dev.numInflight ctx (dev.numInflight ctx - 1) := by
  unfold execCbHandler
  dsimp only
  rw [known]
  rfl

private theorem calledBack_after_free (dev e err) :
    CalledBack dev (execCbHandler (cmdEntPut (freeMsgs dev e) e) e err) e := by
  have put := cmdEntPut_messages (freeMsgs dev e) e
  constructor
  · rw [(execCbHandler_slots ..).next, put.next]
    rfl
  · rw [(execCbHandler_slots ..).entArr, put.entArr]
    rfl
  · refine ⟨err, ?_⟩
    rw [execCbHandler_self, put.calls, freeMsgs_self]
  · intro x apart
    rw [execCbHandler_other _ _ apart, put.calls, freeMsgs_other _ apart]
  · intro msg inb
    rw [execCbHandler_caches, put.caches, freeMsgs_caches inb]
  intro ctx known
  have kept : ((cmdEntPut (freeMsgs dev e) e).calls e).ctx = some ctx := by
    rw [put.calls, freeMsgs_self]
    exact known
  rw [execCbHandler_numInflight kept, put.numInflight]
  rfl

theorem calledBack_before_free (dev e err) : CalledBack dev (freeMsgs (execCbHandler dev e err) e) e := by
  constructor
  · exact (execCbHandler_slots ..).next
  · exact (execCbHandler_slots ..).entArr
  · refine ⟨err, ?_⟩
    rw [freeMsgs_self, execCbHandler_self]
  · intro x apart
    rw [freeMsgs_other _ apart, execCbHandler_other _ _ apart]
  · intro msg inb
    have kept : ((execCbHandler dev e err).calls e).inb = some msg := by
      rw [execCbHandler_self]
      exact inb
    rw [freeMsgs_caches kept, execCbHandler_caches]
  · intro ctx known
    exact execCbHandler_numInflight known err

private theorem finishEnt_called {dev} (callback : (dev.ents e).callback = true) (reply) :
    CalledBack dev (finishEnt dev e reply) e := by
  unfold finishEnt
  dsimp only
  rw [if_pos callback]
  exact (calledBack_after_free (countCompletion dev e) e _).of_same (setEnt_messages ..) (upSem_messages ..)

private theorem finishEnt_messages {dev} (callback : (dev.ents e).callback = false) (reply) :
    SameMessages dev (finishEnt dev e reply) := by
  unfold finishEnt
  dsimp only
  rw [if_neg (by rw [callback]; exact Bool.false_ne_true)]
  exact SameMessages.trans (setEnt_messages ..) (upSem_messages ..)

theorem completeEnt_called {dev} (callback : (dev.ents e).callback = true) (type down triggered reply) :
    CalledBack dev (completeEnt dev e type down triggered reply) e := by
  have core : ((setResult (putEvent (cancelTimeout dev e) e type down) e triggered reply).ents
      e).core = (dev.ents e).core := by
    rw [setResult_core, putEvent_core, cancelTimeout_core]
  refine (finishEnt_called ?_ reply).of_same (completed_messages ..) SameMessages.rfl
  rw [eq_of_core Ent.callback core fun _ => rfl]
  exact callback

theorem completeEnt_messages {dev} (callback : (dev.ents e).callback = false)
    (type down triggered reply) :
    SameMessages dev (completeEnt dev e type down triggered reply) := by
  have core : ((setResult (putEvent (cancelTimeout dev e) e type down) e triggered reply).ents
      e).core = (dev.ents e).core := by
    rw [setResult_core, putEvent_core, cancelTimeout_core]
  refine (completed_messages ..).trans (finishEnt_messages ?_ reply)
  rw [eq_of_core Ent.callback core fun _ => rfl]
  exact callback

theorem Kept.called (kept : Kept start dev) (born : e < dev.next) (called : CalledBack dev after e)
    (others : ∀ x, x ≠ e → (after.ents x).bare = (dev.ents x).bare)
    (callback : (dev.ents e).callback = true) (none : (dev.ents e).completions = 0)
    (same : (after.ents e).callback = true) (polling : (after.ents e).polling = (dev.ents e).polling)
    (one : (after.ents e).completions = 1) (waiter : (after.ents e).waiter = (dev.ents e).waiter)
    (late : ¬(after.ents e).early) (idle : (after.ents e).pendingComp = false) :
    Kept start after := by
  have settled := kept.settled e born
  obtain ⟨err, self⟩ := called.self
  obtain ⟨known, res, length, _, unforced⟩ := settled.async callback
  have held : (dev.ents e).held = true := by
    unfold Ent.held
    rw [callback, none]
    rfl
  have freed : (after.ents e).held = false := by
    unfold Ent.held
    rw [same, one]
    rfl
  obtain ⟨someIn, out⟩ := settled.holds held
  obtain ⟨msg, inb⟩ := isSome_iff_exists.mp someIn
  obtain ⟨ctx, ctxKnown⟩ := isSome_iff_exists.mp known
  have changed : OneChanged dev after e := by
    refine ⟨called.next, called.entArr, others, called.other, ?_, ?_⟩
    · rw [self]
    · rw [self]
  refine kept.release born changed ?_ (fun early => absurd early late) held freed inb
    (called.caches msg inb) ?_ ?_
  · have inFrees := settled.inFrees
    have outFrees := settled.outFrees
    rw [held, if_neg (fun both => by cases both.2)] at inFrees outFrees
    rw [self]
    constructor
    · change (dev.calls e).inFrees + 1 = _
      rw [inFrees, if_pos ⟨someIn, freed⟩]
    · change (dev.calls e).outFrees + 1 = _
      rw [outFrees, if_pos ⟨out, freed⟩]
    · rw [freed]
      exact nofun
    · intro _
      refine ⟨known, res, ?_, le_of_eq one, polling.trans unforced⟩
      rw [length_append, length, none, one]
      rfl
    · rw [same]
      exact fun never => absurd never.symm Bool.false_ne_true
    · rw [same]
      exact fun _ never => absurd never.symm Bool.false_ne_true
    · rw [one]
      exact fun _ never => absurd never Nat.one_ne_zero
    · exact fun early => absurd early late
    · rw [idle]
      exact fun _ never => absurd never Bool.false_ne_true
    · intro waits
      rw [waiter] at waits
      rw [(settled.waits waits).1] at callback
      cases callback
  · intro other
    rw [called.numInflight ctx ctxKnown]
    by_cases own : other = ctx
    · have flies : dev.flies other e := ⟨callback, none, by rw [own]; exact ctxKnown⟩
      have positive := kept.inflight ctx
      rw [if_pos flies, own, update_self]
      omega
    have flies : ¬dev.flies other e := by
      rintro ⟨_, _, here⟩
      rw [ctxKnown] at here
      exact own (some.inj here).symm
    rw [if_neg flies, update_of_ne own]
    rfl
  · rintro other ⟨_, zero, _⟩
    rw [one] at zero
    cases zero

end MlnxOfed.Command.Entries
