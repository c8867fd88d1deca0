/-
Completing a command: the references `mlx5_cmd_comp_handler` puts, and one completion and one `up` for a
command that it completes.
-/

import MlnxOfed.Command.CmdReferences

namespace MlnxOfed.Command.Entries

open Ent Entries

variable {config : Config} {dev : Dev} {e : Nat}

/-! ### Changes that keep references -/

theorem Ent.Keeps.of_core {old new : Ent} (refcnt : new.refcnt = old.refcnt)
    (idxFrees : new.idxFrees = old.idxFrees)
    (core : new.core = old.core) (early : old.early → old.held = true) : old.Keeps config new := by
  have work := eq_of_core Ent.work core fun _ => rfl
  constructor
  case idx => exact eq_of_core Ent.idx core fun _ => rfl
  case refcnt => exact refcnt
  case idxFrees => exact idxFrees
  case pageQueue => exact eq_of_core Ent.pageQueue core fun _ => rfl
  case awaited =>
    rw [eq_of_core Ent.awaited core fun _ => rfl]
    exact id
  case early =>
    unfold Ent.early at early ⊢
    rw [work, eq_of_core Ent.held core fun _ => rfl]
    exact fun queued => ⟨queued, early queued⟩
  case events =>
    rw [eq_of_core Ent.event core fun _ => rfl]
    exact id
  case polls =>
    rw [work]
    exact fun polls => ⟨polls, eq_of_core Ent.polling core fun _ => rfl⟩

variable {spare : Nat}

theorem Referenced.setResult (referenced : Referenced config dev e spare)
    (born : e < dev.next) (triggered reply) :
    Referenced config (setResult dev e triggered reply) e spare := by
  unfold Entries.setResult
  dsimp only
  split
  · refine referenced.setEnt born ?_ ?_
    · exact Ent.Keeps.of_core rfl rfl rfl fun early => (referenced.early e early).2
    · exact le_rfl
  · exact referenced

theorem Referenced.cancelTimeout (referenced : Referenced config dev e spare)
    (born : e < dev.next) : Referenced config (cancelTimeout dev e) e spare := by
  unfold Entries.cancelTimeout
  dsimp only
  split
  · rename_i armed
    apply Referenced.put
    refine referenced.setEnt born ?_ ?_
    · exact Ent.Keeps.of_core rfl rfl rfl fun early => (referenced.early e early).2
    have one : (if (dev.ents e).cbTimeout = .idle then 0 else 1) = 1 := by
      rw [armed.2]
      rfl
    change (if (dev.ents e).held then 1 else 0) + 0 + (if (dev.ents e).awaited then 1 else 0) +
      (spare + 1) ≤ (dev.ents e).refs + spare
    unfold Ent.refs
    rw [one]
    omega
  · exact referenced

/-- The references that `putEvent` puts. -/
def eventRefs (type : CompType) (down : Bool) : Nat :=
  if type ≠ .forced ∨ down = true then 1 else 0

theorem Referenced.putEvent {type down} (referenced : Referenced config dev e (eventRefs type down)) :
    Referenced config (putEvent dev e type down) e 0 := by
  unfold Entries.putEvent
  unfold eventRefs at referenced
  split
  · rename_i puts
    rw [if_pos puts] at referenced
    exact referenced.put
  · rename_i keeps
    rw [if_neg keeps] at referenced
    exact referenced

theorem execCbHandler_ents (dev c err) : (execCbHandler dev c err).ents = dev.ents := by
  unfold execCbHandler
  dsimp only
  split <;> rfl

theorem execCbHandler_bitmask (dev c err) : (execCbHandler dev c err).bitmask = dev.bitmask := by
  unfold execCbHandler
  dsimp only
  split <;> rfl

theorem execCbHandler_pagesSem (dev c err) : (execCbHandler dev c err).pagesSem = dev.pagesSem := by
  unfold execCbHandler
  dsimp only
  split <;> rfl

theorem execCbHandler_slots (dev c err) : SameSlots dev (execCbHandler dev c err) := by
  unfold execCbHandler
  dsimp only
  split <;> exact ⟨rfl, rfl, rfl, rfl⟩

theorem Referenced.upSem (referenced : Referenced config dev e spare)
    (born : e < dev.next) : Referenced config (upSem dev e) e spare := by
  have counted : Referenced config
      (dev.setEnt e { dev.ents e with ups := (dev.ents e).ups + 1 }) e spare := by
    refine referenced.setEnt born ?_ le_rfl
    refine ⟨rfl, rfl, rfl, rfl, id, ?_, id, fun polls => ⟨polls, rfl⟩⟩
    exact fun early => ⟨early, (referenced.early e early).2⟩
  unfold Entries.upSem
  dsimp only
  split <;> exact counted.of_same ⟨rfl, rfl, rfl, rfl⟩ rfl rfl

theorem Referenced.finishEnt (referenced : Referenced config dev e 0) (born : e < dev.next)
    (late : ¬(dev.ents e).early) (first : (dev.ents e).completions = 0) (reply) :
    Referenced config (finishEnt dev e reply) e 0 := by
  have keeps : (dev.ents e).Keeps config
      { dev.ents e with completions := (dev.ents e).completions + 1 } :=
    ⟨rfl, rfl, rfl, rfl, id, fun early => absurd early late, id, fun polls => ⟨polls, rfl⟩⟩
  unfold Entries.finishEnt
  dsimp only
  cases callback : (dev.ents e).callback with
  | true =>
    have spare : Referenced config (countCompletion dev e) e 1 := by
      refine referenced.setEnt born keeps ?_
      unfold Ent.refs
      have held : (dev.ents e).held = true := by
        unfold Ent.held
        rw [callback, first]
        rfl
      have gone : ({ dev.ents e with completions := (dev.ents e).completions + 1 } : Ent).held = false := by
        unfold Ent.held
        rw [callback]
        change decide ((dev.ents e).completions + 1 = 0) = false
        exact decide_eq_false (Nat.succ_ne_zero _)
      rw [held, gone]
      change 0 + (if (dev.ents e).cbTimeout = .idle then 0 else 1) +
        (if (dev.ents e).awaited then 1 else 0) + 1 ≤ 1 + (if (dev.ents e).cbTimeout = .idle then 0 else 1) +
            (if (dev.ents e).awaited then 1 else 0) + 0
      omega
    have freed : Referenced config (freeMsgs (countCompletion dev e) e) e 1 :=
      spare.of_same ⟨rfl, rfl, rfl, rfl⟩ rfl rfl
    have called := freed.put.of_same (execCbHandler_slots _ e (callbackErr (dev.ents e) reply))
      (execCbHandler_ents ..) (execCbHandler_bitmask ..)
    rw [if_pos rfl]
    refine called.upSem ?_
    rw [(execCbHandler_slots ..).next, (cmdEntPut_slots ..).next]
    exact born
  | false =>
    rw [if_neg Bool.false_ne_true]
    refine Referenced.upSem ?_ born
    refine referenced.setEnt born keeps ?_
    unfold Ent.refs
    have held : ({ dev.ents e with completions := (dev.ents e).completions + 1 } : Ent).held =
        (dev.ents e).held := by
      unfold Ent.held
      rw [callback]
      rfl
    rw [held]
    exact le_rfl

/-! ### What a completion counts -/

/-- One more completion and one more `up`. -/
def Ent.finished (ent : Ent) : Ent :=
  { ent with completions := ent.completions + 1, ups := ent.ups + 1 }

theorem setResult_core (dev e triggered reply x) :
    ((setResult dev e triggered reply).ents x).core = (dev.ents x).core := by
  unfold setResult
  dsimp only
  split
  · by_cases same : x = e
    · rw [same, setEnt_self]
      rfl
    · rw [setEnt_other _ _ same]
  · rfl

theorem cancelTimeout_core (dev e x) : ((cancelTimeout dev e).ents x).core = (dev.ents x).core := by
  unfold cancelTimeout
  dsimp only
  split
  · rw [cmdEntPut_core]
    by_cases same : x = e
    · rw [same, setEnt_self]
      rfl
    · rw [setEnt_other _ _ same]
  · rfl

theorem putEvent_core (dev e type down x) : ((putEvent dev e type down).ents x).core = (dev.ents x).core := by
  unfold putEvent
  split
  · exact cmdEntPut_core ..
  · rfl

theorem upSem_ents (dev e x) : (upSem dev e).ents x =
      if x = e then { dev.ents e with ups := (dev.ents e).ups + 1 } else dev.ents x := by
  have ents : (upSem dev e).ents = (dev.setEnt e { dev.ents e with ups := (dev.ents e).ups + 1 }).ents := by
    unfold upSem
    dsimp only
    split <;> rfl
  rw [ents]
  split_ifs with same
  · rw [same, setEnt_self]
  · rw [setEnt_other _ _ same]

theorem upSem_pagesSem (dev e) :
    (upSem dev e).pagesSem = dev.pagesSem + if (dev.ents e).pageQueue then 1 else 0 := by
  unfold upSem
  dsimp only
  split <;> rfl

theorem countCompletion_ents (dev e x) : (countCompletion dev e).ents x =
      if x = e then { dev.ents e with completions := (dev.ents e).completions + 1 }
      else dev.ents x := by
  unfold countCompletion
  split_ifs with same
  · rw [same, setEnt_self]
  · rw [setEnt_other _ _ same]

private theorem finishEnt_core (dev e reply x) : ((finishEnt dev e reply).ents x).core =
      if x = e then (dev.ents e).finished.core else (dev.ents x).core := by
  have up {after : Dev} (core : ∀ y, (after.ents y).core = ((countCompletion dev e).ents y).core) :
      ((upSem after e).ents x).core = if x = e then (dev.ents e).finished.core else (dev.ents x).core := by
    have at_x := core x
    rw [countCompletion_ents] at at_x
    rw [upSem_ents]
    by_cases same : x = e
    · subst same
      rw [if_pos rfl] at at_x ⊢
      rw [if_pos rfl]
      have ups := eq_of_core ups at_x fun _ => rfl
      have eq : ({ after.ents x with ups := (after.ents x).ups + 1 } : Ent).core =
          { (after.ents x).core with ups := (after.ents x).ups + 1 } := rfl
      rw [eq, at_x, ups]
      rfl
    · rw [if_neg same] at at_x ⊢
      rw [if_neg same]
      exact at_x
  unfold finishEnt
  dsimp only
  split
  · apply up
    intro y
    rw [execCbHandler_ents, cmdEntPut_core]
    rfl
  · apply up
    intro y
    rfl

theorem completeEnt_core (dev e type down triggered reply)
    (x) : ((completeEnt dev e type down triggered reply).ents x).core =
      if x = e then (dev.ents e).finished.core else (dev.ents x).core := by
  have old (y : Nat) :
      ((setResult (putEvent (cancelTimeout dev e) e type down) e triggered reply).ents y).core =
        (dev.ents y).core := by
    rw [setResult_core, putEvent_core, cancelTimeout_core]
  have finished (ent : Ent) : ent.finished.core = ent.core.finished := rfl
  unfold completeEnt
  rw [finishEnt_core, finished, old, old, finished]

private theorem setResult_slots (dev e triggered reply) : SameSlots dev (setResult dev e triggered reply) := by
  unfold setResult
  dsimp only
  split
  · exact setEnt_slots ..
  · exact SameSlots.rfl

private theorem cancelTimeout_slots (dev e) : SameSlots dev (cancelTimeout dev e) := by
  unfold cancelTimeout
  dsimp only
  split
  · exact (setEnt_slots ..).trans (cmdEntPut_slots ..)
  · exact SameSlots.rfl

private theorem putEvent_slots (dev e type down) : SameSlots dev (putEvent dev e type down) := by
  unfold putEvent
  split
  · exact cmdEntPut_slots ..
  · exact SameSlots.rfl

theorem completeEnt_pagesSem (dev e type down triggered reply) :
    (completeEnt dev e type down triggered reply).pagesSem =
      dev.pagesSem + if (dev.ents e).pageQueue then 1 else 0 := by
  have cancelled : (cancelTimeout dev e).pagesSem = dev.pagesSem := by
    unfold cancelTimeout
    dsimp only
    split
    · rw [cmdEntPut_pagesSem]
      rfl
    · rfl
  have put (dev : Dev) : (putEvent dev e type down).pagesSem = dev.pagesSem := by
    unfold putEvent
    split
    · rw [cmdEntPut_pagesSem]
    · rfl
  have res (dev : Dev) : (setResult dev e triggered reply).pagesSem = dev.pagesSem := by
    unfold setResult
    dsimp only
    split <;> rfl
  have finished (dev : Dev) : (finishEnt dev e reply).pagesSem =
      dev.pagesSem + if (dev.ents e).pageQueue then 1 else 0 := by
    have counted : ((countCompletion dev e).ents e).pageQueue = (dev.ents e).pageQueue := by
      rw [countCompletion_ents, if_pos rfl]
    unfold finishEnt
    dsimp only
    split
    · rw [upSem_pagesSem, execCbHandler_pagesSem, execCbHandler_ents, cmdEntPut_pagesSem,
        eq_of_core pageQueue (cmdEntPut_core ..) fun _ => rfl, ← counted]
      rfl
    · rw [upSem_pagesSem, counted]
      rfl
  unfold completeEnt
  rw [finished, res, put, cancelled, eq_of_core pageQueue (setResult_core ..) fun _ => rfl,
    eq_of_core pageQueue (putEvent_core ..) fun _ => rfl,
    eq_of_core pageQueue (cancelTimeout_core ..) fun _ => rfl]

theorem Referenced.completeEnt {type down}
    (referenced : Referenced config dev e (eventRefs type down)) (born : e < dev.next)
    (late : ¬(dev.ents e).early) (first : (dev.ents e).completions = 0) (triggered)
    (reply) : Referenced config (completeEnt dev e type down triggered reply) e 0 := by
  have core : ((Entries.setResult (Entries.putEvent (Entries.cancelTimeout dev e) e type down) e
      triggered reply).ents e).core = (dev.ents e).core := by
    rw [setResult_core, putEvent_core, cancelTimeout_core]
  have slots := ((cancelTimeout_slots dev e).trans (putEvent_slots _ e type down)).trans
    (setResult_slots _ e triggered reply)
  have put := (referenced.cancelTimeout born).putEvent
  have bornPut : e < (Entries.putEvent (Entries.cancelTimeout dev e) e type down).next := by
    rw [(putEvent_slots ..).next, (cancelTimeout_slots ..).next]
    exact born
  refine (put.setResult bornPut triggered reply).finishEnt ?_ ?_ ?_ reply
  · rw [slots.next]
    exact born
  · unfold Ent.early at late ⊢
    rw [eq_of_core Ent.work core fun _ => rfl]
    exact late
  · rw [eq_of_core Ent.completions core fun _ => rfl]
    exact first

end MlnxOfed.Command.Entries
