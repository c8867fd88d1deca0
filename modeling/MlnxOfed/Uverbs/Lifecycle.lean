/-
User objects of a verbs file: every run keeps locks, references and hardware objects right, and the sweep
ends.
-/

import MlnxOfed.Uverbs.UfileRuns

namespace MlnxOfed.Uverbs

open Bool List Option Ufile Uobject Uverbs

variable {f f' : Ufile} {i : Nat}

/-! ### Every step -/

theorem Ufile.Kept.of_all (kept : f.Kept) {p} (blank : p .blank = true) (every : f.all p = true) :
    p (f.objs i) = true := by
  by_cases known : i < f.next
  · exact all_eq_true.mp every i (mem_range.mpr known)
  · rw [kept.fresh i (by omega)]
    exact blank

private theorem sound_initial : initial.Sound := by
  refine ⟨⟨fun _ => sound_blank, fun _ _ => rfl, nodup_nil, ?_, ?_, ?_, ?_⟩, ?_, fun _ => rfl⟩
  · intro i
    simp [initial, blank]
  · intro i destroyed
    cases destroyed
  · intro closed
    cases closed
  · exact fun _ => ⟨rfl, fun _ => rfl⟩
  · intro sweep going
    cases going

namespace Ufile.Sound

private theorem disassociate (sound : f.Sound) : ({ f with ibDev := false } : Ufile).Sound := by
  obtain ⟨kept, sweeping, idle⟩ := sound
  refine ⟨{ kept with spent := fun i _ _ => .inr (.inr (.inl rfl)) }, fun sweep going => ?_, idle⟩
  obtain ⟨context, reason, quiet, rest, last⟩ := sweeping sweep going
  refine ⟨context, ?_, quiet, rest, last⟩
  rcases reason with close | remove
  · exact .inl close
  · exact .inr ⟨remove.1, rfl⟩

theorem close (sound : f.Sound) (unused : f.all unused = true) : ({ f with closed := true } : Ufile).Sound := by
  obtain ⟨kept, sweeping, idle⟩ := sound
  refine ⟨{ kept with
    spent i _ _ := .inr (.inr (.inr rfl))
    closed _ i := kept.of_all rfl unused }, fun sweep going => ?_, idle⟩
  obtain ⟨context, reason, quiet, rest, last⟩ := sweeping sweep going
  refine ⟨context, ?_, quiet, rest, last⟩
  rcases reason with close | remove
  · exact .inl ⟨close.1, rfl⟩
  · exact .inr remove

theorem step {move} (sound : f.Sound) (moved : Uverbs.step f move = some f') : f'.Sound := by
  cases move with
  | getContext =>
    simp only [Uverbs.step, ite_none_right_eq_some, some.injEq, and_eq_true, isNone_iff_eq_none] at moved
    obtain ⟨⟨_, still⟩, rfl⟩ := moved
    exact sound.getContext still
  | allocBegin typeClass cached fails =>
    simp only [Uverbs.step, ite_none_right_eq_some, some.injEq, and_eq_true,
      isNone_iff_eq_none, not_eq_true'] at moved
    obtain ⟨⟨still, opened⟩, rfl⟩ := moved
    exact sound.allocBegin still opened typeClass cached fails
  | setObject i =>
    simp only [Uverbs.step, ite_none_right_eq_some, some.injEq] at moved
    obtain ⟨creator, rfl⟩ := moved
    exact sound.setObject creator
  | commit i =>
    simp only [Uverbs.step, ite_none_right_eq_some, some.injEq] at moved
    obtain ⟨creator, rfl⟩ := moved
    exact sound.commit creator
  | abort i hwObjValid failed =>
    simp only [Uverbs.step, ite_none_right_eq_some, some.injEq, and_eq_true] at moved
    obtain ⟨⟨creator, _valid⟩, rfl⟩ := moved
    exact sound.abort creator hwObjValid failed
  | load i =>
    simp only [Uverbs.step, ite_none_right_eq_some, some.injEq, and_eq_true, not_eq_true'] at moved
    obtain ⟨⟨⟨_idr, named⟩, opened⟩, rfl⟩ := moved
    exact sound.load named opened
  | get i => exact sound.get moved
  | lookup i sameType mode =>
    simp only [Uverbs.step, ite_none_right_eq_some, and_eq_true, decide_eq_true_eq,
      or_eq_true, beq_iff_eq] at moved
    obtain ⟨⟨found, able⟩, res⟩ := moved
    obtain ⟨o, looked, rfl⟩ := map_eq_some_iff.mp res
    refine sound.lookup found (fun fd => ?_) looked
    rcases able with idr | read
    · exact absurd (idr.symm.trans fd) (by decide)
    · exact read
  | put i mode =>
    simp only [Uverbs.step, ite_none_right_eq_some] at moved
    obtain ⟨holds, res⟩ := moved
    obtain ⟨o, puts, rfl⟩ := map_eq_some_iff.mp res
    refine sound.put (sound.kept.each i) ⟨rfl, rfl, rfl, rfl, rfl, rfl, id⟩ id holds (fun unused => ?_) puts
    obtain ⟨quiet, _unloaded, _unfound, unheld⟩ := unused_iff.mp unused
    obtain ⟨_uncreated, unread, unwritten, _idle⟩ := quiet_iff.mp quiet
    cases mode with
    | read => simp [Uobject.holds, unread] at holds
    | write => simp [Uobject.holds, unwritten] at holds
    | destroy => simp [Uobject.holds, unheld] at holds
  | destroyLock i =>
    simp only [Uverbs.step, ite_none_right_eq_some, and_eq_true, isNone_iff_eq_none] at moved
    obtain ⟨⟨still, held⟩, locks⟩ := moved
    by_cases free : (f.objs i).usecnt = 0
    · simp only [uverbsTryLockObject, free, if_true, some.injEq] at locks
      rw [← locks]
      exact sound.destroyLock still held free
    · simp only [uverbsTryLockObject, free, if_false, some.injEq] at locks
      rw [← locks]
      exact sound
  | destroyUnlock i failed =>
    simp only [Uverbs.step, ite_none_right_eq_some, some.injEq] at moved
    obtain ⟨destroying, rfl⟩ := moved
    exact sound.destroyUnlock destroying failed
  | putDestroy i =>
    simp only [Uverbs.step, ite_none_right_eq_some] at moved
    obtain ⟨finishing, res⟩ := moved
    obtain ⟨o, puts, rfl⟩ := map_eq_some_iff.mp res
    obtain ⟨fine, holds⟩ := (sound.kept.each i).unfinish finishing
    refine sound.put fine ⟨rfl, rfl, rfl, rfl, rfl, rfl, id⟩ id holds (fun unused => ?_) puts
    have unheld := (unused_iff.mp unused).2.2.2
    simp [Uobject.holds, unheld] at holds
  | closeFd i =>
    simp only [Uverbs.step, ite_none_right_eq_some, some.injEq, and_eq_true, beq_iff_eq] at moved
    obtain ⟨⟨fd, opened⟩, rfl⟩ := moved
    exact sound.closeFd fd opened
  | fdRelease i locked failed =>
    simp only [Uverbs.step, ite_none_right_eq_some, some.injEq, and_eq_true,
      beq_iff_eq, or_eq_true, not_eq_true', isNone_iff_eq_none] at moved
    obtain ⟨⟨⟨⟨fd, named⟩, shut⟩, able⟩, rfl⟩ := moved
    refine sound.fdRelease fd named shut (fun locks => ?_) failed
    rcases able with unlocked | still
    · exact absurd (unlocked.symm.trans locks) Bool.false_ne_true
    · exact still
  | disassociate =>
    cases moved
    exact sound.disassociate
  | disassociateApi =>
    simp only [Uverbs.step, ite_none_left_eq_some, some.injEq] at moved
    obtain ⟨_absent, rfl⟩ := moved
    obtain ⟨kept, sweeping, idle⟩ := sound
    exact ⟨{ kept with }, fun sweep going => { sweeping sweep going with }, idle⟩
  | close =>
    simp only [Uverbs.step, ite_none_right_eq_some, some.injEq] at moved
    obtain ⟨unused, rfl⟩ := moved
    exact sound.close unused
  | sweepStart reason =>
    simp only [Uverbs.step, ite_none_right_eq_some, some.injEq, and_eq_true,
      or_eq_true, beq_iff_eq, not_eq_true'] at moved
    obtain ⟨⟨⟨_still, quiet⟩, reasons⟩, rfl⟩ := moved
    exact sound.sweepStart (fun i => sound.kept.of_all rfl quiet) reasons
  | sweepNext failed =>
    simp only [Uverbs.step] at moved
    split at moved
    next => cases moved
    next sweep going =>
      split at moved
      next i rest turn =>
        rw [← some.inj moved]
        exact sound.sweepObject going turn failed
      next noSweep =>
        rw [← some.inj moved]
        exact sound.sweepEnd going noSweep
  | releaseIdr i =>
    simp only [Uverbs.step, ite_none_right_eq_some, some.injEq, and_eq_true, beq_iff_eq, not_eq_true'] at moved
    obtain ⟨⟨⟨⟨⟨idr, named⟩, closed⟩, _still⟩, gone⟩, rfl⟩ := moved
    exact sound.releaseIdr idr named closed gone

end Ufile.Sound

theorem Reachable.sound (reachable : Reachable f) : f.Sound := by
  induction reachable with
  | initial => exact sound_initial
  | step move _earlier moved ih => exact ih.step moved

/-! ### The end of the sweep -/

/-- A bound on the sweep's remaining turns, from what is left of this pass and the list's length: a pass
that cleaned something shortens the list before the next starts. -/
def turnsLeft (cleanupRetryable cleaned : Bool) (rest listed : Nat) : Nat :=
  if cleanupRetryable then rest + 1 + (listed + 1) * (if cleaned then listed + 2 else listed + 1) else rest + 1

def Ufile.remaining (f : Ufile) : Nat :=
  match f.sweep with
  | none => 0
  | some sweep => turnsLeft f.cleanupRetryable sweep.cleaned sweep.rest.length f.uobjects.length

private theorem turnsLeft_cleaned (retryable cleaned rest listed) :
    turnsLeft retryable true rest listed < turnsLeft retryable cleaned (rest + 1) (listed + 1) := by
  have less : (listed + 1) * (listed + 2) ≤ (listed + 1 + 1) * (listed + 1 + 1) :=
    Nat.mul_le_mul (by omega) (by omega)
  have more : (listed + 1 + 1) * (listed + 1 + 1) ≤ (listed + 1 + 1) * (listed + 1 + 2) :=
    Nat.mul_le_mul (by omega) (by omega)
  cases retryable <;> cases cleaned <;> simp only [turnsLeft, if_true, if_false, false_eq_true] <;> omega

private theorem turnsLeft_next (listed) : turnsLeft true false listed listed = (listed + 1) * (listed + 2) := by
  have split : (listed + 1) * (listed + 2) = (listed + 1) * 1 + (listed + 1) * (listed + 1) := by
    rw [← Nat.mul_add]
    congr 1
    omega
  simp only [turnsLeft, if_true, false_eq_true, if_false]
  omega

def Move.sweeps : Move → Nat
  | .sweepNext _ => 1
  | _ => 0

theorem remaining_sweepLast (reason) : (f.sweepLast reason).remaining ≤ f.uobjects.length + 1 := by
  unfold sweepLast
  dsimp only
  split
  · exact Nat.zero_le _
  · exact le_rfl

private theorem remaining_sweepLoop (reason) (retryable : f.cleanupRetryable = true) :
    (f.sweepLoop reason).remaining ≤ (f.uobjects.length + 1) * (f.uobjects.length + 2) := by
  unfold sweepLoop
  split
  next empty =>
    have bound := remaining_sweepLast (f := f) reason
    rw [empty, length_nil] at bound ⊢
    omega
  next =>
    rw [retryable]
    exact le_of_eq (turnsLeft_next _)

private theorem remaining_sweepEnd {sweep} (going : f.sweep = some sweep) :
    (f.sweepEnd sweep).remaining < f.remaining := by
  have now : f.remaining = turnsLeft f.cleanupRetryable sweep.cleaned sweep.rest.length f.uobjects.length := by
    simp only [remaining, going]
  rw [now]
  unfold sweepEnd
  split
  next retryable =>
    split
    next cleaned =>
      have bound := remaining_sweepLoop sweep.reason retryable
      simp only [turnsLeft, retryable, cleaned, if_true]
      omega
    next nothing =>
      have bound := remaining_sweepLast (f := f) sweep.reason
      have wide : f.uobjects.length + 1 ≤ (f.uobjects.length + 1) * (f.uobjects.length + 1) :=
        Nat.le_mul_of_pos_left _ (by omega)
      simp only [turnsLeft, retryable, nothing, if_true, false_eq_true, if_false]
      omega
  next final =>
    rw [(not_eq_true _).mp final]
    exact Nat.succ_pos _

theorem Ufile.Sound.remaining_sweepObject (sound : f.Sound) {sweep} (going : f.sweep = some sweep)
    {rest} (turn : sweep.rest = i :: rest) (failed) :
    (f.sweepObject sweep i rest failed).remaining < f.remaining := by
  have now : f.remaining = turnsLeft f.cleanupRetryable sweep.cleaned (rest.length + 1) f.uobjects.length := by
    simp only [remaining, going, turn, length_cons]
  have mem : i ∈ f.uobjects := (sound.sweeping sweep going).rest.subset (by rw [turn]; exact .head _)
  rcases sound.sweepObject_cases going turn failed with ⟨charged, _clean, same⟩ | ⟨retryable, same⟩
  · obtain ⟨ref, freed, eq, _fewer⟩ := cleaned_eq (o := f.objs i) charged
    have fewer : (f.unlist i ((f.objs i).cleaned charged)).uobjects = f.uobjects.erase i := by
      change (if ((f.objs i).cleaned charged).listed = true then f.uobjects else f.uobjects.erase i) = _
      rw [eq, if_neg Bool.false_ne_true]
    have shorter : f.uobjects.length = (f.unlist i ((f.objs i).cleaned charged)).uobjects.length + 1 := by
      rw [fewer, length_erase_of_mem mem]
      have some := length_pos_of_mem mem
      omega
    rw [same, now, shorter]
    exact turnsLeft_cleaned _ _ _ _
  · rw [same, now]
    change turnsLeft f.cleanupRetryable sweep.cleaned rest.length f.uobjects.length < _
    simp only [turnsLeft, retryable, if_true]
    omega

structure Ufile.Aside (f f' : Ufile) : Prop where
  sweep : f'.sweep = f.sweep
  retryable : f'.cleanupRetryable = f.cleanupRetryable
  uobjects : f.sweep ≠ none → f'.uobjects = f.uobjects

theorem Ufile.Aside.remaining (aside : f.Aside f') : f'.remaining = f.remaining := by
  unfold Ufile.remaining
  rw [aside.sweep, aside.retryable]
  cases going : f.sweep with
  | none => rfl
  | some sweep => simp only [aside.uobjects (by simp [going])]

variable {move : Move}

theorem Ufile.Sound.step_aside (sound : f.Sound) (moved : Uverbs.step f move = some f')
    (other : ∀ reason, move ≠ .sweepStart reason) (others : ∀ failed, move ≠ .sweepNext failed) : f.Aside f' := by
  cases move with
  | sweepStart reason => exact absurd rfl (other reason)
  | sweepNext failed => exact absurd rfl (others failed)
  | commit i =>
    simp only [Uverbs.step, ite_none_right_eq_some, some.injEq] at moved
    obtain ⟨creator, rfl⟩ := moved
    exact ⟨rfl, rfl, fun going => absurd (sound.creating creator).2.1 going⟩
  | abort i hwObjValid failed =>
    simp only [Uverbs.step, ite_none_right_eq_some, some.injEq, and_eq_true] at moved
    obtain ⟨⟨creator, _valid⟩, rfl⟩ := moved
    exact ⟨rfl, rfl, fun going => absurd (sound.creating creator).2.1 going⟩
  | allocBegin typeClass cached fails =>
    simp only [Uverbs.step, ite_none_right_eq_some, some.injEq] at moved
    obtain ⟨_able, rfl⟩ := moved
    unfold Ufile.allocBegin
    split <;> exact ⟨rfl, rfl, fun _ => rfl⟩
  | get i =>
    simp only [Uverbs.step, Ufile.get] at moved
    split at moved
    all_goals
      simp only [ite_none_right_eq_some, some.injEq] at moved
      obtain ⟨_able, rfl⟩ := moved
      exact ⟨rfl, rfl, fun _ => rfl⟩
  | lookup i sameType mode =>
    simp only [Uverbs.step, ite_none_right_eq_some] at moved
    obtain ⟨o, _looked, rfl⟩ := map_eq_some_iff.mp moved.2
    exact ⟨rfl, rfl, fun _ => rfl⟩
  | put i mode | putDestroy i =>
    simp only [Uverbs.step, ite_none_right_eq_some] at moved
    obtain ⟨o, _puts, rfl⟩ := map_eq_some_iff.mp moved.2
    exact ⟨rfl, rfl, fun _ => rfl⟩
  | destroyLock i =>
    simp only [Uverbs.step, ite_none_right_eq_some] at moved
    obtain ⟨_able, locks⟩ := moved
    split at locks
    all_goals
      rw [← some.inj locks]
      exact ⟨rfl, rfl, fun _ => rfl⟩
  | destroyUnlock i failed =>
    simp only [Uverbs.step, ite_none_right_eq_some, some.injEq] at moved
    obtain ⟨destroying, rfl⟩ := moved
    have still := sound.still (i := i) (fun quiet =>
      absurd ((quiet_iff.mp quiet).2.2.2.symm.trans destroying) Bool.false_ne_true)
    unfold uobjDestroy
    dsimp only
    split <;> exact ⟨rfl, rfl, fun going => absurd still going⟩
  | fdRelease i locked failed =>
    simp only [Uverbs.step, ite_none_right_eq_some, some.injEq, and_eq_true,
      or_eq_true, not_eq_true', isNone_iff_eq_none] at moved
    obtain ⟨⟨_released, able⟩, rfl⟩ := moved
    refine ⟨rfl, rfl, fun going => ?_⟩
    have unlocked : locked = false := able.resolve_right going
    subst unlocked
    unfold uverbsUobjectFdRelease
    dsimp only
    rw [if_neg Bool.false_ne_true, sound.kept.unlist_eq (by rfl)]
    rfl
  | getContext | setObject i | load i | closeFd i | disassociateApi | close | releaseIdr i =>
    simp only [Uverbs.step, ite_none_right_eq_some, ite_none_left_eq_some, some.injEq] at moved
    obtain ⟨_able, rfl⟩ := moved
    exact ⟨rfl, rfl, fun _ => rfl⟩
  | disassociate =>
    cases moved
    exact ⟨rfl, rfl, fun _ => rfl⟩

theorem Ufile.Sound.step_remaining (sound : f.Sound) (moved : Uverbs.step f move = some f')
    (other : ∀ reason, move ≠ .sweepStart reason) : move.sweeps + f'.remaining ≤ f.remaining := by
  by_cases sweeps : ∃ failed, move = .sweepNext failed
  · obtain ⟨failed, rfl⟩ := sweeps
    change 1 + f'.remaining ≤ f.remaining
    simp only [Uverbs.step] at moved
    split at moved
    next => cases moved
    next sweep going =>
      split at moved
      next i rest turn =>
        rw [← some.inj moved]
        have fewer := sound.remaining_sweepObject going turn failed
        omega
      next noSweep =>
        rw [← some.inj moved]
        have fewer := remaining_sweepEnd going
        omega
  · have aside := sound.step_aside moved other (fun failed same => sweeps ⟨failed, same⟩)
    have none : move.sweeps = 0 := by
      cases move with
      | sweepNext failed => exact absurd ⟨failed, rfl⟩ sweeps
      | _ => rfl
    rw [none, aside.remaining]
    omega

variable {moves : List Move}

theorem Ufile.Sound.run_remaining (sound : f.Sound) (ran : run f moves = some f')
    (other : ∀ reason, .sweepStart reason ∉ moves) :
    (moves.map Move.sweeps).sum + f'.remaining ≤ f.remaining := by
  induction moves generalizing f with
  | nil =>
    cases ran
    exact le_of_eq (zero_add _)
  | cons move moves ih =>
    obtain ⟨middle, moved, ran⟩ := bind_eq_some_iff.mp ran
    have first := sound.step_remaining moved (fun reason same => other reason (same ▸ mem_cons_self))
    have later := ih (sound.step moved) ran (fun reason mem => other reason (.tail _ mem))
    rw [map_cons, sum_cons]
    omega

variable {reason : RemoveReason}

theorem sweepLast_over (noSweep : (f.sweepLast reason).sweep = none) :
    (f.sweepLast reason).ucontext = false := by
  unfold sweepLast at noSweep ⊢
  dsimp only at noSweep ⊢
  split at noSweep
  next empty => rw [if_pos empty]; rfl
  next => cases noSweep

private theorem sweepLoop_over (noSweep : (f.sweepLoop reason).sweep = none) :
    (f.sweepLoop reason).ucontext = false := by
  unfold sweepLoop at noSweep ⊢
  split at noSweep
  next empty => rw [if_pos empty]; exact sweepLast_over noSweep
  next => cases noSweep

private theorem sweep_over (sweeps : (∃ reason, move = .sweepStart reason) ∨ ∃ failed, move = .sweepNext failed)
    (moved : step f move = some f') (noSweep : f'.sweep = none) : f'.ucontext = false := by
  rcases sweeps with ⟨reason, rfl⟩ | ⟨failed, rfl⟩
  · simp only [step, ite_none_right_eq_some, some.injEq] at moved
    obtain ⟨_able, rfl⟩ := moved
    unfold uverbsDestroyUfileHw at noSweep ⊢
    split at noSweep
    next context => rw [if_pos context]; exact sweepLoop_over noSweep
    next none => rw [if_neg none]; exact (not_eq_true _).mp none
  simp only [step] at moved
  split at moved
  next => cases moved
  next sweep going =>
    split at moved
    next i rest turn =>
      rw [← some.inj moved] at noSweep
      unfold sweepObject at noSweep
      dsimp only at noSweep
      split at noSweep <;> cases noSweep
    next =>
      rw [← some.inj moved] at noSweep ⊢
      unfold sweepEnd at noSweep ⊢
      split at noSweep
      next retryable =>
        rw [if_pos retryable]
        split at noSweep
        next cleaned => rw [if_pos cleaned]; exact sweepLoop_over noSweep
        next nothing => rw [if_neg nothing]; exact sweepLast_over noSweep
      next final => rw [if_neg final]; rfl

private theorem uobjDestroy_failed (held : (f.objs i).object = true) :
    uobjDestroy f i true = f.set i { f.objs i with destroyer := false, usecnt := 0 } := by
  obtain ⟨charged, destroyed⟩ := destroy_eq (o := { f.objs i with destroyer := false })
    .destroy (by decide) f.cleanupRetryable true
  unfold uobjDestroy
  dsimp only
  rw [destroyed, show (f.objs i).object = true from held]
  rfl

/-- The counter is -1 for one creator, writer or destroyer, and stays so once a user's destruction has
succeeded; else it counts the readers. -/
theorem uobject_lifecycle (reachable : Reachable f) : (∀ i, (f.objs i).ref ≠ 0 →
      (f.objs i).exclusive ≤ 1 ∧ ((f.objs i).exclusive ≠ 0 → (f.objs i).readers = 0) ∧
        (f.objs i).usecnt = if (f.objs i).exclusive = 0 then ((f.objs i).readers : Int) else -1) ∧
    (∀ i, (f.objs i).hwDestroyed ≤ 1 ∧
      (0 < (f.objs i).readers ∨ (f.objs i).writer = true → (f.objs i).hwDestroyed = 0)) ∧
    (∀ i, (f.objs i).ref = (f.objs i).owned ∧
      (f.objs i).freed = if (f.objs i).allocated = true ∧ (f.objs i).ref = 0 then 1 else 0) ∧
    (∀ i f', step f (.destroyUnlock i true) = some f' → (f.objs i).object = true →
      f' = f.set i { f.objs i with destroyer := false, usecnt := 0 }) ∧
    (∀ failed, f.sweep ≠ none → (step f (.sweepNext failed)).isSome = true) ∧
    (∀ moves f', run f moves = some f' → (∀ reason, .sweepStart reason ∉ moves) →
      (moves.map Move.sweeps).sum + f'.remaining ≤ f.remaining) ∧
    (∀ move f', (∃ reason, move = .sweepStart reason) ∨ (∃ failed, move = .sweepNext failed) →
      step f move = some f' → f'.sweep = none → f'.uobjects = []) ∧
    (f.ucontext = false → f.uobjects = []) := by
  have sound := reachable.sound
  refine ⟨?_, ?_, ?_, ?_, ?_, ?_, ?_, ?_⟩
  · intro i owns
    obtain ⟨alone, unshared, count⟩ := (sound.kept.each i).locked owns
    exact ⟨alone, unshared, count⟩
  · intro i
    obtain ⟨once, _present, inUse⟩ := (sound.kept.each i).hardware
    exact ⟨once, inUse⟩
  · intro i
    obtain ⟨refs, dead, live⟩ := (sound.kept.each i).counted
    refine ⟨refs, ?_⟩
    by_cases none : (f.objs i).ref = 0
    · rw [dead none]
      cases (f.objs i).allocated <;> simp [none]
    · rw [(live none).1, if_neg (fun both => none both.2)]
  · intro i f' moved held
    simp only [step, ite_none_right_eq_some, some.injEq] at moved
    rw [← moved.2, uobjDestroy_failed held]
  · intro failed going
    cases sweep : f.sweep with
    | none => exact absurd sweep going
    | some sweep' =>
      simp only [step, sweep]
      split <;> rfl
  · intro moves f' ran other
    exact sound.run_remaining ran other
  · intro move f' sweeps moved noSweep
    exact ((sound.step moved).kept.contextless (sweep_over sweeps moved noSweep)).1
  · exact fun none => (sound.kept.contextless none).1

theorem Reachable.run (reachable : Reachable f) (ran : run f moves = some f') : Reachable f' := by
  induction moves generalizing f with
  | nil =>
    cases ran
    exact reachable
  | cons move moves ih =>
    obtain ⟨middle, moved, ran⟩ := bind_eq_some_iff.mp ran
    exact ih (.step move reachable moved) ran

/-- A queue and a file are created; the sweep of the closed file fails once to destroy the first. -/
def closingRun : List Move :=
  [.getContext, .allocBegin .idr false false, .setObject 0, .commit 0, .allocBegin .fd false false, .commit 1,
    .close, .sweepStart .close, .sweepNext true]

theorem uobject_lifecycle_closing : ∃ f, Reachable f ∧ f.uobjects = [1, 0] ∧ f.remaining = 11 ∧
    (∀ failed, f.sweep ≠ none → (step f (.sweepNext failed)).isSome = true) := by
  have ran : ∃ f, run .initial closingRun = some f ∧ f.uobjects = [1, 0] ∧ f.remaining = 11 :=
    ⟨_, rfl, by decide, by decide⟩
  obtain ⟨f, ran, listed, left⟩ := ran
  have reachable := Reachable.initial.run ran
  exact ⟨f, reachable, listed, left, (uobject_lifecycle reachable).2.2.2.2.1⟩

/-- Two threads look an object up to destroy it; the first does and puts its reference. -/
def lateLookup : List Move :=
  [.getContext, .allocBegin .idr false false, .setObject 0, .commit 0, .load 0, .load 0, .get 0, .get 0,
    .lookup 0 true .destroy, .lookup 0 true .destroy, .destroyLock 0, .destroyUnlock 0 false, .putDestroy 0]

/-- The object is still locked, and no creator, writer or destroyer has it. -/
theorem usecnt_stays_locked : ∃ f, Reachable f ∧ (f.objs 0).ref = 1 ∧ (f.objs 0).usecnt = -1 ∧
    (f.objs 0).creator = false ∧ (f.objs 0).writer = false ∧ (f.objs 0).destroyer = false ∧
    (f.objs 0).finisher = false := by
  have ran : ∃ f, run .initial lateLookup = some f ∧ (f.objs 0).ref = 1 ∧ (f.objs 0).usecnt = -1 ∧
      (f.objs 0).creator = false ∧ (f.objs 0).writer = false ∧ (f.objs 0).destroyer = false ∧
      (f.objs 0).finisher = false := ⟨_, rfl, by decide, by decide, by decide, by decide, by decide, by decide⟩
  obtain ⟨f, ran, facts⟩ := ran
  exact ⟨f, Reachable.initial.run ran, facts⟩

end MlnxOfed.Uverbs
