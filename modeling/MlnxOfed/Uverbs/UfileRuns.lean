/-
Runs of the threads on one verbs file: what holds in every state, and that the sweep of
`uverbs_destroy_ufile_hw` ends with an empty list.
-/

import MlnxOfed.Uverbs.UobjectSound

namespace MlnxOfed.Uverbs

open List Option Uobject Ufile

/-- Without the hardware object no lookup in mode READ or WRITE succeeds. -/
def Uobject.Spent (o : Uobject) (f : Ufile) : Prop :=
  0 < o.hwDestroyed → o.ref ≠ 0 →
    o.userDestroyed = true ∨ (o.typeClass = .fd ∧ o.handle = false) ∨ f.ibDev = false ∨ f.closed = true

structure Ufile.Kept (f : Ufile) : Prop where
  each : ∀ i, (f.objs i).Sound
  fresh : ∀ i, f.next ≤ i → f.objs i = .blank
  distinct : f.uobjects.Nodup
  listed : ∀ i, i ∈ f.uobjects ↔ (f.objs i).listed = true
  spent : ∀ i, (f.objs i).Spent f
  closed : f.closed = true → ∀ i, (f.objs i).unused = true
  contextless : f.ucontext = false → f.uobjects = [] ∧ ∀ i, (f.objs i).creator = false

structure Ufile.Sweeping (f : Ufile) (sweep : Sweep) : Prop where
  context : f.ucontext = true
  reason : (sweep.reason = .close ∧ f.closed = true) ∨ (sweep.reason = .driverRemove ∧ f.ibDev = false)
  quiet : ∀ i, (f.objs i).quiet = true
  rest : sweep.rest.Sublist f.uobjects
  last : f.cleanupRetryable = false → sweep.rest = f.uobjects

structure Ufile.Sound (f : Ufile) : Prop where
  kept : f.Kept
  sweeping : ∀ sweep, f.sweep = some sweep → f.Sweeping sweep
  idle : f.sweep = none → f.cleanupRetryable = false

variable {f f' : Ufile} {i : Nat} {o : Uobject}

theorem quiet_iff : o.quiet = true ↔
    o.creator = false ∧ o.readers = 0 ∧ o.writer = false ∧ o.destroyer = false := by
  simp [quiet, and_assoc]

theorem unused_iff : o.unused = true ↔ o.quiet = true ∧ o.loaded = 0 ∧ o.found = 0 ∧ o.holders = 0 := by
  simp [unused, and_assoc]

theorem set_objs_self : (f.set i o).objs i = o := by simp [Ufile.set]

theorem set_objs_of_ne {j} (other : j ≠ i) : (f.set i o).objs j = f.objs j := by simp [Ufile.set, other]

theorem forall_set {P : Uobject → Prop} (others : ∀ j, P (f.objs j)) (self : P o) (j) :
    P ((f.set i o).objs j) := by
  by_cases same : j = i
  · subst same
    rw [set_objs_self]
    exact self
  · rw [set_objs_of_ne same]
    exact others j

namespace Ufile.Kept

theorem replace (kept : f.Kept) (used : f.objs i ≠ .blank) (sound : o.Sound)
    (fewer : o.listed = true → (f.objs i).listed = true) (spent : o.Spent f)
    (unused : f.closed = true → o.unused = true) (uncreated : o.creator = true → (f.objs i).creator = true) :
    (f.unlist i o).Kept := by
  obtain ⟨each, fresh, apart, listed, spents, closed, contextless⟩ := kept
  refine ⟨fun j => forall_set each sound j, ?_, ?_, ?_, fun j => forall_set (P := fun o => o.Spent f) spents spent j,
    fun shut => fun j => forall_set (P := fun o => o.unused = true) (closed shut) (unused shut) j, ?_⟩
  · intro j beyond
    have other : j ≠ i := by
      rintro rfl
      exact used (fresh j beyond)
    exact (set_objs_of_ne other).trans (fresh j beyond)
  · unfold unlist
    split
    · exact apart
    · exact apart.erase i
  · intro j
    change j ∈ (if o.listed = true then f.uobjects else f.uobjects.erase i) ↔ ((f.set i o).objs j).listed = true
    by_cases same : j = i
    · subst same
      rw [set_objs_self]
      split
      next on => simp [on, (listed j).mpr (fewer on)]
      next off => simp [off, apart.mem_erase_iff]
    · rw [set_objs_of_ne same, ← listed j]
      split
      next => rfl
      next => rw [apart.mem_erase_iff]; simp [same]
  · intro none
    obtain ⟨empty, creators⟩ := contextless none
    refine ⟨?_, forall_set (P := fun o => o.creator = false) creators ?_⟩
    · change (if o.listed = true then f.uobjects else f.uobjects.erase i) = []
      rw [empty]
      simp
    · cases creating : o.creator with
      | false => rfl
      | true => exact absurd ((creators i).symm.trans (uncreated creating)) Bool.false_ne_true

theorem unlist_eq (kept : f.Kept) (same : o.listed = (f.objs i).listed) : f.unlist i o = f.set i o := by
  unfold unlist
  split
  next => rfl
  next off =>
    have out : i ∉ f.uobjects := by
      rw [kept.listed i, ← same]
      exact off
    rw [erase_of_not_mem out]
    rfl

end Ufile.Kept

/-- `o'` differs from `o` in the holders, the counters and the locks only. -/
structure Uobject.Steady (o o' : Uobject) : Prop where
  typeClass : o'.typeClass = o.typeClass
  named : o'.handle = o.handle
  listed : o'.listed = o.listed
  hwDestroyed : o'.hwDestroyed = o.hwDestroyed
  userDestroyed : o'.userDestroyed = o.userDestroyed
  creator : o'.creator = o.creator
  alive : o'.ref ≠ 0 → o.ref ≠ 0

theorem Uobject.Steady.spent {o o'} (steady : Steady o o') (spent : o.Spent f) : o'.Spent f := by
  intro destroyed owns
  rw [steady.typeClass, steady.named, steady.userDestroyed]
  exact spent (steady.hwDestroyed ▸ destroyed) (steady.alive owns)

def Uobject.cleaned (o : Uobject) (charged : Bool) : Uobject :=
  uobjectUnlist { o.bare charged with context := false, usecnt := 0 }

theorem cleaned_eq (charged) : ∃ ref freed, o.cleaned charged =
    { o.bare charged with context := false, usecnt := 0, listed := false, ref := ref, freed := freed } ∧
      ref ≤ o.ref :=
  uobjectUnlist_eq

theorem cleanup (fine : o.Sound) (owns : o.ref ≠ 0) (quiet : o.quiet = true) (intact : o.userDestroyed = false)
    {reason} (cleanup : reason = .close ∨ reason = .driverRemove) (retryable failed) :
    (uverbsTryLockObject o .write).getD o = { o with usecnt := -1 } ∧ o.usecnt = 0 ∧ ∃ charged,
      (uverbsDestroyUobject { o with usecnt := -1 } retryable reason failed =
        if o.object && (failed && retryable) then none else some (o.cleaned charged)) ∧
      (o.cleaned charged).Sound := by
  obtain ⟨uncreated, unread, unwritten, idle⟩ := quiet_iff.mp quiet
  have open_ : o.exclusive = 0 := by
    simp only [exclusive, uncreated, unwritten, idle, intact, Bool.toNat_false]
  have free : o.usecnt = 0 := by
    have count := (fine.locked owns).count
    rw [if_pos open_, unread] at count
    exact count
  have committed : reason ≠ .abort ∧ reason ≠ .abortHwobj := by
    rcases cleanup with rfl | rfl <;> decide
  have retry : ibIsDestroyRetryable retryable failed reason = (failed && retryable) := by
    rcases cleanup with rfl | rfl <;> cases failed <;> cases retryable <;> rfl
  obtain ⟨charged, destroyed⟩ := destroy_eq (o := { o with usecnt := -1 }) reason committed retryable failed
  refine ⟨by simp [uverbsTryLockObject, free], free, charged, ?_, (fine.clear owns open_ unread charged).unlist⟩
  rw [destroyed, retry, uobjectRemoved_cleanup cleanup]
  rfl

namespace Ufile.Sound

variable (sound : f.Sound)

include sound

theorem replace (still : f.sweep = none) (used : f.objs i ≠ .blank) (fine : o.Sound)
    (fewer : o.listed = true → (f.objs i).listed = true) (spent : o.Spent f)
    (unused : f.closed = true → o.unused = true) (uncreated : o.creator = true → (f.objs i).creator = true) :
    (f.unlist i o).Sound := by
  refine ⟨sound.kept.replace used fine fewer spent unused uncreated, ?_, sound.idle⟩
  intro sweep going
  exact absurd (still.symm.trans going) (by simp)

theorem change (used : f.objs i ≠ .blank) (fine : o.Sound) (same : o.listed = (f.objs i).listed)
    (spent : o.Spent f) (unused : f.closed = true → o.unused = true)
    (uncreated : o.creator = true → (f.objs i).creator = true) (quiet : f.sweep ≠ none → o.quiet = true) :
    (f.set i o).Sound := by
  have kept := sound.kept.replace used fine (fun on => same ▸ on) spent unused uncreated
  rw [sound.kept.unlist_eq same] at kept
  refine ⟨kept, ?_, sound.idle⟩
  intro sweep going
  obtain ⟨context, reason, quiets, rest, last⟩ := sound.sweeping sweep going
  refine ⟨context, reason, forall_set (P := fun o => o.quiet = true) quiets (quiet ?_), rest, last⟩
  exact fun none => absurd (none.symm.trans going) (by simp)

theorem steady (used : f.objs i ≠ .blank) (fine : o.Sound) (steady : (f.objs i).Steady o)
    (unused : f.closed = true → o.unused = true) (quiet : f.sweep ≠ none → o.quiet = true) :
    (f.set i o).Sound :=
  sound.change used fine steady.listed (steady.spent (sound.kept.spent i)) unused
    (fun creating => steady.creator ▸ creating) quiet

theorem open_ (busy : ¬ (f.objs i).unused = true) : f.closed = false := by
  cases shut : f.closed with
  | false => rfl
  | true => exact absurd (sound.kept.closed shut i) busy

theorem still (busy : ¬ (f.objs i).quiet = true) : f.sweep = none := by
  cases going : f.sweep with
  | none => rfl
  | some sweep => exact absurd ((sound.sweeping sweep going).quiet i) busy

theorem quiet (going : f.sweep ≠ none) : (f.objs i).quiet = true := by
  cases sweep : f.sweep with
  | none => exact absurd sweep going
  | some sweep' => exact (sound.sweeping sweep' sweep).quiet i

theorem getContext (still : f.sweep = none) : ({ f with ucontext := true } : Ufile).Sound := by
  obtain ⟨kept, sweeping, idle⟩ := sound
  refine ⟨{ kept with contextless := fun none => ?_ }, fun sweep going => ?_, idle⟩
  · cases none
  · exact absurd (still.symm.trans going) (by simp)

theorem allocBegin (still : f.sweep = none) (opened : f.closed = false) (typeClass)
    (cached fails) : (f.allocBegin typeClass cached fails).Sound := by
  unfold Ufile.allocBegin
  split
  next able =>
    have context : f.ucontext = true := ((Bool.and_eq_true _ _).mp able).1
    obtain ⟨kept, _sweeping, idle⟩ := sound
    obtain ⟨each, fresh, apart, listed, spents, _closed, _contextless⟩ := kept
    have new : (allocBeginUobject typeClass fails).listed = false ∧
        (allocBeginUobject typeClass fails).hwDestroyed = 0 := by
      cases typeClass <;> cases fails <;> exact ⟨rfl, rfl⟩
    refine ⟨⟨fun j => forall_set each (sound_allocBegin typeClass fails) j, ?_, apart, ?_, ?_, ?_, ?_⟩, ?_, idle⟩
    · intro j beyond
      have later : f.next + 1 ≤ j := beyond
      exact (set_objs_of_ne (by omega)).trans (fresh j (by omega))
    · intro j
      change j ∈ f.uobjects ↔ ((f.set f.next _).objs j).listed = true
      by_cases same : j = f.next
      · subst same
        rw [set_objs_self, new.1, listed, fresh _ le_rfl]
        rfl
      · rw [set_objs_of_ne same]
        exact listed j
    · refine forall_set (P := fun o => o.Spent f) spents ?_
      intro destroyed
      rw [new.2] at destroyed
      cases destroyed
    · exact fun shut => absurd (opened.symm.trans shut) Bool.false_ne_true
    · exact fun none => absurd (context.symm.trans none) (by simp)
    · exact fun sweep going => absurd (still.symm.trans going) (by simp)
  next => exact sound

variable (creator : (f.objs i).creator = true)

include creator

theorem creating : f.objs i ≠ .blank ∧ f.sweep = none ∧ f.closed = false ∧ f.ucontext = true := by
  have loud : ¬ (f.objs i).quiet = true := fun quiet => by
    rw [quiet_iff, creator] at quiet
    cases quiet.1
  refine ⟨fun blank => ?_, sound.still loud, sound.open_ (fun unused => loud (unused_iff.mp unused).1), ?_⟩
  · rw [blank] at creator
    cases creator
  · cases context : f.ucontext with
    | true => rfl
    | false => exact absurd (((sound.kept.contextless context).2 i).symm.trans creator) Bool.false_ne_true

theorem setObject : (f.set i { f.objs i with object := true }).Sound := by
  obtain ⟨used, still, opened, _context⟩ := sound.creating creator
  refine sound.steady used ((sound.kept.each i).setObject creator) ⟨rfl, rfl, rfl, rfl, rfl, rfl, id⟩ ?_ ?_
  · exact fun shut => absurd (opened.symm.trans shut) Bool.false_ne_true
  · exact fun going => absurd still going

theorem commit : (rdmaAllocCommitUobject f i).Sound := by
  obtain ⟨used, still, opened, context⟩ := sound.creating creator
  have hidden := (sound.kept.each i).hidden creator
  have fine := (sound.kept.each i).commit creator
  obtain ⟨kept, _sweeping, idle⟩ := sound
  obtain ⟨each, fresh, apart, listed, spents, _closed, _contextless⟩ := kept
  have out : i ∉ f.uobjects := by
    rw [listed i, hidden.unnamed.2.1]
    exact Bool.false_ne_true
  unfold rdmaAllocCommitUobject
  dsimp only
  rw [allocCommit_eq] at fine ⊢
  refine ⟨⟨fun j => forall_set each fine j, ?_, ?_, ?_, ?_, ?_, ?_⟩, ?_, idle⟩
  · intro j beyond
    have other : j ≠ i := by
      rintro rfl
      exact used (fresh j beyond)
    exact (set_objs_of_ne other).trans (fresh j beyond)
  · exact nodup_cons.mpr ⟨out, apart⟩
  · intro j
    by_cases same : j = i
    · subst same
      rw [set_objs_self]
      simp
    · rw [set_objs_of_ne same, ← listed j]
      simp [same]
  · refine forall_set (P := fun o => o.Spent f) spents ?_
    intro destroyed
    exact absurd destroyed (by simp [uverbsUobjectGet, hidden.intact.2])
  · exact fun shut => absurd (opened.symm.trans shut) Bool.false_ne_true
  · exact fun none => absurd (context.symm.trans none) (by simp)
  · exact fun sweep going => absurd (still.symm.trans going) (by simp)

theorem abort (hwObjValid failed) : (rdmaAllocAbortUobject f i hwObjValid failed).Sound := by
  obtain ⟨used, still, opened, _context⟩ := sound.creating creator
  obtain ⟨fine, freed⟩ := (sound.kept.each i).abort creator f.cleanupRetryable hwObjValid failed
  obtain ⟨unlisted, uncreated, _rest⟩ := fine.unowned freed
  refine sound.replace still used fine ?_ ?_ ?_ ?_
  · exact fun on => absurd (unlisted.symm.trans on) Bool.false_ne_true
  · exact fun _ owns => absurd freed owns
  · exact fun shut => absurd (opened.symm.trans shut) Bool.false_ne_true
  · exact fun creating => absurd (uncreated.symm.trans creating) Bool.false_ne_true

omit creator

theorem fdRelease (fd : (f.objs i).typeClass = .fd) (named : (f.objs i).handle = true)
    (shut : (f.objs i).fileRefs = 0) {locked} (still : locked = true → f.sweep = none) (failed) :
    (uverbsUobjectFdRelease f i locked failed).Sound := by
  have fine := sound.kept.each i
  have owns := fine.owns (by rw [owned, named, Bool.toNat_true]; omega)
  have used : f.objs i ≠ .blank := fun blank => by
    rw [blank] at named
    cases named
  have uncreated := fine.committed (.inl named)
  obtain ⟨⟨unwritten, unheld, intact⟩, refs, _released⟩ := fine.filed fd
  have count := refs owns
  rw [shut, uncreated, Bool.toNat_false] at count
  have closedFd : (f.objs i).descriptor = false := Bool.toNat_eq_zero.mp (by omega)
  have idle : (f.objs i).destroyer = false := by
    have destroying := fine.placed.destroying
    exact Bool.toNat_eq_zero.mp (by omega)
  have quiet : (f.objs i).quiet = true := quiet_iff.mpr ⟨uncreated, by omega, unwritten, idle⟩
  unfold uverbsUobjectFdRelease
  dsimp only
  cases locked with
  | false =>
    rw [if_neg Bool.false_ne_true]
    have dropped := fine.dropHandle named (fun idr => absurd (fd.symm.trans idr) (by decide))
      (fun _ => ⟨closedFd, by omega, by omega⟩)
    rw [sound.kept.unlist_eq (by rfl)]
    refine sound.change used dropped rfl (fun _ _ => .inr (.inl ⟨fd, rfl⟩)) ?_ id (fun _ => quiet)
    exact fun closed => sound.kept.closed closed i
  | true =>
    have unswept := still rfl
    obtain ⟨lock, _free, charged, destroyed, clean⟩ :=
      cleanup fine owns quiet intact (.inl rfl) f.cleanupRetryable failed
    rw [if_pos rfl, lock, destroyed, sound.idle unswept, Bool.and_false, Bool.and_false, if_neg Bool.false_ne_true,
      getD_some]
    obtain ⟨ref, freed, same, fewer⟩ := cleaned_eq (o := f.objs i) charged
    rw [same] at clean ⊢
    have dropped := clean.dropHandle named (fun idr => absurd (fd.symm.trans idr) (by decide))
      (fun _ => ⟨closedFd, by change (f.objs i).found = 0; omega, by change (f.objs i).readers = 0; omega⟩)
    refine sound.replace unswept used dropped ?_ (fun _ _ => .inr (.inl ⟨fd, rfl⟩)) ?_ id
    · intro now
      cases now
    · exact fun closed => sound.kept.closed closed i

theorem releaseIdr (idr : (f.objs i).typeClass = .idr) (named : (f.objs i).handle = true)
    (closed : f.closed = true) (gone : f.ucontext = false) :
    (f.set i (uverbsUobjectPut { f.objs i with handle := false })).Sound := by
  have fine := sound.kept.each i
  have used : f.objs i ≠ .blank := fun blank => by
    rw [blank] at named
    cases named
  have unused := sound.kept.closed closed i
  obtain ⟨quiet, _unloaded, unfound, unheld⟩ := unused_iff.mp unused
  obtain ⟨uncreated, unread, unwritten, _idle⟩ := quiet_iff.mp quiet
  have unlisted : (f.objs i).listed = false := by
    cases on : (f.objs i).listed with
    | false => rfl
    | true =>
      have member := (sound.kept.listed i).mpr on
      rw [(sound.kept.contextless gone).1] at member
      cases member
  have last : (f.objs i).owned = 1 := by
    simp only [owned, named, uncreated, unlisted, unfound, unread, unwritten, unheld, Bool.toNat_false,
      Bool.toNat_true]
  have dropped := fine.dropHandle named (fun _ => last) (fun fd => absurd (idr.symm.trans fd) (by decide))
  refine sound.change used dropped rfl ?_ (fun _ => unused) id (fun _ => quiet)
  intro _ owns
  refine absurd ?_ owns
  change (f.objs i).ref - 1 = 0
  rw [fine.counted.refs, last]

theorem destroyUnlock (destroying : (f.objs i).destroyer = true) (failed) :
    (uobjDestroy f i failed).Sound := by
  have fine := sound.kept.each i
  obtain ⟨owns, idr, uncreated, unread, unwritten, intact, named⟩ := fine.destroyer_facts destroying
  have used : f.objs i ≠ .blank := fun blank => by
    rw [blank] at named
    cases named
  have loud : ¬ (f.objs i).quiet = true := fun quiet =>
    absurd ((quiet_iff.mp quiet).2.2.2.symm.trans destroying) Bool.false_ne_true
  have still := sound.still loud
  have opened := sound.open_ (fun unused => loud (unused_iff.mp unused).1)
  obtain ⟨charged, destroyed⟩ := destroy_eq (o := { f.objs i with destroyer := false })
    .destroy (by decide) f.cleanupRetryable failed
  unfold uobjDestroy
  dsimp only
  rw [destroyed]
  split
  next o done =>
    split at done
    · cases done
    have fine' := fine.userDestroy destroying charged
    rw [← some.inj done, uobjectRemoved_destroy]
    refine sound.replace still used fine' ?_ (fun _ _ => .inl rfl) ?_ ?_
    · exact fun on => absurd ((fine'.placed.gone rfl).2.1.symm.trans on) Bool.false_ne_true
    · exact fun shut => absurd (opened.symm.trans shut) Bool.false_ne_true
    · intro creating
      exact absurd (fine'.placed.hidden creating).intact.1 (by simp)
  next =>
    refine sound.steady used (fine.destroyFailed destroying) ⟨rfl, rfl, rfl, rfl, rfl, rfl, id⟩ ?_ ?_
    · exact fun shut => absurd (opened.symm.trans shut) Bool.false_ne_true
    · exact fun going => absurd still going

theorem destroyLock (still : f.sweep = none) (held : (f.objs i).holds .destroy = true)
    (free : (f.objs i).usecnt = 0) : (f.set i { f.objs i with usecnt := -1, destroyer := true }).Sound := by
  have some : 0 < (f.objs i).holders := by
    simp only [holds, decide_eq_true_eq] at held
    omega
  have used : f.objs i ≠ .blank := fun blank => by
    rw [blank] at some
    cases some
  refine sound.steady used ((sound.kept.each i).destroyLock held free) ⟨rfl, rfl, rfl, rfl, rfl, rfl, id⟩ ?_ ?_
  · intro closed
    have unheld := (unused_iff.mp (sound.kept.closed closed i)).2.2.2
    omega
  · exact fun going => absurd still going

theorem closeFd (fd : (f.objs i).typeClass = .fd) (opened : (f.objs i).descriptor = true) :
    (f.set i { f.objs i with descriptor := false, fileRefs := (f.objs i).fileRefs - 1 }).Sound := by
  have used : f.objs i ≠ .blank := fun blank => by
    rw [blank] at opened
    cases opened
  exact sound.steady used ((sound.kept.each i).closeFd fd opened) ⟨rfl, rfl, rfl, rfl, rfl, rfl, id⟩
    (fun closed => sound.kept.closed closed i) (fun going => sound.quiet going)

omit sound

/-! ### Lookups -/

variable (sound : f.Sound)

include sound

theorem load (named : (f.objs i).handle = true) (opened : f.closed = false) :
    (f.set i { f.objs i with loaded := (f.objs i).loaded + 1 }).Sound := by
  have used : f.objs i ≠ .blank := fun blank => by
    rw [blank] at named
    cases named
  refine sound.steady used ((sound.kept.each i).load named) ⟨rfl, rfl, rfl, rfl, rfl, rfl, id⟩ ?_
    (fun going => sound.quiet going)
  exact fun shut => absurd (opened.symm.trans shut) Bool.false_ne_true

theorem get (got : f.get i = some f') : f'.Sound := by
  unfold Ufile.get at got
  dsimp only at got
  split at got
  next idr =>
    split at got
    next seen =>
      have fine := (sound.kept.each i).lookupGetIdr idr seen
      have used : f.objs i ≠ .blank := fun blank => by
        rw [blank] at seen
        cases seen
      rw [← some.inj got]
      have frame : (f.objs i).Steady (lookupGetIdr (f.objs i)) ∧
          ((f.objs i).quiet = true → (lookupGetIdr (f.objs i)).quiet = true) := by
        unfold lookupGetIdr
        dsimp only
        split
        next none => exact ⟨⟨rfl, rfl, rfl, rfl, rfl, rfl, id⟩, id⟩
        next owns => exact ⟨⟨rfl, rfl, rfl, rfl, rfl, rfl, fun _ => owns⟩, id⟩
      refine sound.steady used fine frame.1 ?_ (fun going => frame.2 (sound.quiet going))
      intro closed
      have unloaded := (unused_iff.mp (sound.kept.closed closed i)).2.1
      omega
    next => cases got
  next fd =>
    split at got
    next able =>
      simp only [Bool.and_eq_true, Bool.not_eq_true'] at able
      obtain ⟨⟨⟨named, _descriptor⟩, _typed⟩, opened⟩ := able
      have fine := (sound.kept.each i).lookupGetFd fd named
      have owns := (sound.kept.each i).owns (by rw [Uobject.owned, named, Bool.toNat_true]; omega)
      have used : f.objs i ≠ .blank := fun blank => by
        rw [blank] at named
        cases named
      rw [← some.inj got]
      refine sound.steady used fine ⟨rfl, rfl, rfl, rfl, rfl, rfl, fun _ => owns⟩ ?_ (fun going => sound.quiet going)
      exact fun shut => absurd (opened.symm.trans shut) Bool.false_ne_true
    next => cases got

variable (found : 0 < (f.objs i).found)

include found

private theorem lockable (here : f.ibDev = true) (free : (f.objs i).usecnt ≠ -1) : (f.objs i).hwDestroyed = 0 := by
  have fine := sound.kept.each i
  have owns := fine.owns (by unfold owned; omega)
  by_contra destroyed
  rcases sound.kept.spent i (by omega) owns with user | ⟨fd, unnamed⟩ | absent | closed
  · exact free ((fine.locked owns).taken (by rw [exclusive, user, Bool.toNat_true]; omega))
  · have unfound := ((fine.filed fd).released unnamed).2.1
    omega
  · exact absurd (here.symm.trans absent) (by simp)
  · have unfound := (unused_iff.mp (sound.kept.closed closed i)).2.2.1
    omega

private theorem lookupFree (freed : Uverbs.lookupFree (f.objs i) = some o) : (f.set i o).Sound := by
  have used : f.objs i ≠ .blank := fun blank => by
    rw [blank] at found
    cases found
  have fine := (sound.kept.each i).lookupFree found freed
  obtain ⟨put, puts, rfl⟩ := map_eq_some_iff.mp freed
  obtain ⟨fileRefs, rfl, _less⟩ := lookupPut_eq puts
  refine sound.steady used fine ⟨rfl, rfl, rfl, rfl, rfl, rfl, ?_⟩ ?_ (fun going => sound.quiet going)
  · intro some
    change (f.objs i).ref - 1 ≠ 0 at some
    omega
  · intro closed
    have unfound := (unused_iff.mp (sound.kept.closed closed i)).2.2.1
    omega

variable {mode : LookupMode}

private theorem hold (readOnly : (f.objs i).typeClass = .fd → mode = .read) (here : mode ≠ .destroy → f.ibDev = true)
    {locked} (locks : uverbsTryLockObject (f.objs i) mode = some locked) :
    (f.set i (locked.hold mode)).Sound := by
  have used : f.objs i ≠ .blank := fun blank => by
    rw [blank] at found
    cases found
  have opened : f.closed = false := sound.open_ (i := i) (fun unused => by
    have unfound := (unused_iff.mp unused).2.2.1
    omega)
  have intact (locking : mode ≠ .destroy) : (f.objs i).hwDestroyed = 0 := by
    refine sound.lockable found (here locking) (fun taken => ?_)
    cases mode with
    | read => simp [uverbsTryLockObject, taken] at locks
    | write => simp [uverbsTryLockObject, taken] at locks
    | destroy => exact locking rfl
  have fine := (sound.kept.each i).hold found readOnly intact locks
  have unswept (locking : mode ≠ .destroy) : f.sweep = none := by
    cases going : f.sweep with
    | none => rfl
    | some sweep =>
      rcases (sound.sweeping sweep going).reason with ⟨_, closed⟩ | ⟨_, absent⟩
      · exact absurd (opened.symm.trans closed) Bool.false_ne_true
      · exact absurd ((here locking).symm.trans absent) (by simp)
  have shut (closed : f.closed = true) : (locked.hold mode).unused = true :=
      absurd (opened.symm.trans closed) Bool.false_ne_true
  cases mode with
  | read =>
    simp only [uverbsTryLockObject, ite_none_left_eq_some, some.injEq] at locks
    obtain ⟨_free, rfl⟩ := locks
    exact sound.steady used fine ⟨rfl, rfl, rfl, rfl, rfl, rfl, id⟩ shut
      (fun going => absurd (unswept (by decide)) going)
  | write =>
    simp only [uverbsTryLockObject, ite_none_right_eq_some, some.injEq] at locks
    obtain ⟨_free, rfl⟩ := locks
    exact sound.steady used fine ⟨rfl, rfl, rfl, rfl, rfl, rfl, id⟩ shut
      (fun going => absurd (unswept (by decide)) going)
  | destroy =>
    simp only [uverbsTryLockObject, some.injEq] at locks
    subst locks
    exact sound.steady used fine ⟨rfl, rfl, rfl, rfl, rfl, rfl, id⟩ shut (fun going => sound.quiet going)

theorem lookup {sameType} (readOnly : (f.objs i).typeClass = .fd → mode = .read)
    (looked : rdmaLookupGetUobject (f.objs i) f.ibDev sameType mode = some o) : (f.set i o).Sound := by
  unfold rdmaLookupGetUobject at looked
  split at looked
  next => exact sound.lookupFree found looked
  next =>
    split at looked
    next => exact sound.lookupFree found looked
    next ok =>
      split at looked
      next => exact sound.lookupFree found looked
      next locked locks =>
        rw [← some.inj looked]
        refine sound.hold found readOnly (fun locking => ?_) locks
        simpa [locking] using ok

omit found

theorem put {o} (fine : o.Sound) (same : (f.objs i).Steady o)
    (quiet : (f.objs i).quiet = true → o.quiet = true) (holds : o.holds mode = true)
    (busy : ¬ (f.objs i).unused = true) {o'} (puts : rdmaLookupPutUobject o mode = some o') :
    (f.set i o').Sound := by
  have used : f.objs i ≠ .blank := fun blank => by
    rw [blank] at busy
    exact busy rfl
  have opened := sound.open_ busy
  have fine' := fine.put holds puts
  obtain ⟨put, unlocked, rfl⟩ := map_eq_some_iff.mp puts
  obtain ⟨fileRefs, rfl, _less⟩ := lookupPut_eq unlocked
  have alive (some : o.ref - 1 ≠ 0) : (f.objs i).ref ≠ 0 := same.alive (by omega)
  have shut : ∀ {p : Prop}, f.closed = true → p := fun closed =>
    absurd (opened.symm.trans closed) Bool.false_ne_true
  obtain ⟨typeClass, named, listed, hw, user, creator, _alive⟩ := same
  cases mode with
  | read =>
    refine sound.steady used fine' ⟨typeClass, named, listed, hw, user, creator, alive⟩ shut ?_
    intro going
    have idle := (quiet_iff.mp (quiet (sound.quiet going))).2.1
    simp only [Uobject.holds, decide_eq_true_eq] at holds
    omega
  | write =>
    refine sound.steady used fine' ⟨typeClass, named, listed, hw, user, creator, alive⟩ shut ?_
    intro going
    have idle := (quiet_iff.mp (quiet (sound.quiet going))).2.2.1
    exact absurd (idle.symm.trans holds) Bool.false_ne_true
  | destroy =>
    refine sound.steady used fine' ⟨typeClass, named, listed, hw, user, creator, alive⟩ shut ?_
    exact fun going => quiet (sound.quiet going)

omit sound

end Ufile.Sound

/-! ### The sweep -/

structure Ufile.Ready (f : Ufile) (reason : RemoveReason) : Prop where
  kept : f.Kept
  context : f.ucontext = true
  reason : (reason = .close ∧ f.closed = true) ∨ (reason = .driverRemove ∧ f.ibDev = false)
  quiet : ∀ i, (f.objs i).quiet = true

namespace Ufile.Ready

variable {reason : RemoveReason}

theorem done (ready : f.Ready reason) (empty : f.uobjects = []) (last : f.cleanupRetryable = false) :
    (ufileDestroyUcontext f).Sound := by
  obtain ⟨kept, _context, _reason, quiet⟩ := ready
  refine ⟨{ kept with contextless := fun _ => ⟨empty, fun i => ?_⟩ }, fun sweep going => ?_, fun _ => last⟩
  · exact (quiet_iff.mp (quiet i)).1
  · cases going

theorem pass (ready : f.Ready reason) :
    ({ f with sweep := some ⟨reason, false, f.uobjects⟩ } : Ufile).Sound := by
  obtain ⟨kept, context, reasons, quiet⟩ := ready
  refine ⟨{ kept with }, fun sweep going => ?_, nofun⟩
  cases going
  exact ⟨context, reasons, quiet, Sublist.refl _, fun _ => rfl⟩

theorem sweepLast (ready : f.Ready reason) : (f.sweepLast reason).Sound := by
  have final : ({ f with cleanupRetryable := false } : Ufile).Ready reason :=
    { ready with kept := { ready.kept with } }
  unfold Ufile.sweepLast
  dsimp only
  split
  next empty => exact final.done empty rfl
  next => exact final.pass

theorem sweepLoop (ready : f.Ready reason) : (f.sweepLoop reason).Sound := by
  unfold Ufile.sweepLoop
  split
  next => exact ready.sweepLast
  next => exact ready.pass

end Ufile.Ready

namespace Ufile.Sound

variable {sweep : Sweep}

private theorem ready (sound : f.Sound) (going : f.sweep = some sweep) : f.Ready sweep.reason :=
  have sweeping := sound.sweeping sweep going
  { sweeping with kept := sound.kept }

theorem sweepEnd (sound : f.Sound) (going : f.sweep = some sweep) (noSweep : sweep.rest = []) :
    (f.sweepEnd sweep).Sound := by
  unfold Ufile.sweepEnd
  split
  next =>
    split
    next => exact (sound.ready going).sweepLoop
    next => exact (sound.ready going).sweepLast
  next final =>
    have last := (Bool.not_eq_true _).mp final
    have empty := (sound.sweeping sweep going).last last
    rw [noSweep] at empty
    exact (sound.ready going).done empty.symm last

theorem sweepStart (sound : f.Sound) (quiet : ∀ i, (f.objs i).quiet = true) {reason}
    (reasons : (reason = .close ∧ f.closed = true) ∨ (reason = .driverRemove ∧ f.ibDev = false)) :
    (uverbsDestroyUfileHw f reason).Sound := by
  unfold uverbsDestroyUfileHw
  split
  next context =>
    have begun : ({ f with cleanupRetryable := true } : Ufile).Ready reason :=
      ⟨{ sound.kept with }, context, reasons, quiet⟩
    exact begun.sweepLoop
  next => exact sound

theorem sweepObject_cases (sound : f.Sound) (going : f.sweep = some sweep) {rest}
    (turn : sweep.rest = i :: rest) (failed) :
    (∃ charged, ((f.objs i).cleaned charged).Sound ∧ f.sweepObject sweep i rest failed =
      { f.unlist i ((f.objs i).cleaned charged) with sweep := some ⟨sweep.reason, true, rest⟩ }) ∨
    (f.cleanupRetryable = true ∧ f.sweepObject sweep i rest failed =
      { f with sweep := some { sweep with rest := rest } }) := by
  obtain ⟨_context, reasons, quiet, sub, _last⟩ := sound.sweeping sweep going
  have fine := sound.kept.each i
  have on : (f.objs i).listed = true := (sound.kept.listed i).mp (sub.subset (by rw [turn]; exact .head _))
  have owns := fine.owns (by rw [owned, on, Bool.toNat_true]; omega)
  have intact : (f.objs i).userDestroyed = false := by
    cases user : (f.objs i).userDestroyed with
    | false => rfl
    | true => exact absurd ((fine.placed.gone user).2.1.symm.trans on) Bool.false_ne_true
  have why : sweep.reason = .close ∨ sweep.reason = .driverRemove := by
    rcases reasons with ⟨close, _⟩ | ⟨remove, _⟩
    · exact .inl close
    · exact .inr remove
  obtain ⟨lock, free, charged, destroyed, clean⟩ :=
    cleanup fine owns (quiet i) intact why f.cleanupRetryable failed
  unfold sweepObject
  dsimp only
  rw [lock, destroyed]
  split
  next o done =>
    split at done
    · cases done
    · rw [← some.inj done]
      exact .inl ⟨charged, clean, rfl⟩
  next kept =>
    split at kept
    next retry =>
      simp only [Bool.and_eq_true] at retry
      refine .inr ⟨retry.2.2, ?_⟩
      have same : f.set i { f.objs i with usecnt := 0 } = f := by
        unfold set
        rw [← free]
        congr 1
        funext j
        split
        next eq => rw [eq]
        next => rfl
      exact congrArg (fun f : Ufile => { f with sweep := some { sweep with rest := rest } }) same
    next => cases kept

theorem sweepObject (sound : f.Sound) (going : f.sweep = some sweep) {rest}
    (turn : sweep.rest = i :: rest) (failed) : (f.sweepObject sweep i rest failed).Sound := by
  obtain ⟨context, reasons, quiet, sub, last⟩ := sound.sweeping sweep going
  have on : (f.objs i).listed = true := (sound.kept.listed i).mp (sub.subset (by rw [turn]; exact .head _))
  have used : f.objs i ≠ .blank := fun blank => by
    rw [blank] at on
    cases on
  rcases sound.sweepObject_cases going turn failed with ⟨charged, clean, same⟩ | ⟨retryable, same⟩
  · obtain ⟨ref, freed, eq, _fewer⟩ := cleaned_eq (o := f.objs i) charged
    have off : ((f.objs i).cleaned charged).listed = false := by rw [eq]
    have kept : (f.unlist i ((f.objs i).cleaned charged)).Kept := by
      refine sound.kept.replace used clean ?_ ?_ ?_ ?_
      · exact fun on' => absurd (off.symm.trans on') Bool.false_ne_true
      · intro _ _
        rcases reasons with ⟨_, closed⟩ | ⟨_, absent⟩
        · exact .inr (.inr (.inr closed))
        · exact .inr (.inr (.inl absent))
      · intro closed
        rw [eq]
        exact sound.kept.closed closed i
      · rw [eq]
        exact id
    have fewer : (f.unlist i ((f.objs i).cleaned charged)).uobjects = f.uobjects.erase i := by
      change (if ((f.objs i).cleaned charged).listed = true then f.uobjects else f.uobjects.erase i) = _
      rw [off, if_neg Bool.false_ne_true]
    rw [same]
    refine ⟨{ kept with }, fun sweep' now => ?_, nofun⟩
    cases now
    refine ⟨context, reasons, forall_set (P := fun o => o.quiet = true) quiet ?_, ?_, ?_⟩
    · rw [eq]
      exact quiet i
    · change rest.Sublist (f.unlist i ((f.objs i).cleaned charged)).uobjects
      have shorter := sub.erase i
      rw [turn, erase_cons_head] at shorter
      rw [fewer]
      exact shorter
    · intro final
      rw [fewer, ← last final, turn, erase_cons_head]
  · rw [same]
    refine ⟨{ sound.kept with }, fun sweep' now => ?_, nofun⟩
    cases now
    refine ⟨context, reasons, quiet, ?_, ?_⟩
    · rw [turn] at sub
      exact (sublist_cons_self i rest).trans sub
    · exact fun final => absurd (retryable.symm.trans final) (by simp)

end Ufile.Sound

end MlnxOfed.Uverbs
