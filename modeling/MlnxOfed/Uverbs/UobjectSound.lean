/-
What holds of one user object after every operation on it.
-/

import MlnxOfed.Lib.Holders
import MlnxOfed.Uverbs.Ufile

namespace MlnxOfed.Uverbs

open Option
open Bool (toNat_false toNat_true)
open Lib Uobject Uverbs

def Uobject.owned (o : Uobject) : Nat :=
  o.creator.toNat + o.handle.toNat + o.listed.toNat + o.found + o.readers + o.writer.toNat + o.holders

/-- Those for whom the counter is -1; a user's successful destruction keeps it so. -/
def Uobject.exclusive (o : Uobject) : Nat :=
  o.creator.toNat + o.writer.toNat + o.destroyer.toNat + o.userDestroyed.toNat

def Uobject.Counted (o : Uobject) : Prop := Counts o.allocated o.ref o.freed o.owned

def Uobject.Locked (o : Uobject) : Prop := o.ref ≠ 0 → Locks o.usecnt o.exclusive o.readers

structure Uobject.Hidden (o : Uobject) : Prop where
  unnamed : o.handle = false ∧ o.listed = false ∧ o.descriptor = false
  unseen : o.loaded = 0 ∧ o.found = 0
  unheld : o.readers = 0 ∧ o.writer = false ∧ o.holders = 0 ∧ o.destroyer = false
  intact : o.userDestroyed = false ∧ o.hwDestroyed = 0

structure Uobject.Placed (o : Uobject) : Prop where
  hidden : o.creator → o.Hidden
  destroying : o.destroyer.toNat + o.finisher.toNat ≤ o.holders
  finished : o.finisher → o.userDestroyed
  gone : o.userDestroyed → o.handle = false ∧ o.listed = false ∧ o.object = false
  named : o.typeClass = .idr → o.ref ≠ 0 → o.creator ∨ o.userDestroyed ∨ o.handle

structure Uobject.Hardware (o : Uobject) : Prop where
  once : o.hwDestroyed ≤ 1
  present : o.object → o.ref ≠ 0 → o.hwDestroyed = 0
  inUse : 0 < o.readers ∨ o.writer → o.hwDestroyed = 0

/-- The file of an object of `uverbs_fd_class`. -/
structure Uobject.Filed (o : Uobject) : Prop where
  shared : o.writer = false ∧ o.holders = 0 ∧ o.userDestroyed = false
  refs : o.ref ≠ 0 → o.fileRefs = o.creator.toNat + o.descriptor.toNat + o.found + o.readers
  released : o.handle = false → o.descriptor = false ∧ o.found = 0 ∧ o.readers = 0

structure Uobject.Sound (o : Uobject) : Prop where
  counted : o.Counted
  locked : o.Locked
  placed : o.Placed
  hardware : o.Hardware
  filed : o.typeClass = .fd → o.Filed

variable {o o' : Uobject}

theorem sound_blank : blank.Sound := by
  refine ⟨⟨rfl, fun _ => rfl, fun some => absurd rfl some⟩, fun some => absurd rfl some, ?_, ?_, ?_⟩
  · constructor <;> simp [blank]
  · constructor <;> simp [blank]
  · nofun

theorem sound_allocBegin (typeClass fails) : (allocBeginUobject typeClass fails).Sound := by
  cases typeClass <;> cases fails <;>
    refine ⟨⟨by decide, by decide, by decide⟩, fun _ => ?_, ⟨fun _ => ?_, by decide, by decide, by decide, by decide⟩,
      ⟨by decide, by decide, by decide⟩, fun _ => ?_⟩ <;>
    first
      | exact ⟨by decide, by decide, by decide⟩
      | exact ⟨by decide, by decide, by decide, by decide⟩
      | contradiction

theorem allocCommit_eq :
    allocCommit o = { o with handle := true, descriptor := o.descriptor || o.typeClass == .fd } := by
  cases class_ : o.typeClass <;> simp [allocCommit, class_]

private theorem allocAbort_eq : allocAbort o = { o with
      charged := o.charged && o.typeClass == .fd
      handle := o.handle && o.typeClass == .fd
      fileRefs := if o.typeClass = .fd then o.fileRefs - 1 else o.fileRefs } := by
  cases class_ : o.typeClass <;> simp [allocAbort, class_]

private theorem uobjectRemoved_abort (unlisted : o.listed = false) : uobjectRemoved o .abort =
    uverbsUobjectPut { o with context := false, usecnt := 0, creator := false } := by
  simp [uobjectRemoved, uobjectUnlist, unlisted]

theorem destroyHw_eq (retryable why failed) : destroyHw o retryable why failed =
    if ibIsDestroyRetryable retryable failed why then none
    else some { o with
      hwDestroyed := o.hwDestroyed + 1
      charged := o.charged && (o.typeClass == .fd || why == .abort) } := by
  unfold destroyHw
  split
  next => rfl
  next =>
    cases class_ : o.typeClass with
    | fd => simp
    | idr => by_cases aborting : why = .abort <;> simp [aborting]

def Uobject.bare (o : Uobject) (charged : Bool) : Uobject :=
  { o with object := false, charged := charged, hwDestroyed := o.hwDestroyed + o.object.toNat }

theorem destroy_eq (reason) (committed : reason ≠ .abort ∧ reason ≠ .abortHwobj)
    (retryable failed) : ∃ charged, uverbsDestroyUobject o retryable reason failed =
      if o.object && ibIsDestroyRetryable retryable failed reason then none
      else some (uobjectRemoved (o.bare charged) reason) := by
  have unfolded : uverbsDestroyUobject o retryable reason failed = if o.object then
        (destroyHw o retryable reason failed).elim none fun o =>
          some (uobjectRemoved { o with object := false } reason)
      else some (uobjectRemoved o reason) := by
    cases reason with
    | abort => exact absurd rfl committed.1
    | abortHwobj => exact absurd rfl committed.2
    | destroy | close | driverRemove =>
      unfold uverbsDestroyUobject
      dsimp only
      cases destroyHw o retryable _ failed with
      | none => rfl
      | some removed => rfl
  rw [unfolded, destroyHw_eq]
  cases held : o.object with
  | false =>
    have same : o.bare o.charged = o := by
      cases o
      cases held
      rfl
    exact ⟨o.charged, by rw [same]; rfl⟩
  | true =>
    cases ibIsDestroyRetryable retryable failed reason with
    | true => exact ⟨o.charged, by simp⟩
    | false => exact ⟨_, by simp [bare, held]; rfl⟩

theorem uobjectRemoved_cleanup {reason} (cleanup : reason = .close ∨ reason = .driverRemove) :
    uobjectRemoved o reason = uobjectUnlist { o with context := false, usecnt := 0 } := by
  rcases cleanup with rfl | rfl <;> simp [uobjectRemoved]

theorem uobjectRemoved_destroy :
    uobjectRemoved o .destroy = uobjectUnlist (removeHandle { o with context := false }) := by
  simp [uobjectRemoved]

theorem uobjectUnlist_eq : ∃ ref freed, uobjectUnlist o =
    { o with listed := false, ref := ref, freed := freed } ∧ ref ≤ o.ref := by
  unfold uobjectUnlist
  split
  next => exact ⟨_, _, rfl, Nat.sub_le _ _⟩
  next unlisted =>
    refine ⟨o.ref, o.freed, ?_, le_rfl⟩
    cases o
    cases (Bool.not_eq_true _).mp unlisted
    rfl

private theorem removeHandle_eq (idr : o.typeClass = .idr) : ∃ ref freed, removeHandle o =
    { o with handle := false, ref := ref, freed := freed } ∧ ref ≤ o.ref := by
  have put : removeHandle o = uverbsUobjectPut { o with handle := false } := by simp only [removeHandle, idr]
  exact ⟨_, _, put, Nat.sub_le _ _⟩

theorem lookupPut_eq (puts : lookupPut o = some o') : ∃ fileRefs, o' = { o with fileRefs := fileRefs } ∧
    (o.typeClass = .fd → fileRefs = o.fileRefs - 1) := by
  unfold lookupPut at puts
  split at puts
  next idr => exact ⟨o.fileRefs, (some.inj puts).symm, fun fd => absurd (idr.symm.trans fd) (by decide)⟩
  next fd =>
    split at puts
    · exact ⟨_, (some.inj puts).symm, fun _ => rfl⟩
    · cases puts

theorem counted_put (counted : Counts o.allocated o.ref o.freed (o.owned + 1)) :
    (uverbsUobjectPut o).Counted := counted.put rfl

theorem Uobject.Counted.unlist (counted : o.Counted) : (uobjectUnlist o).Counted := by
  unfold uobjectUnlist
  split
  next listed =>
    refine counted_put (counted.pass ?_)
    simp only [owned, listed, toNat_false, toNat_true]
    omega
  next => exact counted

theorem Uobject.Counted.removeHandle (counted : o.Counted) (idr : o.typeClass = .idr)
    (named : o.handle = true) : (removeHandle o).Counted := by
  simp only [Uverbs.removeHandle, idr]
  refine counted_put (counted.pass ?_)
  simp only [owned, named, toNat_false, toNat_true]
  omega

theorem Uobject.Hardware.bare (hardware : o.Hardware) (owns : o.ref ≠ 0) :
    o.hwDestroyed + o.object.toNat ≤ 1 := by
  cases held : o.object with
  | false => exact hardware.once
  | true => rw [hardware.present held owns]; exact Nat.le_refl 1

namespace Uobject.Sound

variable (sound : o.Sound)

include sound

variable (creating : o.creator = true)

include creating

theorem hidden : o.Hidden := sound.placed.hidden creating

theorem setObject : ({ o with object := true } : Uobject).Sound := by
  have hidden := sound.hidden creating
  obtain ⟨counted, locked, placed, hardware, filed⟩ := sound
  refine ⟨counted, locked, { placed with hidden := fun _ => { hidden with }, gone := ?_ },
    ⟨hardware.once, fun _ _ => hidden.intact.2, hardware.inUse⟩, fun fd => { filed fd with }⟩
  intro destroyed
  exact absurd destroyed (by rw [hidden.intact.1]; exact Bool.false_ne_true)

omit creating in
theorem owns (some : 0 < o.owned) : o.ref ≠ 0 := sound.counted.owns some

theorem commit :
    (allocCommit { uverbsUobjectGet o with listed := true, usecnt := 0, creator := false }).Sound := by
  obtain ⟨unnamed, unseen, unheld, intact⟩ := sound.hidden creating
  have owns := sound.owns (by unfold owned; rw [creating, toNat_true]; omega)
  obtain ⟨counted, locked, placed, hardware, filed⟩ := sound
  rw [allocCommit_eq]
  simp only [uverbsUobjectGet]
  refine ⟨?_, fun _ => ?_, ?_, ?_, fun fd => ?_⟩
  · refine counted.get owns ?_
    simp only [owned, creating, unnamed, toNat_false, toNat_true]
    omega
  · refine (locked owns).unlockWrite ?_
    simp only [exclusive, creating, unheld, intact]
    simp
  · constructor <;> grind [Placed]
  · constructor <;> grind [Hardware]
  · obtain ⟨shared, refs, freed⟩ := filed fd
    constructor <;> grind

private theorem dropCreator {charged handle}
    {fileRefs hwDestroyed} (erased : handle = false) (once : hwDestroyed ≤ 1) :
    let aborted := uverbsUobjectPut { o with
      charged := charged, handle := handle, context := false, usecnt := 0, creator := false
      fileRefs := fileRefs, hwDestroyed := hwDestroyed }
    aborted.Sound ∧ aborted.ref = 0 := by
  subst erased
  obtain ⟨unnamed, unseen, unheld, intact⟩ := sound.hidden creating
  obtain ⟨counted, _locked, placed, _hardware, filed⟩ := sound
  have last : o.ref = 1 := by
    rw [counted.refs]
    simp only [owned, creating, unnamed, unseen, unheld, toNat_false, toNat_true]
  have none : o.ref - 1 = 0 := by rw [last]
  refine ⟨⟨counted_put (counted.pass ?_), fun some => absurd none some, ?_, ?_, fun fd => ?_⟩, none⟩
  · simp only [owned, creating, unnamed, toNat_false, toNat_true]
    omega
  · unfold uverbsUobjectPut
    constructor <;> grind [Placed]
  · unfold uverbsUobjectPut
    constructor <;> grind
  · obtain ⟨shared, refs, freed⟩ := filed fd
    unfold uverbsUobjectPut
    constructor <;> grind

theorem abort (retryable hwObjValid failed : Bool) : let aborted :=
      (uverbsDestroyUobject o retryable (if hwObjValid then .abortHwobj else .abort) failed).getD o
    aborted.Sound ∧ aborted.ref = 0 := by
  obtain ⟨unnamed, _unseen, _unheld, intact⟩ := sound.hidden creating
  have aborted : ∀ hwDestroyed charged, hwDestroyed ≤ 1 →
      let aborted := uobjectRemoved (allocAbort { o with hwDestroyed := hwDestroyed, charged := charged }) .abort
      aborted.Sound ∧ aborted.ref = 0 := by
    intro hwDestroyed charged once
    rw [allocAbort_eq, uobjectRemoved_abort (by exact unnamed.2.1)]
    exact sound.dropCreator creating (by rw [unnamed.1]; rfl) once
  cases hwObjValid with
  | false => exact aborted o.hwDestroyed o.charged (by omega)
  | true =>
    simp only [if_true, uverbsDestroyUobject, getD_some]
    rw [destroyHw_eq]
    split
    next => exact aborted o.hwDestroyed o.charged (by omega)
    next => exact aborted (o.hwDestroyed + 1) _ (by omega)

omit creating

theorem unowned (none : o.ref = 0) : o.listed = false ∧ o.creator = false ∧ o.found = 0 ∧
    o.readers = 0 ∧ o.writer = false ∧ o.holders = 0 ∧ o.destroyer = false := by
  have refs := sound.counted.refs
  have destroying := sound.placed.destroying
  simp only [none, owned] at refs
  refine ⟨?_, ?_, by omega, by omega, ?_, by omega, ?_⟩
  all_goals exact Bool.toNat_eq_zero.mp (by omega)

omit sound

/-! ### Destruction -/

variable (sound : o.Sound)

include sound

theorem unlist : (uobjectUnlist o).Sound := by
  obtain ⟨counted, locked, placed, hardware, filed⟩ := sound
  have kept := counted.unlist
  obtain ⟨ref, freed, same, fewer⟩ := uobjectUnlist_eq (o := o)
  rw [same] at kept ⊢
  refine ⟨kept, fun some => locked (by dsimp only at some; omega), ?_, ?_, fun fd => ?_⟩
  · obtain ⟨hidden, destroying, finished, gone, named⟩ := placed
    constructor <;> grind [Hidden]
  · obtain ⟨once, here, inUse⟩ := hardware
    constructor <;> grind
  · obtain ⟨shared, refs, released⟩ := filed fd
    constructor <;> grind

theorem clear (owns : o.ref ≠ 0) (open_ : o.exclusive = 0) (unread : o.readers = 0)
    (charged) : ({ o.bare charged with context := false, usecnt := 0 } : Uobject).Sound := by
  obtain ⟨counted, _locked, placed, hardware, filed⟩ := sound
  obtain ⟨hidden, destroying, finished, gone, named⟩ := placed
  refine ⟨counted, fun _ => .free open_ unread, ⟨?_, destroying, finished, ?_, named⟩, ⟨?_, ?_, ?_⟩,
    fun fd => { filed fd with }⟩
  · intro creating
    rw [exclusive, show o.creator = true from creating, toNat_true] at open_
    omega
  · exact fun destroyed => ⟨(gone destroyed).1, (gone destroyed).2.1, rfl⟩
  · exact hardware.bare owns
  · nofun
  · intro used
    rcases used with reading | writing
    · exact absurd (show 0 < o.readers from reading) (by omega)
    · rw [exclusive, show o.writer = true from writing, toNat_true] at open_
      omega

theorem destroyLock (held : o.holds .destroy = true) (free : o.usecnt = 0) :
    ({ o with usecnt := -1, destroyer := true } : Uobject).Sound := by
  simp only [holds, decide_eq_true_eq] at held
  have owns := sound.owns (by unfold owned; omega)
  obtain ⟨counted, locked, placed, hardware, filed⟩ := sound
  obtain ⟨open_, _unread⟩ := (locked owns).idle free
  rw [exclusive] at open_
  obtain ⟨hidden, destroying, finished, gone, named⟩ := placed
  refine ⟨counted, fun _ => (locked owns).lockWrite free ?_, ⟨?_, ?_, finished, gone, named⟩, { hardware with },
    fun fd => { filed fd with }⟩
  · simp only [exclusive, toNat_true]
    omega
  · intro creating
    rw [show o.creator = true from creating, toNat_true] at open_
    omega
  · simp only [toNat_true]
    omega

theorem destroyFailed (destroying : o.destroyer = true) :
    ({ o with usecnt := 0, destroyer := false } : Uobject).Sound := by
  obtain ⟨counted, locked, placed, hardware, filed⟩ := sound
  refine ⟨counted, fun owns => (locked owns).unlockWrite ?_, { placed with
    hidden := ?_
    destroying := ?_ },
    { hardware with }, fun fd => { filed fd with }⟩
  · simp only [exclusive, destroying, toNat_true, toNat_false]
    omega
  · exact fun creating => { placed.hidden creating with unheld := by grind [(placed.hidden creating).unheld] }
  · have some := placed.destroying
    simp only [toNat_false]
    omega

theorem destroyer_facts (destroying : o.destroyer = true) :
    o.ref ≠ 0 ∧ o.typeClass = .idr ∧ o.creator = false ∧ o.readers = 0 ∧ o.writer = false ∧
      o.userDestroyed = false ∧ o.handle = true := by
  have some := sound.placed.destroying
  rw [destroying, toNat_true] at some
  have owns := sound.owns (by unfold owned; omega)
  obtain ⟨alone, unshared, _count⟩ := sound.locked owns
  simp only [exclusive, destroying, toNat_true] at alone unshared
  have uncreated : o.creator = false := by
    cases h : o.creator with
    | false => rfl
    | true => rw [h, toNat_true] at alone; omega
  have unwritten : o.writer = false := by
    cases h : o.writer with
    | false => rfl
    | true => rw [h, toNat_true] at alone; omega
  have intact : o.userDestroyed = false := by
    cases h : o.userDestroyed with
    | false => rfl
    | true => rw [h, toNat_true] at alone; omega
  have idr : o.typeClass = .idr := by
    cases class_ : o.typeClass with
    | idr => rfl
    | fd => exact absurd (sound.filed class_).shared.2.1 (by omega)
  have named := sound.placed.named idr owns
  simp only [uncreated, intact, Bool.false_eq_true, false_or] at named
  exact ⟨owns, idr, uncreated, unshared (by omega), unwritten, intact, named⟩

theorem userDestroy (destroying : o.destroyer = true) (charged) :
    ({ uobjectUnlist (removeHandle { o.bare charged with context := false, destroyer := false }) with
      userDestroyed := true, finisher := true } : Uobject).Sound := by
  obtain ⟨owns, idr, uncreated, unread, unwritten, intact, named⟩ := sound.destroyer_facts destroying
  obtain ⟨counted, locked, placed, hardware, filed⟩ := sound
  have kept := Counted.unlist (Counted.removeHandle
    (show ({ o.bare charged with context := false, destroyer := false } : Uobject).Counted from counted) idr named)
  have once := hardware.bare owns
  have some := placed.destroying
  rw [destroying, toNat_true] at some
  obtain ⟨ref, freed, same, fewer⟩ :=
    removeHandle_eq (o := { o.bare charged with context := false, destroyer := false }) idr
  rw [same] at kept ⊢
  obtain ⟨ref', freed', same', fewer'⟩ := uobjectUnlist_eq (o := { o.bare charged with
    context := false, destroyer := false, handle := false, ref := ref, freed := freed })
  rw [same'] at kept ⊢
  refine ⟨kept, fun _ => ?_, ?_, ?_, fun fd => ?_⟩
  · refine (locked owns).pass ?_
    simp only [exclusive, bare, destroying, intact, toNat_true, toNat_false]
  · constructor <;> grind [bare]
  · constructor <;> grind [bare]
  · exact absurd (idr.symm.trans fd) (by decide)

theorem unfinish (finishing : o.finisher = true) : ({ o with finisher := false } : Uobject).Sound ∧
      ({ o with finisher := false } : Uobject).holds .destroy = true := by
  have destroyed := sound.placed.finished finishing
  have some := sound.placed.destroying
  rw [finishing, toNat_true] at some
  have idle : o.destroyer = false := by
    cases destroying : o.destroyer with
    | false => rfl
    | true =>
      have intact := (sound.destroyer_facts destroying).2.2.2.2.2.1
      rw [destroyed] at intact
      cases intact
  obtain ⟨counted, locked, placed, hardware, filed⟩ := sound
  refine ⟨⟨counted, locked, ⟨fun creating => { placed.hidden creating with }, ?_, fun none => absurd none (by simp),
    placed.gone, placed.named⟩, { hardware with }, fun fd => { filed fd with }⟩, ?_⟩
  · simp only [toNat_false]
    omega
  · simp only [holds, idle, toNat_false, decide_eq_true_eq]
    omega

theorem dropHandle (named : o.handle = true) (last : o.typeClass = .idr → o.owned = 1)
    (shut : o.typeClass = .fd → o.descriptor = false ∧ o.found = 0 ∧ o.readers = 0) :
    (uverbsUobjectPut { o with handle := false }).Sound := by
  obtain ⟨counted, locked, placed, hardware, filed⟩ := sound
  obtain ⟨hidden, destroying, finished, gone, _named⟩ := placed
  obtain ⟨once, here, inUse⟩ := hardware
  have refs := counted.refs
  refine ⟨counted_put (counted.pass ?_), fun some => locked (by simp only [uverbsUobjectPut] at some; omega),
    ?_, ?_, fun fd => ?_⟩
  · simp only [owned, named, toNat_false, toNat_true]
    omega
  · unfold uverbsUobjectPut
    constructor <;> grind [Hidden]
  · unfold uverbsUobjectPut
    constructor <;> grind
  · obtain ⟨shared, file, freed⟩ := filed fd
    have closed := shut fd
    unfold uverbsUobjectPut
    constructor <;> grind

theorem closeFd (fd : o.typeClass = .fd) (opened : o.descriptor = true) :
    ({ o with descriptor := false, fileRefs := o.fileRefs - 1 } : Uobject).Sound := by
  obtain ⟨counted, locked, placed, hardware, filed⟩ := sound
  obtain ⟨shared, refs, freed⟩ := filed fd
  refine ⟨counted, locked, ⟨fun creating => { placed.hidden creating with unnamed := ?_ }, placed.destroying,
    placed.finished, placed.gone, placed.named⟩, { hardware with }, fun _ => ⟨shared, fun owns => ?_, fun unnamed => ?_⟩⟩
  · have unnamed := (placed.hidden creating).unnamed
    exact ⟨unnamed.1, unnamed.2.1, rfl⟩
  · have count := refs owns
    rw [opened, toNat_true] at count
    change o.fileRefs - 1 = o.creator.toNat + 0 + o.found + o.readers
    omega
  · exact ⟨rfl, (freed unnamed).2⟩

omit sound

/-! ### Lookups -/

variable (sound : o.Sound)

include sound

theorem committed (seen : o.handle = true ∨ 0 < o.loaded ∨ 0 < o.found) : o.creator = false := by
  cases creating : o.creator with
  | false => rfl
  | true =>
    obtain ⟨unnamed, unseen, _unheld, _intact⟩ := sound.hidden creating
    rcases seen with named | loaded | found
    · rw [unnamed.1] at named
      cases named
    · omega
    · omega

theorem load (named : o.handle = true) : ({ o with loaded := o.loaded + 1 } : Uobject).Sound := by
  have committed := sound.committed (.inl named)
  obtain ⟨counted, locked, placed, hardware, filed⟩ := sound
  refine ⟨counted, locked, { placed with hidden := fun creating => ?_ }, { hardware with },
    fun fd => { filed fd with }⟩
  exact absurd (committed.symm.trans creating) Bool.false_ne_true

theorem lookupGetIdr (idr : o.typeClass = .idr) (seen : 0 < o.loaded) : (Uverbs.lookupGetIdr o).Sound := by
  have committed := sound.committed (.inr (.inl seen))
  obtain ⟨counted, locked, placed, hardware, _filed⟩ := sound
  obtain ⟨hidden, destroying, finished, gone, named⟩ := placed
  obtain ⟨once, here, inUse⟩ := hardware
  unfold Uverbs.lookupGetIdr uverbsUobjectGet
  dsimp only
  split
  next none =>
    refine ⟨counted, locked, ?_, ⟨once, here, inUse⟩, fun fd => absurd (idr.symm.trans fd) (by decide)⟩
    constructor <;> grind
  next owns =>
    refine ⟨counted.get owns ?_, fun _ => locked owns, ?_, ?_, fun fd => absurd (idr.symm.trans fd) (by decide)⟩
    · simp only [owned]
      omega
    · constructor <;> grind
    · constructor <;> grind

theorem lookupGetFd (fd : o.typeClass = .fd) (named : o.handle = true) : (Uverbs.lookupGetFd o).Sound := by
  have committed := sound.committed (.inl named)
  have owns := sound.owns (by rw [owned, named, toNat_true]; omega)
  obtain ⟨counted, locked, placed, hardware, filed⟩ := sound
  obtain ⟨hidden, destroying, finished, gone, _named⟩ := placed
  obtain ⟨once, here, inUse⟩ := hardware
  obtain ⟨shared, refs, freed⟩ := filed fd
  unfold Uverbs.lookupGetFd uverbsUobjectGet
  refine ⟨counted.get owns ?_, fun _ => locked owns, ?_, ?_, fun _ => ?_⟩
  · simp only [owned]
    omega
  · constructor <;> grind
  · constructor <;> grind
  · constructor <;> grind

theorem lookupFree (found : 0 < o.found) (freed : lookupFree o = some o') : o'.Sound := by
  obtain ⟨put, puts, rfl⟩ := map_eq_some_iff.mp freed
  have committed := sound.committed (.inr (.inr found))
  obtain ⟨counted, locked, placed, hardware, filed⟩ := sound
  obtain ⟨hidden, destroying, finished, gone, named⟩ := placed
  obtain ⟨once, here, inUse⟩ := hardware
  have refs := counted.refs
  have lastOnes : o.owned = ({ o with found := o.found - 1 } : Uobject).owned + 1 := by
    simp only [owned]
    omega
  obtain ⟨fileRefs, rfl, less⟩ := lookupPut_eq puts
  refine ⟨counted_put (counted.pass lastOnes.symm),
    fun some => locked (by simp only [uverbsUobjectPut] at some; omega), ?_, ?_, fun fd => ?_⟩
  · unfold uverbsUobjectPut
    constructor <;> grind
  · unfold uverbsUobjectPut
    constructor <;> grind
  · obtain ⟨shared, file, released⟩ := filed fd
    have fewer := less fd
    unfold uverbsUobjectPut
    constructor <;> grind

variable {mode : LookupMode}

theorem hold (found : 0 < o.found) (readOnly : o.typeClass = .fd → mode = .read)
    (intact : mode ≠ .destroy → o.hwDestroyed = 0) {locked'}
    (locks : uverbsTryLockObject o mode = some locked') : (locked'.hold mode).Sound := by
  have committed := sound.committed (.inr (.inr found))
  have owns := sound.owns (by unfold owned; omega)
  obtain ⟨counted, locked, placed, hardware, filed⟩ := sound
  obtain ⟨hidden, destroying, finished, gone, named⟩ := placed
  obtain ⟨once, here, inUse⟩ := hardware
  have lock := locked owns
  cases mode with
  | read =>
    simp only [uverbsTryLockObject, ite_none_left_eq_some, some.injEq] at locks
    obtain ⟨free, rfl⟩ := locks
    refine ⟨counted.pass ?_, fun _ => lock.lockRead free rfl rfl, ?_, ?_, fun fd => ?_⟩
    · simp only [owned, hold]
      omega
    · unfold hold
      constructor <;> grind
    · unfold hold
      constructor <;> grind
    · obtain ⟨shared, file, freed⟩ := filed fd
      unfold hold
      constructor <;> grind
  | write =>
    simp only [uverbsTryLockObject, ite_none_right_eq_some, some.injEq] at locks
    obtain ⟨free, rfl⟩ := locks
    have open_ := (lock.idle free).1
    rw [exclusive] at open_
    have unwritten : o.writer.toNat = 0 := by omega
    refine ⟨counted.pass ?_, fun _ => lock.lockWrite free ?_, ?_, ?_, fun fd => absurd (readOnly fd) (by decide)⟩
    · simp only [owned, hold, toNat_true]
      omega
    · simp only [exclusive, hold, toNat_true]
      omega
    · unfold hold
      constructor <;> grind
    · unfold hold
      constructor <;> grind
  | destroy =>
    simp only [uverbsTryLockObject, some.injEq] at locks
    subst locks
    refine ⟨counted.pass ?_, fun _ => lock, ?_, ?_, fun fd => absurd (readOnly fd) (by decide)⟩
    · simp only [owned, hold]
      omega
    · unfold hold
      constructor <;> grind
    · unfold hold
      constructor <;> grind

private theorem release (holds : o.holds mode = true) (readOnly : o.typeClass = .fd → mode = .read) {fileRefs}
    (files : o.typeClass = .fd → fileRefs = o.fileRefs - 1) :
    (uverbsUobjectPut { o.release mode with fileRefs := fileRefs }).Sound := by
  obtain ⟨counted, locked, placed, hardware, filed⟩ := sound
  obtain ⟨hidden, destroying, finished, gone, named⟩ := placed
  obtain ⟨once, here, inUse⟩ := hardware
  have refs := counted.refs
  cases mode with
  | read =>
    simp only [Uobject.holds, decide_eq_true_eq] at holds
    have lock := locked (counted.owns (by unfold owned; omega))
    refine ⟨counted_put (counted.pass ?_), fun _ => lock.unlockRead rfl ?_, ?_, ?_, fun fd => ?_⟩
    · simp only [owned, Uobject.release]
      omega
    · simp only [uverbsUobjectPut, Uobject.release]
      omega
    · unfold uverbsUobjectPut Uobject.release
      constructor <;> grind [Hidden]
    · unfold uverbsUobjectPut Uobject.release
      constructor <;> grind
    · obtain ⟨shared, file, freed⟩ := filed fd
      have less := files fd
      unfold uverbsUobjectPut Uobject.release
      constructor <;> grind
  | write =>
    simp only [Uobject.holds] at holds
    have lock := locked (counted.owns (by rw [owned, holds, toNat_true]; omega))
    refine ⟨counted_put (counted.pass ?_), fun _ => lock.unlockWrite ?_, ?_, ?_,
      fun fd => absurd (readOnly fd) (by decide)⟩
    · simp only [owned, Uobject.release, holds, toNat_true, toNat_false]
      omega
    · simp only [exclusive, uverbsUobjectPut, Uobject.release, holds, toNat_true, toNat_false]
      omega
    · unfold uverbsUobjectPut Uobject.release
      constructor <;> grind [Hidden]
    · unfold uverbsUobjectPut Uobject.release
      constructor <;> grind
  | destroy =>
    simp only [Uobject.holds, decide_eq_true_eq] at holds
    have lock := locked (counted.owns (by unfold owned; omega))
    refine ⟨counted_put (counted.pass ?_), fun _ => lock, ?_, ?_, fun fd => absurd (readOnly fd) (by decide)⟩
    · simp only [owned, Uobject.release]
      omega
    · unfold uverbsUobjectPut Uobject.release
      constructor <;> grind [Hidden]
    · unfold uverbsUobjectPut Uobject.release
      constructor <;> grind

theorem put (holds : o.holds mode = true) (puts : rdmaLookupPutUobject o mode = some o') : o'.Sound := by
  obtain ⟨put, unlocked, rfl⟩ := map_eq_some_iff.mp puts
  have readOnly (fd : o.typeClass = .fd) : mode = .read := by
    obtain ⟨unwritten, unheld, _intact⟩ := (sound.filed fd).shared
    cases mode with
    | read => rfl
    | write => exact absurd (unwritten.symm.trans holds) Bool.false_ne_true
    | destroy =>
      simp only [Uobject.holds, decide_eq_true_eq] at holds
      omega
  obtain ⟨fileRefs, rfl, less⟩ := lookupPut_eq unlocked
  refine sound.release holds readOnly (fun fd => ?_)
  cases mode with
  | read | write | destroy => exact less fd

omit sound

end Uobject.Sound

end MlnxOfed.Uverbs
