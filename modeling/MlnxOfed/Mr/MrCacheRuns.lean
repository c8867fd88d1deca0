/-
The counters of the region cache over whole runs, and why the work ends. An entry with more than twice its
limit has its work queued or under way, unless the delay after a failed creation or the cleanup hides it
from `queue_adjust_cache_locked`.
-/

import MlnxOfed.Mr.MrCache

namespace MlnxOfed.Mr

open Prod Option List CacheEnt

def Worker.creations : Worker → Nat
  | .issuing => 1
  | .issueFailed => 1
  | _ => 0

def Worker.fills : Worker → Bool
  | .adding => true
  | .issuing => true
  | .issueFailed => true
  | .added _ => true
  | _ => false

def Worker.keys : Worker → List Nat
  | .destroying mkey => [mkey]
  | _ => []

namespace CacheEnt

def Attended (ent : CacheEnt) : Prop :=
  ent.workQueued = true ∨ ent.dworkQueued = true ∨ ent.worker = .releasing ∨
    (∃ mkey, ent.worker = .destroying mkey) ∨ ent.cleaning = true

def keys (ent : CacheEnt) : List Nat :=
  ent.head ++ (ent.lent.map fst ++ (ent.worker.keys ++ (ent.dying ++ ent.destroyed)))

structure Sound (ent : CacheEnt) : Prop where
  available : ent.availableMrs = ent.head.length
  total : ent.totalMrs = ent.head.length + ent.lent.length
  pending : ent.pending = ent.issued + ent.adders + ent.worker.creations
  keys : ent.keys.Perm (range ent.nextMkey)
  orders : ∀ use ∈ ent.lent, use.2 ≤ ent.order
  stopped : ent.disabled = true → ent.cleaning = true ∨
    ent.worker = .idle ∧ ent.workQueued = false ∧ ent.dworkQueued = false
  cleans : ent.cleaning = true → ent.disabled = true

structure Inv (ent : CacheEnt) : Prop extends Sound ent where
  attended : 2 * ent.limit < ent.availableMrs → ent.Attended

variable {fillDelay : Bool} {ent next : CacheEnt}

theorem queueAdjust_eq (fillDelay : Bool) (ent : CacheEnt) :
    ∃ fill work dwork, ent.queueAdjustCacheLocked fillDelay =
        { ent with fillToHighWater := fill, workQueued := work, dworkQueued := dwork } ∧
      (ent.workQueued = true → work = true) ∧ (ent.dworkQueued = true → dwork = true) ∧
      work.toNat + dwork.toNat ≤ ent.workQueued.toNat + ent.dworkQueued.toNat + 1 ∧
      (ent.disabled = true → work = ent.workQueued ∧ dwork = ent.dworkQueued) ∧
      (ent.disabled = false → fillDelay = false → 2 * ent.limit < ent.availableMrs →
        work = true ∨ dwork = true) := by
  have more : ∀ flag : Bool, true.toNat ≤ flag.toNat + 1 := by decide
  unfold queueAdjustCacheLocked
  by_cases delayed : (ent.disabled || fillDelay) = true
  · refine ⟨ent.fillToHighWater, ent.workQueued, ent.dworkQueued, by rw [if_pos delayed], id, id,
      Nat.le_succ _, fun _ => ⟨rfl, rfl⟩, ?_⟩
    intro enabled noDelay
    rw [enabled, noDelay] at delayed
    cases delayed
  have enabled : ent.disabled = false := by
    cases isDisabled : ent.disabled with
    | false => rfl
    | true => exact absurd (by rw [isDisabled]; rfl) delayed
  have never {p : Prop} (isDisabled : ent.disabled = true) : p := by
    rw [enabled] at isDisabled
    cases isDisabled
  rw [if_neg delayed]
  split
  · refine ⟨true, true, ent.dworkQueued, rfl, fun _ => rfl, id, ?_, never, fun _ _ _ => .inl rfl⟩
    have := more ent.workQueued
    omega
  split
  · refine ⟨ent.fillToHighWater, true, ent.dworkQueued, rfl, fun _ => rfl, id, ?_, never,
      fun _ _ _ => .inl rfl⟩
    have := more ent.workQueued
    omega
  split
  · exact ⟨false, ent.workQueued, ent.dworkQueued, rfl, id, id, Nat.le_succ _, never,
      fun _ _ above => by omega⟩
  by_cases above : 2 * ent.limit < ent.availableMrs
  · rw [if_pos above]
    split
    · refine ⟨false, ent.workQueued, true, rfl, id, fun _ => rfl, ?_, never, fun _ _ _ => .inr rfl⟩
      have := more ent.dworkQueued
      omega
    · refine ⟨false, true, ent.dworkQueued, rfl, fun _ => rfl, id, ?_, never, fun _ _ _ => .inl rfl⟩
      have := more ent.workQueued
      omega
  · rw [if_neg above]
    exact ⟨ent.fillToHighWater, ent.workQueued, ent.dworkQueued, rfl, id, id,
      Nat.le_succ _, never, fun _ _ isAbove => absurd isAbove above⟩

theorem Sound.adjusted (sound : Sound ent)
    (noticed : ent.disabled = false ∧ fillDelay = false ∨ ent.availableMrs ≤ 2 * ent.limit ∨
      ent.Attended) : Inv (ent.queueAdjustCacheLocked fillDelay) := by
  obtain ⟨fill, work, dwork, same, keepsWork, keepsDwork, -, still, queues⟩ := queueAdjust_eq fillDelay ent
  rw [same]
  refine ⟨{ sound with stopped := ?_ }, ?_⟩
  · intro isDisabled
    obtain ⟨sameWork, sameDwork⟩ := still isDisabled
    rcases sound.stopped isDisabled with cleaning | ⟨idle, noWork, noDwork⟩
    · exact .inl cleaning
    · exact .inr ⟨idle, sameWork.trans noWork, sameDwork.trans noDwork⟩
  intro above
  rcases noticed with ⟨enabled, noDelay⟩ | below | attended
  · rcases queues enabled noDelay above with isWork | isDwork
    · exact .inl isWork
    · exact .inr (.inl isDwork)
  · exact absurd above (Nat.not_lt.mpr below)
  · rcases attended with isWork | isDwork | worker
    · exact .inl (keepsWork isWork)
    · exact .inr (.inl (keepsDwork isDwork))
    · exact .inr (.inr worker)

theorem keys_count (sound : Sound ent) (key) :
    ent.head.count key + ((ent.lent.map fst).count key + (ent.worker.keys.count key +
      (ent.dying.count key + ent.destroyed.count key))) = (range ent.nextMkey).count key := by
  rw [← sound.keys.count_eq key]
  simp [keys]

theorem Sound.keys_moved (sound : Sound ent) (sameNext : next.nextMkey = ent.nextMkey)
    (counts : ∀ key, next.head.count key + ((next.lent.map fst).count key +
        (next.worker.keys.count key + (next.dying.count key + next.destroyed.count key))) =
      ent.head.count key + ((ent.lent.map fst).count key + (ent.worker.keys.count key +
        (ent.dying.count key + ent.destroyed.count key)))) :
    next.keys.Perm (range next.nextMkey) := by
  refine perm_iff_count.mpr ?_
  intro key
  rw [sameNext, ← keys_count sound key, ← counts key]
  simp only [CacheEnt.keys, count_append]

theorem Sound.keys_added (sound : Sound ent) (oneMore : next.nextMkey = ent.nextMkey + 1)
    (counts : ∀ key, next.head.count key + ((next.lent.map fst).count key +
        (next.worker.keys.count key + (next.dying.count key + next.destroyed.count key))) =
      ent.head.count key + ((ent.lent.map fst).count key + (ent.worker.keys.count key +
        (ent.dying.count key + ent.destroyed.count key))) + [ent.nextMkey].count key) :
    next.keys.Perm (range next.nextMkey) := by
  refine perm_iff_count.mpr ?_
  intro key
  rw [oneMore, range_succ, count_append, ← keys_count sound key, ← counts key]
  simp only [CacheEnt.keys, count_append]

variable {use : Nat × Nat}

theorem count_lent (mem : use ∈ ent.lent) (key) : (ent.lent.map fst).count key =
      ((ent.lent.erase use).map fst).count key + [use.1].count key := by
  rw [((perm_cons_erase mem).map fst).count_eq key, map_cons]
  simp only [count_cons, count_nil]
  omega

theorem length_lent (mem : use ∈ ent.lent) : ent.lent.length = (ent.lent.erase use).length + 1 := by
  have positive := length_pos_of_mem mem
  rw [length_erase_of_mem mem]
  omega

variable (sound : Sound ent)

include sound

variable {rest : List Nat}

theorem Sound.lend {order mkey} (first : ent.head = mkey :: rest) (fits : order ≤ ent.order) :
    Sound (ent.lend order mkey rest) :=
  { sound with
    available := by
      have available := sound.available
      rw [first, length_cons] at available
      dsimp only [CacheEnt.lend]
      omega
    total := by
      have total := sound.total
      rw [first, length_cons] at total
      dsimp only [CacheEnt.lend]
      rw [length_cons]
      omega
    keys := by
      refine sound.keys_moved rfl ?_
      intro key
      dsimp only [CacheEnt.lend]
      rw [first, map_cons, count_cons, count_cons]
      dsimp only
      omega
    orders use member := by
      rcases mem_cons.mp member with rfl | old
      · exact fits
      · exact sound.orders use old }

theorem Sound.createCacheMr {order} (fits : order ≤ ent.order) : Sound (ent.createCacheMr order) :=
  { sound with
    total := by
      have total := sound.total
      dsimp only [CacheEnt.createCacheMr]
      rw [length_cons]
      omega
    keys := by
      refine sound.keys_added rfl ?_
      intro key
      dsimp only [CacheEnt.createCacheMr]
      rw [map_cons, count_cons, count_cons, count_nil]
      dsimp only
      omega
    orders use member := by
      rcases mem_cons.mp member with rfl | old
      · exact fits
      · exact sound.orders use old }

theorem Sound.giveBack (mem : use ∈ ent.lent) : Sound (ent.giveBack use) :=
  { sound with
    available := by
      dsimp only [CacheEnt.giveBack]
      rw [length_append, sound.available]
      rfl
    total := by
      have total := sound.total
      have fewer := length_lent mem
      dsimp only [CacheEnt.giveBack]
      rw [length_append, length_singleton]
      omega
    keys := by
      refine sound.keys_moved rfl ?_
      intro key
      have moved := count_lent mem key
      dsimp only [CacheEnt.giveBack]
      rw [count_append]
      omega
    orders other inLent := sound.orders other (mem_of_mem_erase inLent) }

theorem Sound.detach (mem : use ∈ ent.lent) : Sound (ent.detachMrFromCache use) :=
  { sound with
    total := by
      have total := sound.total
      have fewer := length_lent mem
      dsimp only [detachMrFromCache]
      omega
    keys := by
      refine sound.keys_moved rfl ?_
      intro key
      have moved := count_lent mem key
      dsimp only [detachMrFromCache]
      rw [count_append]
      omega
    orders other inLent := sound.orders other (mem_of_mem_erase inLent) }

variable {mkey : Nat}

theorem Sound.destroyMkey (mem : mkey ∈ ent.dying) :
    Sound { ent with dying := ent.dying.erase mkey, destroyed := ent.destroyed ++ [mkey] } :=
  { sound with
    keys := by
      refine sound.keys_moved rfl ?_
      intro key
      have moved := (perm_cons_erase mem).count_eq key
      rw [count_append]
      rw [count_cons] at moved
      simp only [count_cons, count_nil]
      omega }

theorem Sound.addMr : Sound ent.addMr :=
  { sound with
    available := by
      dsimp only [CacheEnt.addMr]
      rw [length_append, sound.available]
      rfl
    total := by
      have total := sound.total
      dsimp only [CacheEnt.addMr]
      rw [length_append, length_singleton]
      omega
    keys := by
      refine sound.keys_added rfl ?_
      intro key
      dsimp only [CacheEnt.addMr]
      rw [count_append]
      omega }

theorem Sound.release (releasing : ent.worker = .releasing) (first : ent.head = mkey :: rest) (dwork)
    (enabled : ent.disabled = false) :
    Sound { ent with
      dworkQueued := dwork
      head := rest
      availableMrs := ent.availableMrs - 1
      totalMrs := ent.totalMrs - 1
      worker := .destroying mkey } where
  available := by
    have available := sound.available
    rw [first, length_cons] at available
    dsimp only
    omega
  total := by
    have total := sound.total
    rw [first, length_cons] at total
    dsimp only
    omega
  pending := by
    have pending := sound.pending
    rw [releasing] at pending
    exact pending
  keys := by
    refine sound.keys_moved rfl ?_
    intro key
    rw [first, releasing]
    simp only [Worker.keys, count_cons, count_nil]
    omega
  orders := sound.orders
  stopped isDisabled := by
    rw [enabled] at isDisabled
    cases isDisabled
  cleans := sound.cleans

theorem Sound.destroyed (taken : ent.worker = .destroying mkey) :
    Sound { ent with worker := .idle, destroyed := ent.destroyed ++ [mkey] } :=
  { sound with
    pending := by
      have pending := sound.pending
      rw [taken] at pending
      exact pending
    keys := by
      refine sound.keys_moved rfl ?_
      intro key
      rw [taken, count_append]
      simp only [Worker.keys, count_nil]
      omega
    orders := sound.orders
    stopped isDisabled := by
      refine (sound.stopped isDisabled).imp id ?_
      rintro ⟨idle, -⟩
      rw [taken] at idle
      cases idle }

theorem Sound.cleanKey (first : ent.head = mkey :: rest) : Sound { ent with
      head := rest
      availableMrs := ent.availableMrs - 1
      totalMrs := ent.totalMrs - 1
      dying := ent.dying ++ [mkey] } :=
  { sound with
    available := by
      have available := sound.available
      rw [first, length_cons] at available
      dsimp only
      omega
    total := by
      have total := sound.total
      rw [first, length_cons] at total
      dsimp only
      omega
    keys := by
      refine sound.keys_moved rfl ?_
      intro key
      rw [first, count_append, count_cons]
      simp only [count_cons, count_nil]
      omega }

theorem Sound.of_same (head : next.head = ent.head)
    (available : next.availableMrs = ent.availableMrs) (total : next.totalMrs = ent.totalMrs)
    (lent : next.lent = ent.lent) (order : next.order = ent.order)
    (workerKeys : next.worker.keys = ent.worker.keys) (dying : next.dying = ent.dying)
    (destroyed : next.destroyed = ent.destroyed) (nextMkey : next.nextMkey = ent.nextMkey)
    (pending : next.pending = next.issued + next.adders + next.worker.creations)
    (stopped : next.disabled = true → next.cleaning = true ∨
      next.worker = .idle ∧ next.workQueued = false ∧ next.dworkQueued = false)
    (cleans : next.cleaning = true → next.disabled = true) : Sound next where
  available := by rw [available, head]; exact sound.available
  total := by rw [total, head, lent]; exact sound.total
  pending := pending
  keys := by
    rw [CacheEnt.keys, head, lent, workerKeys, dying, destroyed, nextMkey]
    exact sound.keys
  orders := by rw [lent, order]; exact sound.orders
  stopped := stopped
  cleans := cleans

omit sound

/-! ### One step -/

def Move.Fits (order : Nat) : Move → Prop
  | .getCacheMr asked => asked ≤ order
  | .createCacheMr asked => asked ≤ order
  | _ => True

/-- An entry with more than twice its limit, after a region came or the work destroyed one, is not hidden
from `queue_adjust_cache_locked`, or is attended to. -/
def Heeded (fillDelay : Bool) (ent : CacheEnt) : Move → Prop
  | .cacheFree _ invalidated =>
    invalidated = true → ent.disabled = false ∧ fillDelay = false ∨
      ent.availableMrs + 1 ≤ 2 * ent.limit ∨ ent.Attended
  | .callback created =>
    created = true → ent.disabled = false ∧ fillDelay = false ∨
      ent.availableMrs + 1 ≤ 2 * ent.limit ∨ ent.Attended
  | .workDestroy =>
    ent.disabled = false ∧ fillDelay = false ∨ ent.availableMrs ≤ 2 * ent.limit ∨
      ent.workQueued = true ∨ ent.dworkQueued = true ∨ ent.cleaning = true
  | _ => True

theorem Inv.noticed (inv : Inv ent) :
    ent.disabled = false ∧ fillDelay = false ∨ ent.availableMrs ≤ 2 * ent.limit ∨ ent.Attended := by
  by_cases above : 2 * ent.limit < ent.availableMrs
  · exact .inr (.inr (inv.attended above))
  · exact .inr (.inl (Nat.le_of_not_lt above))

theorem Inv.lend (inv : Inv ent) {order mkey}
    (first : ent.head = mkey :: rest) (fits : order ≤ ent.order) :
    Inv ((ent.lend order mkey rest).queueAdjustCacheLocked fillDelay) := by
  refine (inv.toSound.lend first fits).adjusted ?_
  rcases @Inv.noticed fillDelay ent inv with awake | below | attended
  · exact .inl awake
  · exact .inr (.inl (le_trans (Nat.sub_le _ 1) below))
  · exact .inr (.inr attended)

theorem Sound.cleaning_of_worker (sound : Sound ent) (busy : ent.worker ≠ .idle)
    (isDisabled : ent.disabled = true) : ent.cleaning = true := by
  rcases sound.stopped isDisabled with cleaning | ⟨idle, -⟩
  · exact cleaning
  · exact absurd idle busy

theorem Sound.cleaning_of_queued (sound : Sound ent) (queued : ent.workQueued = true ∨ ent.dworkQueued = true)
    (isDisabled : ent.disabled = true) : ent.cleaning = true := by
  rcases sound.stopped isDisabled with cleaning | ⟨-, noWork, noDwork⟩
  · exact cleaning
  · rcases queued with work | dwork
    · rw [noWork] at work
      cases work
    · rw [noDwork] at dwork
      cases dwork

theorem Inv.cacheWorkFunc (inv : Inv ent) (idle : ent.worker = .idle)
    (queued : ent.workQueued = true ∨ ent.dworkQueued = true) (work dwork) :
    Inv (({ ent with workQueued := work, dworkQueued := dwork } : CacheEnt).cacheWorkFunc fillDelay) := by
  have pending := inv.pending
  rw [idle] at pending
  have cleaning := inv.toSound.cleaning_of_queued queued
  have noKeys : ent.worker.keys = [] := by rw [idle]; rfl
  unfold CacheEnt.cacheWorkFunc
  dsimp only
  by_cases isDisabled : ent.disabled = true
  · rw [if_pos isDisabled]
    refine ⟨inv.toSound.of_same rfl rfl rfl rfl rfl rfl rfl rfl rfl inv.pending
      (fun disabled => .inl (cleaning disabled)) inv.cleans, ?_⟩
    intro _above
    exact .inr (.inr (.inr (.inr (cleaning isDisabled))))
  rw [if_neg isDisabled]
  by_cases filling : (ent.fillToHighWater &&
      decide (ent.availableMrs + ent.pending < 2 * ent.limit) && !fillDelay) = true
  · rw [if_pos filling]
    refine ⟨inv.toSound.of_same rfl rfl rfl rfl rfl noKeys.symm rfl rfl rfl pending
      (fun disabled => .inl (cleaning disabled)) inv.cleans, ?_⟩
    intro above
    have room : ent.availableMrs + ent.pending < 2 * ent.limit := by
      rw [Bool.and_eq_true, Bool.and_eq_true] at filling
      exact of_decide_eq_true filling.1.2
    dsimp only at above
    omega
  · rw [if_neg filling]
    split_ifs with above
    · exact ⟨inv.toSound.of_same rfl rfl rfl rfl rfl noKeys.symm rfl rfl rfl pending
        (fun disabled => .inl (cleaning disabled)) inv.cleans, fun _ => .inr (.inr (.inl rfl))⟩
    · exact ⟨inv.toSound.of_same rfl rfl rfl rfl rfl rfl rfl rfl rfl inv.pending
        (fun disabled => .inl (cleaning disabled)) inv.cleans, fun isAbove => absurd isAbove above⟩

theorem Inv.releaseLocked (inv : Inv ent) (releasing : ent.worker = .releasing) (delay) :
    Inv (ent.releaseLocked fillDelay delay) := by
  have pending := inv.pending
  rw [releasing] at pending
  have noKeys : ent.worker.keys = [] := by rw [releasing]; rfl
  have busy : ent.worker ≠ .idle := by
    rw [releasing]
    nofun
  unfold CacheEnt.releaseLocked
  by_cases isDisabled : ent.disabled = true
  · have cleaning := inv.toSound.cleaning_of_worker busy isDisabled
    rw [if_pos isDisabled]
    exact ⟨inv.toSound.of_same rfl rfl rfl rfl rfl noKeys.symm rfl rfl rfl pending
      (fun _ => .inl cleaning) inv.cleans,
      fun _ => .inr (.inr (.inr (.inr cleaning)))⟩
  rw [if_neg isDisabled]
  have enabled : ent.disabled = false := eq_false_of_ne_true isDisabled
  have sameDwork : (if delay then { ent with dworkQueued := true } else ent) =
      { ent with dworkQueued := delay || ent.dworkQueued } := by
    cases delay with
    | false => rfl
    | true => rfl
  rw [sameDwork]
  cases first : ent.head with
  | nil =>
    have available := inv.available
    rw [first] at available
    refine Sound.adjusted ?_ (.inr (.inl ?_))
    · exact inv.toSound.of_same first.symm rfl rfl rfl rfl noKeys.symm rfl rfl rfl pending
        (fun disabled => absurd disabled isDisabled) inv.cleans
    · exact available ▸ Nat.zero_le _
  | cons mkey rest =>
    exact ⟨inv.toSound.release releasing first _ enabled, fun _ => .inr (.inr (.inr (.inl ⟨mkey, rfl⟩)))⟩

theorem Inv.fills (inv : Inv ent) (fills : ent.worker.fills = true) {worker pending issued}
    {dwork} (noKeys : worker.keys = []) (counts : pending = issued + ent.adders + worker.creations)
    (keepsDwork : ent.dworkQueued = true → dwork = true) :
    Inv { ent with
      pending := pending
      issued := issued
      worker := worker
      dworkQueued := dwork } := by
  have busy : ent.worker ≠ .idle ∧ ent.worker.keys = [] ∧ ent.worker ≠ .releasing ∧
      ¬ ∃ mkey, ent.worker = .destroying mkey := by
    cases isWorker : ent.worker with
    | idle => rw [isWorker] at fills; cases fills
    | releasing => rw [isWorker] at fills; cases fills
    | destroying mkey => rw [isWorker] at fills; cases fills
    | _ => simp [Worker.keys]
  obtain ⟨notIdle, oldKeys, notReleasing, notDestroying⟩ := busy
  refine ⟨inv.toSound.of_same rfl rfl rfl rfl rfl (noKeys.trans oldKeys.symm) rfl rfl rfl counts
    (fun isDisabled => .inl (inv.toSound.cleaning_of_worker notIdle isDisabled)) inv.cleans, ?_⟩
  intro above
  rcases inv.attended above with work | isDwork | releasing | destroying | cleaning
  · exact .inl work
  · exact .inr (.inl (keepsDwork isDwork))
  · exact absurd releasing notReleasing
  · exact absurd destroying notDestroying
  · exact .inr (.inr (.inr (.inr cleaning)))

theorem Inv.createMkeyCallback (inv : Inv ent) (issued : ent.issued ≠ 0) {made}
    (heeded : Heeded fillDelay ent (.callback made)) :
    Inv (ent.createMkeyCallback fillDelay made) := by
  have fewer : ∀ {other : CacheEnt}, Inv other → other.pending = ent.pending → other.issued = ent.issued →
      Inv { other with pending := other.pending - 1, issued := other.issued - 1 } := by
    intro other otherInv _samePending sameIssued
    refine ⟨otherInv.toSound.of_same rfl rfl rfl rfl rfl rfl rfl rfl rfl ?_ otherInv.stopped
      otherInv.cleans, otherInv.attended⟩
    have pending := otherInv.pending
    dsimp only
    omega
  unfold CacheEnt.createMkeyCallback
  cases made with
  | false => exact fewer inv rfl rfl
  | true =>
    have added : Inv (ent.addMr.queueAdjustCacheLocked fillDelay) := inv.toSound.addMr.adjusted (heeded rfl)
    obtain ⟨fill, work, dwork, same, -⟩ := queueAdjust_eq fillDelay ent.addMr
    rw [if_pos rfl]
    rw [same] at added ⊢
    exact fewer added rfl rfl

theorem work_cases {delayed} (moved : ent.step fillDelay (.work delayed) = some next) :
    ent.worker = .idle ∧ (ent.workQueued = true ∨ ent.dworkQueued = true) ∧
      ∃ work dwork : Bool, work.toNat + dwork.toNat < ent.workQueued.toNat + ent.dworkQueued.toNat ∧
        next = ({ ent with workQueued := work, dworkQueued := dwork } : CacheEnt).cacheWorkFunc
          fillDelay := by
  cases delayed with
  | false =>
    simp only [step, Bool.false_eq_true, if_false] at moved
    split at moved
    case isTrue => cases moved
    case isFalse ready =>
      rw [Bool.or_eq_true, not_or, decide_eq_true_iff, decide_eq_true_iff, not_not, Bool.not_eq_false] at ready
      cases moved
      refine ⟨ready.1, .inl ready.2, false, ent.dworkQueued, ?_, rfl⟩
      rw [ready.2]
      exact Nat.add_lt_add_right Nat.zero_lt_one _
  | true =>
    simp only [step, if_true] at moved
    split at moved
    case isTrue => cases moved
    case isFalse ready =>
      rw [Bool.or_eq_true, not_or, decide_eq_true_iff, decide_eq_true_iff, not_not, Bool.not_eq_false] at ready
      cases moved
      refine ⟨ready.1, .inr ready.2, ent.workQueued, false, ?_, rfl⟩
      rw [ready.2]
      exact Nat.lt_succ_self _

theorem cleanable_of (ready : (ent.cleaning && decide (ent.worker = .idle) && !ent.workQueued &&
      !ent.dworkQueued && decide (ent.issued = 0) && decide (ent.adders = 0)) = true) :
    ent.cleaning = true ∧ ent.worker = .idle ∧ ent.workQueued = false ∧ ent.dworkQueued = false ∧
      ent.issued = 0 ∧ ent.adders = 0 := by
  simp only [Bool.and_eq_true, Bool.not_eq_true', decide_eq_true_iff] at ready
  obtain ⟨⟨⟨⟨⟨cleaning, idle⟩, work⟩, dwork⟩, issued⟩, adders⟩ := ready
  exact ⟨cleaning, idle, work, dwork, issued, adders⟩

variable (inv : Inv ent)

include inv

theorem Inv.addKey (moved : ent.step fillDelay .addKey = some next) : Inv next := by
  have pending := inv.pending
  dsimp only [CacheEnt.step] at moved
  split at moved
  case isTrue room =>
    cases moved
    refine ⟨inv.toSound.of_same rfl rfl rfl rfl rfl rfl rfl rfl rfl ?_ inv.stopped inv.cleans, inv.attended⟩
    dsimp only
    omega
  case isFalse =>
    cases moved
    exact inv

theorem Inv.workAdd {given} (moved : ent.step fillDelay (.workAdd given) = some next) : Inv next := by
  have pending := inv.pending
  obtain ⟨notAdding, moved⟩ := ite_none_left_eq_some.mp moved
  have adding := not_not.mp notAdding
  have fills : ent.worker.fills = true := by rw [adding]; rfl
  rw [adding] at pending
  split at moved
  case isTrue =>
    cases moved
    exact inv.fills fills rfl pending id
  case isFalse =>
    split at moved
    case isTrue =>
      cases moved
      exact inv.fills fills rfl (congrArg (· + 1) pending) id
    case isFalse =>
      cases moved
      exact inv.fills fills rfl pending id

theorem Inv.workIssue {issued} (moved : ent.step fillDelay (.workIssue issued) = some next) : Inv next := by
  have pending := inv.pending
  obtain ⟨notIssuing, moved⟩ := ite_none_left_eq_some.mp moved
  have issuing := not_not.mp notIssuing
  have fills : ent.worker.fills = true := by rw [issuing]; rfl
  rw [issuing] at pending
  cases issued with
  | false =>
    cases moved
    exact inv.fills fills rfl pending id
  | true =>
    cases moved
    refine inv.fills fills rfl ?_ id
    dsimp only [Worker.creations] at pending ⊢
    omega

theorem Inv.workIssueFailed (moved : ent.step fillDelay .workIssueFailed = some next) : Inv next := by
  have pending := inv.pending
  obtain ⟨notFailed, moved⟩ := ite_none_left_eq_some.mp moved
  have failed := not_not.mp notFailed
  have fills : ent.worker.fills = true := by rw [failed]; rfl
  rw [failed] at pending
  cases moved
  refine inv.fills fills rfl ?_ id
  dsimp only [Worker.creations] at pending ⊢
  omega

theorem Inv.workAdded (moved : ent.step fillDelay .workAdded = some next) : Inv next := by
  have pending := inv.pending
  dsimp only [CacheEnt.step] at moved
  split at moved
  case h_1 again added =>
    have fills : ent.worker.fills = true := by rw [added]; rfl
    rw [added] at pending
    cases moved
    refine inv.fills fills rfl pending ?_
    intro queued
    rw [queued]
    rfl
  case h_2 => cases moved

theorem Inv.workDestroy (heeded : Heeded fillDelay ent .workDestroy)
    (moved : ent.step fillDelay .workDestroy = some next) : Inv next := by
  dsimp only [CacheEnt.step] at moved
  split at moved
  case h_1 mkey taken =>
    cases moved
    refine (inv.toSound.destroyed taken).adjusted ?_
    rcases heeded with awake | below | work | dwork | cleaning
    · exact .inl awake
    · exact .inr (.inl below)
    · exact .inr (.inr (.inl work))
    · exact .inr (.inr (.inr (.inl dwork)))
    · exact .inr (.inr (.inr (.inr (.inr (.inr cleaning)))))
  case h_2 => cases moved

theorem Inv.disable (moved : ent.step fillDelay .disable = some next) : Inv next := by
  obtain ⟨-, moved⟩ := ite_none_left_eq_some.mp moved
  cases moved
  exact ⟨inv.toSound.of_same rfl rfl rfl rfl rfl rfl rfl rfl rfl inv.pending
    (fun _ => .inl rfl) (fun _ => rfl), fun _ => .inr (.inr (.inr (.inr rfl)))⟩

theorem Inv.cancelWork (moved : ent.step fillDelay .cancelWork = some next) : Inv next := by
  obtain ⟨ready, moved⟩ := ite_none_right_eq_some.mp moved
  rw [Bool.and_eq_true, Bool.and_eq_true] at ready
  have cleaning := ready.1.1
  cases moved
  exact ⟨inv.toSound.of_same rfl rfl rfl rfl rfl rfl rfl rfl rfl inv.pending (fun _ => .inl cleaning) inv.cleans,
    fun _ => .inr (.inr (.inr (.inr cleaning)))⟩

theorem Inv.cleanKey (moved : ent.step fillDelay .cleanKey = some next) : Inv next := by
  obtain ⟨ready, moved⟩ := ite_none_right_eq_some.mp moved
  obtain ⟨cleaning, idle, noWork, noDwork, -, -⟩ := cleanable_of ready
  split at moved
  case h_1 empty =>
    have available := inv.available
    rw [empty] at available
    cases moved
    refine ⟨inv.toSound.of_same rfl rfl rfl rfl rfl rfl rfl rfl rfl inv.pending
      (fun _ => .inr ⟨idle, noWork, noDwork⟩) nofun, ?_⟩
    intro above
    rw [available] at above
    exact absurd above (Nat.not_lt_zero _)
  case h_2 mkey rest first =>
    cases moved
    exact ⟨inv.toSound.cleanKey first, fun _ => .inr (.inr (.inr (.inr cleaning)))⟩

theorem Inv.step {move} (heeded : Heeded fillDelay ent move)
    (fits : move.Fits ent.order) (moved : ent.step fillDelay move = some next) : Inv next := by
  cases move with
  | cacheAlloc =>
    cases moved
    unfold mlx5MrCacheAlloc
    cases first : ent.head with
    | nil => exact inv
    | cons mkey rest => exact inv.lend first le_rfl
  | getCacheMr order =>
    cases moved
    unfold CacheEnt.getCacheMr
    cases first : ent.head with
    | nil => exact inv.toSound.adjusted inv.noticed
    | cons mkey rest => exact inv.lend first fits
  | createCacheMr order =>
    cases moved
    exact ⟨inv.toSound.createCacheMr fits, inv.attended⟩
  | cacheFree use invalidated =>
    obtain ⟨mem, moved⟩ := ite_none_right_eq_some.mp moved
    cases moved
    cases invalidated with
    | false => exact ⟨inv.toSound.detach mem, inv.attended⟩
    | true => exact (inv.toSound.giveBack mem).adjusted (heeded rfl)
  | destroyMkey mkey =>
    obtain ⟨mem, moved⟩ := ite_none_right_eq_some.mp moved
    cases moved
    exact ⟨inv.toSound.destroyMkey mem, inv.attended⟩
  | addKey => exact inv.addKey moved
  | addIssue | addIssueFailed =>
    obtain ⟨adders, moved⟩ := ite_none_left_eq_some.mp moved
    cases moved
    have pending := inv.pending
    refine ⟨inv.toSound.of_same rfl rfl rfl rfl rfl rfl rfl rfl rfl ?_ inv.stopped inv.cleans, inv.attended⟩
    dsimp only
    omega
  | callback made =>
    obtain ⟨issued, moved⟩ := ite_none_left_eq_some.mp moved
    cases moved
    exact inv.createMkeyCallback issued heeded
  | work delayed =>
    obtain ⟨idle, queued, work, dwork, -, rfl⟩ := work_cases moved
    exact inv.cacheWorkFunc idle queued work dwork
  | workAdd given => exact inv.workAdd moved
  | workIssue issued => exact inv.workIssue moved
  | workIssueFailed => exact inv.workIssueFailed moved
  | workAdded => exact inv.workAdded moved
  | workRelease delay =>
    obtain ⟨notReleasing, moved⟩ := ite_none_left_eq_some.mp moved
    cases moved
    exact inv.releaseLocked (not_not.mp notReleasing) delay
  | workDestroy => exact inv.workDestroy heeded moved
  | disable => exact inv.disable moved
  | cancelWork => exact inv.cancelWork moved
  | cleanKey => exact inv.cleanKey moved

end CacheEnt

end MlnxOfed.Mr
