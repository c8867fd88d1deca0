/-
The region cache comes to rest: each step of the work, the device and the cleanup lowers the effort left for
an entry, where creations do not fail and nothing is lent or returned; without such a step an entry has at
most twice its limit.
-/

import MlnxOfed.Mr.MrCacheRuns
import Mathlib.Algebra.Order.BigOperators.Group.Finset

namespace MlnxOfed.Mr

open Bool Option List Function CacheEnt Worker MrCache

def Worker.reserve : Worker → Nat
  | .adding => 1
  | _ => 0

def Worker.spare : Worker → Nat
  | .releasing => 1
  | _ => 0

def Worker.debt (available : Nat) : Worker → Nat
  | .issueFailed => 1
  | .added again => again.toNat
  | .releasing => if available = 0 then 4 else 2
  | .destroying _ => 1
  | _ => 0

def Worker.rank : Worker → Nat
  | .idle => 0
  | .adding => 3
  | .issuing => 2
  | .issueFailed => 2
  | .added _ => 1
  | .releasing => 2
  | .destroying _ => 1

namespace CacheEnt

variable {fillDelay : Bool} {ent next : CacheEnt}

/-- The regions of the entry when creations are reported and the work is over. -/
def due (ent : CacheEnt) : Nat :=
  (ent.availableMrs - ent.worker.spare) + ent.pending + ent.worker.reserve

/-- How far the entry is from twice its limit, with creations and queued work. -/
def unrest (ent : CacheEnt) : Nat :=
  2 * (2 * ent.limit - ent.due) + 2 * (ent.due - 2 * ent.limit) +
    2 * (ent.pending + ent.worker.reserve) + (ent.workQueued.toNat + ent.dworkQueued.toNat) +
    ent.worker.debt ent.availableMrs

def cleanup (ent : CacheEnt) : Nat :=
  if ent.cleaning then 1 + 24 * (ent.availableMrs + ent.pending + ent.worker.reserve) else 0

def effort (ent : CacheEnt) : Nat :=
  8 * ent.unrest + ent.worker.rank + ent.adders + ent.dying.length + ent.cleanup

/-- Steps that go on by themselves: work, device and cleanup, but no failing creation. -/
def Move.quiet : Move → Bool
  | .destroyMkey _ => true
  | .addIssue => true
  | .callback created => created
  | .work _ => true
  | .workAdd allocated => allocated
  | .workIssue issued => issued
  | .workIssueFailed => true
  | .workAdded => true
  | .workRelease _ => true
  | .workDestroy => true
  | .cancelWork => true
  | .cleanKey => true
  | _ => false

/-! ### Each step lowers it -/

theorem effort_adjusted (fillDelay : Bool) (ent : CacheEnt) :
    (ent.queueAdjustCacheLocked fillDelay).effort ≤ ent.effort + 8 := by
  obtain ⟨fill, work, dwork, same, -, -, queued, -⟩ := queueAdjust_eq fillDelay ent
  rw [same]
  dsimp only [effort, unrest, due, cleanup]
  omega

theorem effort_lt_of (cleaning : next.cleaning = ent.cleaning)
    (fewer : next.availableMrs + next.pending + next.worker.reserve ≤
      ent.availableMrs + ent.pending + ent.worker.reserve)
    (lower : 8 * next.unrest + next.worker.rank + next.adders + next.dying.length <
      8 * ent.unrest + ent.worker.rank + ent.adders + ent.dying.length) :
    next.effort < ent.effort := by
  have cleanup : next.cleanup ≤ ent.cleanup := by
    unfold cleanup
    rw [cleaning]
    split
    · omega
    · exact le_rfl
  unfold effort
  omega

private theorem effort_callback (pending : ent.pending ≠ 0) :
    (ent.createMkeyCallback fillDelay true).effort < ent.effort := by
  obtain ⟨fill, work, dwork, same, -, -, queued, -⟩ := queueAdjust_eq fillDelay ent.addMr
  unfold createMkeyCallback
  rw [if_pos rfl, same]
  dsimp only [addMr] at queued ⊢
  refine effort_lt_of rfl ?_ ?_
  · dsimp only
    omega
  dsimp only [unrest, due]
  cases ent.worker with
  | releasing =>
    dsimp only [spare, reserve, debt, rank]
    rw [if_neg (Nat.succ_ne_zero _)]
    split
    · omega
    · omega
  | _ =>
    dsimp only [spare, reserve, debt, rank]
    omega

private theorem effort_work (inv : Inv ent) (idle : ent.worker = .idle) {work dwork}
    (fewer : work.toNat + dwork.toNat < ent.workQueued.toNat + ent.dworkQueued.toNat) :
    (({ ent with workQueued := work, dworkQueued := dwork } : CacheEnt).cacheWorkFunc
      fillDelay).effort < ent.effort := by
  unfold cacheWorkFunc
  dsimp only
  have still : ({ ent with workQueued := work, dworkQueued := dwork } : CacheEnt).effort < ent.effort := by
    dsimp only [effort, unrest, due, cleanup]
    omega
  by_cases isDisabled : ent.disabled = true
  · rw [if_pos isDisabled]
    exact still
  rw [if_neg isDisabled]
  have noCleanup : ent.cleaning = false :=
    eq_false_of_ne_true fun cleaning => isDisabled (inv.cleans cleaning)
  split
  case isTrue filling =>
    have room : ent.availableMrs + ent.pending < 2 * ent.limit := by
      rw [and_eq_true, and_eq_true] at filling
      exact of_decide_eq_true filling.1.2
    dsimp only [effort, unrest, due, cleanup]
    rw [idle, noCleanup]
    dsimp only [spare, reserve, debt, rank]
    rw [if_neg Bool.false_ne_true, if_neg Bool.false_ne_true]
    omega
  case isFalse =>
    split
    case isTrue above =>
      dsimp only [effort, unrest, due, cleanup]
      rw [idle, noCleanup]
      dsimp only [spare, reserve, debt, rank]
      rw [if_neg Bool.false_ne_true, if_neg (by omega)]
      omega
    case isFalse => exact still

private theorem effort_release (inv : Inv ent) (releasing : ent.worker = .releasing) (delay) :
    (ent.releaseLocked fillDelay delay).effort < ent.effort := by
  have available := inv.available
  unfold releaseLocked
  by_cases isDisabled : ent.disabled = true
  · rw [if_pos isDisabled]
    dsimp only [effort, unrest, due, cleanup]
    rw [releasing]
    dsimp only [spare, reserve, debt, rank]
    by_cases empty : ent.availableMrs = 0
    · rw [if_pos empty]
      omega
    · rw [if_neg empty]
      omega
  rw [if_neg isDisabled]
  have noCleanup : ent.cleaning = false :=
    eq_false_of_ne_true fun cleaning => isDisabled (inv.cleans cleaning)
  have sameDwork : (if delay then { ent with dworkQueued := true } else ent) =
      { ent with dworkQueued := delay || ent.dworkQueued } := by
    cases delay with
    | false => rfl
    | true => rfl
  have oneMore : (delay || ent.dworkQueued).toNat ≤ ent.dworkQueued.toNat + 1 :=
    le_trans (toNat_le _) (Nat.le_add_left 1 _)
  rw [sameDwork]
  dsimp only
  cases first : ent.head with
  | nil =>
    rw [first, length_nil] at available
    refine lt_of_le_of_lt (effort_adjusted fillDelay _) ?_
    dsimp only [effort, unrest, due, cleanup]
    rw [releasing, noCleanup, available]
    dsimp only [spare, reserve, debt, rank]
    rw [if_neg Bool.false_ne_true, if_pos rfl]
    omega
  | cons mkey rest =>
    rw [first, length_cons] at available
    dsimp only [effort, unrest, due, cleanup]
    rw [releasing, noCleanup]
    dsimp only [spare, reserve, debt, rank]
    rw [if_neg Bool.false_ne_true, if_neg (by omega)]
    omega

private theorem effort_lt (inv : Inv ent) {move} (quiet : move.quiet = true)
    (moved : ent.step fillDelay move = some next) : next.effort < ent.effort := by
  have pending := inv.pending
  cases move with
  | destroyMkey mkey =>
    obtain ⟨mem, moved⟩ := ite_none_right_eq_some.mp moved
    cases moved
    have positive := length_pos_of_mem mem
    dsimp only [effort, unrest, due, cleanup]
    rw [length_erase_of_mem mem]
    omega
  | addIssue =>
    obtain ⟨adders, moved⟩ := ite_none_left_eq_some.mp moved
    cases moved
    dsimp only [effort, unrest, due, cleanup]
    omega
  | callback made =>
    obtain ⟨issued, moved⟩ := ite_none_left_eq_some.mp moved
    cases moved
    cases quiet
    exact effort_callback (by omega)
  | work delayed =>
    obtain ⟨idle, -, work, dwork, fewer, rfl⟩ := work_cases moved
    exact effort_work inv idle fewer
  | workAdd given =>
    obtain ⟨notAdding, moved⟩ := ite_none_left_eq_some.mp moved
    have adding := not_not.mp notAdding
    cases quiet
    rw [if_neg Bool.noConfusion] at moved
    split at moved
    case isTrue =>
      cases moved
      refine effort_lt_of rfl ?_ ?_
      · dsimp only
        rw [adding]
        dsimp only [reserve]
        omega
      · dsimp only [unrest, due]
        rw [adding]
        dsimp only [spare, reserve, debt, rank]
        omega
    case isFalse =>
      cases moved
      refine effort_lt_of rfl ?_ ?_
      · dsimp only
        rw [adding]
        exact Nat.add_le_add_left (Nat.zero_le 1) _
      · dsimp only [unrest, due]
        rw [adding]
        dsimp only [spare, reserve, debt, rank, Bool.toNat_false]
        omega
  | workIssue issued =>
    obtain ⟨notIssuing, moved⟩ := ite_none_left_eq_some.mp moved
    cases quiet
    cases moved
    dsimp only [effort, unrest, due, cleanup]
    rw [not_not.mp notIssuing]
    dsimp only [spare, reserve, debt, rank, Bool.toNat_false]
    omega
  | workIssueFailed =>
    obtain ⟨notFailed, moved⟩ := ite_none_left_eq_some.mp moved
    have failed := not_not.mp notFailed
    rw [failed] at pending
    dsimp only [creations] at pending
    cases moved
    refine effort_lt_of rfl ?_ ?_
    · dsimp only
      rw [failed]
      dsimp only [reserve]
      omega
    · dsimp only [unrest, due]
      rw [failed]
      dsimp only [spare, reserve, debt, rank, Bool.toNat_true]
      omega
  | workAdded =>
    dsimp only [step] at moved
    split at moved
    case h_1 again added =>
      have oneMore : (ent.dworkQueued || (again && !ent.disabled)).toNat ≤
          ent.dworkQueued.toNat + again.toNat := by
        cases ent.dworkQueued <;> cases again <;> cases ent.disabled <;> decide
      cases moved
      dsimp only [effort, unrest, due, cleanup]
      rw [added]
      dsimp only [spare, reserve, debt, rank]
      omega
    case h_2 => cases moved
  | workRelease delay =>
    obtain ⟨notReleasing, moved⟩ := ite_none_left_eq_some.mp moved
    cases moved
    exact effort_release inv (not_not.mp notReleasing) delay
  | workDestroy =>
    dsimp only [step] at moved
    split at moved
    case h_1 mkey taken =>
      cases moved
      refine lt_of_le_of_lt (effort_adjusted fillDelay _) ?_
      dsimp only [effort, unrest, due, cleanup]
      rw [taken]
      dsimp only [spare, reserve, debt, rank]
      omega
    case h_2 => cases moved
  | cancelWork =>
    obtain ⟨ready, moved⟩ := ite_none_right_eq_some.mp moved
    rw [Bool.and_eq_true, Bool.or_eq_true] at ready
    have queued : 0 < ent.workQueued.toNat + ent.dworkQueued.toNat := by
      rcases ready.2 with work | dwork
      · rw [work]
        exact Nat.add_pos_left Nat.zero_lt_one _
      · rw [dwork]
        exact Nat.succ_pos _
    cases moved
    dsimp only [effort, unrest, due, cleanup, Bool.toNat_false]
    omega
  | cleanKey =>
    obtain ⟨ready, moved⟩ := ite_none_right_eq_some.mp moved
    obtain ⟨cleaning, idle, -⟩ := cleanable_of ready
    have available := inv.available
    split at moved
    case h_1 empty =>
      cases moved
      dsimp only [effort, unrest, due, cleanup]
      rw [cleaning, if_neg Bool.false_ne_true, if_pos rfl]
      omega
    case h_2 mkey rest first =>
      rw [first, length_cons] at available
      cases moved
      dsimp only [effort, unrest, due, cleanup]
      rw [cleaning, idle, if_pos rfl, if_pos rfl, length_append, length_singleton]
      dsimp only [spare, reserve, debt, rank]
      omega
  | _ => cases quiet

/-! ### An entry at rest -/

def Still (ent : CacheEnt) : Prop :=
  ent.worker = .idle ∧ ent.workQueued = false ∧ ent.dworkQueued = false ∧ ent.issued = 0 ∧
    ent.adders = 0 ∧ ent.dying = [] ∧ ent.cleaning = false

instance (ent : CacheEnt) : Decidable ent.Still :=
  inferInstanceAs (Decidable (_ ∧ _))

private theorem still_of_stuck (stuck : ∀ move : Move, move.quiet = true → ent.step fillDelay move = none) :
    ent.Still := by
  have idle : ent.worker = .idle := by
    cases isWorker : ent.worker with
    | idle => rfl
    | adding =>
      have more := stuck (.workAdd true) rfl
      by_cases room : ent.pending < maxPendingRegMr
      · simp [step, isWorker, room] at more
      · simp [step, isWorker, room] at more
    | issuing =>
      have more := stuck (.workIssue true) rfl
      simp [step, isWorker] at more
    | issueFailed =>
      have more := stuck .workIssueFailed rfl
      simp [step, isWorker] at more
    | added again =>
      have more := stuck .workAdded rfl
      simp [step, isWorker] at more
    | releasing =>
      have more := stuck (.workRelease false) rfl
      simp [step, isWorker] at more
    | destroying mkey =>
      have more := stuck .workDestroy rfl
      simp [step, isWorker] at more
  have work : ent.workQueued = false := by
    have more := stuck (.work false) rfl
    simpa [step, idle] using more
  have dwork : ent.dworkQueued = false := by
    have more := stuck (.work true) rfl
    simpa [step, idle] using more
  have issued : ent.issued = 0 := by
    have more := stuck (.callback true) rfl
    simpa [step] using more
  have adders : ent.adders = 0 := by
    have more := stuck .addIssue rfl
    simpa [step] using more
  have dying : ent.dying = [] := by
    cases isDying : ent.dying with
    | nil => rfl
    | cons mkey rest =>
      have more := stuck (.destroyMkey mkey) rfl
      simp [step, isDying] at more
  refine ⟨idle, work, dwork, issued, adders, dying, ?_⟩
  cases cleaning : ent.cleaning with
  | false => rfl
  | true =>
    have more := stuck .cleanKey rfl
    simp only [step, cleaning, idle, work, dwork, issued, adders] at more
    simp at more
    split at more
    all_goals cases more

theorem Still.stuck (still : ent.Still) {move} (quiet : move.quiet = true) :
    ent.step fillDelay move = none := by
  obtain ⟨idle, work, dwork, issued, adders, dying, cleaning⟩ := still
  cases move with
  | work delayed =>
    cases delayed with
    | false => simp [step, idle, work]
    | true => simp [step, idle, dwork]
  | destroyMkey mkey => simp [step, dying]
  | addIssue => simp [step, adders]
  | callback made => simp [step, issued]
  | workAdd given => simp [step, idle]
  | workIssue issued => simp [step, idle]
  | workIssueFailed => simp [step, idle]
  | workAdded => simp [step, idle]
  | workRelease delay => simp [step, idle]
  | workDestroy => simp [step, idle]
  | cancelWork => simp [step, cleaning]
  | cleanKey => simp [step, cleaning]
  | _ => cases quiet

theorem Inv.settled (inv : Inv ent) (still : ent.Still) : ent.availableMrs ≤ 2 * ent.limit := by
  obtain ⟨idle, work, dwork, -, -, -, cleaning⟩ := still
  refine Nat.le_of_not_lt ?_
  intro above
  have attended := inv.attended above
  unfold Attended at attended
  rw [idle, work, dwork, cleaning] at attended
  simp at attended

theorem queueAdjust_order (fillDelay : Bool) (ent : CacheEnt) :
    (ent.queueAdjustCacheLocked fillDelay).order = ent.order := by
  obtain ⟨fill, work, dwork, same, -⟩ := queueAdjust_eq fillDelay ent
  rw [same]

theorem step_order {move} (moved : ent.step fillDelay move = some next) : next.order = ent.order := by
  cases move with
  | cacheAlloc =>
    cases moved
    unfold mlx5MrCacheAlloc
    split
    · rfl
    · rw [queueAdjust_order]
      rfl
  | getCacheMr order =>
    cases moved
    unfold getCacheMr
    split
    · exact queueAdjust_order fillDelay ent
    · rw [queueAdjust_order]
      rfl
  | createCacheMr order =>
    cases moved
    rfl
  | cacheFree use invalidated =>
    dsimp only [step] at moved
    split at moved
    · cases moved
      cases invalidated with
      | false => rfl
      | true => exact queueAdjust_order fillDelay _
    · cases moved
  | callback made =>
    dsimp only [step] at moved
    split at moved
    · cases moved
    · cases moved
      cases made with
      | false => rfl
      | true => exact queueAdjust_order fillDelay _
  | work delayed =>
    obtain ⟨-, -, work, dwork, -, rfl⟩ := work_cases moved
    unfold cacheWorkFunc
    split
    · rfl
    · split
      · rfl
      · split
        · rfl
        · rfl
  | workRelease delay =>
    dsimp only [step] at moved
    split at moved
    · cases moved
    cases moved
    unfold releaseLocked
    split
    · rfl
    cases delay with
    | false =>
      dsimp only [if_false]
      split
      · exact queueAdjust_order fillDelay _
      · rfl
    | true =>
      dsimp only [if_true]
      split
      · exact queueAdjust_order fillDelay _
      · rfl
  | workDestroy =>
    dsimp only [step] at moved
    split at moved
    · cases moved
      exact queueAdjust_order fillDelay _
    · cases moved
  | _ =>
    dsimp only [step] at moved
    repeat' split at moved
    all_goals cases moved
    all_goals rfl

end CacheEnt

/-! ### The cache -/

variable {cache next : MrCache}

def CacheMove.quiet (cache : MrCache) : CacheMove → Bool
  | .ent _ move => move.quiet
  | .timer => cache.fillDelay

/-- An entry that gets more than twice its limit is hidden neither by the delay after a failed creation nor
by the cleanup. -/
def CacheMove.Heeded (cache : MrCache) : CacheMove → Prop
  | .ent e move => (cache.ents e).Heeded cache.fillDelay move
  | .timer => True

inductive MrCache.Reachable (limits : Nat → Nat) (kind : MrCache → CacheMove → Prop) :
    MrCache → Prop where
  | init : Reachable limits kind (init limits)
  | step {cache next : MrCache} (move : CacheMove) (reached : Reachable limits kind cache)
      (isKind : kind cache move) (moved : cache.step move = some next) :
      Reachable limits kind next

/-- A run of quiet steps of a kind, with their number. -/
inductive QuietRun (kind : MrCache → CacheMove → Prop) : MrCache → Nat → MrCache → Prop where
  | rest (cache : MrCache) : QuietRun kind cache 0 cache
  | step {cache middle next : MrCache} {steps : Nat} (move : CacheMove)
      (quiet : move.quiet cache = true) (isKind : kind cache move)
      (moved : cache.step move = some middle) (rest : QuietRun kind middle steps next) :
      QuietRun kind cache (steps + 1) next

def MrCache.effort (cache : MrCache) : Nat :=
  ∑ e ∈ Finset.range maxMrCacheEntries, (cache.ents e).effort + cache.fillDelay.toNat

/-- What the counters say, and that the cache comes to rest: a run of quiet steps is no longer than the
effort left, and where it has no step left entries have at most twice their limit. -/
structure Accounted (kind : MrCache → CacheMove → Prop) (cache : MrCache) : Prop where
  available : ∀ e, (cache.ents e).availableMrs = (cache.ents e).head.length
  total : ∀ e, (cache.ents e).totalMrs = (cache.ents e).head.length + (cache.ents e).lent.length
  pending : ∀ e, (cache.ents e).pending =
    (cache.ents e).issued + (cache.ents e).adders + (cache.ents e).worker.creations
  once : ∀ e, (cache.ents e).keys.Nodup
  orders : ∀ e, ∀ use ∈ (cache.ents e).lent, use.2 ≤ (cache.ents e).order
  settles : ∀ steps last, QuietRun kind cache steps last → steps ≤ cache.effort ∧
    ((∀ move : CacheMove, move.quiet last = true → last.step move = none) →
      ∀ e < maxMrCacheEntries, (last.ents e).availableMrs ≤ 2 * (last.ents e).limit)

structure MrCache.Inv (cache : MrCache) : Prop where
  ents : ∀ e, (cache.ents e).Inv
  order : ∀ e, (cache.ents e).order = e + 2

private theorem order_le_of_ent {order e} (found : mrCacheEntFromOrder order = some e) : order ≤ e + 2 := by
  unfold mrCacheEntFromOrder at found
  split at found
  · omega
  · split at found
    · cases found
    · cases found
      omega

private theorem fits_of_suits {e move} (isSuited : suits e move = true) : move.Fits (e + 2) := by
  cases move with
  | getCacheMr order =>
    obtain ⟨first, found, within⟩ := (any_eq_true _ _).mp isSuited
    have fits := order_le_of_ent found
    have bounds := of_decide_eq_true (and_eq_true_iff.mp within).1
    dsimp only [Move.Fits]
    omega
  | createCacheMr order =>
    rcases or_eq_true_iff.mp isSuited with special | found
    · exact le_of_eq (of_decide_eq_true (and_eq_true_iff.mp special).2)
    · exact order_le_of_ent (of_decide_eq_true found)
  | _ => trivial

variable {move : CacheMove}

theorem MrCache.step_cases (moved : cache.step move = some next) :
    (move = .timer ∧ next = { cache with fillDelay := false }) ∨
    ∃ e entMove entNext, move = .ent e entMove ∧ e < maxMrCacheEntries ∧
      suits e entMove = true ∧ (cache.ents e).step cache.fillDelay entMove = some entNext ∧
      next = { fillDelay := cache.fillDelay || decide (entMove = .callback false)
               ents := update cache.ents e entNext } := by
  cases move with
  | timer =>
    cases moved
    exact .inl ⟨rfl, rfl⟩
  | ent e entMove =>
    obtain ⟨ok, moved⟩ := ite_none_right_eq_some.mp moved
    obtain ⟨within, isSuited⟩ := and_eq_true_iff.mp ok
    obtain ⟨entNext, entMoved, rfl⟩ := map_eq_some_iff.mp moved
    exact .inr ⟨e, entMove, entNext, rfl, of_decide_eq_true within, isSuited, entMoved, rfl⟩

theorem CacheEnt.init_inv (order limit) : (init order limit).Inv := by
  refine Sound.adjusted ?_ (.inr (.inl (Nat.zero_le _)))
  exact ⟨rfl, rfl, rfl, .refl _, nofun, nofun, nofun⟩

theorem MrCache.init_inv (limits) : (MrCache.init limits).Inv where
  ents e := CacheEnt.init_inv (e + 2) (limits e)
  order _ := CacheEnt.queueAdjust_order false _

theorem MrCache.Inv.step (inv : cache.Inv) (heeded : move.Heeded cache)
    (moved : cache.step move = some next) : next.Inv := by
  rcases step_cases moved with
    ⟨rfl, rfl⟩ | ⟨e, entMove, entNext, rfl, -, isSuited, entMoved, rfl⟩
  · exact { inv with }
  have fits : entMove.Fits (cache.ents e).order := by
    rw [inv.order e]
    exact fits_of_suits isSuited
  constructor
  · intro other
    by_cases same : other = e
    · subst same
      dsimp only
      rw [update_self]
      exact (inv.ents other).step heeded fits entMoved
    · dsimp only
      rw [update_of_ne same]
      exact inv.ents other
  intro other
  by_cases same : other = e
  · subst same
    dsimp only
    rw [update_self, step_order entMoved]
    exact inv.order other
  · dsimp only
    rw [update_of_ne same]
    exact inv.order other

theorem MrCache.effort_lt (inv : cache.Inv) (quiet : move.quiet cache = true)
    (moved : cache.step move = some next) : next.effort < cache.effort := by
  rcases step_cases moved with
    ⟨rfl, rfl⟩ | ⟨e, entMove, entNext, rfl, within, -, entMoved, rfl⟩
  · have delayed : cache.fillDelay = true := quiet
    unfold effort
    dsimp only
    rw [delayed]
    exact Nat.add_lt_add_left Nat.zero_lt_one _
  have lower := effort_lt (inv.ents e) quiet entMoved
  have notFailed : decide (entMove = .callback false) = false := by
    refine decide_eq_false ?_
    intro failed
    rw [failed] at quiet
    cases quiet
  unfold effort
  dsimp only
  rw [notFailed, Bool.or_false]
  refine Nat.add_lt_add_right (Finset.sum_lt_sum ?_ ⟨e, Finset.mem_range.mpr within, ?_⟩) _
  · intro other _member
    by_cases same : other = e
    · subst same
      rw [update_self]
      exact le_of_lt lower
    · rw [update_of_ne same]
  · rw [update_self]
    exact lower

theorem MrCache.Inv.settled (inv : cache.Inv)
    (stuck : ∀ move : CacheMove, move.quiet cache = true → cache.step move = none) {e}
    (within : e < maxMrCacheEntries) : (cache.ents e).availableMrs ≤ 2 * (cache.ents e).limit := by
  have entStuck (move : CacheEnt.Move) (quiet : move.quiet = true) : (cache.ents e).step cache.fillDelay move
      = none := by
    have isSuited : suits e move = true := by
      cases move with
      | cacheAlloc => cases quiet
      | getCacheMr order => cases quiet
      | createCacheMr order => cases quiet
      | _ => rfl
    have none := stuck (.ent e move) quiet
    dsimp only [MrCache.step] at none
    rw [isSuited, Bool.and_true, if_pos (decide_eq_true within)] at none
    exact map_eq_none_iff.mp none
  exact (inv.ents e).settled (CacheEnt.still_of_stuck entStuck)

theorem MrCache.Inv.settles (inv : cache.Inv) {steps}
    (run : QuietRun (fun cache move => move.Heeded cache) cache steps next) :
    steps ≤ cache.effort ∧ next.Inv := by
  induction run with
  | rest cache => exact ⟨Nat.zero_le _, inv⟩
  | step move quiet heeded moved _ ih =>
    obtain ⟨bound, last⟩ := ih (inv.step heeded moved)
    exact ⟨lt_of_le_of_lt bound (effort_lt inv quiet moved), last⟩

variable {limits : Nat → Nat}

theorem MrCache.reachable_inv (reached : Reachable limits (fun cache move => move.Heeded cache) cache) :
    cache.Inv := by
  induction reached with
  | init => exact init_inv limits
  | step move _ heeded moved ih => exact ih.step heeded moved

def MrCache.run (test : MrCache → CacheMove → Bool) (cache : MrCache) : List CacheMove → Option MrCache
  | [] => some cache
  | move :: rest =>
    if test cache move then (cache.step move).bind fun next => next.run test rest else none

theorem MrCache.Reachable.run {kind test}
    (reached : Reachable limits kind cache) (tests : ∀ cache move, test cache move = true → kind cache move)
    (moves) (moved : cache.run test moves = some next) : Reachable limits kind next := by
  induction moves generalizing cache with
  | nil =>
    cases moved
    exact reached
  | cons move rest ih =>
    unfold run at moved
    split at moved
    case isTrue isKind =>
      obtain ⟨middle, first, rested⟩ := bind_eq_some_iff.mp moved
      exact ih (reached.step move (tests cache move isKind) first) rested
    case isFalse => cases moved

/-- In runs where no entry over twice its limit is hidden, counters are right, keys are in one place, and
the cache comes to rest. -/
theorem mr_cache_accounted (limits : Nat → Nat) (cache : MrCache)
    (reached : Reachable limits (fun cache move => move.Heeded cache) cache) :
    Accounted (fun cache move => move.Heeded cache) cache := by
  have inv := reachable_inv reached
  constructor
  · exact fun e => (inv.ents e).available
  · exact fun e => (inv.ents e).total
  · exact fun e => (inv.ents e).pending
  · exact fun e => (inv.ents e).keys.nodup_iff.mpr nodup_range
  · exact fun e => (inv.ents e).orders
  · intro steps last run
    obtain ⟨bound, lastInv⟩ := inv.settles run
    exact ⟨bound, fun stuck e within => lastInv.settled stuck within⟩

instance (ent : CacheEnt) : Decidable ent.Attended :=
  match worker : ent.worker with
  | .releasing => isTrue (Or.inr (Or.inr (Or.inl worker)))
  | .destroying mkey => isTrue (Or.inr (Or.inr (Or.inr (Or.inl ⟨mkey, worker⟩))))
  | .idle | .adding | .issuing | .issueFailed | .added _ =>
    decidable_of_iff (ent.workQueued = true ∨ ent.dworkQueued = true ∨ ent.cleaning = true)
      (by unfold Attended; simp [worker])

instance (cache : MrCache) (move : CacheMove) : Decidable (move.Heeded cache) :=
  match move with
  | .timer => isTrue trivial
  | .ent _ move =>
    match move with
    | .cacheFree _ _ | .callback _ => inferInstanceAs (Decidable (_ → _))
    | .workDestroy => inferInstanceAs (Decidable (_ ∨ _))
    | .cacheAlloc | .getCacheMr _ | .createCacheMr _ | .destroyMkey _ | .addKey | .addIssue
    | .addIssueFailed | .work _ | .workAdd _ | .workIssue _ | .workIssueFailed | .workAdded
    | .workRelease _ | .disable | .cancelWork | .cleanKey => isTrue trivial

def firstLimit (e : Nat) : Nat := if e = 0 then 1 else 0

/-- The first entry gets a region; a larger one is asked for twice and given back once, the other not being
invalidated. -/
def lendRun : List CacheMove :=
  [.ent 0 (.work false), .ent 0 (.workAdd true), .ent 0 (.workIssue true), .ent 0 .workAdded,
    .ent 0 (.callback true), .ent 0 (.getCacheMr 1), .ent 2 (.createCacheMr 4),
    .ent 2 (.createCacheMr 4), .ent 2 (.cacheFree (0, 4) true), .ent 2 (.cacheFree (1, 4) false),
    .ent 2 (.destroyMkey 1), .ent 2 (.work false), .ent 2 (.workRelease false), .ent 2 .workDestroy]

theorem mr_cache_accounted_lent : ∃ cache,
    (init firstLimit).run (fun cache move => decide (move.Heeded cache)) lendRun = some cache ∧
      ((cache.ents 0).lent, (cache.ents 2).destroyed, (cache.ents 2).totalMrs) = ([(0, 1)], [1, 0], 0) ∧
      Accounted (fun cache move => move.Heeded cache) cache := by
  have ends : ((init firstLimit).run (fun cache move => decide (move.Heeded cache))
      lendRun).map (fun cache =>
        ((cache.ents 0).lent, (cache.ents 2).destroyed, (cache.ents 2).totalMrs)) =
          some ([(0, 1)], [1, 0], 0) := by decide +kernel
  obtain ⟨cache, moved, final⟩ := map_eq_some_iff.mp ends
  have start : Reachable firstLimit (fun cache move => move.Heeded cache) (init firstLimit) := .init
  have reached := start.run (fun cache move test => of_decide_eq_true test) lendRun moved
  exact ⟨cache, moved, final, mr_cache_accounted firstLimit cache reached⟩

/-- A creation for the first entry fails, and during the delay a region of a special entry is returned to
it. -/
def delayRun : List CacheMove :=
  [.ent 0 (.work false), .ent 0 (.workAdd true), .ent 0 (.workIssue true), .ent 0 .workAdded,
    .ent 21 (.createCacheMr 23), .ent 0 (.callback false), .ent 21 (.cacheFree (0, 23) true),
    .timer]

/-- The region stays in the entry, whose limit is zero, and no work is queued. -/
theorem delayed_return_kept : ¬ ∀ (limits : Nat → Nat) (cache : MrCache),
      MrCache.Reachable limits (fun _ _ => True) cache → Accounted (fun _ _ => True) cache := by
  intro always
  have ends : ((MrCache.init firstLimit).run (fun _ _ => true) delayRun).map (fun cache =>
      (cache.fillDelay, decide (∀ e < maxMrCacheEntries, (cache.ents e).Still),
        (cache.ents 21).availableMrs, (cache.ents 21).limit)) = some (false, true, 1, 0) := by
    decide +kernel
  obtain ⟨cache, moved, final⟩ := map_eq_some_iff.mp ends
  simp only [Prod.mk.injEq, decide_eq_true_iff] at final
  obtain ⟨noDelay, still, available, limit⟩ := final
  have start : MrCache.Reachable firstLimit (fun _ _ => True) (MrCache.init firstLimit) := .init
  have reached := start.run (fun _ _ _ => trivial) delayRun moved
  have settled := ((always firstLimit cache reached).settles 0 cache (.rest cache)).2 ?_ 21 (by decide)
  · rw [available, limit] at settled
    exact absurd settled (by decide)
  intro move quiet
  cases move with
  | timer =>
    have delayed : cache.fillDelay = true := quiet
    rw [noDelay] at delayed
    cases delayed
  | ent e move =>
    dsimp only [MrCache.step]
    split
    case isTrue allowed =>
      have within := of_decide_eq_true (and_eq_true_iff.mp allowed).1
      rw [(still e within).stuck quiet]
      rfl
    case isFalse => rfl

end MlnxOfed.Mr
