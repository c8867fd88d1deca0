/-
Cleaning a completion queue (mlx5/cq.c): the entries of one QP are taken out from the producer's end
backwards, by moving older entries over them.
-/

import MlnxOfed.Cq.ResizeRuns
import Mathlib.Data.Nat.Find

namespace MlnxOfed.Cq.Clean

open Function List Lib

structure CqeBody where
  opcode : Nat
  sopDropQpn : UInt32
  srqn : UInt32
  wqeCounter : UInt16
  rest : List UInt8
  deriving DecidableEq

structure Cqe where
  owner : Nat
  body : CqeBody

def cqeInvalid : Nat := 15

def CqeBody.isEqualRsn (cqe : CqeBody) (rsn : UInt32) : Bool :=
  rsn = cqe.sopDropQpn &&& 0xffffff

/-- The list of free WQEs of a shared receive queue. -/
structure Srq where
  nextWqeIndex : Nat → UInt16
  tail : Nat

def Srq.freeSrqWqe (srq : Srq) (wqeIndex : UInt16) : Srq :=
  ⟨update srq.nextWqeIndex srq.tail wqeIndex, wqeIndex.toNat⟩

def freeWqe (srq : Option Srq) (cqe : CqeBody) : Option Srq :=
  srq.map fun srq => if cqe.srqn &&& 0xffffff = 0 then srq else srq.freeSrqWqe cqe.wqeCounter

/-- A queue of `2 ^ log` entries, with the shared receive queue of the QP. -/
structure Queue where
  log : Nat
  fits : log < 31
  mem : Nat → Cqe
  consIndex : UInt32
  srq : Option Srq

namespace Queue

variable (q : Queue) (rsn : UInt32)

def index (i : Nat) : UInt32 :=
  q.consIndex + UInt32.ofNat i

def getCqe (n : UInt32) : Cqe :=
  q.mem (n.toNat &&& (2 ^ q.log - 1))

def getSwCqe (n : UInt32) : Option Cqe :=
  let cqe := q.getCqe n
  if cqe.body.opcode ≠ cqeInvalid ∧ cqe.owner = swOwnershipBit n.toNat (2 ^ q.log) then some cqe
  else none

def findProducer : Nat → UInt32 → Option UInt32
  | 0, _ => none
  | fuel + 1, prodIndex =>
    if (q.getSwCqe prodIndex).isNone then some prodIndex
    else if prodIndex = q.index (2 ^ q.log - 1) then some prodIndex
    else findProducer fuel (prodIndex + 1)

/-- The copy of an entry, which leaves the owner bit of its new place. -/
def move (dest : UInt32) (cqe : CqeBody) : Queue :=
  { q with
    mem := update q.mem (dest.toNat &&& (2 ^ q.log - 1)) ⟨(q.getCqe dest).owner, cqe⟩ }

def sweep (rsn : UInt32) : Nat → UInt32 → Queue → Nat → Option (Queue × Nat)
  | 0, _, _, _ => none
  | fuel + 1, prodIndex, q, nfreed =>
    let prodIndex := prodIndex - 1
    if 2 ^ 31 ≤ (prodIndex - q.consIndex).toNat then some (q, nfreed)
    else
      let cqe := (q.getCqe prodIndex).body
      if cqe.isEqualRsn rsn then sweep rsn fuel prodIndex { q with srq := freeWqe q.srq cqe } (nfreed + 1)
      else if nfreed = 0 then sweep rsn fuel prodIndex q nfreed
      else sweep rsn fuel prodIndex (q.move (prodIndex + UInt32.ofNat nfreed) cqe) nfreed

/-- `__mlx5_ib_cq_clean`, whose two loops may run `fuel` times each. -/
def clean (fuel : Nat) : Option Queue := do
  let prodIndex ← q.findProducer fuel q.consIndex
  let (q, nfreed) ← sweep rsn fuel prodIndex q 0
  return { q with consIndex := q.index nfreed }

/-- What successive calls of `get_sw_cqe` deliver, up to the first that finds nothing. -/
def deliveredFrom (q : Queue) : Nat → UInt32 → List CqeBody
  | 0, _ => []
  | calls + 1, n =>
    match q.getSwCqe n with
    | none => []
    | some cqe => cqe.body :: q.deliveredFrom calls (n + 1)

def delivered (calls : Nat) : List CqeBody :=
  q.deliveredFrom calls q.consIndex

end Queue

/-- The completions of `rsn` are gone, their WQEs free, and other entries as they were. -/
structure Cleaned (q : Queue) (rsn : UInt32) (after : Queue) : Prop where
  log : after.log = q.log
  delivered (calls : Nat) : 2 ^ q.log ≤ calls →
    after.delivered calls = (q.delivered calls).filter fun cqe => !cqe.isEqualRsn rsn
  freed : after.srq = ((q.delivered (2 ^ q.log)).filter (·.isEqualRsn rsn)).reverse.foldl freeWqe q.srq
  owner (slot : Nat) : (after.mem slot).owner = (q.mem slot).owner
  hardware (i : Nat) : (q.delivered (2 ^ q.log)).length ≤ i → i < 2 ^ q.log →
    after.getCqe (q.index i) = q.getCqe (q.index i)

/-- Every entry waits for software, and the newest one is a completion of `rsn`. -/
def Queue.NewestHidden (q : Queue) (rsn : UInt32) : Prop :=
  (∀ i < 2 ^ q.log, (q.getSwCqe (q.index i)).isSome) ∧ (q.getCqe (q.index (2 ^ q.log - 1))).body.isEqualRsn rsn

namespace Queue

variable {q : Queue} {rsn : UInt32}

def slot (q : Queue) (i : Nat) : Nat :=
  ringSlot q.log (q.consIndex.toNat + i)

theorem index_toNat (i) : (q.index i).toNat = (q.consIndex.toNat + i) % 2 ^ 32 := by
  rw [index, UInt32.toNat_add, UInt32.toNat_ofNat', Nat.add_mod_mod]

theorem index_slot (i) : (q.index i).toNat &&& (2 ^ q.log - 1) = q.slot i := by
  have := q.fits
  rw [index_toNat, counter_and_mask (by omega)]
  rfl

private theorem index_bit (i) : swOwnershipBit (q.index i).toNat (2 ^ q.log) =
    ringLap q.log (q.consIndex.toNat + i) := by
  have := q.fits
  rw [index_toNat, swOwnershipBit_eq, ringLap, ← Nat.shiftRight_eq_div_pow]
  exact counter_shift_lap (by omega)

theorem index_succ (i) : q.index i + 1 = q.index (i + 1) := by
  rw [index, index, UInt32.add_assoc, UInt32.ofNat_add]
  rfl

private theorem index_pred (i) : q.index (i + 1) - 1 = q.index i := by rw [← index_succ, UInt32.add_sub_cancel]

private theorem index_add (i nfreed) : q.index i + UInt32.ofNat nfreed = q.index (i + nfreed) := by
  rw [index, index, UInt32.add_assoc, UInt32.ofNat_add]

theorem index_sub (i) (near : i < 2 ^ 32) : (q.index i - q.consIndex).toNat = i := by
  rw [index, UInt32.add_comm, UInt32.add_sub_cancel, UInt32.toNat_ofNat', Nat.mod_eq_of_lt near]

theorem size_lt (q : Queue) : 2 ^ q.log < 2 ^ 31 := Nat.pow_lt_pow_right (by decide) q.fits

private theorem slot_ne {i j} (order : i < j) (near : j < i + 2 ^ q.log) : q.slot i ≠ q.slot j :=
  ringSlot_ne (by omega) (by omega)

def Owned (q : Queue) (i : Nat) : Prop :=
  (q.mem (q.slot i)).body.opcode ≠ cqeInvalid ∧ (q.mem (q.slot i)).owner = ringLap q.log (q.consIndex.toNat + i)

instance (i : Nat) : Decidable (q.Owned i) := inferInstanceAs (Decidable (_ ∧ _))

theorem getCqe_index (i) : q.getCqe (q.index i) = q.mem (q.slot i) := by rw [getCqe, index_slot]

theorem getSwCqe_index (i) :
    q.getSwCqe (q.index i) = if q.Owned i then some (q.mem (q.slot i)) else none := by
  unfold getSwCqe
  rw [getCqe_index, index_bit]
  rfl

/-- The entries between two places are software's, the one after them is not. -/
structure Waiting (q : Queue) (start seen : Nat) : Prop where
  owned (i : Nat) : start ≤ i → i < seen → q.Owned i
  stop : ¬ q.Owned seen

theorem round_not_owned (owned : (q.mem (q.slot 0)).owner = ringLap q.log q.consIndex.toNat) :
    ¬ q.Owned (2 ^ q.log) := by
  intro round
  have lap := round.2
  rw [show q.slot (2 ^ q.log) = q.slot 0 from ringSlot_add_round _ _, owned] at lap
  exact ringLap_add_round_ne _ _ lap.symm

private theorem exists_waiting (q : Queue) : ∃ seen ≤ 2 ^ q.log, q.Waiting 0 seen := by
  have ends : ∃ i ≤ 2 ^ q.log, ¬ q.Owned i := by
    by_cases owned : q.Owned 0
    · exact ⟨_, le_rfl, round_not_owned owned.2⟩
    · exact ⟨0, Nat.zero_le _, owned⟩
  obtain ⟨near, stop⟩ := Nat.find_spec ends
  refine ⟨Nat.find ends, near, fun i _ old => ?_, stop⟩
  exact not_not.1 fun hardware => Nat.find_min ends old ⟨le_trans (le_of_lt old) near, hardware⟩

variable {seen : Nat}

private theorem findProducer_index (waiting : q.Waiting 0 seen) (fuel i : Nat)
    (below : i ≤ min seen (2 ^ q.log - 1)) (enough : min seen (2 ^ q.log - 1) < fuel + i) :
    q.findProducer fuel (q.index i) = some (q.index (min seen (2 ^ q.log - 1))) := by
  have size := q.size_lt
  induction fuel generalizing i with
  | zero => omega
  | succ fuel ih =>
    rw [findProducer, getSwCqe_index]
    by_cases owned : i < seen
    · rw [if_pos (waiting.owned i (Nat.zero_le i) owned), if_neg nofun]
      by_cases atLast : i = 2 ^ q.log - 1
      · rw [if_pos (congrArg _ atLast), show min seen (2 ^ q.log - 1) = i by omega]
      have notLast : q.index i ≠ q.index (2 ^ q.log - 1) := by
        intro same
        have places := congrArg (fun n => (n - q.consIndex).toNat) same
        rw [index_sub _ (by omega), index_sub _ (by omega)] at places
        exact atLast places
      rw [if_neg notLast, index_succ]
      exact ih (i + 1) (by omega) (by omega)
    · obtain rfl : i = seen := by omega
      rw [if_neg waiting.stop, show min i (2 ^ q.log - 1) = i by omega]
      rfl

def bodies (q : Queue) (mem : Nat → Cqe) (start count : Nat) : List CqeBody :=
  (range count).map fun i => (mem (q.slot (start + i))).body

def kept (q : Queue) (rsn : UInt32) (mem : Nat → Cqe) (count : Nat) : List CqeBody :=
  (q.bodies mem 0 count).filter fun cqe => !cqe.isEqualRsn rsn

def removed (q : Queue) (rsn : UInt32) (mem : Nat → Cqe) (count : Nat) : List CqeBody :=
  (q.bodies mem 0 count).filter (·.isEqualRsn rsn)

variable {j nfreed freed : Nat} {mem mem' : Nat → Cqe} {srq srq' : Option Srq}

theorem bodies_succ (start count) : q.bodies mem start (count + 1) =
    q.bodies mem start count ++ [(mem (q.slot (start + count))).body] := by
  simp only [bodies, range_succ, map_append, map_cons, map_nil]

theorem kept_succ : q.kept rsn mem (j + 1) = q.kept rsn mem j ++
    if (mem (q.slot j)).body.isEqualRsn rsn then [] else [(mem (q.slot j)).body] := by
  rw [kept, bodies_succ, filter_append, filter_singleton, zero_add]
  cases (mem (q.slot j)).body.isEqualRsn rsn <;> rfl

theorem removed_succ : q.removed rsn mem (j + 1) = q.removed rsn mem j ++
    if (mem (q.slot j)).body.isEqualRsn rsn then [(mem (q.slot j)).body] else [] := by
  rw [removed, bodies_succ, filter_append, filter_singleton, zero_add]
  cases (mem (q.slot j)).body.isEqualRsn rsn <;> rfl

private theorem deliveredFrom_index (start) (waiting : q.Waiting start seen) (calls count)
    (enough : count ≤ calls) (reach : start + count = seen) :
    q.deliveredFrom calls (q.index start) = q.bodies q.mem start count := by
  induction count generalizing calls start with
  | zero =>
    cases calls with
    | zero => rfl
    | succ calls =>
      obtain rfl : start = seen := reach
      rw [deliveredFrom, getSwCqe_index, if_neg waiting.stop]
      rfl
  | succ count ih =>
    obtain ⟨calls, rfl⟩ := Nat.exists_eq_add_of_lt (show 0 < calls by omega)
    have later := ih (start + 1)
      ⟨fun i reach => waiting.owned i (Nat.le_of_succ_le reach), waiting.stop⟩ calls (by omega) (by omega)
    rw [zero_add, deliveredFrom, getSwCqe_index, if_pos (waiting.owned start le_rfl (by omega)),
      index_succ, bodies, range_succ_eq_map, map_cons, map_map]
    refine congrArg _ (later.trans (map_congr_left fun i _ => ?_))
    rw [Function.comp_apply, Nat.succ_eq_add_one, Nat.add_right_comm start 1 i, Nat.add_assoc]

/-- The ring and free list after the backward sweep of the first `j` entries, `nfreed` entries behind them
removed already. -/
structure Swept (q : Queue) (rsn : UInt32) (j nfreed : Nat) (mem : Nat → Cqe) (srq : Option Srq)
    (mem' : Nat → Cqe) (srq' : Option Srq) (freed : Nat) : Prop where
  count : freed + (q.kept rsn mem j).length = j + nfreed
  kept : q.bodies mem' freed (q.kept rsn mem j).length = q.kept rsn mem j
  srq : srq' = (q.removed rsn mem j).reverse.foldl freeWqe srq
  owner (slot : Nat) : (mem' slot).owner = (mem slot).owner
  outside (i : Nat) : j + nfreed ≤ i → i < 2 ^ q.log → mem' (q.slot i) = mem (q.slot i)

/-- The entry before those swept is removed. -/
theorem Swept.remove (equal : (mem (q.slot j)).body.isEqualRsn rsn)
    (swept : Swept q rsn j (nfreed + 1) mem (freeWqe srq (mem (q.slot j)).body) mem' srq' freed) :
    Swept q rsn (j + 1) nfreed mem srq mem' srq' freed := by
  have keep : q.kept rsn mem (j + 1) = q.kept rsn mem j := by rw [kept_succ, if_pos equal, append_nil]
  have places : j + 1 + nfreed = j + (nfreed + 1) := Nat.add_right_comm _ _ _
  refine ⟨?_, ?_, ?_, swept.owner, fun i reach => swept.outside i (places ▸ reach)⟩
  · rw [keep, places, swept.count]
  · rw [keep, swept.kept]
  · rw [removed_succ, if_pos equal, reverse_concat, swept.srq]
    rfl

/-- The entry before those swept is kept, next to the others that are. -/
theorem Swept.move (other : ¬ (mem (q.slot j)).body.isEqualRsn rsn) (room : j + nfreed < 2 ^ q.log)
    (swept : Swept q rsn j nfreed (update mem (q.slot (j + nfreed))
      ⟨(mem (q.slot (j + nfreed))).owner, (mem (q.slot j)).body⟩) srq mem' srq' freed) :
    Swept q rsn (j + 1) nfreed mem srq mem' srq' freed := by
  have old : q.bodies (update mem (q.slot (j + nfreed))
      ⟨(mem (q.slot (j + nfreed))).owner, (mem (q.slot j)).body⟩) 0 j = q.bodies mem 0 j := by
    refine map_congr_left fun i inside => ?_
    have below := mem_range.1 inside
    rw [update_of_ne (slot_ne (by omega) (by omega))]
  obtain ⟨count, kept, srq, owner, outside⟩ := swept
  unfold Queue.kept at count kept
  unfold removed at srq
  rw [old] at count kept srq
  have keep : q.kept rsn mem (j + 1) = q.kept rsn mem j ++ [(mem (q.slot j)).body] := by
    rw [kept_succ, if_neg other]
  refine ⟨?_, ?_, ?_, fun slot => ?_, fun i reach below => ?_⟩
  · rw [keep, length_append, length_singleton, Queue.kept]
    omega
  · rw [keep, length_append, length_singleton, bodies_succ, Queue.kept, kept, count,
      outside _ le_rfl room, update_self]
  · rw [removed_succ, if_neg other, append_nil, srq]
    rfl
  · rw [owner]
    by_cases moved : slot = q.slot (j + nfreed)
    · rw [moved, update_self]
    · rw [update_of_ne moved]
  · rw [outside i (by omega) below, update_of_ne (slot_ne (by omega) (by omega)).symm]

private theorem sweep_spec (q rsn j nfreed mem srq) (room : j + nfreed ≤ 2 ^ q.log) : ∃ mem' srq' freed,
    (∀ fuel, j < fuel → sweep rsn fuel (q.index j) { q with mem := mem, srq := srq } nfreed =
      some ({ q with mem := mem', srq := srq' }, freed)) ∧
    Swept q rsn j nfreed mem srq mem' srq' freed := by
  have size := q.size_lt
  induction j generalizing mem srq nfreed with
  | zero =>
    have stop : 2 ^ 31 ≤ (q.index 0 - 1 - q.consIndex).toNat := by
      have below := q.consIndex.toNat_lt
      rw [UInt32.toNat_sub, UInt32.toNat_sub, index_toNat, show (1 : UInt32).toNat = 1 from rfl]
      omega
    refine ⟨mem, srq, nfreed, fun fuel enough => ?_, (zero_add nfreed).symm, rfl, rfl, fun _ => rfl,
      fun _ _ _ => rfl⟩
    obtain ⟨fuel, rfl⟩ := Nat.exists_eq_add_of_lt enough
    exact if_pos stop
  | succ j ih =>
    have goes : ¬ 2 ^ 31 ≤ (q.index j - q.consIndex).toNat := by
      rw [index_sub j (by omega)]
      omega
    have entry (i : Nat) : ({ q with mem := mem, srq := srq } : Queue).getCqe (q.index i) =
        mem (q.slot i) := getCqe_index (q := { q with mem := mem, srq := srq }) i
    have step (fuel : Nat) : sweep rsn (fuel + 1) (q.index (j + 1)) { q with mem := mem, srq := srq }
        nfreed = if (mem (q.slot j)).body.isEqualRsn rsn then
          sweep rsn fuel (q.index j) { q with mem := mem, srq := freeWqe srq (mem (q.slot j)).body }
            (nfreed + 1)
        else sweep rsn fuel (q.index j) { q with
          mem := update mem (q.slot (j + nfreed)) ⟨(mem (q.slot (j + nfreed))).owner, (mem (q.slot j)).body⟩
          srq := srq } nfreed := by
      rw [sweep]
      simp only [index_pred, entry, if_neg goes]
      by_cases first : nfreed = 0
      · subst first
        have still : update mem (q.slot (j + 0))
            ⟨(mem (q.slot (j + 0))).owner, (mem (q.slot j)).body⟩ = mem := update_eq_self _ _
        rw [if_pos rfl, still]
      · rw [if_neg first, move, index_add, entry]
        simp only [index_slot]
    by_cases equal : (mem (q.slot j)).body.isEqualRsn rsn = true
    · obtain ⟨mem', srq', freed, run, swept⟩ := ih (nfreed + 1) mem (freeWqe srq _) (by omega)
      refine ⟨mem', srq', freed, fun fuel enough => ?_, swept.remove equal⟩
      obtain ⟨fuel, rfl⟩ := Nat.exists_eq_add_of_lt (Nat.zero_lt_of_lt enough)
      rw [step, if_pos equal]
      exact run _ (by omega)
    obtain ⟨mem', srq', freed, run, swept⟩ := ih nfreed (update mem (q.slot (j + nfreed))
      ⟨(mem (q.slot (j + nfreed))).owner, (mem (q.slot j)).body⟩) srq (by omega)
    refine ⟨mem', srq', freed, fun fuel enough => ?_, swept.move equal (by omega)⟩
    obtain ⟨fuel, rfl⟩ := Nat.exists_eq_add_of_lt (Nat.zero_lt_of_lt enough)
    rw [step, if_neg equal]
    exact run _ (by omega)

private theorem deliveredFrom_consIndex (consIndex calls n) :
    deliveredFrom { q with consIndex := consIndex } calls n = q.deliveredFrom calls n := by
  induction calls generalizing n with
  | zero => rfl
  | succ calls ih =>
    unfold deliveredFrom
    simp only [ih]
    rfl

/-- After the sweep the entries from the new consumer index wait, up to the same place. -/
theorem Swept.waiting {top} (waiting : q.Waiting 0 seen) (size : seen ≤ 2 ^ q.log)
    (reach : top ≤ seen) (swept : Swept q rsn top 0 q.mem srq mem' srq' freed) :
    Waiting { q with mem := mem', srq := srq' } freed seen := by
  have count := swept.count
  have valid (i : Nat) (after : freed ≤ i) (before : i < seen) :
      (mem' (q.slot i)).body.opcode ≠ cqeInvalid := by
    by_cases below : i < top
    · have member : (mem' (q.slot i)).body ∈ q.kept rsn q.mem top := by
        rw [← swept.kept]
        exact mem_map.2 ⟨i - freed, mem_range.2 (by omega), by rw [Nat.add_sub_cancel' after]⟩
      obtain ⟨old, inside, same⟩ := mem_map.1 (mem_filter.1 member).1
      rw [← same]
      exact (waiting.owned _ (Nat.zero_le _) (by have := mem_range.1 inside; omega)).1
    · rw [swept.outside i (by omega) (by omega)]
      exact (waiting.owned i (Nat.zero_le i) before).1
  refine ⟨fun i after before => ⟨valid i after before, ?_⟩, fun owned => ?_⟩
  · exact (swept.owner _).trans (waiting.owned i (Nat.zero_le i) before).2
  rcases Nat.lt_or_ge seen (2 ^ q.log) with below | full
  · refine waiting.stop ?_
    unfold Owned
    rw [← swept.outside seen (by omega) below]
    exact owned
  · obtain rfl : seen = 2 ^ q.log := by omega
    refine round_not_owned (q := { q with mem := mem', srq := srq' }) ?_ owned
    exact (swept.owner _).trans (waiting.owned 0 le_rfl (Nat.two_pow_pos _)).2

end Queue

open Queue

/-- The cleaning ends, and takes out exactly the completions of one QP unless the ring is full and its
newest entry is one of them. -/
theorem clean_iff (q : Queue) (rsn : UInt32) : ∃ after,
    (∀ fuel, 2 ^ q.log < fuel → q.clean rsn fuel = some after) ∧
      (Cleaned q rsn after ↔ ¬ q.NewestHidden rsn) := by
  obtain ⟨seen, size, waiting⟩ := q.exists_waiting
  have positive := Nat.two_pow_pos q.log
  obtain ⟨top, isTop⟩ : ∃ top, top = min seen (2 ^ q.log - 1) := ⟨_, rfl⟩
  obtain ⟨mem', srq', freed, run, swept⟩ := sweep_spec q rsn top 0 q.mem q.srq (by omega)
  have count := swept.count
  have start : q.index 0 = q.consIndex := UInt32.add_zero _
  have before {calls : Nat} (enough : 2 ^ q.log ≤ calls) : q.delivered calls = q.bodies q.mem 0 seen := by
    rw [delivered, ← start]
    exact deliveredFrom_index 0 waiting calls seen (by omega) (zero_add _)
  refine ⟨{ q with mem := mem', srq := srq', consIndex := q.index freed }, fun fuel enough => ?_, ?_⟩
  · have found := findProducer_index waiting fuel 0 (Nat.zero_le _) (by omega)
    rw [start, ← isTop] at found
    simp only [clean, found, run fuel (by omega), Option.bind_eq_bind, Option.bind_some]
    rfl
  have later {calls : Nat} (enough : 2 ^ q.log ≤ calls) :
      Queue.delivered { q with mem := mem', srq := srq', consIndex := q.index freed } calls =
        q.bodies mem' freed (seen - freed) := by
    rw [delivered, deliveredFrom_consIndex (q := { q with mem := mem', srq := srq' })]
    exact deliveredFrom_index _ (swept.waiting waiting size (by omega)) calls _ (by omega) (by omega)
  have cleaned (keep : q.kept rsn q.mem seen = q.bodies mem' freed (seen - freed))
      (none : q.removed rsn q.mem seen = q.removed rsn q.mem top) :
      Cleaned q rsn { q with mem := mem', srq := srq', consIndex := q.index freed } := by
    refine ⟨rfl, fun calls enough => ?_, ?_, swept.owner, fun i after below => ?_⟩
    · rw [later enough, before enough, ← keep]
      rfl
    · rw [before le_rfl]
      exact swept.srq.trans (none ▸ rfl)
    · rw [before le_rfl, bodies, length_map, length_range] at after
      have same := getCqe_index (q := { q with mem := mem', srq := srq' }) i
      rw [getCqe_index]
      exact same.trans (swept.outside i (by omega) below)
  rcases Nat.lt_or_ge seen (2 ^ q.log) with less | full
  · have all : seen = top := by omega
    refine ⟨fun _ hidden => ?_, fun _ => cleaned ?_ (all ▸ rfl)⟩
    · have owned := hidden.1 seen less
      rw [getSwCqe_index, if_neg waiting.stop] at owned
      cases owned
    · rw [all, ← swept.kept, show top - freed = (q.kept rsn q.mem top).length by omega]
  obtain rfl : seen = top + 1 := by omega
  have newest : mem' (q.slot top) = q.mem (q.slot top) := swept.outside top le_rfl (by omega)
  have left : q.bodies mem' freed (top + 1 - freed) =
      q.kept rsn q.mem top ++ [(q.mem (q.slot top)).body] := by
    rw [show top + 1 - freed = (q.kept rsn q.mem top).length + 1 by omega, bodies_succ, swept.kept, count,
      Nat.add_zero, newest]
  by_cases equal : (q.mem (q.slot top)).body.isEqualRsn rsn
  · refine iff_of_false (fun cleaned => ?_) (not_not.2 ⟨fun i below => ?_, ?_⟩)
    · have delivered := cleaned.delivered _ le_rfl
      rw [later le_rfl, before le_rfl, left] at delivered
      change _ = q.kept rsn q.mem (top + 1) at delivered
      rw [kept_succ, if_pos equal] at delivered
      cases append_cancel_left delivered
    · rw [getSwCqe_index, if_pos (waiting.owned i (Nat.zero_le _) (by omega))]
      rfl
    · rwa [getCqe_index, show 2 ^ q.log - 1 = top by omega]
  · refine iff_of_true (cleaned ?_ ?_) fun hidden => equal ?_
    · rw [left, kept_succ, if_neg equal]
    · rw [removed_succ, if_neg equal, append_nil]
    · rw [← show 2 ^ q.log - 1 = top by omega, ← getCqe_index]
      exact hidden.2

def completionOf (qpn : UInt32) : Cqe :=
  ⟨0, ⟨0, qpn, 0, 0, []⟩⟩

/-- A queue of two entries that is full, with completions of two QPs. -/
def fullQueue : Queue :=
  ⟨1, by decide, fun slot => if slot = 0 then completionOf 7 else completionOf 5, 0, none⟩

theorem fullQueue_keeps_newest : ¬ ∃ after,
    (∀ fuel, 2 < fuel → fullQueue.clean 5 fuel = some after) ∧ Cleaned fullQueue 5 after := by
  rintro ⟨after, ends, cleaned⟩
  have left : (fullQueue.clean 5 3).map (·.delivered 2) =
      some [(completionOf 7).body, (completionOf 5).body] := by decide +kernel
  rw [ends 3 (by decide)] at left
  have delivered := cleaned.delivered 2 le_rfl
  rw [show after.delivered 2 = _ from Option.some.inj left] at delivered
  exact absurd delivered (by decide +kernel)

end MlnxOfed.Cq.Clean
