/-
A completion queue over its resizes. A resize is harmless when the new buffer is smaller, the waiting
completions are not among the entries `init_cq_frag_buf` wipes, and the queue is polled only where the
buffers' sizes do not tell apart: then the completions polled are those produced, in order.
-/

import MlnxOfed.Cq.ResizeCq
import Mathlib.Data.Nat.Bitwise

namespace MlnxOfed.Cq

open Function Bool Option List Lib

set_option linter.unusedSectionVars false

variable {Wc : Type} [Inhabited Wc]

theorem and_mask (n log) : n &&& (2 ^ log - 1) = ringSlot log n := Nat.and_two_pow_sub_one_eq_mod n log

theorem swOwnershipBit_eq (n log) : swOwnershipBit n (2 ^ log) = ringLap log n := by
  unfold swOwnershipBit ringLap
  rw [Nat.and_two_pow, Nat.testBit_eq_decide_div_mod_eq]
  by_cases odd : n / 2 ^ log % 2 = 1
  · rw [odd, decide_eq_true rfl, toNat_true, one_mul, if_neg (Nat.ne_of_gt (Nat.two_pow_pos log))]
  · rw [decide_eq_false odd, toNat_false, Nat.zero_mul, if_pos rfl]
    omega

theorem mask_succ (log) : 2 ^ log - 1 + 1 = 2 ^ log := Nat.sub_add_cancel (Nat.two_pow_pos log)

private theorem roundupPowOfTwo_eq (n) : ∃ log, roundupPowOfTwo n = 2 ^ log := by
  unfold roundupPowOfTwo
  split
  · exact ⟨0, rfl⟩
  · exact ⟨_, rfl⟩

namespace KernelCq

variable {cq next : KernelCq Wc} {log : Nat}

theorem getSwCqe_eq (mask : cq.cqe = 2 ^ log - 1) (n) : cq.getSwCqe n =
      if (cq.buf.mem (ringSlot log n)).lap = ringLap log n then
        (cq.buf.mem (ringSlot log n)).content
      else none := by
  unfold getSwCqe
  rw [mask, mask_succ, and_mask, swOwnershipBit_eq]

/-- The completions that wait are in the buffer, from the consumer's index on. -/
structure Reads (cq : KernelCq Wc) (log : Nat) (waiting : List Wc) : Prop where
  size : cq.buf.nent = 2 ^ log
  device : cq.deviceOnResized = false
  prod : cq.prodIndex = cq.consIndex + waiting.length
  ring : LapRing cq.buf.mem log cq.consIndex (cq.consIndex + 2 ^ log) cq.unwrittenBelow
    (waiting.map .completion)
  laps : cq.unwrittenBelow ≤ cq.consIndex + 2 ^ log
  logged : cq.produced = cq.polled ++ waiting
  inBounds : cq.inBounds = true

structure Prepared (cq : KernelCq Wc) (log small : Nat) : Prop where
  phase : cq.phase = .prepared (2 ^ small)
  smaller : small < log
  resizeBuf : cq.resizeBuf = .live ⟨fun _ => zeroCqe, 2 ^ small, 64⟩
  cqeSize : cq.buf.cqeSize = 64
  allocated : cq.structs = 1 ∧ cq.frags = 2

/-- The device uses the new buffer, and its entry for this is not polled yet. -/
structure Switched (cq : KernelCq Wc) (log small : Nat) (old new : List Wc) (buf : CqBuf Wc) :
    Prop where
  phase : cq.phase = .commanded (2 ^ small)
  smaller : small < log
  size : cq.buf.nent = 2 ^ log
  device : cq.deviceOnResized = true
  resizeBuf : cq.resizeBuf = .live buf
  sizes : buf.nent = 2 ^ small ∧ buf.cqeSize = cq.buf.cqeSize
  resizedFrom : cq.resizedFrom = cq.consIndex + old.length + 1
  prod : cq.prodIndex = cq.resizedFrom + new.length
  oldRing : LapRing cq.buf.mem log cq.consIndex (cq.consIndex + 2 ^ log) cq.unwrittenBelow
    (old.map .completion ++ [.resizeCq])
  laps : cq.unwrittenBelow ≤ cq.consIndex + 2 ^ log
  newRing : LapRing buf.mem small cq.resizedFrom (cq.resizedFrom + 2 ^ small)
    (cq.resizedFrom + 2 ^ small) (new.map .completion)
  few : old.length + new.length ≤ 2 ^ small
  logged : cq.produced = cq.polled ++ (old ++ new)
  inBounds : cq.inBounds = true
  allocated : cq.structs = 1 ∧ cq.frags = 2

def Released (cq : KernelCq Wc) : Prop :=
  cq.resizeBuf = .null ∧ cq.structs = 0 ∧ cq.frags = 1

/-- The last case: a new buffer, while the size is that of the old one. -/
inductive Inv (cq : KernelCq Wc) : Prop where
  | idle (log : Nat) (waiting : List Wc) (reads : cq.Reads log waiting)
      (mask : cq.cqe = 2 ^ log - 1) (phase : cq.phase = .idle) (released : cq.Released)
  | prepared (log small : Nat) (waiting : List Wc) (reads : cq.Reads log waiting)
      (mask : cq.cqe = 2 ^ log - 1) (prepared : cq.Prepared log small)
  | switched (log small : Nat) (old new : List Wc) (buf : CqBuf Wc)
      (mask : cq.cqe = 2 ^ log - 1) (switched : cq.Switched log small old new buf)
  | exchanged (log small : Nat) (waiting : List Wc) (reads : cq.Reads small waiting)
      (mask : cq.cqe = 2 ^ log - 1) (smaller : small < log)
      (phase : cq.phase = .commanded (2 ^ small)) (released : cq.Released)

variable {waiting : List Wc}

theorem Reads.unpolled_eq (reads : cq.Reads log waiting) : cq.unpolled = waiting.length := by
  rw [unpolled, reads.logged, length_append, Nat.add_sub_cancel_left]

theorem pollPass_eq (inside : (cq.consIndex &&& cq.cqe) < cq.buf.nent)
    (inBounds : cq.inBounds = true) : cq.pollPass = cq.takeCqe := by
  unfold pollPass
  rw [decide_eq_true inside, inBounds, Bool.and_true, ← inBounds]

theorem takeCqe_none (nothing : cq.getSwCqe cq.consIndex = none) : cq.takeCqe = cq := by
  simp [takeCqe, nothing]

variable {wc : Wc}

theorem takeCqe_completion (found : cq.getSwCqe cq.consIndex = some (.completion wc)) :
    cq.takeCqe = { cq with consIndex := cq.consIndex + 1, polled := cq.polled ++ [wc] } := by
  simp [takeCqe, found]

variable {buf : CqBuf Wc}

private theorem takeCqe_resize (found : cq.getSwCqe cq.consIndex = some .resizeCq) (live : cq.resizeBuf = .live buf) :
    cq.takeCqe = { cq with
      consIndex := cq.consIndex + 1
      buf := buf
      resizeBuf := .null
      structs := cq.structs - 1
      frags := cq.frags - 1
      deviceOnResized := false
      unwrittenBelow := cq.consIndex + 1 + buf.nent } := by
  simp [takeCqe, found, live]

theorem getSwCqe_first {kind rest limit bound}
    (mask : cq.cqe = 2 ^ log - 1) (ring : LapRing cq.buf.mem log cq.consIndex limit bound (kind :: rest)) :
    cq.getSwCqe cq.consIndex = some kind := by
  rw [getSwCqe_eq mask, ring.first, if_pos rfl]

variable (reads : cq.Reads log waiting)

include reads

theorem Reads.inside (mask : cq.cqe = 2 ^ log - 1) : (cq.consIndex &&& cq.cqe) < cq.buf.nent := by
  rw [mask, and_mask, reads.size]
  exact ringSlot_lt log _

omit reads in
theorem Reads.pop (reads : cq.Reads log (wc :: waiting)) :
    Reads { cq with consIndex := cq.consIndex + 1, polled := cq.polled ++ [wc] } log waiting :=
  { reads with
    prod := by
      have prod := reads.prod
      rw [length_cons] at prod
      dsimp only
      omega
    ring := reads.ring.pop reads.laps
    laps := by
      have laps := reads.laps
      dsimp only
      omega
    logged := by
      rw [append_assoc]
      exact reads.logged }

theorem Reads.poll (mask : cq.cqe = 2 ^ log - 1) (old : cq.prodIndex = cq.consIndex →
      cq.unwrittenBelow ≤ cq.consIndex ∨ cq.consIndex &&& cq.buf.nent ≠ 0) :
    waiting = [] ∧ cq.pollPass = cq ∨ ∃ wc rest, waiting = wc :: rest ∧
        cq.pollPass = { cq with consIndex := cq.consIndex + 1, polled := cq.polled ++ [wc] } := by
  rw [pollPass_eq (reads.inside mask) reads.inBounds]
  cases waiting with
  | nil =>
    refine .inl ⟨rfl, takeCqe_none ?_⟩
    have lap : cq.unwrittenBelow ≤ cq.consIndex ∨ ringLap log cq.consIndex = 1 := by
      refine (old reads.prod).imp id ?_
      intro odd
      rw [reads.size] at odd
      rw [← swOwnershipBit_eq, swOwnershipBit, if_neg odd]
    have positive := Nat.two_pow_pos log
    rw [getSwCqe_eq mask]
    rcases reads.ring.vacant (by omega) lap with empty | other
    · rw [empty]
      exact ite_self none
    · rw [if_neg other]
  | cons wc rest =>
    exact .inr ⟨wc, rest, rfl, takeCqe_completion (getSwCqe_first mask reads.ring)⟩

omit reads in
private theorem ringSlot_small {small n} (smaller : small < log) (below : ringSlot log n < 2 ^ small) :
    ringSlot log n = ringSlot small n ∧ ringLap small n = 0 := by
  have split : 2 ^ log = 2 ^ small * 2 ^ (log - small) := by
    rw [← Nat.pow_add]
    congr 1
    omega
  have even : 2 ∣ 2 ^ (log - small) := Nat.pow_dvd_pow 2 (show 1 ≤ log - small by omega)
  have inner : ringSlot log n % 2 ^ small = ringSlot small n := by
    exact Nat.mod_mod_of_dvd _ (Nat.pow_dvd_pow 2 (le_of_lt smaller))
  refine ⟨by rw [← inner, Nat.mod_eq_of_lt below], ?_⟩
  have quotient : ringSlot log n / 2 ^ small = n / 2 ^ small % 2 ^ (log - small) := by
    unfold ringSlot
    rw [split, Nat.mod_mul_right_div_self]
  rw [Nat.div_eq_of_lt below] at quotient
  unfold ringLap
  rw [← Nat.mod_mod_of_dvd _ even, ← quotient]

variable {small : Nat}

omit reads in
theorem Reads.pollExchanged (reads : cq.Reads small waiting)
    (mask : cq.cqe = 2 ^ log - 1) (smaller : small < log)
    (below : cq.consIndex % (cq.cqe + 1) < cq.buf.nent)
    (unwritten : cq.prodIndex = cq.consIndex →
      cq.consIndex &&& (cq.cqe + 1) ≠ 0 ∧ cq.consIndex < cq.unwrittenBelow) :
    cq.pollPass = cq ∨ ∃ wc rest, waiting = wc :: rest ∧
        cq.pollPass = { cq with consIndex := cq.consIndex + 1, polled := cq.polled ++ [wc] } := by
  have inSlot : ringSlot log cq.consIndex < 2 ^ small := by
    rw [mask, mask_succ, reads.size] at below
    exact below
  obtain ⟨sameSlot, even⟩ := ringSlot_small smaller inSlot
  have inside : (cq.consIndex &&& cq.cqe) < cq.buf.nent := by
    rw [mask, and_mask, reads.size]
    exact inSlot
  rw [pollPass_eq inside reads.inBounds]
  cases waiting with
  | nil =>
    obtain ⟨odd, isNew⟩ := unwritten reads.prod
    rw [mask, mask_succ] at odd
    have positive := Nat.two_pow_pos small
    have zero := reads.ring.unwritten cq.consIndex le_rfl (by omega) isNew
    have lap : ringLap log cq.consIndex = 1 := by rw [← swOwnershipBit_eq, swOwnershipBit, if_neg odd]
    refine .inl (takeCqe_none ?_)
    rw [getSwCqe_eq mask, sameSlot, zero, lap]
    rfl
  | cons wc rest =>
    have first := reads.ring.first
    rw [even] at first
    by_cases lap : ringLap log cq.consIndex = 0
    · refine .inr ⟨wc, rest, rfl, takeCqe_completion ?_⟩
      rw [getSwCqe_eq mask, sameSlot, first, lap]
      rfl
    · refine .inl (takeCqe_none ?_)
      rw [getSwCqe_eq mask, sameSlot, first]
      exact if_neg (Ne.symm lap)

theorem Reads.push (wc) (room : cq.unpolled < cq.buf.nent) : Reads { cq with
      prodIndex := cq.prodIndex + 1
      produced := cq.produced ++ [wc]
      buf := cq.buf.write cq.prodIndex (.completion wc) } log (waiting ++ [wc]) :=
  { reads with
    prod := by
      have prod := reads.prod
      rw [length_append, length_singleton]
      dsimp only
      omega
    ring := by
      rw [reads.unpolled_eq, reads.size] at room
      have pushed := reads.ring.push (.completion wc) (by rw [length_map]; omega)
      rw [length_map, ← reads.prod] at pushed
      rw [map_append]
      unfold CqBuf.write
      rw [reads.size]
      exact pushed
    logged := by rw [reads.logged, append_assoc] }

variable {old new : List Wc}

omit reads in
theorem Switched.push (switched : cq.Switched log small old new buf) (wc) (room : cq.unpolled < buf.nent) :
    Switched { cq with
      prodIndex := cq.prodIndex + 1
      produced := cq.produced ++ [wc]
      resizeBuf := .live (buf.write cq.prodIndex (.completion wc)) } log small old (new ++ [wc])
      (buf.write cq.prodIndex (.completion wc)) := by
  have count : cq.unpolled = old.length + new.length := by
    rw [unpolled, switched.logged, length_append, Nat.add_sub_cancel_left, length_append]
  rw [count, switched.sizes.1] at room
  have prod := switched.prod
  exact
    { switched with
      resizeBuf := rfl
      prod := by
        rw [length_append, length_singleton]
        dsimp only
        omega
      newRing := by
        have pushed := switched.newRing.push (.completion wc) (by rw [length_map]; omega)
        rw [length_map, ← prod] at pushed
        rw [map_append]
        unfold CqBuf.write
        rw [switched.sizes.1]
        exact pushed
      few := by
        rw [length_append, length_singleton]
        omega
      logged := by rw [switched.logged, append_assoc, append_assoc] }

/-! ### Resizing -/

theorem Reads.wipe {nent} (fewer : nent ≤ cq.buf.nent)
    (spared : ∀ offset < cq.unpolled, nent ≤ (cq.consIndex + offset) % cq.buf.nent) :
    Reads (cq.initCqFragBuf nent) log waiting :=
  { reads with
    ring := by
      refine reads.ring.wipe ?_ ?_
      · intro offset inside
        rw [length_map] at inside
        have above := spared offset (by rw [reads.unpolled_eq]; exact inside)
        rw [reads.size] at above
        exact if_neg (Nat.not_lt.mpr above)
      · intro slot
        by_cases low : slot < nent
        · exact .inr (if_pos low)
        · exact .inl (if_neg low)
    inBounds := by
      dsimp only [initCqFragBuf]
      rw [reads.inBounds, decide_eq_true fewer]
      rfl }

theorem Reads.congr (buf : next.buf = cq.buf) (device : next.deviceOnResized = cq.deviceOnResized)
    (prod : next.prodIndex = cq.prodIndex) (cons : next.consIndex = cq.consIndex)
    (laps : next.unwrittenBelow = cq.unwrittenBelow) (produced : next.produced = cq.produced)
    (polled : next.polled = cq.polled) (inBounds : next.inBounds = cq.inBounds) : next.Reads log waiting := by
  cases next
  cases buf
  cases device
  cases prod
  cases cons
  cases laps
  cases produced
  cases polled
  cases inBounds
  exact { reads with }

theorem Reads.switch
    (prepared : cq.Prepared log small) (switchedNow : cq.deviceResize (2 ^ small) = some next) :
    next.cqe = cq.cqe ∧ next.Switched log small waiting [] ⟨fun _ => zeroCqe, 2 ^ small, 64⟩ := by
  unfold deviceResize at switchedNow
  split at switchedNow
  · next room =>
    rw [and_eq_true, decide_eq_true_eq, decide_eq_true_eq, reads.unpolled_eq, reads.size] at room
    cases switchedNow
    have pushed := reads.ring.push .resizeCq (by rw [length_map]; omega)
    rw [length_map, ← reads.prod] at pushed
    refine ⟨rfl, ?_⟩
    exact
      { prepared with
        phase := rfl
        size := reads.size
        device := rfl
        sizes := ⟨rfl, prepared.cqeSize.symm⟩
        resizedFrom := by dsimp only; rw [reads.prod]
        prod := rfl
        oldRing := by
          unfold CqBuf.write
          rw [reads.size]
          exact pushed
        laps := reads.laps
        newRing := ⟨Nat.le_add_right _ _, le_rfl, nofun,
          fun spot _ old isOld => absurd old (Nat.not_lt.mpr isOld),
          fun _ _ _ _ => rfl⟩
        few := room.2
        logged := by rw [append_nil]; exact reads.logged
        inBounds := reads.inBounds }
  · cases switchedNow

omit reads

variable (mask : cq.cqe = 2 ^ log - 1)

include mask

private theorem copyLoop_spec {small limit bound} (old : List Wc)
    {newItems} : ∀ (fuel i : Nat) (mem : Nat → Cqe Wc) {oldLimit oldBound},
    LapRing cq.buf.mem log i oldLimit oldBound (old.map .completion ++ [.resizeCq]) →
    old.length < fuel →
    (∀ j, i ≤ j → j < i + old.length → (j + 1) &&& 2 ^ small = (j + 1) % 2 ^ small) →
    LapRing mem small (i + old.length + 1) limit bound newItems →
    limit ≤ i + 1 + 2 ^ small →
    ∃ copied, cq.copyLoop (2 ^ small) fuel i mem true = some (copied, true) ∧
      LapRing copied small (i + 1) limit bound (old.map .completion ++ newItems) ∧
      ∀ slot, (∀ j, i < j → j ≤ i + old.length → slot ≠ ringSlot small j) → copied slot = mem slot := by
  induction old with
  | nil =>
    intro fuel i mem oldLimit oldBound ring enough _ newRing _
    obtain ⟨fuel, rfl⟩ := Nat.exists_eq_succ_of_ne_zero (Nat.ne_of_gt enough)
    have found : cq.getSwCqe i = some .resizeCq := by rw [getSwCqe_eq mask, ring.first, if_pos rfl]
    exact ⟨mem, by simp only [copyLoop, found], newRing, fun _ _ => rfl⟩
  | cons wc rest ih =>
    intro fuel i mem oldLimit oldBound ring enough slots newRing near
    obtain ⟨fuel, rfl⟩ := Nat.exists_eq_succ_of_ne_zero (Nat.ne_of_gt (Nat.zero_lt_of_lt enough))
    rw [length_cons] at enough slots newRing
    have fits := newRing.fits
    have found : cq.getSwCqe i = some (.completion wc) := by rw [getSwCqe_eq mask, ring.first, if_pos rfl]
    have slot : (i + 1) &&& 2 ^ small = ringSlot small (i + 1) := slots i le_rfl (by omega)
    have start : i + (rest.length + 1) + 1 = i + 1 + rest.length + 1 := by omega
    rw [start] at newRing fits
    have moved := newRing.update_of_ne (ringSlot small (i + 1))
      (fun spot after before => ringSlot_ne (by omega) (by omega))
      ⟨some (.completion wc), ringLap small (i + 1)⟩
    obtain ⟨copied, loop, copiedRing, kept⟩ := ih fuel (i + 1) _ ring.tail (by omega)
      (fun j after before => slots j (by omega) (by omega)) moved (by omega)
    refine ⟨copied, ?_, ?_, ?_⟩
    · simp only [copyLoop, found, slot, swOwnershipBit_eq, Bool.true_and,
        decide_eq_true (ringSlot_lt small (i + 1))]
      exact loop
    · refine copiedRing.pushFront near ?_
      rw [kept (ringSlot small (i + 1)) (fun j after before => ringSlot_ne (by omega) (by omega)), update_self]
    · intro other apart
      rw [length_cons] at apart
      rw [kept other (fun j after before => apart j (by omega) (by omega))]
      exact update_of_ne (apart (i + 1) (by omega) (by omega)) _ _

theorem Switched.finish (switched : cq.Switched log small old new buf)
    (slots : ∀ offset < cq.resizedFrom - (cq.consIndex + 1),
      (cq.consIndex + offset + 1) &&& buf.nent = (cq.consIndex + offset + 1) % buf.nent) :
    (cq.resizeFinish (2 ^ small)).Reads small (old ++ new) ∧ (cq.resizeFinish (2 ^ small)).cqe = 2 ^ small - 1 ∧
      (cq.resizeFinish (2 ^ small)).phase = .idle ∧ (cq.resizeFinish (2 ^ small)).Released := by
  have sameSize : ¬ cq.buf.cqeSize ≠ buf.cqeSize := not_not.mpr switched.sizes.2.symm
  have from_ := switched.resizedFrom
  have oldFits := switched.oldRing.fits
  have oldRound := switched.oldRing.round
  have few := switched.few
  rw [length_append, length_map, length_singleton] at oldFits
  rw [switched.sizes.1] at slots
  have shortened := switched.newRing.shorten (cq.consIndex + 1 + 2 ^ small)
    (by omega) (by rw [length_map]; omega)
  rw [from_] at shortened
  obtain ⟨copied, loop, ring, -⟩ := copyLoop_spec mask old (cq.cqe + 1) cq.consIndex buf.mem
    switched.oldRing (by rw [mask, mask_succ]; omega)
    (fun j after before => by
      obtain ⟨offset, rfl⟩ := Nat.exists_eq_add_of_le after
      exact slots offset (by omega)) shortened le_rfl
  have isCopied : cq.copyResizeCqes buf = some (copied, true) := by
    unfold copyResizeCqes
    rw [if_neg sameSize, switched.sizes.1, switched.inBounds]
    exact loop
  have res : cq.resizeFinish (2 ^ small) = { cq with
      buf := { buf with mem := copied }
      resizeBuf := .null
      consIndex := cq.consIndex + 1
      structs := cq.structs - 1
      frags := cq.frags - 1
      deviceOnResized := false
      inBounds := true
      unwrittenBelow := cq.consIndex + 1 + buf.nent
      cqe := 2 ^ small - 1
      phase := .idle } := by
    simp [resizeFinish, switched.resizeBuf, isCopied]
  rw [res]
  refine ⟨?_, rfl, rfl, rfl, ?_, ?_⟩
  · exact
      { size := switched.sizes.1
        device := rfl
        prod := by
          dsimp only
          rw [switched.prod, from_, length_append]
          omega
        ring := by
          rw [map_append, switched.sizes.1]
          exact ring.rebound (by omega) le_rfl
        laps := by rw [switched.sizes.1]
        logged := switched.logged
        inBounds := rfl }
  · dsimp only
    rw [switched.allocated.1]
  · dsimp only
    rw [switched.allocated.2]

theorem Switched.exchange {new} (switched : cq.Switched log small [] new buf) :
    cq.pollPass.Reads small new ∧ cq.pollPass.cqe = cq.cqe ∧ cq.pollPass.phase = cq.phase ∧
      cq.pollPass.Released := by
  have inside : (cq.consIndex &&& cq.cqe) < cq.buf.nent := by
    rw [mask, and_mask, switched.size]
    exact ringSlot_lt log _
  have from_ : cq.resizedFrom = cq.consIndex + 1 := switched.resizedFrom
  rw [pollPass_eq inside switched.inBounds,
    takeCqe_resize (getSwCqe_first mask switched.oldRing) switched.resizeBuf]
  refine ⟨?_, rfl, rfl, rfl, ?_, ?_⟩
  · exact
      { switched with
        size := switched.sizes.1
        device := rfl
        prod := by rw [switched.prod, from_]
        ring := by
          have ring := switched.newRing
          rw [from_] at ring
          rw [switched.sizes.1]
          exact ring
        laps := by rw [switched.sizes.1] }
  · dsimp only
    rw [switched.allocated.1]
  · dsimp only
    rw [switched.allocated.2]

theorem Switched.poll (switched : cq.Switched log small (wc :: old) new buf) :
    cq.pollPass.Switched log small old new buf ∧ cq.pollPass.cqe = cq.cqe := by
  have inside : (cq.consIndex &&& cq.cqe) < cq.buf.nent := by
    rw [mask, and_mask, switched.size]
    exact ringSlot_lt log _
  have from_ := switched.resizedFrom
  have few := switched.few
  have laps := switched.laps
  rw [length_cons] at from_ few
  rw [pollPass_eq inside switched.inBounds, takeCqe_completion (getSwCqe_first mask switched.oldRing)]
  refine ⟨?_, rfl⟩
  exact
    { switched with
      resizedFrom := by
        dsimp only
        omega
      oldRing := switched.oldRing.pop laps
      laps := by
        dsimp only
        omega
      few := by omega
      logged := by
        rw [switched.logged, append_assoc]
        rfl }

omit mask

end KernelCq

/-! ### Runs -/

open KernelCq

/-- Completions from the consumer's index up to the entry of the resize are copied to their own slots. -/
def ResizeBuf.CopiesRight (consIndex resizedFrom : Nat) : ResizeBuf Wc → Prop
  | .live buf => ∀ offset < resizedFrom - (consIndex + 1),
      (consIndex + offset + 1) &&& buf.nent = (consIndex + offset + 1) % buf.nent
  | .null => True
  | .dangling => True

instance (consIndex resizedFrom : Nat) (resizeBuf : ResizeBuf Wc) :
    Decidable (resizeBuf.CopiesRight consIndex resizedFrom) :=
  match resizeBuf with
  | .live _ => Nat.decidableBallLT _ _
  | .null => isTrue trivial
  | .dangling => isTrue trivial

/-- The steps that a resize or a poll may take. A resize that gets its structure also gets its buffer,
smaller than the old one; entries are of 64 bytes; no completion waits where `init_cq_frag_buf` wipes.
Mailbox and command do not fail. When the resize ends, the completions before its entry are copied to their
own slots. A poll of an empty queue looks at no unwritten slot unless the bit for its index is set; while
the size is that of the old buffer, it looks at a slot of the new one that is also its own, at an unwritten
one only where the bit for its index and the old size is set. -/
def Proper (cq : KernelCq Wc) : Move Wc → Prop
  | .complete _ => True
  | .poll =>
    if cq.cqe + 1 = cq.buf.nent then
      cq.prodIndex = cq.consIndex → cq.unwrittenBelow ≤ cq.consIndex ∨ cq.consIndex &&& cq.buf.nent ≠ 0
    else
      cq.consIndex % (cq.cqe + 1) < cq.buf.nent ∧ (cq.prodIndex = cq.consIndex →
          cq.consIndex &&& (cq.cqe + 1) ≠ 0 ∧ cq.consIndex < cq.unwrittenBelow)
  | .resizeBegin supported logMaxCqSz entries structOk bufOk =>
    ∀ nent ∈ cq.resizeEntries supported logMaxCqSz entries, structOk = true →
      bufOk = true ∧ nent < cq.buf.nent ∧ cq.buf.cqeSize = 64 ∧
        ∀ offset < cq.unpolled, nent ≤ (cq.consIndex + offset) % cq.buf.nent
  | .resizeCommand mailboxOk commandOk => mailboxOk = true ∧ commandOk = true
  | .resizeFinish => cq.resizeBuf.CopiesRight cq.consIndex cq.resizedFrom

instance (cq : KernelCq Wc) (move : Move Wc) : Decidable (Proper cq move) :=
  match move with
  | .complete _ => isTrue trivial
  | .poll => inferInstanceAs (Decidable (ite _ _ _))
  | .resizeBegin .. => inferInstanceAs (Decidable (∀ _ ∈ _, _))
  | .resizeCommand _ _ => inferInstanceAs (Decidable (_ ∧ _))
  | .resizeFinish => inferInstanceAs (Decidable (cq.resizeBuf.CopiesRight cq.consIndex cq.resizedFrom))

inductive Reachable (kind : KernelCq Wc → Move Wc → Prop) : KernelCq Wc → Prop where
  | create (log cqeSize index : Nat) : Reachable kind (.create log cqeSize index)
  | step {cq next : KernelCq Wc} (move : Move Wc) (reached : Reachable kind cq)
      (isKind : kind cq move) (moved : step cq move = some next) : Reachable kind next

variable {cq next : KernelCq Wc}

theorem create_inv (log cqeSize index) : Inv (create log cqeSize index : KernelCq Wc) := by
  refine .idle log [] ?_ rfl rfl ⟨rfl, rfl, rfl⟩
  exact
    { size := rfl
      device := rfl
      prod := rfl
      ring := ⟨Nat.le_add_right _ _, le_rfl, nofun, fun _ _ _ _ => .inl rfl, fun _ _ _ isNew => by cases isNew⟩
      laps := Nat.zero_le _
      logged := rfl
      inBounds := rfl }

theorem complete_inv (inv : Inv cq) {wc} (moved : cq.complete wc = some next) : Inv next := by
  have settled : ∀ {log : Nat} {waiting : List Wc}, cq.Reads log waiting →
      next.Reads log (waiting ++ [wc]) ∧ next = { cq with
        prodIndex := cq.prodIndex + 1
        produced := cq.produced ++ [wc]
        buf := cq.buf.write cq.prodIndex (.completion wc) } := by
    intro log waiting reads
    unfold complete at moved
    dsimp only at moved
    split at moved
    · next isResized _ =>
      rw [reads.device] at isResized
      cases isResized
    · cases moved
    · split at moved
      · next room =>
        cases moved
        exact ⟨reads.push wc room, rfl⟩
      · cases moved
  cases inv with
  | idle log waiting reads mask phase freed =>
    obtain ⟨nextReads, rfl⟩ := settled reads
    exact .idle log _ nextReads mask phase freed
  | prepared log small waiting reads mask prepared =>
    obtain ⟨nextReads, rfl⟩ := settled reads
    exact .prepared log small _ nextReads mask
      { prepared with }
  | switched log small old new buf mask switched =>
    unfold complete at moved
    dsimp only at moved
    split at moved
    · next live _ isLive =>
      rw [switched.resizeBuf] at isLive
      cases isLive
      split at moved
      · next room =>
        cases moved
        exact .switched log small old _ _ mask (switched.push wc room)
      · cases moved
    · cases moved
    · next notResized =>
      rw [switched.device] at notResized
      cases notResized
  | exchanged log small waiting reads mask smaller phase freed =>
    obtain ⟨nextReads, rfl⟩ := settled reads
    exact .exchanged log small _ nextReads mask smaller phase freed

theorem poll_inv (inv : Inv cq) (proper : Proper cq .poll) : Inv cq.pollPass := by
  unfold Proper at proper
  dsimp only at proper
  cases inv with
  | idle log waiting reads mask phase freed =>
    rw [if_pos (by rw [mask, mask_succ, reads.size])] at proper
    rcases reads.poll mask proper with ⟨-, same⟩ | ⟨wc, rest, rfl, same⟩
    · rw [same]
      exact .idle log waiting reads mask phase freed
    · rw [same]
      exact .idle log rest reads.pop mask phase freed
  | prepared log small waiting reads mask prepared =>
    rw [if_pos (by rw [mask, mask_succ, reads.size])] at proper
    rcases reads.poll mask proper with ⟨-, same⟩ | ⟨wc, rest, rfl, same⟩
    · rw [same]
      exact .prepared log small waiting reads mask prepared
    · rw [same]
      exact .prepared log small rest reads.pop mask
        { prepared with }
  | switched log small old new buf mask switched =>
    cases old with
    | nil =>
      obtain ⟨reads, sameCqe, samePhase, freed⟩ := switched.exchange mask
      exact .exchanged log small new reads (sameCqe.trans mask) switched.smaller
        (samePhase.trans switched.phase) freed
    | cons wc rest =>
      obtain ⟨nextSwitched, sameCqe⟩ := switched.poll mask
      exact .switched log small rest new buf (sameCqe.trans mask) nextSwitched
  | exchanged log small waiting reads mask smaller phase freed =>
    have apart : ¬ cq.cqe + 1 = cq.buf.nent := by
      rw [mask, mask_succ, reads.size]
      exact Nat.ne_of_gt (Nat.pow_lt_pow_right (by decide) smaller)
    rw [if_neg apart] at proper
    rcases reads.pollExchanged mask smaller proper.1 proper.2 with same | ⟨wc, rest, rfl, same⟩
    · rw [same]
      exact .exchanged log small waiting reads mask smaller phase freed
    · rw [same]
      exact .exchanged log small rest reads.pop mask smaller phase freed

theorem resizeBegin_inv (inv : Inv cq) {supported structOk bufOk logMaxCqSz entries}
    (proper : Proper cq (.resizeBegin supported logMaxCqSz entries structOk bufOk))
    (moved : step cq (.resizeBegin supported logMaxCqSz entries structOk bufOk) = some next) :
    Inv next ∧ (next.phase = .idle → next = cq) := by
  unfold step at moved
  dsimp only at moved
  split at moved
  · cases moved
  next isIdle =>
  have idle := not_not.mp isIdle
  split at moved
  · cases moved
    exact ⟨inv, fun _ => rfl⟩
  next nent isNent =>
  cases moved
  cases inv with
  | idle log waiting reads mask phase freed =>
    unfold resizeKernel
    cases structOk with
    | false =>
      have same : { cq with resizeBuf := ResizeBuf.null } = cq := by rw [← freed.1]
      rw [if_pos rfl, same]
      exact ⟨.idle log waiting reads mask phase freed, fun _ => rfl⟩
    | true =>
      obtain ⟨isOk, smaller, cqeSize, spared⟩ := proper nent isNent rfl
      rw [if_neg (by decide), isOk, if_neg (by decide)]
      refine ⟨?_, nofun⟩
      obtain ⟨small, isSmall⟩ : ∃ small, nent = 2 ^ small := by
        obtain ⟨-, isNent⟩ := ite_none_left_eq_some.mp isNent
        split at isNent
        · cases isNent
        split at isNent
        · cases isNent
        · split at isNent
          · cases isNent
          · cases isNent
            exact roundupPowOfTwo_eq (entries + 1)
      have withBuf : Reads { cq with
          resizeBuf := .live ⟨fun _ => zeroCqe, nent, 64⟩
          structs := cq.structs + 1
          frags := cq.frags + 1
          phase := .prepared nent } log waiting :=
        reads.congr rfl rfl rfl rfl rfl rfl rfl rfl
      refine .prepared log small waiting (withBuf.wipe (le_of_lt smaller) spared) mask ?_
      rw [reads.size, isSmall] at smaller
      exact
        { phase := by rw [isSmall]; rfl
          smaller := (Nat.pow_lt_pow_iff_right (by decide)).mp smaller
          resizeBuf := by rw [isSmall]; rfl
          cqeSize := cqeSize
          allocated := by
            rw [freed.2.1, freed.2.2]
            exact ⟨rfl, rfl⟩ }
  | prepared log small waiting reads mask prepared =>
    rw [prepared.phase] at idle
    cases idle
  | switched log small old new buf mask switched =>
    rw [switched.phase] at idle
    cases idle
  | exchanged log small waiting reads mask smaller phase freed =>
    rw [phase] at idle
    cases idle

theorem resizeCommand_inv (inv : Inv cq) {mailboxOk commandOk}
    (proper : Proper cq (.resizeCommand mailboxOk commandOk))
    (moved : step cq (.resizeCommand mailboxOk commandOk) = some next) : Inv next := by
  obtain ⟨isMailbox, isCommand⟩ := proper
  unfold step at moved
  dsimp only at moved
  split at moved
  · next entries isPrepared =>
    rw [isMailbox, isCommand, Bool.and_true, if_pos rfl] at moved
    cases inv with
    | idle log waiting reads mask phase freed | exchanged log small waiting reads mask smaller phase freed =>
      rw [phase] at isPrepared
      cases isPrepared
    | prepared log small waiting reads mask prepared =>
      rw [prepared.phase] at isPrepared
      cases isPrepared
      obtain ⟨sameCqe, switched⟩ := reads.switch prepared moved
      exact .switched log small waiting [] _ (sameCqe.trans mask) switched
    | switched log small old new buf mask switched =>
      rw [switched.phase] at isPrepared
      cases isPrepared
  · cases moved

theorem resizeFinish_inv (inv : Inv cq) (proper : Proper cq .resizeFinish)
    (moved : step cq .resizeFinish = some next) : Inv next := by
  unfold step at moved
  dsimp only at moved
  split at moved
  · next entries isCommanded =>
    cases moved
    cases inv with
    | idle log waiting reads mask phase freed =>
      rw [phase] at isCommanded
      cases isCommanded
    | prepared log small waiting reads mask prepared =>
      rw [prepared.phase] at isCommanded
      cases isCommanded
    | switched log small old new buf mask switched =>
      rw [switched.phase] at isCommanded
      cases isCommanded
      have slots : cq.resizeBuf.CopiesRight cq.consIndex cq.resizedFrom := proper
      rw [switched.resizeBuf] at slots
      obtain ⟨reads, nextMask, phase, freed⟩ := switched.finish mask slots
      exact .idle small (old ++ new) reads nextMask phase freed
    | exchanged log small waiting reads mask smaller phase freed =>
      rw [phase] at isCommanded
      cases isCommanded
      have res : cq.resizeFinish (2 ^ small) = { cq with cqe := 2 ^ small - 1, phase := .idle } := by
        simp [resizeFinish, freed.1]
      rw [res]
      exact .idle small waiting (reads.congr rfl rfl rfl rfl rfl rfl rfl rfl) rfl rfl freed
  · cases moved

theorem step_inv (inv : Inv cq) {move} (proper : Proper cq move)
    (moved : step cq move = some next) : Inv next := by
  cases move with
  | complete wc => exact complete_inv inv moved
  | poll =>
    cases moved
    exact poll_inv inv proper
  | resizeBegin supported logMaxCqSz entries structOk bufOk =>
    exact (resizeBegin_inv inv proper moved).1
  | resizeCommand mailboxOk commandOk => exact resizeCommand_inv inv proper moved
  | resizeFinish => exact resizeFinish_inv inv proper moved

theorem reachable_inv (reached : Reachable Proper cq) : Inv cq := by
  induction reached with
  | create log cqeSize index => exact create_inv log cqeSize index
  | step move _ proper moved ih => exact step_inv ih proper moved

/-- The completions polled are the first produced; between resizes the next one is polled, the size is the
buffer's and no second one is left; a resize that returns at once changes nothing. -/
structure Lossless (cq : KernelCq Wc) : Prop where
  inOrder : cq.polled <+: cq.produced
  inBounds : cq.inBounds = true
  next : cq.phase = .idle → ∀ wc ∈ cq.produced[cq.polled.length]?, cq.pollPass.polled = cq.polled ++ [wc]
  released : cq.phase = .idle → cq.Released ∧ cq.cqe + 1 = cq.buf.nent
  refused : ∀ supported logMaxCqSz entries structOk bufOk after,
    Proper cq (.resizeBegin supported logMaxCqSz entries structOk bufOk) →
    step cq (.resizeBegin supported logMaxCqSz entries structOk bufOk) = some after →
    after.phase = .idle → after = cq

theorem KernelCq.Inv.lossless (inv : Inv cq) : Lossless cq := by
  have refused supported logMaxCqSz entries structOk bufOk after (proper : Proper cq
      (.resizeBegin supported logMaxCqSz entries structOk bufOk)) (moved : step cq
      (.resizeBegin supported logMaxCqSz entries structOk bufOk) = some after) : after.phase = .idle → after =
      cq := (resizeBegin_inv inv proper moved).2
  cases inv with
  | idle log waiting reads mask phase freed =>
    refine ⟨⟨waiting, reads.logged.symm⟩, reads.inBounds, ?_, ?_, refused⟩
    · intro _ wc isNext
      rw [reads.logged, getElem?_append_right le_rfl, Nat.sub_self] at isNext
      cases waiting with
      | nil => cases isNext
      | cons first rest =>
        cases isNext
        rw [pollPass_eq (reads.inside mask) reads.inBounds, takeCqe_completion (getSwCqe_first mask reads.ring)]
    · intro _
      exact ⟨freed, by rw [mask, mask_succ, reads.size]⟩
  | prepared log small waiting reads mask prepared =>
    refine ⟨⟨waiting, reads.logged.symm⟩, reads.inBounds, ?_, ?_, refused⟩ <;>
      exact fun idle => by rw [prepared.phase] at idle; cases idle
  | switched log small old new buf mask switched =>
    refine ⟨⟨old ++ new, switched.logged.symm⟩, switched.inBounds, ?_, ?_, refused⟩ <;>
      exact fun idle => by rw [switched.phase] at idle; cases idle
  | exchanged log small waiting reads mask smaller phase freed =>
    refine ⟨⟨waiting, reads.logged.symm⟩, reads.inBounds, ?_, ?_, refused⟩ <;>
      exact fun idle => by rw [phase] at idle; cases idle

/-- In every run of proper steps no completion is lost, repeated or made up. -/
theorem resize_cq_lossless (cq : KernelCq Wc) (reached : Reachable Proper cq) : Lossless cq :=
  (reachable_inv reached).lossless

theorem Reachable.run {kind test}
    (reached : Reachable kind cq) (tests : ∀ cq move, test cq move = true → kind cq move)
    (moves : List (Move Wc)) (moved : run test cq moves = some next) : Reachable kind next := by
  induction moves generalizing cq with
  | nil =>
    cases moved
    exact reached
  | cons move rest ih =>
    unfold Cq.run at moved
    split at moved
    · next isKind =>
      obtain ⟨middle, first, rested⟩ := bind_eq_some_iff.mp moved
      exact ih (reached.step move (tests cq move isKind) first) rested
    · cases moved

/-- From four entries to two, with a completion in the fourth slot polled before the command, and one in the
new buffer. -/
def shrinkRun : List (Move Nat) :=
  [.complete 5, .resizeBegin true 20 1 true true, .poll, .resizeCommand true true, .complete 7,
    .resizeFinish, .poll, .poll]

theorem resize_cq_lossless_shrunk :
    ∃ cq, run (fun cq move => decide (Proper cq move)) (create 2 64 3) shrinkRun = some cq ∧
      cq.polled = [5, 7] ∧ cq.buf.nent = 2 ∧ Lossless cq := by
  have ends : (run (fun cq move => decide (Proper cq move)) (create 2 64 3) shrinkRun).map
      (fun cq => (cq.polled, cq.buf.nent)) = some ([5, 7], 2) := by decide +kernel
  obtain ⟨cq, moved, final⟩ := map_eq_some_iff.mp ends
  simp only [Prod.mk.injEq] at final
  have reached := (Reachable.create 2 64 3).run (fun cq move test => of_decide_eq_true test) shrinkRun moved
  exact ⟨cq, moved, final.1, final.2, resize_cq_lossless cq reached⟩

/-- A completion waits in the first slot while the queue is resized to fewer entries. -/
def wipeRun : List (Move Nat) :=
  [.complete 5, .resizeBegin true 20 1 true true, .resizeCommand true true, .resizeFinish]

/-- It is never polled: its entry was wiped, nothing is copied, and the device uses the other
buffer. -/
theorem resize_wipes_completion : ¬ ∀ cq : KernelCq Nat, Reachable (fun _ _ => True) cq → Lossless cq := by
  intro always
  have ends : (run (fun _ _ => true) (create 2 64 0) wipeRun).map
      (fun cq => (cq.phase, cq.produced[cq.polled.length]?, cq.pollPass.polled)) =
        some (.idle, some 5, []) := by decide +kernel
  obtain ⟨cq, moved, final⟩ := map_eq_some_iff.mp ends
  simp only [Prod.mk.injEq] at final
  obtain ⟨idle, waits, nothing⟩ := final
  have reached := (Reachable.create 2 64 0).run (fun _ _ _ => trivial) wipeRun moved
  have polled := (always cq reached).next idle 5 waits
  rw [nothing] at polled
  simp at polled

end MlnxOfed.Cq
