/-
The clock on the device's timer (clock.c): frequent enough reads extend a counter of 41 bits to nanoseconds.
-/

import Mathlib.Data.Nat.ModEq
import Mathlib.Tactic.Ring

namespace MlnxOfed.Clock

/-- What changes of `cycles` and `tc` in `struct mlx5_timer`; the shift is 23 and the mask has 41 bits. -/
structure Timer where
  mult : Nat
  nominalCMult : Nat
  cycleLast : Nat
  nsec : Nat
  frac : Nat

/-- `clocksource_khz2mult` before its result is cut to 32 bits. -/
def clocksourceKhz2mult (khz : Nat) : Nat := (1000000 * 2 ^ 23 + khz / 2) / khz

def mlx5TimecounterInit (devFreq cycles nsec : Nat) : Timer :=
  { mult := clocksourceKhz2mult devFreq % 2 ^ 32
    nominalCMult := clocksourceKhz2mult devFreq % 2 ^ 32
    cycleLast := cycles % 2 ^ 41
    nsec := nsec
    frac := 0 }

variable (timer : Timer)

/-- The product of `cyclecounter_cyc2ns`: nanoseconds above, the 23 lower bits a fraction. -/
def Timer.cyc2ns (cycles frac : Nat) : Nat := (cycles * timer.mult + frac) % 2 ^ 64

/-- `tick` is `NSEC_PER_SEC / HZ`, the period is in jiffies. -/
def mlx5InitOverflowPeriod (tick : Nat) : Nat :=
  let overflowCycles := min ((2 ^ 64 - 1) / 2 / timer.mult) ((2 ^ 41 - 1) / 3)
  timer.cyc2ns overflowCycles 0 / 2 ^ 23 / tick

/-- `(cycles - cycle_last) & mask`. -/
def Timer.cycleDelta (cycles : Nat) : Nat :=
  (cycles % 2 ^ 41 + 2 ^ 41 - timer.cycleLast) % 2 ^ 41

def timecounterRead (cycles : Nat) : Timer :=
  let product := timer.cyc2ns (timer.cycleDelta cycles) timer.frac
  { timer with
    cycleLast := cycles % 2 ^ 41
    nsec := (timer.nsec + product / 2 ^ 23) % 2 ^ 64
    frac := product % 2 ^ 23 }

/-- The clock is read before the multiplier changes. -/
def mlx5PtpAdjfreq (cycles : Nat) (delta : Int) : Timer :=
  let diff := timer.nominalCMult * delta.natAbs / 1000000000 % 2 ^ 32
  { timecounterRead timer cycles with
    mult :=
      if delta < 0 then (timer.nominalCMult + 2 ^ 32 - diff) % 2 ^ 32
      else (timer.nominalCMult + diff) % 2 ^ 32 }

def maxAdj : Nat := 100000000

/-- The time in units of the fraction. -/
def Timer.time : Nat := timer.nsec * 2 ^ 23 + timer.frac

/-- A clock, the cycles at the last read, and the exact integral of the multiplier up to then. -/
structure ClockRun where
  timer : Timer
  cycles : Nat
  integral : Nat

inductive Move where
  | read
  | adjfreq (delta : Int)

def Move.Allowed : Move → Prop
  | read => True
  | adjfreq delta => delta.natAbs ≤ maxAdj

def ClockRun.step (run : ClockRun) (elapsed : Nat) (move : Move) : ClockRun :=
  { timer :=
      match move with
      | .read => timecounterRead run.timer (run.cycles + elapsed)
      | .adjfreq delta => mlx5PtpAdjfreq run.timer (run.cycles + elapsed) delta
    cycles := run.cycles + elapsed
    integral := run.integral + elapsed * run.timer.mult }

/-- The cycles counted in seven fifths of the overflow period, or in `num / den` of it. -/
def InTime (num den devFreq period tick elapsed : Nat) : Prop :=
  den * (elapsed * 1000000) ≤ num * (devFreq * (period * tick))

instance (num den devFreq period tick elapsed : Nat) :
    Decidable (InTime num den devFreq period tick elapsed) :=
  inferInstanceAs (Decidable (_ ≤ _))

/-- The clocks that are read at least once in seven fifths of the overflow period. -/
inductive Reachable (devFreq tick cycles nsec : Nat) : ClockRun → Prop where
  | init : Reachable devFreq tick cycles nsec ⟨mlx5TimecounterInit devFreq cycles nsec, cycles, 0⟩
  | step (run : ClockRun) (elapsed : Nat) (move : Move)
      (reached : Reachable devFreq tick cycles nsec run) (allowed : move.Allowed)
      (inTime : InTime 7 5 devFreq
        (mlx5InitOverflowPeriod (mlx5TimecounterInit devFreq cycles nsec) tick) tick elapsed) :
      Reachable devFreq tick cycles nsec (run.step elapsed move)

section Margin

variable {devFreq tick cycles nsec elapsed : Nat}

structure Usable (devFreq : Nat) : Prop where
  some : 0 < devFreq
  field : devFreq < 2 ^ 32
  fits : clocksourceKhz2mult devFreq < 2 ^ 32

theorem Usable.mult (usable : Usable devFreq) :
    (mlx5TimecounterInit devFreq cycles nsec).mult = clocksourceKhz2mult devFreq :=
  Nat.mod_eq_of_lt usable.fits

/-- At most seven fifths of the cycles from which the period was computed go by. -/
private theorem elapsed_le (usable : Usable devFreq) (inTime : InTime 7 5 devFreq
      (mlx5InitOverflowPeriod (mlx5TimecounterInit devFreq cycles nsec) tick) tick elapsed) :
    ∃ overflowCycles, overflowCycles ≤ (2 ^ 41 - 1) / 3 ∧
      overflowCycles * clocksourceKhz2mult devFreq < 2 ^ 63 ∧
      5 * 8388608000000 * elapsed ≤ 7 * 8390755483648 * overflowCycles := by
  simp only [InTime, mlx5InitOverflowPeriod, Timer.cyc2ns, usable.mult, add_zero] at inTime
  generalize cyclesDef : min ((2 ^ 64 - 1) / 2 / clocksourceKhz2mult devFreq) ((2 ^ 41 - 1) / 3) =
    overflowCycles at inTime
  have below : overflowCycles * clocksourceKhz2mult devFreq ≤ (2 ^ 64 - 1) / 2 := by
    rw [← cyclesDef]
    exact (Nat.mul_le_mul_right _ (Nat.min_le_left ..)).trans (Nat.div_mul_le_self ..)
  refine ⟨overflowCycles, cyclesDef ▸ Nat.min_le_right .., by omega, ?_⟩
  rw [Nat.mod_eq_of_lt (by omega)] at inTime
  have field := usable.field
  have rounded : clocksourceKhz2mult devFreq * devFreq ≤ 8390755483648 :=
    (Nat.div_mul_le_self ..).trans (by omega)
  generalize clocksourceKhz2mult devFreq = mult at *
  have period : overflowCycles * mult / 2 ^ 23 / tick * tick * 2 ^ 23 ≤ overflowCycles * mult :=
    (Nat.mul_le_mul_right _ (Nat.div_mul_le_self ..)).trans (Nat.div_mul_le_self ..)
  generalize overflowCycles * mult / 2 ^ 23 / tick * tick = ns at *
  calc 5 * 8388608000000 * elapsed = 5 * (elapsed * 1000000) * 2 ^ 23 := by ring
    _ ≤ 7 * (devFreq * ns) * 2 ^ 23 := Nat.mul_le_mul_right _ inTime
    _ = 7 * devFreq * (ns * 2 ^ 23) := by ring
    _ ≤ 7 * devFreq * (overflowCycles * mult) := Nat.mul_le_mul_left _ period
    _ = 7 * overflowCycles * (mult * devFreq) := by ring
    _ ≤ 7 * overflowCycles * 8390755483648 := Nat.mul_le_mul_left _ rounded
    _ = 7 * 8390755483648 * overflowCycles := by ring

theorem margin (usable : Usable devFreq) (inTime : InTime 7 5 devFreq
      (mlx5InitOverflowPeriod (mlx5TimecounterInit devFreq cycles nsec) tick) tick elapsed)
    {mult frac} (adjusted : 10 * mult ≤ 11 * clocksourceKhz2mult devFreq)
    (small : frac < 2 ^ 23) : elapsed < 2 ^ 40 ∧ elapsed * mult + frac < 2 ^ 64 := by
  obtain ⟨overflowCycles, few, product, le⟩ := elapsed_le usable inTime
  refine ⟨by omega, ?_⟩
  have scaled := Nat.mul_le_mul_right (clocksourceKhz2mult devFreq) le
  have faster := Nat.mul_le_mul_left elapsed adjusted
  rw [Nat.mul_assoc, Nat.mul_assoc (7 * 8390755483648)] at scaled
  rw [Nat.mul_left_comm, Nat.mul_left_comm elapsed 11] at faster
  omega

structure ClockRun.Inv (devFreq nsec : Nat) (run : ClockRun) : Prop where
  nominal : run.timer.nominalCMult = clocksourceKhz2mult devFreq
  adjusted : 10 * run.timer.mult ≤ 11 * clocksourceKhz2mult devFreq
  frac : run.timer.frac < 2 ^ 23
  last : run.timer.cycleLast = run.cycles % 2 ^ 41
  exact : run.timer.time ≡ nsec * 2 ^ 23 + run.integral [MOD 2 ^ 87]

private theorem timecounterRead_time {timer elapsed} (last : timer.cycleLast = cycles % 2 ^ 41)
    (short : elapsed < 2 ^ 41) (fits : elapsed * timer.mult + timer.frac < 2 ^ 64) :
    (timecounterRead timer (cycles + elapsed)).time ≡ timer.time + elapsed * timer.mult [MOD 2 ^ 87] := by
  have delta : timer.cycleDelta (cycles + elapsed) = elapsed := by
    rw [Timer.cycleDelta, last]
    omega
  simp only [timecounterRead, Timer.time, Timer.cyc2ns, delta, Nat.mod_eq_of_lt fits]
  generalize productDef : elapsed * timer.mult + timer.frac = product
  have wrapped : (timer.nsec + product / 2 ^ 23) % 2 ^ 64 * 2 ^ 23 ≡
      (timer.nsec + product / 2 ^ 23) * 2 ^ 23 [MOD 2 ^ 87] :=
    (Nat.mod_modEq (timer.nsec + product / 2 ^ 23) (2 ^ 64)).mul_right' (2 ^ 23)
  have whole : (timer.nsec + product / 2 ^ 23) * 2 ^ 23 + product % 2 ^ 23 =
      timer.nsec * 2 ^ 23 + timer.frac + elapsed * timer.mult := by
    omega
  rw [← whole]
  exact wrapped.add_right _

private theorem adjusted_le {nominal delta} (small : delta.natAbs ≤ maxAdj)
    (fits : nominal < 2 ^ 32) (timer) (same : timer.nominalCMult = nominal) :
    10 * (mlx5PtpAdjfreq timer cycles delta).mult ≤ 11 * nominal := by
  have product := Nat.mul_le_mul_left nominal small
  simp only [mlx5PtpAdjfreq, same, maxAdj] at product ⊢
  split
  · omega
  · omega

theorem ClockRun.Inv.step {run : ClockRun} (usable : Usable devFreq) (inv : run.Inv devFreq nsec)
    {start : Nat} (inTime : InTime 7 5 devFreq
      (mlx5InitOverflowPeriod (mlx5TimecounterInit devFreq start nsec) tick) tick elapsed)
    {move : Move} (ok : move.Allowed) : (run.step elapsed move).Inv devFreq nsec := by
  obtain ⟨short, fits⟩ := margin usable inTime inv.adjusted inv.frac
  have time : (timecounterRead run.timer (run.cycles + elapsed)).time ≡
      nsec * 2 ^ 23 + (run.integral + elapsed * run.timer.mult) [MOD 2 ^ 87] := by
    rw [← add_assoc]
    exact (timecounterRead_time inv.last (by omega) fits).trans (inv.exact.add_right _)
  have frac : (timecounterRead run.timer (run.cycles + elapsed)).frac < 2 ^ 23 := Nat.mod_lt _ (by decide)
  cases move with
  | read => exact ⟨inv.nominal, inv.adjusted, frac, rfl, time⟩
  | adjfreq delta =>
    exact ⟨inv.nominal, adjusted_le ok usable.fits run.timer inv.nominal, frac, rfl, time⟩

theorem Reachable.inv (usable : Usable devFreq) {run}
    (reached : Reachable devFreq tick cycles nsec run) : run.Inv devFreq nsec := by
  induction reached with
  | init =>
    have mult := @Usable.mult devFreq cycles nsec usable
    refine ⟨mult, ?_, Nat.two_pow_pos 23, rfl, Nat.ModEq.refl _⟩
    exact Nat.mul_le_mul (by decide) mult.le
  | step run elapsed move _ ok inTime ih => exact ih.step usable inTime ok

end Margin

/-- Such reads extend the clock exactly, and a new multiplier makes no step. -/
theorem clock_extends {devFreq tick cycles nsec : Nat} (usable : Usable devFreq) {run : ClockRun}
    (reached : Reachable devFreq tick cycles nsec run) {elapsed : Nat}
    (inTime : InTime 7 5 devFreq
      (mlx5InitOverflowPeriod (mlx5TimecounterInit devFreq cycles nsec) tick) tick elapsed) :
    elapsed < 2 ^ 40 ∧ elapsed * run.timer.mult + run.timer.frac < 2 ^ 64 ∧
      run.timer.time ≡ nsec * 2 ^ 23 + run.integral [MOD 2 ^ 87] ∧
      ∀ delta,
        (run.step elapsed (.adjfreq delta)).timer.time = (run.step elapsed .read).timer.time := by
  have inv := reached.inv usable
  obtain ⟨short, fits⟩ := margin usable inTime inv.adjusted inv.frac
  exact ⟨short, fits, inv.exact, fun _ => rfl⟩

/-- A device of 156.25 MHz: a read, ten percent faster, a read, and slower again. -/
def adjustedRun : ClockRun :=
  ((((⟨mlx5TimecounterInit 156250 5 9, 5, 0⟩ : ClockRun).step 1000000 .read).step 2000000
    (.adjfreq 100000000)).step (2 ^ 37) .read).step 7 (.adjfreq (-100000000))

theorem clock_extends_adjusted :
    2 ^ 37 < 2 ^ 40 ∧ 2 ^ 37 * adjustedRun.timer.mult + adjustedRun.timer.frac < 2 ^ 64 ∧
      adjustedRun.timer.time ≡ 9 * 2 ^ 23 + adjustedRun.integral [MOD 2 ^ 87] ∧
      ∀ delta, (adjustedRun.step (2 ^ 37) (.adjfreq delta)).timer.time =
        (adjustedRun.step (2 ^ 37) .read).timer.time :=
  have usable : Usable 156250 := ⟨by decide, by decide, by decide⟩
  have allowed : (Move.adjfreq 100000000).Allowed ∧ (Move.adjfreq (-100000000)).Allowed := by
    constructor <;> simp only [Move.Allowed] <;> decide
  have slower : Reachable 156250 1000000 5 9 adjustedRun :=
    .step _ 7 (.adjfreq (-100000000)) (.step _ (2 ^ 37) .read (.step _ 2000000 (.adjfreq 100000000)
      (.step _ 1000000 .read .init trivial (by decide)) allowed.1 (by decide)) trivial (by decide))
      allowed.2 (by decide)
  clock_extends usable slower (by decide)

/-- After two periods a multiplier ten percent higher gives a product of more than 64 bits. -/
theorem two_periods_overflow :
    let timer := mlx5TimecounterInit 156250 0 0
    let faster := mlx5PtpAdjfreq timer 0 maxAdj
    ∃ elapsed, InTime 2 1 156250 (mlx5InitOverflowPeriod timer 1000000) 1000000 elapsed ∧
      ¬ elapsed * faster.mult + faster.frac < 2 ^ 64 := by
  refine ⟨343597187500, ?_, ?_⟩
  · decide
  · decide

end MlnxOfed.Clock
