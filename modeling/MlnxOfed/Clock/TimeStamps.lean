/-
Time stamps of packets (clock.h): the clock may be read between a stamp and its conversion.
-/

import MlnxOfed.Clock.PulseStart

namespace MlnxOfed.Clock

variable {timer : Timer} {cycles elapsed stamp : Nat}

private theorem cyc2time_before (last : timer.cycleLast = cycles % 2 ^ 41) (short : stamp < 2 ^ 40)
    (fits : stamp * timer.mult + timer.frac < 2 ^ 64) :
    timecounterCyc2time timer (cycles + stamp) =
      (timer.nsec + (stamp * timer.mult + timer.frac) / 2 ^ 23) % 2 ^ 64 := by
  have delta : timer.cycleDelta (cycles + stamp) = stamp := by
    rw [Timer.cycleDelta, last]
    omega
  rw [timecounterCyc2time, delta, if_neg (by omega), Timer.cyc2ns, Nat.mod_eq_of_lt fits]

private theorem cyc2time_after (later : stamp < elapsed) (short : elapsed < 2 ^ 40)
    (fits : elapsed * timer.mult < 2 ^ 64) (frac : timer.frac < 2 ^ 23) (slow : 2 ^ 23 ≤ timer.mult)
    (last : timer.cycleLast = (cycles + elapsed) % 2 ^ 41) :
    timecounterCyc2time timer (cycles + stamp) =
      (timer.nsec + 2 ^ 64 - ((elapsed - stamp) * timer.mult - timer.frac) / 2 ^ 23) % 2 ^ 64 := by
  have delta : timer.cycleDelta (cycles + stamp) = 2 ^ 41 - (elapsed - stamp) := by
    rw [Timer.cycleDelta, last]
    omega
  have back : (timer.cycleLast + 2 ^ 41 - (cycles + stamp) % 2 ^ 41) % 2 ^ 41 = elapsed - stamp := by
    rw [last]
    omega
  have some : 1 * timer.mult ≤ (elapsed - stamp) * timer.mult := Nat.mul_le_mul_right _ (by omega)
  have most : (elapsed - stamp) * timer.mult ≤ elapsed * timer.mult := Nat.mul_le_mul_right _ (by omega)
  rw [timecounterCyc2time, delta, if_pos (by omega), back, Timer.cyc2nsBackwards]
  generalize (elapsed - stamp) * timer.mult = product at *
  have wraps : (product + 2 ^ 64 - timer.frac) % 2 ^ 64 = product - timer.frac := by omega
  rw [wraps]

/-- A stamp is converted to the same time whether or not the clock was read since, except that then what is
not a whole nanosecond counts as one. -/
theorem stamp_survives_read {devFreq tick cycles nsec : Nat} (usable : Usable devFreq) {run : ClockRun}
    (reached : Reachable devFreq tick cycles nsec run) {elapsed stamp : Nat}
    (inTime : InTime 7 5 devFreq
      (mlx5InitOverflowPeriod (mlx5TimecounterInit devFreq cycles nsec) tick) tick elapsed)
    (slow : 2 ^ 23 ≤ run.timer.mult) (later : stamp < elapsed) :
    let part := stamp * run.timer.mult + run.timer.frac
    timecounterCyc2time (run.step elapsed .read).timer (run.cycles + stamp) =
      (timecounterCyc2time run.timer (run.cycles + stamp) + if part % 2 ^ 23 = 0 then 0 else 1) % 2 ^ 64 := by
  have inv := reached.inv usable
  obtain ⟨short, fits⟩ := margin usable inTime inv.adjusted inv.frac
  have delta : run.timer.cycleDelta (run.cycles + elapsed) = elapsed := by
    rw [Timer.cycleDelta, inv.last]
    omega
  have split : (elapsed - stamp) * run.timer.mult + stamp * run.timer.mult = elapsed * run.timer.mult := by
    rw [← Nat.add_mul, Nat.sub_add_cancel later.le]
  have some : 1 * run.timer.mult ≤ (elapsed - stamp) * run.timer.mult := Nat.mul_le_mul_right _ (by omega)
  have frac : (run.step elapsed .read).timer.frac < 2 ^ 23 := Nat.mod_lt _ (by decide)
  have product : elapsed * (run.step elapsed .read).timer.mult < 2 ^ 64 := by
    change elapsed * run.timer.mult < 2 ^ 64
    omega
  rw [cyc2time_before inv.last (by omega) (by omega), cyc2time_after later short product frac slow rfl]
  simp only [ClockRun.step, timecounterRead, delta, Timer.cyc2ns, Nat.mod_eq_of_lt fits]
  generalize (elapsed - stamp) * run.timer.mult = rest at *
  generalize stamp * run.timer.mult = old at *
  generalize elapsed * run.timer.mult = whole at *
  split_ifs
  · omega
  · omega

/-- Cycle 7 is at 44.8 nanoseconds. -/
theorem stamp_survives_read_seven :
    timecounterCyc2time (timecounterRead (mlx5TimecounterInit 156250 0 0) 1000000) 7 = 45 := by
  have usable : Usable 156250 := ⟨by decide, by decide, by decide⟩
  have same := stamp_survives_read usable (.init : Reachable 156250 1000000 0 0 _)
    (by decide : InTime 7 5 _ _ _ 1000000) (by decide) (by decide : 7 < 1000000)
  exact same.trans (by decide)

end MlnxOfed.Clock
