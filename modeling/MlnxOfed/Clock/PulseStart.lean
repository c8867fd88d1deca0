/-
The start of a pulse (clock.c): the time a user asks for, in cycles of the device.
-/

import MlnxOfed.Clock.Timer

namespace MlnxOfed.Clock

/-- `cc_cyc2ns_backwards`. -/
def Timer.cyc2nsBackwards (timer : Timer) (cycles : Nat) : Nat :=
  (cycles * timer.mult + 2 ^ 64 - timer.frac) % 2 ^ 64 / 2 ^ 23

def timecounterCyc2time (timer : Timer) (cycles : Nat) : Nat :=
  if (2 ^ 41 - 1) / 2 < timer.cycleDelta cycles then
    (timer.nsec + 2 ^ 64 -
      timer.cyc2nsBackwards ((timer.cycleLast + 2 ^ 41 - cycles % 2 ^ 41) % 2 ^ 41)) % 2 ^ 64
  else
    (timer.nsec + timer.cyc2ns (timer.cycleDelta cycles) timer.frac / 2 ^ 23) % 2 ^ 64

/-- The difference of the times has no sign. -/
def findTargetCycles (timer : Timer) (cyclesNow : Nat) (targetNs : Int) : Nat :=
  let nsecDelta := ((targetNs - timecounterCyc2time timer cyclesNow) % 2 ^ 64).toNat
  (cyclesNow + nsecDelta * 2 ^ 23 % 2 ^ 64 / timer.mult) % 2 ^ 64

/-- The device at a call. `timespec64_to_ns` and `ptp_find_pin` are functions of the kernel. -/
structure PtpDevice where
  ppsCap : Bool
  nPins : Nat
  realTimeMode : Bool
  ptpFindPin : Nat → Int
  timespec64ToNs : Int → Nat → Int
  timer : Timer
  cyclesNow : Nat

structure PeroutRequest where
  flags : Nat
  index : Nat
  periodSec : Int
  periodNsec : Nat
  startSec : Int
  startNsec : Nat

structure MtppsReg where
  pin : Int
  pinMode : Nat
  pattern : Nat
  enable : Bool
  timeStamp : Nat
  fieldSelect : Nat

def peroutConfInternalTimer (device : PtpDevice) (sec : Int) (nsec : Nat) : Nat :=
  findTargetCycles device.timer device.cyclesNow (device.timespec64ToNs sec nsec)

def peroutConfRealTime (sec : Int) (nsec : Nat) : Nat :=
  nsec ||| ((sec * 2 ^ 32) % 2 ^ 64).toNat

/-- `mlx5_perout_configure` until the register is written. -/
def mlx5PeroutConfigure (device : PtpDevice) (rq : PeroutRequest) (on : Bool) : Except Int MtppsReg :=
  let pin := device.ptpFindPin rq.index
  if device.ppsCap = false then .error (-95)
  else if rq.flags ≠ 0 then .error (-95)
  else if device.nPins ≤ rq.index then .error (-22)
  else if pin < 0 then .error (-16)
  else if on = false then .ok ⟨pin, 0, 0, false, 0, 1⟩
  else if device.timespec64ToNs rq.periodSec rq.periodNsec / 2 ≠ 500000000 then .error (-22)
  else if device.realTimeMode ∧ 2 ^ 32 - 1 < rq.startSec then .error (-22)
  else
    let timeStamp :=
      if device.realTimeMode then peroutConfRealTime rq.startSec rq.startNsec
      else peroutConfInternalTimer device rq.startSec rq.startNsec
    .ok ⟨pin, 1, 1, true, timeStamp, 1 ||| 8 ||| 4 ||| 16⟩

/-- The second after the time `ns` that `mlx5_ptp_gettimex` read. -/
def nextSecond (device : PtpDevice) (ns : Int) : Int := device.timespec64ToNs (ns / 1000000000 + 1) 0

def peroutConfNextEventTimer (device : PtpDevice) (ns : Int) : Nat :=
  if device.realTimeMode then peroutConfRealTime (ns / 1000000000 + 1) 0
  else findTargetCycles device.timer device.cyclesNow (nextSecond device ns)

def PtpDevice.now (device : PtpDevice) : Int := timecounterCyc2time device.timer device.cyclesNow

/-- The time of the cycle `stamp` is less than one cycle from the target, in units of the fraction. -/
def PtpDevice.Exact (device : PtpDevice) (targetNs : Int) (stamp : Nat) : Prop :=
  ((device.now - targetNs) * 2 ^ 23 +
    (stamp - device.cyclesNow : Int) % 2 ^ 64 * device.timer.mult).natAbs < device.timer.mult

instance (device : PtpDevice) (targetNs : Int) (stamp : Nat) :
    Decidable (device.Exact targetNs stamp) :=
  inferInstanceAs (Decidable (_ < _))

private theorem findTargetCycles_later (timer : Timer) (cyclesNow ahead : Nat) :
    findTargetCycles timer cyclesNow (timecounterCyc2time timer cyclesNow + ahead) =
      (cyclesNow + ahead * 2 ^ 23 % 2 ^ 64 / timer.mult) % 2 ^ 64 := by
  have delta : (((timecounterCyc2time timer cyclesNow + ahead : Int) -
      timecounterCyc2time timer cyclesNow) % 2 ^ 64).toNat = ahead % 2 ^ 64 := by
    omega
  rw [findTargetCycles, delta, Nat.mod_mul_mod]

variable {device : PtpDevice}

/-- The shift keeps the time ahead as long as it has less than 41 bits. -/
private theorem findTargetCycles_exact_iff {targetNs} (pos : 0 < device.timer.mult)
    (field : device.timer.mult < 2 ^ 32) (later : device.now ≤ targetNs) :
    device.Exact targetNs (findTargetCycles device.timer device.cyclesNow targetNs) ↔
      targetNs - device.now < 2 ^ 41 := by
  obtain ⟨ahead, rfl⟩ := Int.le.dest later
  rw [PtpDevice.Exact, PtpDevice.now, findTargetCycles_later]
  have quotient := Nat.div_add_mod (ahead * 2 ^ 23 % 2 ^ 64) device.timer.mult
  have remainder := Nat.mod_lt (ahead * 2 ^ 23 % 2 ^ 64) pos
  have small := Nat.div_le_self (ahead * 2 ^ 23 % 2 ^ 64) device.timer.mult
  generalize ahead * 2 ^ 23 % 2 ^ 64 % device.timer.mult = rest at *
  generalize ahead * 2 ^ 23 % 2 ^ 64 / device.timer.mult = cycles at *
  have elapsed : (((device.cyclesNow + cycles) % 2 ^ 64 : Nat) - device.cyclesNow : Int) % 2 ^ 64 =
      cycles := by
    omega
  rw [elapsed]
  have product : (cycles : Int) * device.timer.mult = (device.timer.mult * cycles : Nat) := by
    rw [mul_comm, Int.natCast_mul]
  have shift (now : Int) : (now - (now + ahead)) * 2 ^ 23 = -((ahead * 2 ^ 23 : Nat) : Int) := by
    rw [sub_add_cancel_left, neg_mul, Int.natCast_mul, Int.natCast_pow]
    rfl
  rw [product, shift, add_sub_cancel_left]
  generalize device.timer.mult * cycles = counted at *
  have short : (ahead : Int) < 2 ^ 41 ↔ ahead * 2 ^ 23 < 2 ^ 64 := by omega
  rw [short]
  generalize ahead * 2 ^ 23 = shifted at *
  by_cases fits : shifted < 2 ^ 64
  · rw [Nat.mod_eq_of_lt fits] at quotient
    simp only [fits, iff_true]
    omega
  · have wrapped : shifted % 2 ^ 64 + 2 ^ 64 ≤ shifted := by omega
    generalize shifted % 2 ^ 64 = kept at *
    simp only [fits, iff_false]
    omega

private theorem mlx5PeroutConfigure_timeStamp {rq reg}
    (internal : device.realTimeMode = false) (ok : mlx5PeroutConfigure device rq true = .ok reg) :
    reg.timeStamp = findTargetCycles device.timer device.cyclesNow
      (device.timespec64ToNs rq.startSec rq.startNsec) := by
  simp only [mlx5PeroutConfigure, internal, Bool.false_eq_true, Bool.true_eq_false, false_and, if_false] at ok
  split_ifs at ok
  cases ok
  rfl

/-- `timespec64_to_ns` of whole seconds that it does not cut. -/
def PtpDevice.StandardSeconds (device : PtpDevice) : Prop :=
  ∀ sec : Int, 0 ≤ sec → sec < 9223372036 → device.timespec64ToNs sec 0 = sec * 1000000000

private theorem nextSecond_near (standard : device.StandardSeconds) {ns}
    (pos : 0 ≤ ns) (early : ns < 9223372035 * 1000000000) (read : ns ≤ device.now) :
    nextSecond device ns - device.now < 2 ^ 41 := by
  rw [nextSecond, standard _ (by omega) (by omega)]
  omega

/-- A pulse starts exactly if and only if it is less than 2 to the 41 nanoseconds ahead, as the next second
is. -/
theorem pulseStart_exact_iff {device : PtpDevice} (internal : device.realTimeMode = false)
    (positive : 0 < device.timer.mult) (field : device.timer.mult < 2 ^ 32) :
    (∀ rq reg, mlx5PeroutConfigure device rq true = .ok reg →
      let target := device.timespec64ToNs rq.startSec rq.startNsec
      device.now ≤ target → (device.Exact target reg.timeStamp ↔ target - device.now < 2 ^ 41)) ∧
    (∀ ns, device.now ≤ nextSecond device ns →
      (device.Exact (nextSecond device ns) (peroutConfNextEventTimer device ns) ↔
        nextSecond device ns - device.now < 2 ^ 41)) ∧
    (device.StandardSeconds → ∀ ns, 0 ≤ ns → ns < 9223372035 * 1000000000 → ns ≤ device.now →
      nextSecond device ns - device.now < 2 ^ 41) := by
  refine ⟨?_, ?_, fun standard _ => nextSecond_near standard⟩
  · intro rq reg accepted target later
    rw [mlx5PeroutConfigure_timeStamp internal accepted]
    exact findTargetCycles_exact_iff positive field later
  · intro ns later
    simp only [peroutConfNextEventTimer, internal, Bool.false_eq_true, if_false]
    exact findTargetCycles_exact_iff positive field later

def freshDevice : PtpDevice :=
  { ppsCap := true
    nPins := 1
    realTimeMode := false
    ptpFindPin := fun _ => 0
    timespec64ToNs := fun sec nsec => sec * 1000000000 + nsec
    timer := mlx5TimecounterInit 156250 0 0
    cyclesNow := 0 }

theorem pulseStart_exact_soon :
    freshDevice.Exact (nextSecond freshDevice 0) (peroutConfNextEventTimer freshDevice 0) :=
  ((pulseStart_exact_iff (rfl : freshDevice.realTimeMode = false) (by decide) (by decide)).2.1 0
    (by decide)).2 (by decide)

/-- A pulse that is to start in 2200 seconds. -/
theorem pulseStart_wrapped : ∃ reg, mlx5PeroutConfigure freshDevice ⟨0, 0, 1, 0, 2200, 0⟩ true = .ok reg ∧
      freshDevice.now ≤ 2200000000000 ∧ ¬ freshDevice.Exact 2200000000000 reg.timeStamp := by
  refine ⟨⟨0, 1, 1, true, _, 29⟩, rfl, ?_, ?_⟩
  · decide
  · decide +kernel

end MlnxOfed.Clock
