/-
The encoding of meter rates (`flow_meter_aso.c`): rate and burst become a mantissa
of 8 bits and an exponent of 5, found by one pass over the exponents.

`CALC_CIR` rounds down, so a pair whose exact rate lies just above the requested
one may still be worth exactly the requested rate; the pass never looks at it.
-/

import Mathlib.Tactic.Ring

namespace MlnxOfed.FlowMeter

inductive RateLimit where
  | bps
  | pps
  deriving DecidableEq

structure FlowMeterParams where
  mode : RateLimit
  rate : UInt64
  burst : UInt64

def constCir : Nat := 8000000000

def calcCir (m e : Nat) : Nat := constCir * m / 2 ^ e

def maxCir : Nat := constCir * 0x100 - 1

def calcCbs (m e : Nat) : Nat := m * 2 ^ e

def maxCbs : Nat := 0x100 * 2 ^ 0x1F - 1

/-- The loop of both searches, with `remaining` exponents left: mantissa and exponent
of the best pair so far, and its distance from the target. -/
def searchFrom (stop : Nat → Bool) (man : Nat → Nat) (value : Nat → Nat → Nat) (target : Nat) :
    Nat → Nat → Nat × Nat → Int → Nat × Nat
  | 0, _, best, _ => best
  | remaining + 1, e, best, delta =>
    if stop e then best
    else if 0xFF < man e then searchFrom stop man value target remaining (e + 1) best delta
    else if (target : Int) - value (man e) e < delta then
      if (target : Int) - value (man e) e = 0 then (man e, e)
      else searchFrom stop man value target remaining (e + 1) (man e, e) (target - value (man e) e)
    else searchFrom stop man value target remaining (e + 1) best delta

def s64Max : Int := 2 ^ 63 - 1

/-- The shifted rate is negative as a signed word. -/
def signBit (cir e : Nat) : Bool := decide (2 ^ 63 ≤ cir * 2 ^ e % 2 ^ 64)

def mlx5eFlowMeterCirCalc (cir : Nat) : Nat × Nat :=
  searchFrom (signBit cir) (fun e => cir * 2 ^ e % 2 ^ 64 / constCir) calcCir cir
    32 0 (0, 0) s64Max

def mlx5eFlowMeterCbsCalc (cbs : Nat) : Nat × Nat :=
  searchFrom (fun _ => false) (fun e => cbs / 2 ^ e) calcCbs cbs 32 0 (0, 0) s64Max

/-- The values `mlx5e_aso_send_flow_meter_aso` puts into the WQE. -/
structure MeterWords where
  cirMan : Nat
  cirExp : Nat
  cbsMan : Nat
  cbsExp : Nat
  deriving DecidableEq

namespace FlowMeterParams

variable (params : FlowMeterParams)

def scaledRate : Nat :=
  match params.mode with
  | .bps => params.rate.toNat
  | .pps => params.rate.toNat * 2 ^ 10 % 2 ^ 64

def scaledBurst : Nat :=
  match params.mode with
  | .bps => params.burst.toNat
  | .pps => params.burst.toNat * 2 ^ 7 % 2 ^ 64

/-- The range check on the scaled values. -/
def refused : Prop :=
  params.scaledRate = 0 ∨ maxCir < params.scaledRate ∨ params.scaledBurst = 0 ∨ maxCbs < params.scaledBurst

instance : Decidable params.refused := inferInstanceAs (Decidable (_ ∨ _))

end FlowMeterParams

/-- `none` is the refusal, before anything is written. -/
def mlx5eAsoSendFlowMeterAso (params : FlowMeterParams) : Option MeterWords :=
  if params.refused then none
  else
    let cir := mlx5eFlowMeterCirCalc params.scaledRate
    let cbs := mlx5eFlowMeterCbsCalc params.scaledBurst
    if cir.1 = 0 ∨ cbs.1 = 0 then none else some ⟨cir.1, cir.2, cbs.1, cbs.2⟩

/-! ### The promise -/

namespace FlowMeterParams

variable (params : FlowMeterParams)

def exactRate : Nat :=
  match params.mode with
  | .bps => params.rate.toNat
  | .pps => params.rate.toNat * 1024

def exactBurst : Nat :=
  match params.mode with
  | .bps => params.burst.toNat
  | .pps => params.burst.toNat * 128

end FlowMeterParams

/-- The mantissas and exponents the encoding can hold. -/
def Fits (pair : Nat × Nat) : Prop := pair.1 ≤ 0xFF ∧ pair.2 < 2 ^ 5

/-- Zero, above the maximum, or below every encodable value but zero. -/
def Unencodable (value : Nat → Nat → Nat) (max target : Nat) : Prop :=
  target = 0 ∨ max < target ∨ ∀ man exp, Fits (man, exp) → value man exp ≠ 0 → target < value man exp

/-- No encodable value that is at most the target is larger than that of the pair. -/
def Optimal (value : Nat → Nat → Nat) (target : Nat) (pair : Nat × Nat) : Prop :=
  ∀ man exp, Fits (man, exp) → value man exp ≤ target → value man exp ≤ value pair.1 pair.2

def BestLower (value : Nat → Nat → Nat) (target : Nat) (pair : Nat × Nat) : Prop :=
  Fits pair ∧ value pair.1 pair.2 ≤ target ∧ Optimal value target pair

def BestEncoded (params : FlowMeterParams) : Prop :=
  match mlx5eAsoSendFlowMeterAso params with
  | none => Unencodable calcCir maxCir params.exactRate ∨ Unencodable calcCbs maxCbs params.exactBurst
  | some words =>
    ¬ Unencodable calcCir maxCir params.exactRate ∧ ¬ Unencodable calcCbs maxCbs params.exactBurst ∧
      BestLower calcCir params.exactRate (words.cirMan, words.cirExp) ∧
      BestLower calcCbs params.exactBurst (words.cbsMan, words.cbsExp)

/-! ### The search -/

section Search

variable {stop : Nat → Bool} {man : Nat → Nat} {value : Nat → Nat → Nat} {target : Nat}

/-- No exponent up to `e` stops the loop. -/
def Runs (stop : Nat → Bool) (e : Nat) : Prop := ∀ earlier, earlier ≤ e → stop earlier = false

theorem searchFrom_best {lower : Nat × Nat → Prop} (sound : ∀ pair, lower pair → value pair.1 pair.2 ≤ target)
    (remaining e) (looks : ∀ e', e' < e + remaining → Runs stop e' → man e' ≤ 0xFF → lower (man e', e'))
    {best : Nat × Nat} {delta : Int} (running : ∀ earlier, earlier < e → stop earlier = false) (bestLower : lower best)
    (distance : delta = target - value best.1 best.2 ∨ value best.1 best.2 = 0 ∧ target < delta) :
    ∃ found, searchFrom stop man value target remaining e best delta = found ∧ lower found ∧
      value best.1 best.2 ≤ value found.1 found.2 ∧
      ∀ e', e ≤ e' → e' < e + remaining → Runs stop e' → man e' ≤ 0xFF →
        value (man e') e' ≤ value found.1 found.2 := by
  induction remaining generalizing e best delta with
  | zero => exact ⟨best, rfl, bestLower, Nat.le_refl _, fun e' above below => by omega⟩
  | succ remaining ih =>
    have bestBelow := sound best bestLower
    rw [searchFrom]
    by_cases stopped : stop e = true
    · rw [if_pos stopped]
      refine ⟨best, rfl, bestLower, Nat.le_refl _, fun e' above _ runs _ => ?_⟩
      rw [runs e above] at stopped
      cases stopped
    have runs : Runs stop e := by
      intro earlier upTo
      rcases Nat.lt_or_eq_of_le upTo with old | rfl
      · exact running earlier old
      · exact eq_false_of_ne_true stopped
    have later := @ih (e + 1) (fun e' below => looks e' (by omega))
    have on : ∀ earlier, earlier < e + 1 → stop earlier = false := fun earlier old =>
      runs earlier (Nat.le_of_lt_succ old)
    rw [if_neg stopped]
    split_ifs with wide closer exact
    · obtain ⟨found, res, isLower, better, others⟩ := later on bestLower distance
      refine ⟨found, res, isLower, better, fun e' above below runs' narrow => others e' ?_ (by omega) runs' narrow⟩
      by_contra same
      obtain rfl : e' = e := by omega
      omega
    · have better : value best.1 best.2 ≤ value (man e) e := by omega
      refine ⟨(man e, e), rfl, looks e (by omega) runs (Nat.le_of_not_lt wide), better, ?_⟩
      intro e' above below runs' narrow
      have other := sound _ (looks e' below runs' narrow)
      dsimp only at other ⊢
      omega
    · obtain ⟨found, res, isLower, better, others⟩ :=
        later on (looks e (by omega) runs (Nat.le_of_not_lt wide)) (.inl rfl)
      dsimp only at better
      refine ⟨found, res, isLower, by omega, fun e' above below runs' narrow => ?_⟩
      by_cases same : e' = e
      · subst same
        exact better
      · exact others e' (by omega) (by omega) runs' narrow
    · obtain ⟨found, res, isLower, better, others⟩ := later on bestLower distance
      refine ⟨found, res, isLower, better, fun e' above below runs' narrow => ?_⟩
      by_cases same : e' = e
      · subst same
        omega
      · exact others e' (by omega) (by omega) runs' narrow

end Search

/-- The exact value of the pair is at most the target. -/
def AtMost (cir : Nat) (pair : Nat × Nat) : Prop :=
  pair.1 ≤ 0xFF ∧ pair.2 < 2 ^ 5 ∧ constCir * pair.1 ≤ cir * 2 ^ pair.2

theorem AtMost.below {cir pair} (atMost : AtMost cir pair) : calcCir pair.1 pair.2 ≤ cir := by
  rw [calcCir, Nat.div_le_iff_le_mul_add_pred (Nat.two_pow_pos _), Nat.mul_comm (2 ^ pair.2)]
  exact Nat.le_add_right_of_le atMost.2.2

/-- Nothing has been shifted out of the word before the loop stops. -/
private theorem unwrapped {cir} (small : cir < 2 ^ 63) {e} (runs : Runs (signBit cir) e) : cir * 2 ^ e < 2 ^ 63 := by
  induction e with
  | zero => rwa [pow_zero, Nat.mul_one]
  | succ e ih =>
    have before := ih fun earlier upTo => runs earlier (by omega)
    have doubled : cir * 2 ^ (e + 1) = 2 * (cir * 2 ^ e) := by ring
    have unsigned := runs (e + 1) (Nat.le_refl _)
    rw [signBit, decide_eq_false_iff_not, doubled, Nat.mod_eq_of_lt (by omega)] at unsigned
    omega

theorem runs_of_fits {cir e} (fits : cir * 2 ^ e < 2 ^ 63) : Runs (signBit cir) e := by
  intro earlier upTo
  have scaled : cir * 2 ^ earlier ≤ cir * 2 ^ e := Nat.mul_le_mul_left _ (Nat.pow_le_pow_right (by decide) upTo)
  rw [signBit, decide_eq_false_iff_not, Nat.mod_eq_of_lt (by omega)]
  omega

private theorem calcCir_mono {m m'} (le : m ≤ m') (e) : calcCir m e ≤ calcCir m' e :=
  Nat.div_le_div_right (Nat.mul_le_mul_left _ le)

private theorem calcCir_double (m e) : calcCir (m * 2) (e + 1) = calcCir m e := by
  rw [calcCir, calcCir, ← Nat.mul_assoc, Nat.pow_succ, Nat.mul_div_mul_right _ _ (by decide)]

/-- The pair found is the best of those whose exact rate is at most the target. -/
private theorem cirCalc_best {cir} (most : cir ≤ maxCir) :
    ∃ found, mlx5eFlowMeterCirCalc cir = found ∧ AtMost cir found ∧
      ∀ man exp, AtMost cir (man, exp) → calcCir man exp ≤ calcCir found.1 found.2 := by
  have small : cir < 2 ^ 42 := Nat.lt_of_le_of_lt most (by decide)
  have man : ∀ e, cir * 2 ^ e < 2 ^ 63 → cir * 2 ^ e % 2 ^ 64 / constCir = cir * 2 ^ e / constCir := by
    intro e fits
    rw [Nat.mod_eq_of_lt (Nat.lt_trans fits (by decide))]
  obtain ⟨found, res, isLower, -, others⟩ := @searchFrom_best (signBit cir)
    (fun e => cir * 2 ^ e % 2 ^ 64 / constCir) calcCir cir (AtMost cir) (fun _ => AtMost.below) 32 0
    (fun e below runs narrow => ⟨narrow, by omega, by
      rw [man e (unwrapped (Nat.lt_trans small (by decide)) runs)]
      exact Nat.mul_div_le _ _⟩)
    (0, 0) s64Max (fun _ never => absurd never (Nat.not_lt_zero _)) ⟨by decide, by decide, by simp⟩
    (.inr ⟨by simp [calcCir], by simp only [s64Max]; omega⟩)
  refine ⟨found, res, isLower, ?_⟩
  have seen : ∀ e, e < 32 → cir * 2 ^ e < constCir * 256 →
      calcCir (cir * 2 ^ e / constCir) e ≤ calcCir found.1 found.2 := by
    intro e below narrow
    have fits : cir * 2 ^ e < 2 ^ 63 := Nat.lt_trans narrow (by decide)
    have isSeen := others e (Nat.zero_le e) (by omega) (runs_of_fits fits)
    rw [man e fits] at isSeen
    exact isSeen (Nat.le_of_lt_succ (Nat.div_lt_of_lt_mul narrow))
  intro m e
  induction e generalizing m with
  | zero =>
    rintro ⟨-, -, atMost⟩
    refine (calcCir_mono ?_ 0).trans (seen 0 (by decide) ?_)
    · exact (Nat.le_div_iff_mul_le (by decide)).mpr (by rwa [Nat.mul_comm])
    · rw [pow_zero, Nat.mul_one]
      exact Nat.lt_of_le_of_lt most (by decide)
  | succ e ih =>
    rintro ⟨narrow, below, atMost⟩
    by_cases considered : cir * 2 ^ (e + 1) < constCir * 256
    · refine (calcCir_mono ?_ _).trans (seen (e + 1) below considered)
      exact (Nat.le_div_iff_mul_le (by decide)).mpr (by rwa [Nat.mul_comm])
    -- the mantissa overflows, so half of 256 fits one exponent earlier
    have half : constCir * 128 ≤ cir * 2 ^ e := by
      rw [pow_succ, ← Nat.mul_assoc] at considered
      omega
    refine (calcCir_mono (show m ≤ 128 * 2 by omega) _).trans ?_
    rw [calcCir_double]
    exact ih 128 ⟨by simp, by dsimp only; omega, half⟩

private theorem cbsCalc_best {cbs} (most : cbs ≤ maxCbs) :
    ∃ found, mlx5eFlowMeterCbsCalc cbs = found ∧ BestLower calcCbs cbs found := by
  have small : cbs < 2 ^ 39 := Nat.lt_of_le_of_lt most (by decide)
  obtain ⟨found, res, ⟨fits, below⟩, -, others⟩ := @searchFrom_best (fun _ => false) (fun e => cbs / 2 ^ e) calcCbs cbs
    (fun pair => Fits pair ∧ calcCbs pair.1 pair.2 ≤ cbs) (fun _ => And.right) 32 0
    (fun e below _ narrow => ⟨⟨narrow, by omega⟩, Nat.div_mul_le_self _ _⟩)
    (0, 0) s64Max (fun _ never => absurd never (Nat.not_lt_zero _)) ⟨⟨by decide, by decide⟩, by simp [calcCbs]⟩
    (.inr ⟨by simp [calcCbs], by simp only [s64Max]; omega⟩)
  refine ⟨found, res, fits, below, ?_⟩
  -- from the largest exponent down: one that is passed over is no better than the next
  have down : ∀ above e, e + above = 31 → ∀ m, m ≤ 0xFF → calcCbs m e ≤ cbs → calcCbs m e ≤ calcCbs found.1 found.2 := by
    intro above
    induction above with
    | zero =>
      rintro e rfl m narrow atMost
      refine (Nat.mul_le_mul_right _ ((Nat.le_div_iff_mul_le (by decide)).mpr atMost)).trans ?_
      exact others 31 (by decide) (by decide) (fun _ _ => rfl) (Nat.le_of_lt_succ (Nat.div_lt_of_lt_mul (by omega)))
    | succ above ih =>
      intro e total m narrow atMost
      have pos := Nat.two_pow_pos e
      by_cases considered : cbs / 2 ^ e ≤ 0xFF
      · refine (Nat.mul_le_mul_right _ ((Nat.le_div_iff_mul_le pos).mpr atMost)).trans ?_
        exact others e (Nat.zero_le _) (by omega) (fun _ _ => rfl) considered
      have wide : 256 * 2 ^ e ≤ cbs := (Nat.le_div_iff_mul_le pos).mp (by omega)
      have doubled : calcCbs 128 (e + 1) = 256 * 2 ^ e := by
        simp only [calcCbs]
        ring
      have next := ih (e + 1) (by omega) 128 (by decide) (by omega)
      have scaled : m * 2 ^ e ≤ 256 * 2 ^ e := Nat.mul_le_mul_right _ (by omega)
      exact scaled.trans (doubled ▸ next)
  rintro man exp ⟨narrow, small⟩
  exact down (31 - exp) exp (by dsimp only at small; omega) man narrow

/-- Some pair is worth more than the rate by less than one: `CALC_CIR` rounds it down
to the rate. -/
def Truncated (cir : Nat) : Prop :=
  ∃ man exp, Fits (man, exp) ∧ cir * 2 ^ exp < constCir * man ∧ constCir * man < (cir + 1) * 2 ^ exp

def Exact (cir : Nat) : Prop := ∃ man exp, Fits (man, exp) ∧ constCir * man = cir * 2 ^ exp

theorem calcCir_le_iff {man exp cir} : calcCir man exp ≤ cir ↔ constCir * man < (cir + 1) * 2 ^ exp := by
  rw [calcCir, ← Nat.lt_succ_iff, Nat.div_lt_iff_lt_mul (Nat.two_pow_pos _)]

private theorem calcCir_eq_iff {man exp cir} :
    calcCir man exp = cir ↔ cir * 2 ^ exp ≤ constCir * man ∧ constCir * man < (cir + 1) * 2 ^ exp := by
  rw [← calcCir_le_iff, ← Nat.le_div_iff_mul_le (Nat.two_pow_pos _), ← calcCir, Nat.eq_iff_le_and_ge, and_comm]

private theorem optimal_iff {cir found} (atMost : AtMost cir found)
    (best : ∀ man exp, AtMost cir (man, exp) → calcCir man exp ≤ calcCir found.1 found.2) :
    Optimal calcCir cir found ↔ (Truncated cir → Exact cir) := by
  constructor
  · rintro optimal ⟨man, exp, fits, above, short⟩
    have worth : calcCir man exp = cir := calcCir_eq_iff.mpr ⟨Nat.le_of_lt above, short⟩
    have same : calcCir found.1 found.2 = cir :=
      Nat.le_antisymm atMost.below (worth ▸ optimal man exp fits (Nat.le_of_eq worth))
    exact ⟨found.1, found.2, ⟨atMost.1, atMost.2.1⟩, Nat.le_antisymm atMost.2.2 (calcCir_eq_iff.mp same).1⟩
  intro reached man exp fits below
  by_cases exact : constCir * man ≤ cir * 2 ^ exp
  · exact best man exp ⟨fits.1, fits.2, exact⟩
  · obtain ⟨man', exp', fits', same⟩ := reached ⟨man, exp, fits, by omega, calcCir_le_iff.mp below⟩
    have pos := Nat.two_pow_pos exp'
    have worth : calcCir man' exp' = cir := calcCir_eq_iff.mpr ⟨Nat.le_of_eq same.symm, by rw [same, Nat.succ_mul]; omega⟩
    exact below.trans (worth ▸ best man' exp' ⟨fits'.1, fits'.2, Nat.le_of_eq same⟩)

/-- A single unit of mantissa is the least encodable value, with the largest exponent. -/
private theorem cirMan_pos {cir : Nat} {found : Nat × Nat} (wide : constCir ≤ cir * 2 ^ 31)
    (best : ∀ man exp, AtMost cir (man, exp) → calcCir man exp ≤ calcCir found.1 found.2) : found.1 ≠ 0 := by
  intro zero
  have least := best 1 31 ⟨by decide, by decide, by rwa [Nat.mul_one]⟩
  rw [zero] at least
  simp [calcCir, constCir] at least

private theorem calcCir_pos {pair} (fits : Fits pair) (nonzero : pair.1 ≠ 0) : calcCir pair.1 pair.2 ≠ 0 := by
  have power : 2 ^ pair.2 ≤ 2 ^ 31 := Nat.pow_le_pow_right (by decide) (by have := fits.2; omega)
  have unit : 2 ^ 31 ≤ constCir := by decide
  refine (Nat.div_pos ?_ (Nat.two_pow_pos _)).ne'
  exact (power.trans unit).trans (Nat.le_mul_of_pos_right _ (by omega))

theorem not_unencodable {value max target} (pair : Nat × Nat) (pos : target ≠ 0)
    (most : target ≤ max) (fits : Fits pair) (nonzero : value pair.1 pair.2 ≠ 0) (below : value pair.1 pair.2 ≤ target) :
    ¬ Unencodable value max target := by
  rintro (zero | above | least)
  · exact pos zero
  · omega
  · have := least _ _ fits nonzero
    omega

theorem scaledRate_eq (params : FlowMeterParams) : params.scaledRate = params.exactRate % 2 ^ 64 := by
  unfold FlowMeterParams.scaledRate FlowMeterParams.exactRate
  cases params.mode with
  | bps => exact (Nat.mod_eq_of_lt params.rate.toNat_lt).symm
  | pps => rfl

theorem scaledBurst_eq (params : FlowMeterParams) : params.scaledBurst = params.exactBurst % 2 ^ 64 := by
  unfold FlowMeterParams.scaledBurst FlowMeterParams.exactBurst
  cases params.mode with
  | bps => exact (Nat.mod_eq_of_lt params.burst.toNat_lt).symm
  | pps => rfl

private theorem unencodable_of_scaled {value max exact} (small : max < 2 ^ 64)
    (refused : exact % 2 ^ 64 = 0 ∨ max < exact % 2 ^ 64) : Unencodable value max exact := by
  by_cases fits : exact < 2 ^ 64
  · rw [Nat.mod_eq_of_lt fits] at refused
    exact refused.imp_right .inl
  · exact .inr (.inl (by omega))

private theorem refused_unencodable {params : FlowMeterParams} (refused : params.refused) :
    Unencodable calcCir maxCir params.exactRate ∨ Unencodable calcCbs maxCbs params.exactBurst := by
  rw [FlowMeterParams.refused, scaledRate_eq, scaledBurst_eq, ← or_assoc] at refused
  exact refused.imp (unencodable_of_scaled (by decide)) (unencodable_of_scaled (by decide))

/-- In packet mode a scaled rate is a multiple of 1024, so it never is too small. -/
private theorem wide_of_wrapped {params : FlowMeterParams} (nonzero : params.scaledRate ≠ 0)
    (wrapped : ¬ (params.exactRate < 2 ^ 64 ∧ params.exactBurst < 2 ^ 64)) : constCir ≤ params.scaledRate * 2 ^ 31 := by
  unfold FlowMeterParams.exactRate FlowMeterParams.exactBurst at wrapped
  unfold FlowMeterParams.scaledRate at nonzero ⊢
  cases mode : params.mode with
  | bps =>
    rw [mode] at wrapped
    exact absurd ⟨params.rate.toNat_lt, params.burst.toNat_lt⟩ wrapped
  | pps =>
    rw [mode] at nonzero
    simp only [constCir] at nonzero ⊢
    omega

/-- The requests for which the encoding is the best lower one: those the range check
on the scaled values refuses, and those whose values are not shifted out of the word
and whose rate is exact whenever a pair is rounded down to it. -/
theorem meter_encoded_best_iff (params : FlowMeterParams) :
    BestEncoded params ↔ params.refused ∨ (params.exactRate < 2 ^ 64 ∧ params.exactBurst < 2 ^ 64 ∧
      (Truncated params.exactRate → Exact params.exactRate)) := by
  unfold BestEncoded mlx5eAsoSendFlowMeterAso
  by_cases refused : params.refused
  · rw [if_pos refused]
    exact iff_of_true (refused_unencodable refused) (.inl refused)
  rw [if_neg refused]
  obtain ⟨rateNonzero, rateMost, burstNonzero, burstMost⟩ : params.scaledRate ≠ 0 ∧ params.scaledRate ≤ maxCir ∧
      params.scaledBurst ≠ 0 ∧ params.scaledBurst ≤ maxCbs := by
    simpa [FlowMeterParams.refused, not_or] using refused
  obtain ⟨cir, cirFound, atMost, best⟩ := cirCalc_best rateMost
  obtain ⟨cbs, cbsFound, cbsFits, cbsBelow, cbsBest⟩ := cbsCalc_best burstMost
  have unit : calcCbs 1 0 ≤ params.scaledBurst := Nat.pos_of_ne_zero burstNonzero
  have cbsNonzero : cbs.1 ≠ 0 := by
    intro zero
    have least := cbsBest 1 0 ⟨by decide, by decide⟩ unit
    rw [zero] at least
    simp [calcCbs] at least
  simp only [cirFound, cbsFound, cbsNonzero, or_false, refused, false_or]
  by_cases whole : params.exactRate < 2 ^ 64 ∧ params.exactBurst < 2 ^ 64
  · have rate := scaledRate_eq params
    have burst := scaledBurst_eq params
    rw [Nat.mod_eq_of_lt whole.1] at rate
    rw [Nat.mod_eq_of_lt whole.2] at burst
    rw [rate] at rateNonzero rateMost atMost best
    rw [burst] at burstNonzero burstMost cbsBelow cbsBest unit
    have burstEncodable := not_unencodable (1, 0) burstNonzero burstMost ⟨by decide, by decide⟩ (by decide) unit
    rw [← optimal_iff atMost best]
    simp only [whole, true_and]
    by_cases zero : cir.1 = 0
    · have worth : calcCir cir.1 cir.2 = 0 := by simp [zero, calcCir]
      rw [if_pos zero]
      constructor
      · rintro (unencodable | unencodable)
        · intro man exp fits below
          rcases unencodable with none | above | least
          · exact absurd none rateNonzero
          · omega
          · by_contra more
            have := least man exp fits (by omega)
            omega
        · exact absurd unencodable burstEncodable
      · intro optimal
        refine .inl (.inr (.inr fun man exp fits nonzero => ?_))
        by_contra reached
        have := optimal man exp fits (by omega)
        omega
    · have fits : Fits cir := ⟨atMost.1, atMost.2.1⟩
      have rateEncodable := not_unencodable cir rateNonzero rateMost fits (calcCir_pos fits zero) atMost.below
      rw [if_neg zero]
      exact ⟨fun encoded => encoded.2.2.1.2.2, fun optimal =>
        ⟨rateEncodable, burstEncodable, ⟨fits, atMost.below, optimal⟩, cbsFits, cbsBelow, cbsBest⟩⟩
  · rw [if_neg (cirMan_pos (wide_of_wrapped rateNonzero whole) best)]
    refine iff_of_false ?_ fun meets => whole ⟨meets.1, meets.2.1⟩
    rintro ⟨rateEncodable, burstEncodable, -⟩
    refine whole ⟨?_, ?_⟩
    · by_contra wide
      have beyond : maxCir < 2 ^ 64 := by decide
      exact rateEncodable (.inr (.inl (by omega)))
    · by_contra wide
      have beyond : maxCbs < 2 ^ 64 := by decide
      exact burstEncodable (.inr (.inl (by omega)))

/-- A rate of three bits per second is worth the pair of mantissa 1 and exponent 31
but is refused. -/
theorem least_rate_refused : ¬ BestEncoded ⟨.bps, 3, 1⟩ := by
  have refused : mlx5eAsoSendFlowMeterAso ⟨.bps, 3, 1⟩ = none := by decide +kernel
  rw [BestEncoded, refused]
  rintro (unencodable | unencodable)
  · exact not_unencodable (1, 31) (by decide) (by decide) ⟨by decide, by decide⟩ (by decide) (by decide) unencodable
  · exact not_unencodable (1, 0) (by decide) (by decide) ⟨by decide, by decide⟩ (by decide) (by decide) unencodable

end MlnxOfed.FlowMeter
