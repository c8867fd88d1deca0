/-
How long the loops over the TLVs of an MFA2 file run. Their index is a `u16`: a loop over 65536 children
never ends at its count, and a TLV whose aligned length needs 17 bits is followed by itself.
-/

import MlnxOfed.Mlxfw.Mfa2

namespace MlnxOfed.Mlxfw

open List Lib Option

variable {α σ ρ : Type} {fw : Firmware} {body : Option Nat → σ → Run (σ ⊕ ρ)}

/-- The loop ends after at most so many turns, with one more test of its index. -/
def Within (turns : Nat) (run : Nat → Run α) : Prop := ∀ fuel > turns, run fuel = run (turns + 1)

/-- Where so many calls of `mlxfw_mfa2_tlv_next` lead, while there is a TLV. -/
def passed (fw : Firmware) : Nat → Option Nat → Option (Option Nat)
  | 0, tlv => some tlv
  | _ + 1, none => none
  | steps + 1, some here => (tlvNext fw here).result.bind (passed fw steps)

variable {run : Nat → Run α}

theorem Within.of_step {turns} (same : ∀ fuel > turns, run (fuel + 1) = run fuel) : Within turns run := by
  intro fuel more
  induction fuel, more using Nat.le_induction with
  | base => rfl
  | succ fuel more ih => rw [same fuel more, ih]

variable {β : Type}

theorem Within.bind {turns} (within : Within turns run)
    (next : α → Run β) : Within turns fun fuel => run fuel >>= next :=
  fun fuel more => congrArg (· >>= next) (within fuel more)

/-! ### A turn of the loop -/

def turn (fw : Firmware) (body : Option Nat → σ → Run (σ ⊕ ρ))
    (rest : Option Nat → σ → Run ((Option Nat × σ) ⊕ ρ)) (tlv : Option Nat) (state : σ) :
    Run ((Option Nat × σ) ⊕ ρ) := do
  match ← body tlv state with
  | .inr result => pure (.inr result)
  | .inl state =>
    match tlv with
    | none => do
        Logged.emit .null
        Logged.stop
    | some here => do
        let next ← tlvNext fw here
        rest next state

theorem tlvForeach_turn {range count fuel idx} (inside : idx < count) (tlv) (state : σ) :
    tlvForeach fw body range count (fuel + 1) idx tlv state =
      turn fw body (tlvForeach fw body range count fuel ((idx + 1) % range)) tlv state :=
  if_pos inside

theorem turn_congr {rest other : Option Nat → σ → Run ((Option Nat × σ) ⊕ ρ)} {tlv}
    (same : ∀ here next, tlv = some here → (tlvNext fw here).result = some next →
      ∀ state, rest next state = other next state) (state : σ) :
    turn fw body rest tlv state = turn fw body other tlv state := by
  refine Logged.bind_congr fun outcome _ => ?_
  cases outcome with
  | inr result => rfl
  | inl state =>
    cases tlv with
    | none => rfl
    | some here => exact Logged.bind_congr fun next got => same here next rfl got state

private theorem tlvForeach_counted {count} (below : count < 2 ^ 16) (fuel) :
    ∀ {idx}, count ≤ idx + fuel → ∀ tlv state, tlvForeach fw body (2 ^ 16) count (fuel + 2) idx tlv state =
        tlvForeach fw body (2 ^ 16) count (fuel + 1) idx tlv state := by
  induction fuel with
  | zero =>
    intro idx enough tlv state
    exact (if_neg (Nat.not_lt.mpr enough)).trans (if_neg (Nat.not_lt.mpr enough)).symm
  | succ fuel ih =>
    intro idx enough tlv state
    by_cases inside : idx < count
    · rw [tlvForeach_turn inside, tlvForeach_turn inside]
      refine turn_congr (fun here next _ _ => ih ?_ next) state
      rw [Nat.mod_eq_of_lt (by omega)]
      omega
    · exact (if_neg inside).trans (if_neg inside).symm

theorem within_counted {count} (below : count < 2 ^ 16) (tlv) (state : σ) :
    Within count fun fuel => tlvForeach fw body (2 ^ 16) count fuel 0 tlv state := by
  refine Within.of_step fun fuel more => ?_
  obtain ⟨fuel, rfl⟩ := Nat.exists_eq_add_of_lt more
  exact tlvForeach_counted below (count + fuel) (by omega) tlv state

/-- The index of a loop with 65536 turns to make is always below their number. -/
private theorem tlvForeach_wrapped {steps} : ∀ {fuel idx} {tlv},
    passed fw steps tlv = none → steps ≤ fuel → idx < 2 ^ 16 → ∀ state,
      tlvForeach fw body (2 ^ 16) (2 ^ 16) (fuel + 1) idx tlv state =
        tlvForeach fw body (2 ^ 16) (2 ^ 16) fuel idx tlv state := by
  induction steps with
  | zero => exact fun left => absurd left (some_ne_none _)
  | succ steps ih =>
    intro fuel idx tlv left enough inside state
    obtain ⟨fuel, rfl⟩ := Nat.exists_eq_add_of_lt enough
    rw [tlvForeach_turn inside, tlvForeach_turn inside]
    refine turn_congr (fun here next isHere got => ?_) state
    rw [isHere, passed, got] at left
    exact ih left (by omega) (Nat.mod_lt _ (by decide))

/-! ### Loops that go on -/

/-- What a run has logged, and whether it has a result. -/
def trace (run : Run α) : List Access × Bool := (run.log, run.result.isSome)

private theorem trace_bind_pure {run : Run α} {next : α → Run β}
    (last : ∀ value, trace (next value) = ([], true)) : trace (run >>= next) = trace run := by
  change trace (Logged.bind run next) = trace run
  unfold Logged.bind
  cases result : run.result with
  | none => simp only [trace, result, isSome_none]
  | some value =>
    obtain ⟨noLog, isSome⟩ := Prod.mk.inj (last value)
    simp [trace, result, noLog, isSome]

theorem trace_cancel {run : Run α} {next other : α → Run β} {value : α}
    (got : run.result = some value) (same : trace (run >>= next) = trace (run >>= other)) :
    trace (next value) = trace (other value) := by
  change trace (Logged.bind run next) = trace (Logged.bind run other) at same
  unfold Logged.bind at same
  simp only [got, trace, Prod.mk.injEq] at same
  exact Prod.ext (append_cancel_left same.1) same.2

def validChild (tlv : Option Nat) (_ : Unit) : Run (Unit ⊕ Unit) :=
  match tlv with
  | none => pure (.inr ())
  | some _ => pure (.inl ())

private theorem turn_validChild (rest : Option Nat → Unit → Run ((Option Nat × Unit) ⊕ Unit)) (here) :
    turn fw validChild rest (some here) () = tlvNext fw here >>= fun next => rest next () := rfl

private theorem tlvNext_reads (fw here) (next : Option Nat → Run β) :
    trace (tlvNext fw here >>= next) ≠ ([], false) := by
  obtain ⟨rest, reads⟩ : ∃ rest, (tlvNext fw here).log = .read (here + 2) :: rest := ⟨_, rfl⟩
  change trace (Logged.bind (tlvNext fw here) next) ≠ _
  unfold Logged.bind
  split <;> simp [trace, reads]

private theorem validChild_goes_on (fuel) : ∀ {idx} {tlv}, passed fw fuel tlv ≠ none → idx < 2 ^ 16 →
      trace (tlvForeach fw validChild (2 ^ 16) (2 ^ 16) fuel idx tlv ()) ≠
        trace (tlvForeach fw validChild (2 ^ 16) (2 ^ 16) (fuel + 1) idx tlv ()) := by
  induction fuel with
  | zero =>
    intro idx tlv _ inside same
    rw [tlvForeach_turn inside] at same
    cases tlv with
    | none => cases congrArg Prod.snd same
    | some here => exact tlvNext_reads fw here _ same.symm
  | succ fuel ih =>
    intro idx tlv goes inside same
    rw [tlvForeach_turn inside, tlvForeach_turn inside] at same
    cases tlv with
    | none => exact goes rfl
    | some here =>
      rw [passed] at goes
      rw [turn_validChild, turn_validChild] at same
      cases got : (tlvNext fw here).result with
      | none =>
        rw [got] at goes
        exact goes rfl
      | some next =>
        rw [got] at goes
        have later := trace_cancel got same
        exact ih goes (Nat.mod_lt _ (by decide)) later

theorem be16_lt (fw : Firmware) (offset) : fw.be16 offset < 2 ^ 16 := by
  have high : fw.byte offset < 2 ^ 8 := UInt8.toNat_lt _
  have low : fw.byte (offset + 1) < 2 ^ 8 := UInt8.toNat_lt _
  unfold Firmware.be16
  omega

def Firmware.announced (fw : Firmware) (multi : Nat) : Nat := fw.be16 multi + 1

private theorem multiForeach_within {multi}
    (leaves : fw.announced multi = 2 ^ 16 → passed fw (2 ^ 16 + 1) (multiChild fw multi) = none) (state : σ) :
    Within (fw.announced multi) fun fuel => multiForeach fw body fuel multi state := by
  have loop : Within (fw.announced multi) fun fuel =>
      tlvForeach fw body (2 ^ 16) (fw.announced multi) fuel 0 (multiChild fw multi) state := by
    by_cases full : fw.announced multi = 2 ^ 16
    · rw [full]
      exact Within.of_step fun fuel more =>
        tlvForeach_wrapped (leaves full) more (by decide) state
    · have below : fw.announced multi < 2 ^ 16 := by
        have := be16_lt fw multi
        unfold Firmware.announced at full ⊢
        omega
      exact within_counted below _ state
  intro fuel more
  refine Logged.bind_congr fun numExtensions got => ?_
  cases got
  exact loop fuel more

theorem leaves_of_within {turns multi : Nat} (within : Within turns fun fuel => multiValidate fw fuel multi)
    (full : fw.announced multi = 2 ^ 16) : passed fw (turns + 1) (multiChild fw multi) = none := by
  by_contra goes
  have same := congrArg trace (within (turns + 2) (by omega))
  have loops (fuel : Nat) : trace (multiValidate fw fuel multi) =
      trace (multiForeach fw validChild fuel multi ()) :=
    trace_bind_pure fun outcome => by cases outcome <;> rfl
  rw [loops, loops] at same
  have count : (readBe16 fw multi).result = some (fw.be16 multi) := rfl
  have looped := trace_cancel count same
  change fw.be16 multi + 1 = 2 ^ 16 at full
  rw [full] at looped
  exact validChild_goes_on _ goes (by decide) looped.symm

/-- The loops of `mlxfw_mfa2_file_init` end after at most the number of TLVs announced exactly when no chain
of 65536 announced children is all there. -/
theorem mfa2_loops_end_iff (fw : Firmware) : (∀ (count : UInt16) (tlv : Option Nat),
      Within count.toNat fun fuel => tlvAdvance fw fuel tlv count.toNat) ∧
    (∀ (count : UInt16) (check : Nat → Run Bool) (first : Option Nat),
      Within count.toNat fun fuel => validateAll fw fuel check first count.toNat) ∧
    ∀ multi, (Within (fw.announced multi) (fun fuel => multiValidate fw fuel multi) ∧
        (∀ type index, Within (fw.announced multi) fun fuel =>
          multiChildFind fw fuel multi type index) ∧
        ∀ type, Within (fw.announced multi) fun fuel => multiChildCount fw fuel multi type) ↔
      (fw.announced multi = 2 ^ 16 → passed fw (2 ^ 16 + 1) (multiChild fw multi) = none) := by
  refine ⟨fun count tlv => ?_, fun count check first => ?_, fun multi => ⟨?_, fun leaves => ?_⟩⟩
  · exact (within_counted count.toNat_lt tlv ()).bind _
  · exact (within_counted count.toNat_lt first ()).bind _
  · exact fun within full => full ▸ leaves_of_within within.1 full
  · refine ⟨(multiForeach_within leaves ()).bind _, fun type index => ?_, fun type => ?_⟩
    · exact (multiForeach_within leaves 0).bind _
    · exact (multiForeach_within leaves 0).bind _

/-- The first component announces 65536 children; the first one's length of 65532 is padded to 0. -/
def endlessImage : List UInt8 :=
  fingerprint ++ [0, 1, 0, 4, 0, 0, 0, 32] ++ [0, 2, 0, 28] ++
    [0, 1, 0, 0, 0, 0, 0, 4, 0, 0, 0, 1] ++ replicate 16 0 ++
    [0, 1, 0, 4, 255, 255, 0, 0] ++ [0, 0x2A, 255, 252] ++ [0]

private theorem endless_passed (steps) : passed ⟨endlessImage, fun _ => 0⟩ steps (some 64) = some (some 64) := by
  have same : (tlvNext ⟨endlessImage, fun _ => 0⟩ 64).result = some (some 64) := by decide +kernel
  induction steps with
  | zero => rfl
  | succ steps ih => rw [passed, same, bind_some, ih]

/-- The validation reads the length of that child, at 66, over and over. -/
theorem mfa2_loop_endless :
    let fw : Firmware := ⟨endlessImage, fun _ => 0⟩
    mfa2Check fw = true ∧ .read 66 ∈ (fileInit fw 2 false).log ∧
      ∀ turns, ¬ Within turns fun fuel => multiValidate fw fuel 60 := by
  intro fw
  have full : fw.announced 60 = 2 ^ 16 := by decide +kernel
  have child : multiChild fw 60 = some 64 := by decide +kernel
  refine ⟨by decide +kernel, by decide +kernel, fun turns within => ?_⟩
  have left := leaves_of_within within full
  rw [child, endless_passed] at left
  cases left

end MlnxOfed.Mlxfw
