/-
The entries built from an accepted list of actions: they fit, and each request is in one place of the chain
unless two share a field of the gathered record or the format has no place for the type.
-/

import MlnxOfed.Steering.ActionBuild

namespace MlnxOfed.Steering

open Lib MlnxOfed.Lib.SpanChain
open SteV1 DrActionType SteV0 SpanChain

def drActionMaxStes : Nat := 6

/-- At most six entries are added; no two writes meet, and in format v1 packed actions are inside their
entry's action area. -/
structure BuiltStes.Fits (env : ActionEnv) (built : BuiltStes) : Prop where
  added : built.newHwSteArrSz ≤ env.numOfBuilders + drActionMaxStes
  noUnderflow : built.underflow = false
  apart : built.chain.Sound
  inArea : env.format = .v1 → ∀ entry ∈ built.chain.writes, ∀ type, entry.tag = some type →
    type ≠ .ctr → type.isDestination = false → Entry.InArea env.lastSteIsMatch entry
  vlans : built.vlans.count ≤ built.vlans.headers.length

def BuiltStes.OncePerRequest (actions : List DrAction) (built : BuiltStes) : Prop :=
  ∀ type, built.chain.tally (some type) = requests actions type

/-- No two actions share `attr.reformat`, and the format has a place for each of them. -/
def Compatible (env : ActionEnv) (actions : List DrAction) : Prop :=
  requests actions .l2ToTnlL2 + requests actions .l2ToTnlL3 + requests actions .insertHdr ≤ 1 ∧
    (env.format = .v0 → requests actions .insertHdr = 0 ∧ requests actions .asoFlowMeter = 0)

def ActionsFit (env : ActionEnv) (actions : List DrAction) : Prop :=
  mlx5drActionsBuildSteArr env actions ≠ .error .outOfBounds ∧
    ∀ built, mlx5drActionsBuildSteArr env actions = .ok built → built.Fits env ∧ built.OncePerRequest actions

namespace StePlan

variable {env : ActionEnv} {actions : List DrAction} {plan : StePlan}

/-! ### How often each type is written -/

theorem Accepted.v1Reformat (accepted : plan.Accepted env actions) : (∀ type, type.isInsert = true →
        Cursor.reformatGains plan (some type) = requests actions type) ↔
      requests actions .l2ToTnlL2 + requests actions .l2ToTnlL3 + requests actions .insertHdr ≤ 1 := by
  have encap := accepted.once .l2ToTnlL2 (by decide) (by decide)
  have encapL3 := accepted.once .l2ToTnlL3 (by decide) (by decide)
  have insert := accepted.once .insertHdr (by decide) (by decide)
  have hasEncap := accepted.has_iff .l2ToTnlL2
  have hasEncapL3 := accepted.has_iff .l2ToTnlL3
  have hasInsert := accepted.has_iff .insertHdr
  have three : (∀ type, type.isInsert = true → Cursor.reformatGains plan (some type) = requests actions type) ↔
      Cursor.reformatGains plan (some .l2ToTnlL2) = requests actions .l2ToTnlL2 ∧
        Cursor.reformatGains plan (some .l2ToTnlL3) = requests actions .l2ToTnlL3 ∧
        Cursor.reformatGains plan (some .insertHdr) = requests actions .insertHdr := by
    constructor
    · exact fun every => ⟨every _ rfl, every _ rfl, every _ rfl⟩
    · rintro ⟨first, second, third⟩ type kind
      cases type <;> first | assumption | cases kind
  rw [three]
  unfold Cursor.reformatGains Cursor.reformatType
  by_cases first : plan.has .l2ToTnlL2 = true
  · have asked := hasEncap.mp first
    simp [first, times]
    omega
  have unasked := mt hasEncap.mpr first
  by_cases second : plan.has .l2ToTnlL3 = true
  · have asked := hasEncapL3.mp second
    simp [first, second, times]
    omega
  have unaskedL3 := mt hasEncapL3.mpr second
  by_cases third : plan.has .insertHdr = true
  · have asked := hasInsert.mp third
    simp [first, second, third, times]
    omega
  · have unaskedInsert := mt hasInsert.mpr third
    simp [first, second, third]
    omega

variable {type : DrActionType}

theorem v1Reformat_other (other : type.isInsert = false) : Cursor.reformatGains plan (some type) = 0 := by
  unfold Cursor.reformatGains Cursor.reformatType
  by_cases first : plan.has .l2ToTnlL2 = true
  · cases type <;> simp_all [times, isInsert]
  · by_cases second : plan.has .l2ToTnlL3 = true
    · cases type <;> simp_all [times, isInsert]
    · by_cases third : plan.has .insertHdr = true
      · cases type <;> simp_all [times, isInsert]
      · simp [first, second, third]

variable (accepted : plan.Accepted env actions)

include accepted

theorem Accepted.v1Decap (type) : Cursor.decapGains plan (some type) =
      if type.isDecap then requests actions type else 0 := by
  have decap := accepted.decap
  have hasDecap := accepted.has_iff .tnlL2ToL2
  have hasDecapL3 := accepted.has_iff .tnlL3ToL2
  unfold Cursor.decapGains Cursor.decapType
  by_cases first : plan.has .tnlL3ToL2 = true
  · have asked := hasDecapL3.mp first
    cases type <;> simp [first, times, isDecap] <;> omega
  have unaskedL3 := mt hasDecapL3.mpr first
  by_cases second : plan.has .tnlL2ToL2 = true
  · have asked := hasDecap.mp second
    cases type <;> simp [first, second, times, isDecap] <;> omega
  · have unasked := mt hasDecap.mpr second
    cases type <;> simp [first, second, isDecap] <;> omega

theorem Accepted.v1Rx (rx : env.nicType = .rx) (type) : SteV1.Cursor.rxGains plan (some type) =
      if type.isInsert then SteV1.Cursor.reformatGains plan (some type)
      else requests actions type := by
  have noPush := accepted.rx rx
  have noQp := accepted.unsupported
  rw [SteV1.Cursor.rxGains, SteV1.Cursor.rxEarlyGains, accepted.v1Decap,
    accepted.popWrites_eq rx, accepted.uses_eq (by decide) (by decide),
    accepted.uses_eq (by decide) (by decide), accepted.uses_eq (by decide) (by decide),
    accepted.uses_eq (by decide) (by decide), accepted.final]
  by_cases insert : type.isInsert = true
  · cases type <;> simp_all [times, DrActionType.isInsert, DrActionType.isDecap, DrActionType.isDestination]
  · rw [v1Reformat_other (Bool.eq_false_iff.mpr insert)]
    cases type <;> simp_all [times, DrActionType.isInsert, DrActionType.isDecap, DrActionType.isDestination]

theorem Accepted.v1Tx (tx : env.nicType = .tx) (type) : SteV1.Cursor.txGains plan (some type) =
      if type.isInsert then SteV1.Cursor.reformatGains plan (some type)
      else requests actions type := by
  obtain ⟨noPop, noTag, noDecap, noDecapL3⟩ := accepted.tx tx
  have noQp := accepted.unsupported
  rw [SteV1.Cursor.txGains, accepted.pushWrites_eq tx,
    accepted.uses_eq (by decide) (by decide), accepted.uses_eq (by decide) (by decide),
    accepted.uses_eq (by decide) (by decide), accepted.final]
  by_cases insert : type.isInsert = true
  · cases type <;> simp_all [times, DrActionType.isInsert, DrActionType.isDestination]
  · rw [v1Reformat_other (Bool.eq_false_iff.mpr insert)]
    cases type <;> simp_all [times, DrActionType.isInsert, DrActionType.isDestination]

theorem Accepted.v0Rx (old : env.format = .v0) (rx : env.nicType = .rx) (type) :
    SteV0.Cursor.rxGains plan (some type) =
      if type = .insertHdr ∨ type = .asoFlowMeter then 0 else requests actions type := by
  have noPush := accepted.rx rx
  have noQp := accepted.unsupported
  obtain ⟨noEncap, noEncapL3⟩ := accepted.encap old rx
  rw [SteV0.Cursor.rxGains, accepted.popWrites_eq rx,
    accepted.uses_eq (by decide) (by decide), accepted.uses_eq (by decide) (by decide),
    accepted.uses_eq (by decide) (by decide), accepted.uses_eq (by decide) (by decide),
    accepted.uses_eq (by decide) (by decide), accepted.final]
  cases type <;> simp_all [times, DrActionType.isDestination]

omit accepted

private theorem txEncap_other (other : type.isInsert = false) : Cursor.txEncapGains plan (some type) = 0 := by
  unfold Cursor.txEncapGains Cursor.txEncapType
  by_cases first : plan.has .l2ToTnlL3 = true
  · cases type <;> simp_all [times, isInsert]
  · by_cases second : plan.has .l2ToTnlL2 = true
    · cases type <;> simp_all [times, isInsert]
    · simp [first, second]

variable (accepted : plan.Accepted env actions)

include accepted

theorem Accepted.v0Tx (tx : env.nicType = .tx) (type) : SteV0.Cursor.txGains plan (some type) =
      if type.isInsert then SteV0.Cursor.txEncapGains plan (some type)
      else if type = .asoFlowMeter then 0 else requests actions type := by
  obtain ⟨noPop, noTag, noDecap, noDecapL3⟩ := accepted.tx tx
  have noQp := accepted.unsupported
  rw [SteV0.Cursor.txGains, accepted.pushWrites_eq tx,
    accepted.uses_eq (by decide) (by decide), accepted.uses_eq (by decide) (by decide),
    accepted.final]
  by_cases insert : type.isInsert = true
  · cases type <;> simp_all [times, DrActionType.isInsert, DrActionType.isDestination]
  · rw [txEncap_other (Bool.eq_false_iff.mpr insert)]
    cases type <;> simp_all [times, DrActionType.isInsert, DrActionType.isDestination]

theorem Accepted.v0Encap : (Cursor.txEncapGains plan (some .l2ToTnlL2) = requests actions .l2ToTnlL2 ∧
        Cursor.txEncapGains plan (some .l2ToTnlL3) = requests actions .l2ToTnlL3) ↔
      requests actions .l2ToTnlL2 + requests actions .l2ToTnlL3 ≤ 1 := by
  have encap := accepted.once .l2ToTnlL2 (by decide) (by decide)
  have encapL3 := accepted.once .l2ToTnlL3 (by decide) (by decide)
  have hasEncap := accepted.has_iff .l2ToTnlL2
  have hasEncapL3 := accepted.has_iff .l2ToTnlL3
  unfold Cursor.txEncapGains Cursor.txEncapType
  by_cases first : plan.has .l2ToTnlL3 = true
  · have asked := hasEncapL3.mp first
    simp [first, times]
    omega
  have unaskedL3 := mt hasEncapL3.mpr first
  by_cases second : plan.has .l2ToTnlL2 = true
  · have asked := hasEncap.mp second
    simp [first, second, times]
    omega
  · have unasked := mt hasEncap.mpr second
    simp [first, second]
    omega

theorem Accepted.v1Once (new : env.format = .v1) {gains : Option DrActionType → Nat}
    (written : ∀ type, gains (some type) = if type.isInsert then Cursor.reformatGains plan (some type)
      else requests actions type) :
    (∀ type, gains (some type) = requests actions type) ↔ Compatible env actions := by
  have other : ¬ env.format = .v0 := by
    rw [new]
    decide
  constructor
  · intro once
    refine ⟨accepted.v1Reformat.mp (fun type insert => ?_), fun old => absurd old other⟩
    have place := written type
    rw [if_pos insert] at place
    exact place.symm.trans (once type)
  rintro ⟨few, _⟩ type
  rw [written]
  by_cases insert : type.isInsert = true
  · rw [if_pos insert]
    exact accepted.v1Reformat.mpr few type insert
  · rw [if_neg insert]

theorem Accepted.v0RxOnce (old : env.format = .v0) (rx : env.nicType = .rx) :
    (∀ type, SteV0.Cursor.rxGains plan (some type) = requests actions type) ↔ Compatible env actions := by
  obtain ⟨noEncap, noEncapL3⟩ := accepted.encap old rx
  have insert := accepted.v0Rx old rx .insertHdr
  have meter := accepted.v0Rx old rx .asoFlowMeter
  simp only [true_or, or_true, if_true] at insert meter
  constructor
  · intro once
    rw [once] at insert meter
    exact ⟨by omega, fun _ => ⟨insert, meter⟩⟩
  rintro ⟨_, placed⟩ type
  obtain ⟨noInsert, noMeter⟩ := placed old
  rw [accepted.v0Rx old rx]
  by_cases unplaced : type = .insertHdr ∨ type = .asoFlowMeter
  · rw [if_pos unplaced]
    rcases unplaced with rfl | rfl
    · exact noInsert.symm
    · exact noMeter.symm
  · rw [if_neg unplaced]

theorem Accepted.v0TxOnce (old : env.format = .v0) (tx : env.nicType = .tx) :
    (∀ type, SteV0.Cursor.txGains plan (some type) = requests actions type) ↔ Compatible env actions := by
  have written := accepted.v0Tx tx
  have insert : SteV0.Cursor.txGains plan (some .insertHdr) = 0 := by
    rw [written]
    unfold SteV0.Cursor.txEncapGains SteV0.Cursor.txEncapType
    by_cases first : plan.has .l2ToTnlL3 = true
    · simp [first, times, DrActionType.isInsert]
    · by_cases second : plan.has .l2ToTnlL2 = true <;>
        simp [first, second, times, DrActionType.isInsert]
  have meter : SteV0.Cursor.txGains plan (some .asoFlowMeter) = 0 := by
    rw [written]
    rfl
  constructor
  · intro once
    rw [once] at insert meter
    have encap := written .l2ToTnlL2
    have encapL3 := written .l2ToTnlL3
    rw [once] at encap encapL3
    have few := accepted.v0Encap.mp ⟨encap.symm, encapL3.symm⟩
    exact ⟨by omega, fun _ => ⟨insert, meter⟩⟩
  rintro ⟨few, placed⟩ type
  obtain ⟨noInsert, noMeter⟩ := placed old
  obtain ⟨encap, encapL3⟩ := accepted.v0Encap.mpr (by omega)
  cases type with
  | l2ToTnlL2 => exact (written _).trans encap
  | l2ToTnlL3 => exact (written _).trans encapL3
  | insertHdr => exact insert.trans noInsert.symm
  | asoFlowMeter => exact meter.trans noMeter.symm
  | _ => exact written _

omit accepted

end StePlan

/-- What holds of the chain that `set_actions` writes for an accepted list. -/
structure Applied (env : ActionEnv) (actions : List DrAction) (applied : SteChain × Bool) :
    Prop where
  added : applied.1.added ≤ drActionMaxStes
  noUnderflow : applied.2 = false
  apart : applied.1.Sound
  inArea : env.format = .v1 → ∀ entry ∈ applied.1.writes, ∀ type, entry.tag = some type →
    type ≠ .ctr → type.isDestination = false → Entry.InArea env.lastSteIsMatch entry
  once : (∀ type, applied.1.tally (some type) = requests actions type) ↔ Compatible env actions

private theorem once_of_grows {gains : Option DrActionType → Nat} {limit : Nat} {chain : SteChain}
    {actions : List DrAction} (grows : Grows gains limit begin chain) :
    (∀ type, chain.tally (some type) = requests actions type) ↔
      ∀ type, gains (some type) = requests actions type := by
  have tally type : chain.tally (some type) = gains (some type) := (grows.tally (some type)).trans (zero_add _)
  simp [tally]

section Apply

variable {env : ActionEnv} {actions : List DrAction} {plan : StePlan}

theorem StePlan.Accepted.inArea (accepted : plan.Accepted env actions) {gains}
    {limit cursor} (complete : SteV1.Cursor.Complete env.lastSteIsMatch plan gains
    limit cursor) (entry) (mem : entry ∈ cursor.chain.writes) (type) (tagged : entry.tag = some type)
    (notCtr : type ≠ .ctr) (other : type.isDestination = false) : SteV1.Entry.InArea env.lastSteIsMatch
    entry := by
  rcases complete.filled entry mem with ⟨counter, _⟩ | inside | ⟨hit, _⟩
  · rw [tagged] at counter
    exact absurd (Option.some.inj counter) notCtr
  · exact inside
  · rw [tagged] at hit
    exact absurd (accepted.destination type hit.symm) (Bool.eq_false_iff.mp other)

private theorem drActionsApply_applied (accepted : plan.Accepted env actions) :
    Applied env actions (drActionsApply env plan) := by
  have few : plan.attr.vlans.count ≤ 2 := accepted.fewVlans
  unfold drActionsApply
  cases format : env.format with
  | v0 =>
    have notNew : ¬ env.format = .v1 := by
      rw [format]
      decide
    cases nic : env.nicType with
    | rx =>
      have decap (first : plan.has .tnlL2ToL2 = true) : plan.has .tnlL3ToL2 = false := by
        have asked := (accepted.has_iff .tnlL2ToL2).mp first
        have one := accepted.decap
        refine Bool.eq_false_iff.mpr (fun second => ?_)
        have askedL3 := (accepted.has_iff .tnlL3ToL2).mp second
        omega
      have complete := Cursor.setActionsRx_complete plan decap
      have added := complete.grows.added
      simp only [begin] at added
      exact ⟨by simp only [drActionMaxStes]; omega, rfl, complete.sound, fun new => absurd new notNew,
        (once_of_grows complete.grows).trans (accepted.v0RxOnce format nic)⟩
    | tx =>
      have complete := Cursor.setActionsTx_complete plan
      have added := complete.grows.added
      simp only [begin] at added
      exact ⟨by simp only [drActionMaxStes]; omega, rfl, complete.sound, fun new => absurd new notNew,
        (once_of_grows complete.grows).trans (accepted.v0TxOnce format nic)⟩
  | v1 =>
    cases nic : env.nicType with
    | rx =>
      have complete := Cursor.setActionsRx_complete env.lastSteIsMatch plan
      have added := complete.grows.added
      simp only [begin] at added
      exact ⟨by simp only [drActionMaxStes]; omega, complete.noUnderflow, complete.sound,
        fun _ => accepted.inArea complete,
        (once_of_grows complete.grows).trans (accepted.v1Once format (accepted.v1Rx nic))⟩
    | tx =>
      have complete := Cursor.setActionsTx_complete env.lastSteIsMatch plan
      have added := complete.grows.added
      simp only [begin] at added
      exact ⟨by simp only [drActionMaxStes]; omega, complete.noUnderflow, complete.sound,
        fun _ => accepted.inArea complete,
        (once_of_grows complete.grows).trans (accepted.v1Once format (accepted.v1Tx nic))⟩

end Apply

private theorem build_spec (env actions) : mlx5drActionsBuildSteArr env actions ≠ .error .outOfBounds ∧
      ∀ built, mlx5drActionsBuildSteArr env actions = .ok built →
        built.Fits env ∧ (built.OncePerRequest actions ↔ Compatible env actions) := by
  obtain ⟨bounded, gathers⟩ := (ActionsBuild.Gathers.begin env).turns actions
  unfold mlx5drActionsBuildSteArr
  cases turned : (ActionsBuild.begin env).turns env actions with
  | error stop =>
    refine ⟨fun stopped => ?_, fun built ended => by cases ended⟩
    cases stopped
    exact bounded turned
  | ok build =>
    have gathered := gathers build turned
    rw [List.nil_append] at gathered
    obtain ⟨unbroken, kept⟩ := recalcChecksum_spec env build.gathered
    dsimp only
    cases recalculated : build.gathered.recalcChecksum env with
    | error stop =>
      refine ⟨fun stopped => ?_, fun built ended => by cases ended⟩
      cases stopped
      exact unbroken recalculated
    | ok after =>
      obtain ⟨vlans, finalType⟩ := kept after recalculated
      have accepted := gathered.accepted vlans finalType
      have applied := drActionsApply_applied accepted
      refine ⟨by simp, fun built ended => ?_⟩
      cases ended
      refine ⟨{ applied with
        added := Nat.add_le_add_left applied.added _
        vlans := ?_ }, applied.once⟩
      rw [vlans, gathered.headers]
      exact gathered.vlans_le

/-- No list makes the build index past an array; what it accepts fits six more entries and their action
areas. Requests have one place exactly where no two share the reformat and the format writes each of their
types. -/
theorem actions_fit (env : ActionEnv) (actions : List DrAction) :
    mlx5drActionsBuildSteArr env actions ≠ .error .outOfBounds ∧
      (∀ built, mlx5drActionsBuildSteArr env actions = .ok built → built.Fits env) ∧
      (ActionsFit env actions ↔
        ∀ built, mlx5drActionsBuildSteArr env actions = .ok built → Compatible env actions) := by
  obtain ⟨bounded, fits⟩ := build_spec env actions
  refine ⟨bounded, fun built accepted => (fits built accepted).1, ?_⟩
  constructor
  · rintro ⟨_, placed⟩ built accepted
    exact (fits built accepted).2.mp (placed built accepted).2
  · intro compatible
    refine ⟨bounded, fun built accepted => ?_⟩
    obtain ⟨fit, once⟩ := fits built accepted
    exact ⟨fit, once.mpr (compatible built accepted)⟩

def transmitEnv (format : SteFormat) : ActionEnv where
  dmn := 1
  domainType := .nicTx
  nicType := .tx
  has := by decide
  format := format
  gvmi := 0
  defaultIcmAddr := 0x1000
  dropIcmAddr := 0x2000
  prioTagRequired := false
  numOfBuilders := 2
  lastSteIsMatch := false
  queryFlowTable := fun _ _ => .ok (0x3000, 0x4000)
  recalcCsFtAddr := fun _ _ => .ok 0x5000

def twoEncapsulations : List DrAction :=
  [.l2ToTnlL2 ⟨7, 50, 0, 0⟩, .asoFlowMeter ⟨9, 1, 3, 0⟩, .l2ToTnlL3 ⟨8, 42, 0, 0⟩, .ft (.sw 1 0x6000 0x7000)]

def meteredDrop : List DrAction := [.asoFlowMeter ⟨9, 1, 3, 0⟩, .drop]

theorem requests_unplaced : ¬ ActionsFit (transmitEnv .v1) twoEncapsulations ∧
      ¬ ActionsFit (transmitEnv .v0) meteredDrop := by
  constructor
  · rintro ⟨_, placed⟩
    obtain ⟨built, made⟩ : ∃ built,
        mlx5drActionsBuildSteArr (transmitEnv .v1) twoEncapsulations = .ok built := ⟨_, rfl⟩
    have once := (placed built made).2 .l2ToTnlL3
    cases made
    exact absurd once (by decide +kernel)
  · rintro ⟨_, placed⟩
    obtain ⟨built, made⟩ : ∃ built,
        mlx5drActionsBuildSteArr (transmitEnv .v0) meteredDrop = .ok built := ⟨_, rfl⟩
    have once := (placed built made).2 .asoFlowMeter
    cases made
    exact absurd once (by decide +kernel)

end MlnxOfed.Steering
