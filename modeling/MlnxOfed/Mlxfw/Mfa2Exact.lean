/-
The condition on an image under which its parsing stays inside is exact: the parser comes, with enough fuel,
to each TLV that the condition is about, when those before it meet the condition.
-/

import MlnxOfed.Mlxfw.Mfa2Safety
import Mathlib.Data.Finset.Range
import Mathlib.Order.Filter.Finite

namespace MlnxOfed.Mlxfw

open Option Lib
open Logged (EndsIn Clean after_after bind_of_result mem_bind result_of_bind)

variable {fw : Firmware} {σ ρ : Type} {tlv : Nat}

/-! ### One TLV -/

theorem Tlv.valid (here : Tlv fw tlv) : validPtr fw tlv = true := validPtr_iff.mpr ⟨here.1, by have := here.2; omega⟩

theorem tlvLen_ends (fw : Firmware) (tlv) : (readBe16 fw (tlv + 2)).result = some (fw.tlvLen tlv) := rfl

theorem tlvType_ends (fw : Firmware) (tlv) : (readByte fw (tlv + 1)).result = some (fw.tlvType tlv) := rfl

theorem tlvPayloadGet_accepts (here : Tlv fw tlv) {payloadType payloadSize varsize}
    (accepts : Accepts fw tlv payloadType payloadSize varsize) :
    (tlvPayloadGet fw tlv payloadType payloadSize varsize).result = some (some (tlv + 4)) ∧
      .payload tlv (fw.tlvLen tlv) ∈ (tlvPayloadGet fw tlv payloadType payloadSize varsize).log := by
  obtain ⟨valid, type, variable_, fixed⟩ := accepts
  unfold tlvPayloadGet
  rw [bind_of_result (tlvLen_ends fw tlv), if_neg (by simp [here.valid, valid]), bind_of_result (tlvType_ends fw tlv),
    if_neg (not_not.mpr type), if_neg fun ⟨var, short⟩ => absurd (variable_ var) (Nat.not_le.mpr short),
    if_neg fun ⟨isFixed, wrong⟩ => wrong (fixed isFixed)]
  exact ⟨rfl, List.mem_append_right _ (List.mem_append_right _ (.head _))⟩

private theorem tlvPayloadGet_refuses (here : Tlv fw tlv) {payloadType payloadSize varsize}
    (refuses : ¬ Accepts fw tlv payloadType payloadSize varsize) :
    (tlvPayloadGet fw tlv payloadType payloadSize varsize).result = some none := by
  unfold tlvPayloadGet
  rw [bind_of_result (tlvLen_ends fw tlv)]
  split
  · rfl
  next valid =>
  rw [bind_of_result (tlvType_ends fw tlv)]
  split
  · rfl
  next type =>
  split
  · rfl
  next long =>
  split
  · rfl
  next fixed =>
  exact absurd ⟨by simpa [here.valid] using valid, not_not.mp type,
    fun var => Nat.not_lt.mp fun short => long ⟨var, short⟩,
    fun isFixed => not_not.mp fun wrong => fixed ⟨isFixed, wrong⟩⟩ refuses

variable {payloadType payloadSize : Nat} {varsize : Bool}

theorem fits_of_clean (here : Tlv fw tlv)
    (clean : Clean (Access.Good fw) fun _ => tlvPayloadGet fw tlv payloadType payloadSize varsize) :
    Fits fw tlv payloadType payloadSize varsize :=
  fun accepts => clean.always _ (tlvPayloadGet_accepts here accepts).2

theorem payload_ends (here : Tlv fw tlv) (accepts : Accepts fw tlv payloadType payloadSize varsize) :
    EndsIn (fun _ => tlvPayloadGet fw tlv payloadType payloadSize varsize) (some (tlv + 4)) :=
  .of_result (tlvPayloadGet_accepts here accepts).1

theorem passable_of_clean (here : Tlv fw tlv) (clean : Clean (Access.Good fw) fun _ => tlvNext fw tlv) :
    Passable fw tlv := by
  intro multiPart
  have clean := (clean.later (.of_result (tlvLen_ends fw tlv))).later (.of_result (tlvType_ends fw tlv))
  rw [if_pos multiPart] at clean
  by_cases accepts : IsMulti fw tlv
  · have four := accepts.2.2.2 rfl
    have ends := fits_of_clean here clean.first accepts
    exact ⟨four, by omega⟩
  · have null := clean.later (.of_result (tlvPayloadGet_refuses here accepts))
    exact absurd rfl (null.first.always (.deref tlv none) (.head _))

private theorem tlvNext_ends (here : Tlv fw tlv) (passable : Passable fw tlv) :
    ∃ next, (tlvNext fw tlv).result = some next := by
  unfold tlvNext
  rw [bind_of_result (tlvLen_ends fw tlv), bind_of_result (tlvType_ends fw tlv)]
  split
  · next multiPart =>
    obtain ⟨four, ends⟩ := passable multiPart
    have accepts : IsMulti fw tlv := ⟨validPtr_iff.mpr (by omega), multiPart, nofun, fun _ => four⟩
    rw [multiGet, bind_of_result (tlvPayloadGet_accepts here accepts).1]
    exact ⟨_, rfl⟩
  · exact ⟨_, rfl⟩

/-! ### Loops -/

theorem passed_tlv {n} {first} (known : TlvOrNull fw first) (reached : passed fw n first = some (some tlv)) :
    Tlv fw tlv := by
  induction n generalizing first with
  | zero =>
    cases reached
    exact known tlv rfl
  | succ n ih =>
    cases first with
    | none => cases reached
    | some start =>
      obtain ⟨next, got, rest⟩ := Option.bind_eq_some_iff.mp reached
      refine ih ?_ rest
      obtain ⟨len, -, got⟩ := result_of_bind got
      obtain ⟨type, -, got⟩ := result_of_bind got
      split at got
      · obtain ⟨multi, -, got⟩ := result_of_bind got
        obtain ⟨_, -, got⟩ := result_of_bind got
        split at got
        · cases got
        · obtain ⟨totalLen, -, got⟩ := result_of_bind got
          cases got
          exact tlvGet_spec _
      · cases got
        exact tlvGet_spec _

variable {range count : Nat} {first : Option Nat} {state : Nat → σ}

/-- A turn that goes on: the TLV is there, and the body has no result to return. -/
def GoesOn (fw : Firmware) (body : Nat → Option Nat → σ → Run (σ ⊕ ρ)) (first : Option Nat)
    (state : Nat → σ) (n : Nat) : Prop :=
  ∃ here, passed fw n first = some (some here) ∧
    EndsIn (fun fuel => body fuel (some here) (state n)) (.inl (state (n + 1)))

def Turns (range count n : Nat) : Prop := n < count ∨ count = range

theorem Turns.index {n} (turns : Turns range count n) (pos : 0 < range) (small : count ≤ range) :
    n % range < count := by
  rcases turns with before | rfl
  · exact lt_of_le_of_lt (Nat.mod_le _ _) before
  · exact Nat.mod_lt _ pos

theorem passed_pred {n next} (reached : passed fw (n + 1) first = some next) :
    ∃ here, passed fw n first = some (some here) ∧ (tlvNext fw here).result = some next := by
  induction n generalizing first with
  | zero =>
    cases first with
    | none => cases reached
    | some start =>
      obtain ⟨second, got, rest⟩ := Option.bind_eq_some_iff.mp reached
      cases rest
      exact ⟨start, rfl, got⟩
  | succ n ih =>
    cases first with
    | none => cases reached
    | some start =>
      obtain ⟨second, got, rest⟩ := Option.bind_eq_some_iff.mp reached
      obtain ⟨here, there, goes⟩ := ih rest
      refine ⟨here, ?_, goes⟩
      rw [passed, got]
      exact there

theorem passed_before {n next} (reached : passed fw n first = some next) {m} (before : m < n) :
    ∃ here, passed fw m first = some (some here) := by
  induction n generalizing next with
  | zero => exact absurd before (Nat.not_lt_zero m)
  | succ n ih =>
    obtain ⟨here, there, -⟩ := passed_pred reached
    rcases Nat.lt_succ_iff_lt_or_eq.mp before with old | rfl
    · exact ih there old
    · exact ⟨here, there⟩

private theorem tlvForeach_reaches {body : Option Nat → σ → Run (σ ⊕ ρ)} (pos : 0 < range) (small : count ≤ range)
    (n : Nat) : (∀ m < n, Turns range count m ∧ ∃ here, passed fw m first = some (some here) ∧
      (body (some here) (state m)).result = some (.inl (state (m + 1)))) →
      ∀ {tlv}, passed fw n first = some tlv → ∀ fuel, ∃ old,
        tlvForeach fw body range count (n + fuel) 0 first (state 0) =
          (tlvForeach fw body range count fuel (n % range) tlv (state n)).after old := by
  induction n with
  | zero =>
    intro _ tlv reached fuel
    cases reached
    rw [Nat.zero_mod, Nat.zero_add]
    exact ⟨[], rfl⟩
  | succ n ih =>
    intro goes tlv reached fuel
    obtain ⟨here, there, got⟩ := passed_pred reached
    obtain ⟨turns, other, same, kept⟩ := goes n (Nat.lt_succ_self n)
    rw [there] at same
    cases same
    obtain ⟨old, before⟩ := ih (fun m more => goes m (Nat.lt_succ_of_lt more)) there (fuel + 1)
    rw [tlvForeach_turn (turns.index pos small), turn, bind_of_result kept] at before
    dsimp only at before
    rw [bind_of_result got, Nat.mod_add_mod] at before
    rw [Nat.add_assoc, Nat.add_comm 1 fuel, before, after_after, after_after]
    exact ⟨_, rfl⟩

section Loop

variable {body : Nat → Option Nat → σ → Run (σ ⊕ ρ)} (pos : 0 < range) (small : count ≤ range) {n : Nat}
  (goes : ∀ m < n, Turns range count m ∧ GoesOn fw body first state m) {here : Option Nat}
  (reached : passed fw n first = some here)

include pos small goes reached

theorem loop_reaches : ∀ᶠ fuel in Filter.atTop, ∃ old left,
    tlvForeach fw (body fuel) range count fuel 0 first (state 0) =
      (tlvForeach fw (body fuel) range count (left + 1) (n % range) here (state n)).after old := by
  have all : ∀ᶠ fuel in Filter.atTop, ∀ m ∈ Finset.range n, Turns range count m ∧
      ∃ here, passed fw m first = some (some here) ∧
        (body fuel (some here) (state m)).result = some (.inl (state (m + 1))) := by
    rw [Filter.eventually_all_finset]
    intro m inside
    obtain ⟨turns, here, there, ends⟩ := goes m (Finset.mem_range.mp inside)
    filter_upwards [ends] with fuel got
    exact ⟨turns, here, there, got⟩
  filter_upwards [all, Filter.eventually_gt_atTop n] with fuel kept more
  obtain ⟨left, isFuel⟩ := Nat.exists_eq_add_of_lt more
  obtain ⟨old, same⟩ := tlvForeach_reaches pos small n
    (fun m inside => kept m (Finset.mem_range.mpr inside)) reached (left + 1)
  rw [← Nat.add_assoc, ← isFuel] at same
  exact ⟨old, left, same⟩

theorem loop_ends (last : n = count) (below : count < range) :
    EndsIn (fun fuel => tlvForeach fw (body fuel) range count fuel 0 first (state 0)) (.inl (here, state n)) := by
  filter_upwards [loop_reaches pos small goes reached] with fuel ⟨old, left, same⟩
  rw [same, last, Nat.mod_eq_of_lt below, tlvForeach, if_neg (lt_irrefl count)]
  rfl

variable (turns : Turns range count n)

include turns

theorem loop_returns {res} (returns : EndsIn (fun fuel => body fuel here (state n)) (.inr res)) :
    EndsIn (fun fuel => tlvForeach fw (body fuel) range count fuel 0 first (state 0)) (.inr res) := by
  filter_upwards [loop_reaches pos small goes reached, returns] with fuel ⟨old, left, same⟩ got
  rw [same, tlvForeach_turn (turns.index pos small), turn, bind_of_result got]
  rfl

variable (clean : Clean (Access.Good fw) fun fuel =>
  tlvForeach fw (body fuel) range count fuel 0 first (state 0))

include clean

private theorem loop_clean : Clean (Access.Good fw) fun fuel => body fuel here (state n) := by
  filter_upwards [clean, loop_reaches pos small goes reached] with fuel all ⟨old, left, same⟩ event inside
  refine all event ?_
  rw [same, tlvForeach_turn (turns.index pos small)]
  exact List.mem_append_right _ (mem_bind inside)

theorem loop_passes {tlv} (isTlv : here = some tlv) {later}
    (kept : EndsIn (fun fuel => body fuel here (state n)) (.inl later)) :
    Clean (Access.Good fw) fun _ => tlvNext fw tlv := by
  filter_upwards [clean, loop_reaches pos small goes reached, kept] with fuel all ⟨old, left, same⟩ got
    event inside
  refine all event ?_
  rw [same, tlvForeach_turn (turns.index pos small), turn, bind_of_result got, isTlv]
  exact List.mem_append_right _ (List.mem_append_right _ (mem_bind inside))

end Loop

/-- Where all TLVs before are there and can be passed over, the chain has a next one or NULL. -/
theorem passed_end {count} (known : TlvOrNull fw first)
    (all : ∀ m < count, ∃ tlv, passed fw m first = some (some tlv) ∧ Passable fw tlv) :
    ∃ last, passed fw count first = some last := by
  cases count with
  | zero => exact ⟨first, rfl⟩
  | succ m =>
    obtain ⟨tlv, there, passable⟩ := all m (Nat.lt_succ_self m)
    obtain ⟨next, got⟩ := tlvNext_ends (passed_tlv known there) passable
    exact ⟨next, passed_succ there got⟩

/-! ### Children -/

section Children

variable {multi : Nat}

theorem children_passable
    (clean : Clean (Access.Good fw) fun fuel => multiValidate fw fuel multi) (n) :
    ∀ child, IsChild fw multi n child → Passable fw child := by
  have loop := clean.first.later (.of_result rfl)
  intro child isChild
  have there := passed_tlv (tlvGet_spec _) isChild.1
  refine passable_of_clean there (@loop_passes fw Unit Unit (2 ^ 16) _ _ (fun _ => ()) (fun _ => validChild)
    (by decide) (announced_le fw multi) n ?_ _ isChild.1 isChild.2 loop _ rfl _ (.of_result rfl))
  exact fun m more => ⟨isChild.2.imp_left more.trans, (passed_before isChild.1 more).imp fun here earlier =>
    ⟨earlier, .of_result rfl⟩⟩

section Complete

variable (complete : Complete fw multi) (children : ∀ n child, IsChild fw multi n child → Passable fw child)

include complete children

private theorem child_passable {m} (more : m < fw.announced multi) :
    ∃ tlv, passed fw m (multiChild fw multi) = some (some tlv) ∧ Passable fw tlv := by
  obtain ⟨tlv, there⟩ := complete.2 m more
  exact ⟨tlv, there, children m tlv ⟨there, .inl more⟩⟩

theorem multiForeach_ends {body : Option Nat → σ → Run (σ ⊕ ρ)} {state : Nat → σ}
    (goes : ∀ m < fw.announced multi, ∀ tlv, passed fw m (multiChild fw multi) = some (some tlv) →
      (body (some tlv) (state m)).result = some (.inl (state (m + 1)))) :
    ∃ last, EndsIn (fun fuel => multiForeach fw body fuel multi (state 0))
      (.inl (last, state (fw.announced multi))) := by
  obtain ⟨last, reached⟩ := passed_end (tlvGet_spec _) fun m more => child_passable complete children more
  have loop := @loop_ends fw σ ρ (2 ^ 16) _ _ state (fun _ => body) (by decide) (announced_le fw multi) _
    (fun m more => ⟨.inl more, by
      obtain ⟨tlv, there⟩ := complete.2 m more
      exact ⟨tlv, there, .of_result (goes m more tlv there)⟩⟩) last reached rfl complete.1
  exact ⟨last, (EndsIn.of_result rfl).bind loop⟩

theorem multiValidate_ends : EndsIn (fun fuel => multiValidate fw fuel multi) true := by
  obtain ⟨last, loop⟩ := @multiForeach_ends fw Unit Unit multi complete children validChild (fun _ => ())
    fun _ _ _ _ => rfl
  exact loop.bind (.of_result rfl)

theorem multiChildCount_ends (type) : EndsIn (fun fuel => multiChildCount fw fuel multi type)
    (some (typedBefore fw multi type (fw.announced multi))) := by
  unfold multiChildCount
  dsimp only
  refine (@multiForeach_ends fw _ _ multi complete children _ (typedBefore fw multi type) ?_).elim
    fun last loop => loop.bind (.of_result rfl)
  intro m more tlv there
  have step := typedBefore_step type there
  have few := @typedBefore_le fw multi type (m + 1)
  have small := complete.1
  dsimp only
  rw [bind_of_result (tlvType_ends fw tlv)]
  by_cases same : fw.tlvType tlv = type
  · rw [if_pos same] at step
    rw [if_pos same, Nat.mod_eq_of_lt (by omega), ← step]
    rfl
  · rw [if_neg same] at step
    rw [if_neg same, step]
    rfl

omit children in
theorem multiChildFind_ends {type index child} (nth : IsNth fw multi type index child) :
    EndsIn (fun fuel => multiChildFind fw fuel multi type index) (some child) := by
  obtain ⟨n, isChild, isType, before⟩ := nth
  have inside := isChild.2.resolve_right complete.1.ne
  unfold multiChildFind
  dsimp only
  refine EndsIn.bind (?_ : EndsIn _ (.inr (some child))) (.of_result rfl)
  refine (EndsIn.of_result rfl).bind (@loop_returns fw Nat (Option Nat) (2 ^ 16) _ _
    (typedBefore fw multi type) _ (by decide) (announced_le fw multi) n ?_ _ isChild.1 (.inl inside) _
    (.of_result ?_))
  · intro m more
    obtain ⟨tlv, there⟩ := complete.2 m (more.trans inside)
    refine ⟨.inl (more.trans inside), tlv, there, .of_result ?_⟩
    have step := typedBefore_step type there
    have mono : typedBefore fw multi type (m + 1) ≤ typedBefore fw multi type n := typedBefore_mono type more
    have few := @typedBefore_le fw multi type n
    have small := complete.1
    dsimp only
    rw [bind_of_result (tlvType_ends fw tlv)]
    by_cases same : fw.tlvType tlv = type
    · rw [if_pos same] at step
      rw [if_pos same, if_neg (by omega), Nat.mod_eq_of_lt (by omega), ← step]
      rfl
    · rw [if_neg same] at step
      rw [if_neg same, step]
      rfl
  · dsimp only
    rw [bind_of_result (tlvType_ends fw child), if_pos isType, if_pos before]
    rfl

end Complete

theorem exists_nth (complete : Complete fw multi) {type n index} (below : n ≤ fw.announced multi)
    (more : index < typedBefore fw multi type n) : ∃ child, IsNth fw multi type index child := by
  induction n with
  | zero => exact absurd more (Nat.not_lt_zero index)
  | succ n ih =>
    obtain ⟨child, there⟩ := complete.2 n below
    have step := typedBefore_step type there
    by_cases old : index < typedBefore fw multi type n
    · exact ih (by omega) old
    · by_cases same : fw.tlvType child = type
      · rw [if_pos same] at step
        exact ⟨child, n, ⟨there, .inl below⟩, same, by omega⟩
      · rw [if_neg same] at step
        omega

theorem nth_tlv {type index child} (nth : IsNth fw multi type index child) : Tlv fw child :=
  passed_tlv (tlvGet_spec _) nth.choose_spec.1.1

end Children

/-! ### Devices and components -/

variable {dev : Nat}

private theorem pointer_fits (complete : Complete fw (dev + 4)) {rest index child}
    (old : PointersBefore fw dev index) (nth : IsNth fw (dev + 4) typeComponentPtr index child) {cptrIdx}
    (start : cptrIdx ≤ index) (more : index < cptrIdx + rest)
    (clean : Clean (Access.Good fw) fun fuel => devComponentPtrs fw fuel false (dev + 4) rest cptrIdx) :
    Fits fw child typeComponentPtr 8 false := by
  induction rest generalizing cptrIdx with
  | zero => omega
  | succ rest ih =>
    rcases Nat.eq_or_lt_of_le start with rfl | before
    · exact fits_of_clean (nth_tlv nth) (clean.later (multiChildFind_ends complete nth)).first
    · obtain ⟨n, isChild, isType, same⟩ := nth
      obtain ⟨earlier, earlierNth⟩ := exists_nth complete (isChild.2.resolve_right complete.1.ne).le
        (same ▸ before)
      have found := clean.later (multiChildFind_ends complete earlierNth)
      have taken := found.later (payload_ends (nth_tlv earlierNth) (old cptrIdx before earlier earlierNth))
      exact ih before (by omega) (taken.later (.of_result rfl))

private theorem devComponentPtrs_ends (complete : Complete fw (dev + 4))
    (all : ∀ index, PointersBefore fw dev index) (rest) {cptrIdx}
    (below : cptrIdx + rest ≤ typedBefore fw (dev + 4) typeComponentPtr (fw.announced (dev + 4))) :
    EndsIn (fun fuel => devComponentPtrs fw fuel false (dev + 4) rest cptrIdx) true := by
  induction rest generalizing cptrIdx with
  | zero => exact .of_result rfl
  | succ rest ih =>
    have more : cptrIdx < typedBefore fw (dev + 4) typeComponentPtr (fw.announced (dev + 4)) := by omega
    obtain ⟨child, nth⟩ := exists_nth complete le_rfl more
    refine (multiChildFind_ends complete nth).bind ?_
    refine (payload_ends (nth_tlv nth) (all (cptrIdx + 1) cptrIdx (Nat.lt_succ_self _) child nth)).bind ?_
    exact (EndsIn.of_result rfl).bind (ih (by omega))

section Device

variable (here : Tlv fw dev) (clean : Clean (Access.Good fw) fun fuel => fileDevValidate fw fuel false dev)

include here clean

private theorem device_validates (isMulti : IsMulti fw dev) (complete : Complete fw (dev + 4)) :
    (∀ n child, IsChild fw (dev + 4) n child → Passable fw child) ∧
      ∀ child, IsNth fw (dev + 4) typePsid 0 child → Fits fw child typePsid 0 true ∧
        (Accepts fw child typePsid 0 true →
          typedBefore fw (dev + 4) typeComponentPtr (fw.announced (dev + 4)) ≠ 0 →
          Clean (Access.Good fw) fun fuel => devComponentPtrs fw fuel false (dev + 4)
            (typedBefore fw (dev + 4) typeComponentPtr (fw.announced (dev + 4))) 0) := by
  have inner := clean.later (payload_ends here isMulti)
  have children := children_passable inner.first
  refine ⟨children, fun child nth => ?_⟩
  have found := (inner.later (multiValidate_ends complete children)).later
    (multiChildFind_ends complete nth)
  refine ⟨fits_of_clean (nth_tlv nth) found.first, fun accepts some => ?_⟩
  have counted := (((found.later (payload_ends (nth_tlv nth) accepts)).later (.of_result rfl)).later
    (.of_result rfl)).later (multiChildCount_ends complete children typeComponentPtr)
  simpa only [some, if_false] using counted

private theorem deviceSafe_of_clean : DeviceSafe fw dev where
  multi := fits_of_clean here clean.first
  children isMulti := children_passable (clean.later (payload_ends here isMulti)).first
  psid isMulti complete child nth := ((device_validates here clean isMulti complete).2 child nth).1
  pointer isMulti complete psid index child old nth := by
    obtain ⟨-, validated⟩ := device_validates here clean isMulti complete
    obtain ⟨psidChild, psidNth, accepts⟩ := psid
    obtain ⟨n, isChild, isType, same⟩ := nth
    have more := IsNth.lt isChild isType same (isChild.2.resolve_right complete.1.ne)
    exact pointer_fits complete old ⟨n, isChild, isType, same⟩ (Nat.zero_le _)
      (by omega) ((validated psidChild psidNth).2 accepts (by omega))

end Device

theorem fileDevValidate_ends (here : Tlv fw dev) (safe : DeviceSafe fw dev) (valid : DeviceValid fw dev) :
    EndsIn (fun fuel => fileDevValidate fw fuel false dev) true := by
  obtain ⟨isMulti, complete, ⟨child, nth, accepts⟩, some, all⟩ := valid
  have children := safe.children isMulti
  refine (payload_ends here isMulti).bind ((multiValidate_ends complete children).bind ?_)
  refine (multiChildFind_ends complete nth).bind ((payload_ends (nth_tlv nth) accepts).bind ?_)
  refine (EndsIn.of_result rfl).bind ((EndsIn.of_result rfl).bind ?_)
  refine (multiChildCount_ends complete children typeComponentPtr).bind ?_
  simp only [some, if_false]
  exact devComponentPtrs_ends complete all _ (Nat.zero_add _).le

variable {comp : Nat}

private theorem componentSafe_of_clean (here : Tlv fw comp)
    (clean : Clean (Access.Good fw) fun fuel => fileCompValidate fw fuel false comp) :
    ComponentSafe fw comp where
  multi := fits_of_clean here clean.first
  children isMulti := children_passable (clean.later (payload_ends here isMulti)).first
  descriptor isMulti complete child there := by
    have inner := clean.later (payload_ends here isMulti)
    have validated := inner.later (multiValidate_ends complete (children_passable inner.first))
    simp only [there] at validated
    exact fits_of_clean (tlvGet_tlv there) validated.first

theorem fileCompValidate_ends (here : Tlv fw comp) (safe : ComponentSafe fw comp)
    (valid : ComponentValid fw comp) : EndsIn (fun fuel => fileCompValidate fw fuel false comp) true := by
  obtain ⟨isMulti, complete, child, there, accepts⟩ := valid
  refine (payload_ends here isMulti).bind
    ((multiValidate_ends complete (safe.children isMulti)).bind ?_)
  simp only [there]
  exact (payload_ends (tlvGet_tlv there) accepts).bind ((EndsIn.of_result rfl).bind (.of_result rfl))

/-! ### The file -/

section All

variable {check : Nat → Nat → Run Bool} {safe valid : Nat → Prop} {n : Nat} (known : TlvOrNull fw first)
  (small : count < 2 ^ 16) (ends : ∀ tlv, Tlv fw tlv → safe tlv → valid tlv →
    EndsIn (fun fuel => check fuel tlv) true)

include known small ends

theorem validateAll_safe
    (safeOf : ∀ tlv, Tlv fw tlv → Clean (Access.Good fw) (fun fuel => check fuel tlv) → safe tlv)
    (clean : Clean (Access.Good fw) fun fuel => validateAll fw fuel (check fuel) first count) (more : n < count)
    (before : AllUpTo fw valid first n) (reached : passed fw n first = some (some tlv)) : safe tlv := by
  induction n using Nat.strong_induction_on generalizing tlv with
  | _ n ih =>
    refine safeOf tlv (passed_tlv known reached) (@loop_clean fw Unit Unit (2 ^ 16) count first (fun _ => ()) _
      (by decide) small.le n ?_ _ reached (.inl more) clean.first).first
    intro m earlier
    obtain ⟨old, there, isValid⟩ := before m earlier
    have isSafe := ih m earlier (earlier.trans more) (fun k smaller => before k (smaller.trans earlier)) there
    have here := passed_tlv known there
    exact ⟨.inl (earlier.trans more), old, there, (ends old here isSafe isValid).bind (.of_result rfl)⟩

theorem validateAll_ends (passable : ∀ tlv, safe tlv → valid tlv → Passable fw tlv)
    (isSafe : ∀ n < count, AllUpTo fw valid first n → ∀ tlv, passed fw n first = some (some tlv) → safe tlv)
    (all : AllUpTo fw valid first count) :
    EndsIn (fun fuel => validateAll fw fuel (check fuel) first count) true := by
  have each (m) (more : m < count) : ∃ tlv, passed fw m first = some (some tlv) ∧ safe tlv ∧ valid tlv := by
    obtain ⟨old, there, isValid⟩ := all m more
    exact ⟨old, there, isSafe m more (fun k smaller => all k (smaller.trans more)) old there, isValid⟩
  obtain ⟨last, reached⟩ := passed_end known fun m more => by
    obtain ⟨old, there, oldSafe, oldValid⟩ := each m more
    exact ⟨old, there, passable old oldSafe oldValid⟩
  refine (@loop_ends fw Unit Unit (2 ^ 16) count first (fun _ => ()) _ (by decide) small.le count ?_ _
    reached rfl small).bind (.of_result rfl)
  intro m more
  obtain ⟨old, there, oldSafe, oldValid⟩ := each m more
  have here := passed_tlv known there
  exact ⟨.inl more, old, there, (ends old here oldSafe oldValid).bind (.of_result rfl)⟩

end All

section Advance

variable (small : count < 2 ^ 16)

include small

private theorem advance_passable (known : TlvOrNull fw first)
    (clean : Clean (Access.Good fw) fun fuel => tlvAdvance fw fuel first count) (n) :
    ∀ tlv, n < count → passed fw n first = some (some tlv) → Passable fw tlv := by
  intro tlv more reached
  refine passable_of_clean (passed_tlv known reached) (@loop_passes fw Unit (Option Nat) (2 ^ 16) count first
    (fun _ => ()) _ (by decide) small.le n ?_ _ reached (.inl more) clean.first _ rfl _ (.of_result rfl))
  exact fun m earlier => ⟨.inl (earlier.trans more), (passed_before reached earlier).imp fun here there =>
    ⟨there, .of_result rfl⟩⟩

theorem tlvAdvance_arrives (all : ∀ m < count, ∃ tlv, passed fw m first = some (some tlv)) {last}
    (reached : passed fw count first = some last) :
    EndsIn (fun fuel => tlvAdvance fw fuel first count) last := by
  refine (@loop_ends fw Unit (Option Nat) (2 ^ 16) count first (fun _ => ()) _ (by decide) small.le count ?_ _
    reached rfl small).bind (.of_result rfl)
  exact fun m more => ⟨.inl more, (all m more).imp fun here there => ⟨there, .of_result rfl⟩⟩

/-- The walk also ends where the list is shorter than announced. -/
private theorem tlvAdvance_ends (known : TlvOrNull fw first)
    (list : ∀ n < count, ∀ tlv, passed fw n first = some (some tlv) → Passable fw tlv) :
    ∃ last, EndsIn (fun fuel => tlvAdvance fw fuel first count) last := by
  by_cases all : ∀ m < count, ∃ tlv, passed fw m first = some (some tlv)
  · obtain ⟨last, reached⟩ := passed_end known fun m more => (all m more).imp fun tlv there =>
      ⟨there, list m more tlv there⟩
    exact ⟨last, tlvAdvance_arrives small all reached⟩
  · classical
    have short : ∃ m, m < count ∧ ¬∃ tlv, passed fw m first = some (some tlv) := by
      simpa only [not_forall, exists_prop] using all
    obtain ⟨more, ends⟩ := Nat.find_spec short
    have old (m) (before : m < Nat.find short) : ∃ tlv, passed fw m first = some (some tlv) :=
      not_not.mp fun none => Nat.find_min short before ⟨before.trans more, none⟩
    obtain ⟨last, reached⟩ := passed_end known fun m before => (old m before).imp fun tlv there =>
      ⟨there, list m (before.trans more) tlv there⟩
    cases last with
    | some tlv => exact absurd ⟨tlv, reached⟩ ends
    | none =>
      refine ⟨none, (@loop_returns fw Unit (Option Nat) (2 ^ 16) count first (fun _ => ()) _ (by decide)
        small.le _ ?_ _ reached (.inl more) _ (.of_result rfl)).bind (.of_result rfl)⟩
      exact fun m before => ⟨.inl (before.trans more), (old m before).imp fun here there =>
        ⟨there, .of_result rfl⟩⟩

end Advance

section File

variable {dev pd : Nat}

/-- The file that `mlxfw_mfa2_file_init` opens. -/
def fileAt (fw : Firmware) (dev pd : Nat) (firstComponent : Option Nat) : File where
  firstDev := some dev
  devCount := fw.be16 (pd + 2)
  firstComponent := firstComponent
  componentCount := fw.be16 pd
  cb := (fw.be32 (pd + 4) + 3) % 2 ^ 32 / 4 * 4
  cbArchiveSize := fw.be32 (pd + 8)

theorem readBe32_ends (fw : Firmware) (offset) : EndsIn (fun _ => readBe32 fw offset) (fw.be32 offset) :=
  .of_result rfl

section Init

variable (init : Clean (Access.Good fw) fun fuel => fileInit fw fuel false)

include init

private theorem package_fits (package : tlvGet fw (nlaAlign 16) = some tlv) : Fits fw tlv typeMultiPart 4 false := by
  simp only [fileInit, package] at init
  exact fits_of_clean (tlvGet_tlv package) init.first

private theorem descriptor_fits (package : tlvGet fw (nlaAlign 16) = some tlv) (isMulti : IsMulti fw tlv) {child}
    (there : multiChild fw (tlv + 4) = some child) : Fits fw child typePackageDescriptor 28 false := by
  simp only [fileInit, package] at init
  have inner := init.later (payload_ends (tlvGet_tlv package) isMulti)
  simp only [there] at inner
  exact fits_of_clean (tlvGet_tlv there) inner.first

theorem opens_list (opens : Opens fw dev pd) : Tlv fw dev ∧ ∀ n < fw.be16 (pd + 2), ∀ tlv,
    passed fw n (some dev) = some (some tlv) → Passable fw tlv := by
  obtain ⟨tlv, child, package, isMulti, there, accepts, isPd, next⟩ := opens
  have first := tlvGet_tlv package
  have known : Tlv fw dev := @passed_tlv fw dev 1 (some tlv) (fun _ same => by cases same; exact first)
    (by rw [passed, next]; rfl)
  simp only [fileInit, package] at init
  have inner := init.later (payload_ends first isMulti)
  simp only [there] at inner
  have list := ((inner.later (payload_ends (tlvGet_tlv there) accepts)).later (.of_result next)).later
    (.of_result rfl)
  rw [← isPd] at list
  exact ⟨known, fun n more tlv => advance_passable (be16_lt fw _) (fun _ same => by cases same; exact known)
    list.first n tlv more⟩

theorem opens_validate (opens : Opens fw dev pd) (block : BlockInside fw pd) {firstComponent}
    (walk : EndsIn (fun fuel => tlvAdvance fw fuel (some dev) (fw.be16 (pd + 2))) firstComponent) :
    Clean (Access.Good fw) fun fuel => fileValidate fw fuel false (fileAt fw dev pd firstComponent) := by
  obtain ⟨tlv, child, package, isMulti, there, accepts, isPd, next⟩ := opens
  simp only [fileInit, package] at init
  have inner := init.later (payload_ends (tlvGet_tlv package) isMulti)
  simp only [there] at inner
  have list := ((inner.later (payload_ends (tlvGet_tlv there) accepts)).later (.of_result next)).later
    (.of_result rfl)
  rw [← isPd] at list
  have start := ((list.later walk).later (.of_result rfl)).later (readBe32_ends fw (pd + 4))
  simp only [block.1, Bool.true_eq_false, if_false] at start
  have stop := start.later (readBe32_ends fw (pd + 8))
  simp only [block.2, Bool.true_eq_false, if_false] at stop
  exact stop.first

end Init

section Walked

variable (here : Tlv fw dev) (safe : ∀ n < fw.be16 (pd + 2), AllUpTo fw (DeviceValid fw) (some dev) n →
    ∀ tlv, passed fw n (some dev) = some (some tlv) → DeviceSafe fw tlv)
  (all : AllUpTo fw (DeviceValid fw) (some dev) (fw.be16 (pd + 2)))

include here safe all

theorem devices_valid :
    EndsIn (fun fuel => validateAll fw fuel (fileDevValidate fw fuel false) (some dev) (fw.be16 (pd + 2))) true :=
  validateAll_ends (fun _ same => by cases same; exact here) (be16_lt fw _)
    (fun _ => fileDevValidate_ends) (fun _ safe valid => IsMulti.passable valid.multi safe.multi) safe all

private theorem fileValidate_ends {first} (known : TlvOrNull fw first)
    (compSafe : ∀ n < fw.be16 pd, AllUpTo fw (ComponentValid fw) first n →
      ∀ tlv, passed fw n first = some (some tlv) → ComponentSafe fw tlv)
    (components : AllUpTo fw (ComponentValid fw) first (fw.be16 pd)) :
    EndsIn (fun fuel => fileValidate fw fuel false (fileAt fw dev pd first)) true := by
  refine (devices_valid here safe all).bind ?_
  exact validateAll_ends known (be16_lt fw _) (fun _ => fileCompValidate_ends)
    (fun _ safe valid => IsMulti.passable valid.multi safe.multi) compSafe components

end Walked

theorem AllUpTo.there {valid : Nat → Prop} (all : AllUpTo fw valid first count) (m) (more : m < count) :
    ∃ tlv, passed fw m first = some (some tlv) :=
  (all m more).imp fun _ => And.left

theorem passed_known {n next} (known : TlvOrNull fw first) (reached : passed fw n first = some next) :
    TlvOrNull fw next := by
  intro tlv same
  rw [same] at reached
  exact passed_tlv known reached

private theorem fileInit_ends (opens : Opens fw dev pd) (block : BlockInside fw pd) {first}
    (walk : EndsIn (fun fuel => tlvAdvance fw fuel (some dev) (fw.be16 (pd + 2))) first)
    (valid : EndsIn (fun fuel => fileValidate fw fuel false (fileAt fw dev pd first)) true) :
    EndsIn (fun fuel => fileInit fw fuel false) (some (fileAt fw dev pd first)) := by
  obtain ⟨tlv, child, package, isMulti, there, accepts, isPd, next⟩ := opens
  simp only [fileInit, package]
  refine (payload_ends (tlvGet_tlv package) isMulti).bind ?_
  simp only [there]
  refine (payload_ends (tlvGet_tlv there) accepts).bind ((EndsIn.of_result next).bind ?_)
  rw [← isPd]
  refine (EndsIn.of_result rfl).bind (walk.bind ((EndsIn.of_result rfl).bind ?_))
  refine (readBe32_ends fw (pd + 4)).bind ?_
  simp only [block.1, Bool.true_eq_false, if_false]
  refine (readBe32_ends fw (pd + 8)).bind ?_
  simp only [block.2, Bool.true_eq_false, if_false]
  exact valid.bind (.of_result rfl)

end File

/-! ### The component behind the last one -/

private theorem readBytes_ends (offset count) : (readBytes fw offset count).result =
    some ((List.range count).map fun i => fw.byte (offset + i)) := by
  induction count generalizing offset with
  | zero => rfl
  | succ count ih =>
    have first : (readByte fw offset).result = some (fw.byte offset) := rfl
    rw [readBytes, bind_of_result first, List.range_succ_eq_map, List.map_cons, List.map_map]
    rw [bind_of_result (ih (offset + 1))]
    refine congrArg some (congrArg _ (List.map_congr_left fun i _ => congrArg fw.byte ?_))
    rw [Nat.add_assoc, Nat.add_comm 1 i]

section Psid

variable {file : File} {dev n : Nat} {child : Nat}

private theorem devGet_ends (firstDev : file.firstDev = some dev) (small : file.devCount < 2 ^ 16)
    (devices : AllUpTo fw (DeviceValid fw) (some dev) file.devCount) (more : n < file.devCount)
    (there : passed fw n (some dev) = some (some tlv))
    (others : ∀ old < n, ∀ other, passed fw old (some dev) = some (some other) → ¬ SamePsid fw other tlv)
    (known : Tlv fw dev) (nth : IsNth fw (tlv + 4) typePsid 0 child) :
    EndsIn (fun fuel => devGet fw fuel file (psidBytes fw child)) (some (tlv + 4)) := by
  have size : (psidBytes fw child).length % 2 ^ 16 = fw.tlvLen child := by
    rw [psidBytes, List.length_map, List.length_range]
    exact Nat.mod_eq_of_lt (be16_lt fw _)
  have given : (psidBytes fw child).take (fw.tlvLen child) = psidBytes fw child :=
    List.take_of_length_le (by rw [psidBytes, List.length_map, List.length_range])
  have devKnown : TlvOrNull fw (some dev) := fun _ same => by cases same; exact known
  have valid {m old} (inside : m < file.devCount) (reached : passed fw m (some dev) = some (some old)) :
      DeviceValid fw old := by
    obtain ⟨same, again, isValid⟩ := devices m inside
    rw [reached] at again
    cases again
    exact isValid
  simp only [devGet, firstDev, size, given]
  refine (@loop_returns fw Unit (Option Nat) (2 ^ 32) _ _ (fun _ => ()) _ (by decide) (by omega) n ?_ _ there
    (.inl more) _ ?_).bind (.of_result rfl)
  · intro m before
    obtain ⟨old, reached, isMulti, complete, ⟨otherChild, otherNth, accepts⟩, -, -⟩ :=
      devices m (before.trans more)
    refine ⟨.inl (before.trans more), old, reached, (payload_ends (passed_tlv devKnown reached) isMulti).bind ?_⟩
    refine (multiChildFind_ends complete otherNth).bind ((EndsIn.of_result (tlvLen_ends fw otherChild)).bind ?_)
    by_cases same : fw.tlvLen otherChild = fw.tlvLen child
    · simp only [same, ne_eq, not_true, if_false]
      refine (payload_ends (nth_tlv otherNth) accepts).bind ((EndsIn.of_result (readBytes_ends _ _)).bind ?_)
      rw [if_neg fun equal => others m before old reached ⟨otherChild, child, otherNth, nth, ?_⟩]
      · exact .of_result rfl
      · rw [← equal, psidBytes, same]
    · simp only [same, ne_eq, not_false_eq_true, if_true]
      exact .of_result rfl
  · obtain ⟨isMulti, complete, ⟨psidChild, psidNth, accepts⟩, -, -⟩ := valid more there
    cases psidNth.unique nth
    refine (payload_ends (passed_tlv devKnown there) isMulti).bind ((multiChildFind_ends complete nth).bind ?_)
    refine (EndsIn.of_result (tlvLen_ends fw child)).bind ?_
    simp only [ne_eq, not_true, if_false]
    refine (payload_ends (nth_tlv nth) accepts).bind ((EndsIn.of_result (readBytes_ends _ _)).bind ?_)
    rw [if_pos (by rfl)]
    exact .of_result rfl

end Psid

section Body

variable {dev pd : Nat}
  (clean : ∀ fuel debug calls, ∀ access ∈ (mfa2Session fw fuel debug calls).log, access.Good fw)
  (opens : Opens fw dev pd) (block : BlockInside fw pd) {first : Option Nat}

include clean

theorem init_clean : Clean (Access.Good fw) fun fuel => fileInit fw fuel false :=
  have session : Clean (Access.Good fw) fun fuel => mfa2Session fw fuel false [] :=
    .of_forall fun fuel => clean fuel false []
  session.first

include opens block

theorem body_devices (n) (more : n < fw.be16 (pd + 2)) (before : AllUpTo fw (DeviceValid fw) (some dev) n)
    (tlv) (there : passed fw n (some dev) = some (some tlv)) : DeviceSafe fw tlv := by
  have init := init_clean clean
  obtain ⟨here, list⟩ := opens_list init opens
  have known : TlvOrNull fw (some dev) := fun _ same => by cases same; exact here
  obtain ⟨last, walk⟩ := tlvAdvance_ends (be16_lt fw _) known list
  have validate := (opens_validate init opens block walk).first
  exact validateAll_safe known (be16_lt fw _) (fun _ => fileDevValidate_ends) (fun _ => deviceSafe_of_clean)
    validate more before there

variable (devices : AllUpTo fw (DeviceValid fw) (some dev) (fw.be16 (pd + 2)))
  (reached : passed fw (fw.be16 (pd + 2)) (some dev) = some first)

include devices reached

theorem body_components (n) (more : n < fw.be16 pd) (before : AllUpTo fw (ComponentValid fw) first n)
    (tlv) (there : passed fw n first = some (some tlv)) : ComponentSafe fw tlv := by
  have init := init_clean clean
  obtain ⟨here, -⟩ := opens_list init opens
  have walk := tlvAdvance_arrives (be16_lt fw (pd + 2)) devices.there reached
  have validate := (opens_validate init opens block walk).later
    (devices_valid here (body_devices clean opens block) devices)
  have known : TlvOrNull fw first := passed_known (fun _ same => by cases same; exact here) reached
  exact validateAll_safe known (be16_lt fw _) (fun _ => fileCompValidate_ends) (fun _ => componentSafe_of_clean)
    validate more before there

private theorem body_behind (components : AllUpTo fw (ComponentValid fw) first (fw.be16 pd))
    (points : PointsTo fw (some dev) (fw.be16 (pd + 2)) (fw.be16 pd))
    (there : passed fw (fw.be16 pd) first = some (some tlv)) : Fits fw tlv typeMultiPart 4 false ∧
      (IsMulti fw tlv → ∀ child, multiChild fw (tlv + 4) = some child →
        Fits fw child typeComponentDescriptor 16 false) := by
  obtain ⟨here, -⟩ := opens_list (init_clean clean) opens
  have known : TlvOrNull fw first := passed_known (fun _ same => by cases same; exact here) reached
  have file := fileInit_ends opens block (tlvAdvance_arrives (be16_lt fw (pd + 2)) devices.there reached)
    (fileValidate_ends here (body_devices clean opens block) devices known
      (body_components clean opens block devices reached) components)
  obtain ⟨n, more, pointed, isDev, others, ptrIndex, cptr, cptrNth, isIndex⟩ := points
  obtain ⟨same, again, isMulti, complete, ⟨psid, psidNth, -⟩, -, pointers⟩ := devices n more
  rw [isDev] at again
  cases again
  have small : ptrIndex < 2 ^ 16 := by
    obtain ⟨m, isChild, isType, nth⟩ := cptrNth
    have below := IsNth.lt isChild isType nth (isChild.2.resolve_right complete.1.ne)
    exact (below.trans_le (typedBefore_le _ _)).trans complete.1
  have session : Clean (Access.Good fw) fun fuel =>
      mfa2Session fw fuel false [.componentGet (psidBytes fw psid) ptrIndex] :=
    .of_forall fun fuel => clean fuel false _
  have found := ((session.later file).first.first.later
    (devGet_ends rfl (be16_lt fw _) devices more isDev others here psidNth)).later
      ((Nat.mod_eq_of_lt small).symm ▸ multiChildFind_ends complete cptrNth)
  have index := (found.later (payload_ends (nth_tlv cptrNth)
    (pointers (ptrIndex + 1) ptrIndex (Nat.lt_succ_self _) cptr cptrNth))).later (.of_result rfl)
  change Clean _ fun fuel => fileComponentTlvGet fw fuel _ (fw.be16 (cptr + 4 + 2)) at index
  rw [isIndex] at index
  simp only [fileComponentTlvGet, fileAt, lt_irrefl, if_false] at index
  have taken := index.later (tlvAdvance_arrives (be16_lt fw pd) components.there there)
  have tlvHere := passed_tlv known there
  refine ⟨fits_of_clean tlvHere taken.first, fun isMulti child childThere => ?_⟩
  have inner := taken.later (payload_ends tlvHere isMulti)
  simp only [childThere] at inner
  exact fits_of_clean (tlvGet_tlv childThere) inner

end Body

/-- Every execution stays inside the image exactly where the TLVs that the parser comes to are right. -/
theorem mfa2_inside_iff (fw : Firmware) : (∀ fuel debug calls,
      ∀ access ∈ (mfa2Session fw fuel debug calls).log, access.Good fw) ↔ ImageSafe fw := by
  refine ⟨fun clean => ?_, fun safe fuel debug calls => mfa2_inside_of_safe fw safe fuel debug calls⟩
  have init := init_clean clean
  exact {
    package := fun tlv => package_fits init
    descriptor := fun tlv package isMulti child => descriptor_fits init package isMulti
    list := fun dev pd opens => (opens_list init opens).2
    body := fun dev pd opens block => {
      devices := body_devices clean opens block
      components := fun devices first reached => body_components clean opens block devices reached
      behind := fun devices first reached components points tlv there =>
        body_behind clean opens block devices reached components points there } }

end MlnxOfed.Mlxfw
