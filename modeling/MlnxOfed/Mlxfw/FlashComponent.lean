/-
`mlxfw_flash_component` (drivers/net/ethernet/mellanox/mlxfw/mlxfw_fsm.c): a component is downloaded in
blocks of the device's size, rounded down to its alignment. The device is the answers it gives; the loop has
fuel, since a step rounded down to zero never ends it.
-/

import Mathlib.Tactic.IntervalCases

namespace MlnxOfed.Mlxfw

open Option List

structure Component where
  index : Nat
  data : List UInt8

def Component.dataSize (comp : Component) : Nat := comp.data.length

/-- What `component_query` reports. -/
structure Limits where
  maxSize : Nat
  alignBits : Nat
  maxWriteSize : Nat

/-- The device's answers; those of `fsm_query_state` and `fsm_block_download` go by the number of the call:
an error, and for the state also the state and its error. -/
structure Device where
  query : Int × Limits
  update : Int
  state : Nat → Int × Nat × Nat
  download : Nat → Int
  verify : Int

inductive Op
  | componentQuery (index : Nat)
  | componentUpdate (index size : Nat)
  | queryState
  | blockDownload (offset size : Nat)
  | componentVerify (index : Nat)
  | cancel
  deriving DecidableEq

/-- The operations of a call with the errors they returned. -/
abbrev Ops := List (Op × Int)

def einval : Int := -22

def etimedout : Int := -110

def stateLocked : Nat := 1

def stateDownload : Nat := 3

def stateWaitRounds : Nat := 30000 / 200

def maxComponentSize : Nat := 10 * 2 ^ 20

def alignDown (x alignBits : Nat) : Nat := x / 2 ^ alignBits * 2 ^ alignBits

/-- `MLXFW_ALIGN_UP` of a `u32`. -/
def alignUp (x alignBits : Nat) : Nat := alignDown ((x + (2 ^ alignBits - 1)) % 2 ^ 32) alignBits

/-- `mlxfw_fsm_state_errno`. -/
def fsmStateErr (err : Nat) : Int :=
  [0, -5, -74, -2, -126, -13, -128, -129, -8, -16, -22].getD (min err 10) 0

/-- `mlxfw_fsm_state_wait` for the given number of rounds, from the given call on. -/
def fsmStateWait (dev : Device) (fsmState : Nat) : Nat → Nat → Int × Ops
  | 0, _ => (etimedout, [])
  | times + 1, call =>
    let (err, currFsmState, stateErr) := dev.state call
    if err ≠ 0 then (err, [(.queryState, err)])
    else if stateErr ≠ 0 then (fsmStateErr stateErr, [(.queryState, err)])
    else if currFsmState ≠ fsmState then
      let (result, ops) := fsmStateWait dev fsmState times (call + 1)
      (result, (.queryState, err) :: ops)
    else (0, [(.queryState, err)])

/-- The download loop; the offset is a `u32`, the size of a block a `u16`. -/
def downloadLoop (dev : Device) (dataSize step top : Nat) : Nat → Nat → Nat → Option (Int × Ops)
  | 0, _, _ => none
  | fuel + 1, call, offset =>
    if offset < top then
      let blockSize := min ((dataSize + 2 ^ 32 - offset) % 2 ^ 32) step % 2 ^ 16
      let err := dev.download call
      if err ≠ 0 then some (err, [(.blockDownload offset blockSize, err)])
      else
        (downloadLoop dev dataSize step top fuel (call + 1) ((offset + step) % 2 ^ 32)).map
          fun (result, ops) => (result, (.blockDownload offset blockSize, err) :: ops)
    else some (0, [])

/-- From the update to `err_out`. -/
def flashUpdated (dev : Device) (comp : Component) (limits : Limits) (fuel : Nat) : Option (Int × Ops) :=
  let (err, waited) := fsmStateWait dev stateDownload stateWaitRounds 0
  if err ≠ 0 then some (err, waited)
  else
    (downloadLoop dev comp.dataSize (alignDown limits.maxWriteSize limits.alignBits)
        (alignUp comp.dataSize limits.alignBits) fuel 0 0).map
      fun (err, blocks) =>
        if err ≠ 0 then (err, waited ++ blocks)
        else if dev.verify ≠ 0 then
          (dev.verify, waited ++ blocks ++ [(.componentVerify comp.index, dev.verify)])
        else
          let (err, locked) := fsmStateWait dev stateLocked stateWaitRounds waited.length
          (err, waited ++ blocks ++ (.componentVerify comp.index, dev.verify) :: locked)

def flashComponent (dev : Device) (comp : Component) (fuel : Nat) : Option (Int × Ops) :=
  let (err, limits) := dev.query
  let queried := (.componentQuery comp.index, err)
  if err ≠ 0 then some (err, [queried])
  else if min limits.maxSize maxComponentSize < comp.dataSize then some (einval, [queried])
  else
    let updated := (.componentUpdate comp.index comp.dataSize, dev.update)
    if dev.update ≠ 0 then some (dev.update, [queried, updated])
    else
      (flashUpdated dev comp limits fuel).map fun (err, ops) =>
        (err, queried :: updated :: if err ≠ 0 then ops ++ [(.cancel, 0)] else ops)

/-! ### What a download is to do -/

def downloads (ops : Ops) : List (Nat × Nat) :=
  ops.filterMap fun
    | (.blockDownload offset size, _) => some (offset, size)
    | _ => none

/-- The blocks follow one another from an offset to the end of the data. -/
def Consecutive (limits : Limits) (dataSize : Nat) : Nat → List (Nat × Nat) → Prop
  | offset, [] => offset = dataSize
  | offset, (start, size) :: rest =>
    start = offset ∧ 2 ^ limits.alignBits ∣ start ∧ 0 < size ∧ size ≤ limits.maxWriteSize ∧
      Consecutive limits dataSize (offset + size) rest

structure Covered (comp : Component) (limits : Limits) (ops : Ops) : Prop where
  blocks : Consecutive limits comp.dataSize 0 (downloads ops)
  bytes : (downloads ops).flatMap (fun block => (comp.data.drop block.1).take block.2) = comp.data

/-- No operation fails, and the device comes to the states that are waited for. -/
structure Device.Willing (dev : Device) : Prop where
  query : dev.query.1 = 0
  update : dev.update = 0
  waited : (fsmStateWait dev stateDownload stateWaitRounds 0).1 = 0
  download : ∀ call, dev.download call = 0
  verify : dev.verify = 0
  locked : (fsmStateWait dev stateLocked stateWaitRounds
    (fsmStateWait dev stateDownload stateWaitRounds 0).2.length).1 = 0

/-- A component not refused for its size is downloaded whole by a willing device, and with any device
`fsm_cancel` is called once if the call fails after the update, never else. -/
def FlashesWhole (comp : Component) (limits : Limits) : Prop :=
  ∀ dev : Device, dev.query.2 = limits → (dev.Willing → comp.dataSize ≤ min limits.maxSize maxComponentSize →
      ∃ fuel ops, flashComponent dev comp fuel = some (0, ops) ∧ Covered comp limits ops) ∧
    ∀ fuel err ops, flashComponent dev comp fuel = some (err, ops) → (ops.countP (·.1 = .cancel) =
        if (.componentUpdate comp.index comp.dataSize, 0) ∈ ops ∧ err ≠ 0 then 1 else 0) ∧
      ((∃ op ∈ ops, op.2 ≠ 0) → err ≠ 0)

variable {dev : Device} {comp : Component} {limits : Limits} {err : Int} {ops : Ops}

/-! ### Errors -/

/-- An operation between the update and `err_out`. -/
def Op.inner : Op → Bool
  | .componentUpdate _ _ | .cancel => false
  | _ => true

/-- The error of a call is that of one of its operations, if one has failed. -/
def Reports (err : Int) (ops : Ops) : Prop := ∀ op ∈ ops, op.1.inner = true ∧ (op.2 ≠ 0 → err ≠ 0)

theorem Reports.nil (err) : Reports err [] := fun _ mem => absurd mem not_mem_nil

theorem Reports.cons {op code} (rest : Reports err ops) (inner : op.inner = true)
    (told : code ≠ 0 → err ≠ 0) : Reports err ((op, code) :: ops) := by
  intro other mem
  rcases mem_cons.mp mem with rfl | later
  · exact ⟨inner, told⟩
  · exact rest other later

theorem Reports.append {more} (first : Reports err ops) (second : Reports err more) :
    Reports err (ops ++ more) :=
  fun op mem => (mem_append.mp mem).elim (first op) (second op)

theorem Reports.to {other} (reports : Reports err ops) (told : err ≠ 0 → other ≠ 0) : Reports other ops :=
  fun op mem => ⟨(reports op mem).1, fun failed => told ((reports op mem).2 failed)⟩

private theorem fsmStateErr_ne_zero {code} (failed : code ≠ 0) : fsmStateErr code ≠ 0 := by
  have pos : 0 < min code 10 := by omega
  have below : min code 10 ≤ 10 := Nat.min_le_right _ _
  unfold fsmStateErr
  generalize min code 10 = known at pos below
  interval_cases known <;> decide

private theorem fsmStateWait_reports (dev fsmState times call) :
    Reports (fsmStateWait dev fsmState times call).1 (fsmStateWait dev fsmState times call).2 := by
  induction times generalizing call with
  | zero => exact .nil _
  | succ times ih =>
    unfold fsmStateWait
    dsimp only
    split
    case isTrue => exact (Reports.nil _).cons rfl id
    case isFalse passed =>
      split
      case isTrue failed => exact (Reports.nil _).cons rfl fun _ => fsmStateErr_ne_zero failed
      case isFalse =>
        split
        case isTrue => exact (ih (call + 1)).cons rfl fun failed => absurd failed passed
        case isFalse => exact (Reports.nil _).cons rfl fun failed => absurd failed passed

private theorem downloadLoop_reports {dataSize step top fuel call offset}
    (ended : downloadLoop dev dataSize step top fuel call offset = some (err, ops)) :
    Reports err ops := by
  induction fuel generalizing call offset err ops with
  | zero => cases ended
  | succ fuel ih =>
    unfold downloadLoop at ended
    dsimp only at ended
    split at ended
    case isTrue =>
      split at ended
      case isTrue =>
        cases ended
        exact (Reports.nil _).cons rfl id
      case isFalse passed =>
        obtain ⟨⟨res, rest⟩, run, same⟩ := map_eq_some_iff.mp ended
        cases same
        exact (ih run).cons rfl fun failed => absurd failed passed
    case isFalse =>
      cases ended
      exact .nil _

private theorem flashUpdated_reports {fuel}
    (ended : flashUpdated dev comp limits fuel = some (err, ops)) : Reports err ops := by
  have waited := fsmStateWait_reports dev stateDownload stateWaitRounds 0
  unfold flashUpdated at ended
  dsimp only at ended
  split at ended
  case isTrue =>
    cases ended
    exact waited
  case isFalse passed =>
    obtain ⟨⟨res, blocks⟩, run, same⟩ := map_eq_some_iff.mp ended
    have old : Reports res (_ ++ blocks) :=
      (waited.to fun failed => absurd failed passed).append (downloadLoop_reports run)
    split at same
    case isTrue =>
      cases same
      exact old
    case isFalse done =>
      have old {err : Int} : Reports err _ := old.to fun failed => absurd failed done
      split at same
      case isTrue =>
        cases same
        exact old.append ((Reports.nil _).cons rfl id)
      case isFalse verified =>
        cases same
        have locked := fsmStateWait_reports dev stateLocked stateWaitRounds
          (fsmStateWait dev stateDownload stateWaitRounds 0).2.length
        exact old.append (locked.cons rfl fun failed => absurd failed verified)

private theorem flashComponent_cancels {fuel} (ended : flashComponent dev comp fuel = some (err, ops)) :
    (ops.countP (·.1 = .cancel) =
      if (.componentUpdate comp.index comp.dataSize, 0) ∈ ops ∧ err ≠ 0 then 1 else 0) ∧
    ((∃ op ∈ ops, op.2 ≠ 0) → err ≠ 0) := by
  unfold flashComponent at ended
  dsimp only at ended
  split at ended
  case isTrue failed =>
    cases ended
    exact ⟨by simp, fun _ => failed⟩
  case isFalse queried =>
    have queried := Decidable.not_not.mp queried
    split at ended
    case isTrue =>
      cases ended
      exact ⟨by simp, fun _ => by decide⟩
    case isFalse =>
      split at ended
      case isTrue failed =>
        cases ended
        exact ⟨by simp [Ne.symm failed], fun _ => failed⟩
      case isFalse updated =>
        have updated := Decidable.not_not.mp updated
        obtain ⟨⟨res, inner⟩, run, same⟩ := map_eq_some_iff.mp ended
        cases same
        have reports := flashUpdated_reports run
        have none : inner.countP (·.1 = .cancel) = 0 := by
          rw [countP_eq_zero]
          intro op mem cancels
          have isInner := (reports op mem).1
          rw [of_decide_eq_true cancels] at isInner
          cases isInner
        split
        case isTrue failed =>
          refine ⟨?_, fun _ => failed⟩
          simp [countP_append, none, updated, failed]
        case isFalse succeeded =>
          refine ⟨?_, ?_⟩
          · simp [none, succeeded]
          rintro ⟨op, mem, error⟩
          rcases mem_cons.mp mem with rfl | mem
          · exact absurd queried error
          · rcases mem_cons.mp mem with rfl | mem
            · exact absurd updated error
            · exact (reports op mem).2 error

/-! ### Coverage -/

private theorem alignDown_le (x alignBits) : alignDown x alignBits ≤ x := Nat.div_mul_le_self ..

theorem alignDown_pos_iff {x alignBits} : 0 < alignDown x alignBits ↔ 2 ^ alignBits ≤ x := by
  have positive := Nat.two_pow_pos alignBits
  unfold alignDown
  rw [Nat.mul_pos_iff_of_pos_right positive, Nat.div_pos_iff]
  exact and_iff_right positive

theorem lt_alignUp_iff {size alignBits offset} (fits : size + 2 ^ alignBits ≤ 2 ^ 32)
    (aligned : 2 ^ alignBits ∣ offset) : offset < alignUp size alignBits ↔ offset < size := by
  have positive := Nat.two_pow_pos alignBits
  obtain ⟨k, rfl⟩ := aligned
  unfold alignUp alignDown
  rw [Nat.mod_eq_of_lt (by omega), mul_comm, Nat.mul_lt_mul_right positive,
    Nat.lt_iff_add_one_le, Nat.le_div_iff_mul_le positive, Nat.add_mul]
  omega

private theorem downloadLoop_covers {dataSize step} (download : ∀ call, dev.download call = 0)
    (fits : dataSize + 2 ^ limits.alignBits ≤ 2 ^ 31) (pos : dataSize ≠ 0 → 0 < step)
    (aligned : 2 ^ limits.alignBits ∣ step) (below : step ≤ limits.maxWriteSize) (small : step < 2 ^ 16)
    {offset} (start : 2 ^ limits.alignBits ∣ offset) (inside : offset < dataSize + 2 ^ 16) (call) :
    ∃ fuel ops, downloadLoop dev dataSize step (alignUp dataSize limits.alignBits) fuel call offset =
        some (0, ops) ∧
      (offset ≤ dataSize → Consecutive limits dataSize offset (downloads ops)) ∧
      (dataSize < offset → downloads ops = []) := by
  have top : offset < alignUp dataSize limits.alignBits ↔ offset < dataSize := lt_alignUp_iff (by omega) start
  by_cases more : offset < dataSize
  · have moves := pos (by omega)
    have next : (offset + step) % 2 ^ 32 = offset + step := Nat.mod_eq_of_lt (by omega)
    obtain ⟨fuel, ops, run, rest, none⟩ := downloadLoop_covers download fits pos aligned below
      small (Nat.dvd_add start aligned) (by omega) (call + 1)
    have block : min ((dataSize + 2 ^ 32 - offset) % 2 ^ 32) step % 2 ^ 16 =
        min (dataSize - offset) step := by
      have left : (dataSize + 2 ^ 32 - offset) % 2 ^ 32 = dataSize - offset := by omega
      rw [left]
      exact Nat.mod_eq_of_lt (by omega)
    refine ⟨fuel + 1, (.blockDownload offset (min (dataSize - offset) step), 0) :: ops, ?_,
      fun _ => ⟨rfl, start, ?_, ?_, ?_⟩, fun past => by omega⟩
    · unfold downloadLoop
      rw [if_pos (top.mpr more), block, download call, if_neg (not_not.mpr rfl), next, run]
      rfl
    · omega
    · omega
    by_cases last : dataSize < offset + step
    · change Consecutive limits dataSize _ (downloads ops)
      rw [none last]
      change offset + min (dataSize - offset) step = dataSize
      omega
    · rw [Nat.min_eq_right (by omega)]
      exact rest (by omega)
  · refine ⟨1, [], ?_, fun _ => ?_, fun _ => rfl⟩
    · unfold downloadLoop
      rw [if_neg (fun old => more (top.mp old))]
    · change offset = dataSize
      omega
termination_by dataSize + 2 ^ 16 - offset

theorem Consecutive.bytes {data : List UInt8} {offset : Nat} {blocks : List (Nat × Nat)}
    (consecutive : Consecutive limits data.length offset blocks) :
    blocks.flatMap (fun block => (data.drop block.1).take block.2) = data.drop offset := by
  induction blocks generalizing offset with
  | nil =>
    rw [consecutive, drop_length]
    rfl
  | cons block rest ih =>
    obtain ⟨start, size⟩ := block
    obtain ⟨rfl, _, _, _, later⟩ := consecutive
    rw [flatMap_cons, ih later, ← drop_drop]
    exact take_append_drop size (data.drop start)

private theorem downloads_append (ops more) :
    downloads (ops ++ more) = downloads ops ++ downloads more := filterMap_append

private theorem fsmStateWait_downloads (dev fsmState times call) :
    downloads (fsmStateWait dev fsmState times call).2 = [] := by
  induction times generalizing call with
  | zero => rfl
  | succ times ih =>
    unfold fsmStateWait
    dsimp only
    split_ifs
    · rfl
    · rfl
    · exact ih (call + 1)
    · rfl

theorem Device.Willing.flash (willing : dev.Willing) (reported : dev.query.2 = limits)
    (fits : comp.dataSize ≤ min limits.maxSize maxComponentSize) (fuel) :
    ∃ old after, downloads old = [] ∧ downloads after = [] ∧
      ∀ loop : Option (Int × Ops), (∀ res ∈ loop, res.1 = 0) →
        downloadLoop dev comp.dataSize (alignDown limits.maxWriteSize limits.alignBits)
          (alignUp comp.dataSize limits.alignBits) fuel 0 0 = loop →
        flashComponent dev comp fuel = loop.map fun (err, blocks) => (err, old ++ blocks ++ after) := by
  have waited := fsmStateWait_downloads dev stateDownload stateWaitRounds 0
  have locked := fsmStateWait_downloads dev stateLocked stateWaitRounds
    (fsmStateWait dev stateDownload stateWaitRounds 0).2.length
  refine ⟨(.componentQuery comp.index, 0) :: (.componentUpdate comp.index comp.dataSize, 0) ::
    (fsmStateWait dev stateDownload stateWaitRounds 0).2, (.componentVerify comp.index, 0) :: _,
    waited, locked, fun loop clean run => ?_⟩
  unfold flashComponent flashUpdated
  dsimp only
  rw [willing.query, reported, if_neg (not_not.mpr rfl), if_neg (Nat.not_lt.mpr fits),
    willing.update, if_neg (not_not.mpr rfl), willing.waited, if_neg (not_not.mpr rfl), run]
  cases loop with
  | none => rfl
  | some res =>
    obtain ⟨err, blocks⟩ := res
    obtain rfl : err = 0 := clean _ rfl
    simp [willing.verify, willing.locked]

private theorem downloadLoop_endless {dataSize top} (download : ∀ call, dev.download call = 0)
    (more : 0 < top) (fuel call) : downloadLoop dev dataSize 0 top fuel call 0 = none := by
  induction fuel generalizing call with
  | zero => rfl
  | succ fuel ih =>
    unfold downloadLoop
    dsimp only
    rw [if_pos more, download, if_neg (not_not.mpr rfl)]
    exact congrArg _ (ih (call + 1))

def Device.accepting (limits : Limits) : Device where
  query := (0, limits)
  update := 0
  state call := (0, if call = 0 then stateDownload else stateLocked, 0)
  download _ := 0
  verify := 0

theorem Device.accepting_willing (limits) : (accepting limits).Willing :=
  ⟨rfl, rfl, rfl, fun _ => rfl, rfl, rfl⟩

theorem dataSize_add_le (fits : comp.dataSize ≤ min limits.maxSize maxComponentSize)
    (exponent : limits.alignBits < 16) : comp.dataSize + 2 ^ limits.alignBits ≤ 2 ^ 31 := by
  have power : 2 ^ limits.alignBits ≤ 2 ^ 16 := Nat.pow_le_pow_right (by decide) exponent.le
  have size : comp.dataSize ≤ 10 * 2 ^ 20 := fits.trans (Nat.min_le_right _ _)
  omega

theorem not_flashesWhole (exponent : limits.alignBits < 16)
    (short : limits.maxWriteSize < 2 ^ limits.alignBits) (filled : comp.data ≠ [])
    (fits : comp.dataSize ≤ min limits.maxSize maxComponentSize) : ¬ FlashesWhole comp limits := by
  intro whole
  have willing := Device.accepting_willing limits
  obtain ⟨fuel, ops, run, _⟩ := (whole _ rfl).1 willing fits
  obtain ⟨_, _, _, _, flash⟩ := willing.flash (rfl : _ = limits) fits fuel
  have still : alignDown limits.maxWriteSize limits.alignBits = 0 :=
    Nat.eq_zero_of_not_pos fun pos => Nat.not_le.mpr short (alignDown_pos_iff.mp pos)
  have more : 0 < alignUp comp.dataSize limits.alignBits :=
    (lt_alignUp_iff (by have := dataSize_add_le fits exponent; omega) (Nat.dvd_zero _)).mpr
      (length_pos_iff.mpr filled)
  have endless : downloadLoop (.accepting limits) comp.dataSize (alignDown limits.maxWriteSize limits.alignBits)
      (alignUp comp.dataSize limits.alignBits) fuel 0 0 = none := by
    rw [still]
    exact downloadLoop_endless (fun _ => rfl) more fuel 0
  rw [flash none (by simp) endless] at run
  cases run

theorem flashComponent_whole_iff (comp : Component) (limits : Limits)
    (exponent : limits.alignBits < 16) (bounded : limits.maxWriteSize < 2 ^ 16) :
    FlashesWhole comp limits ↔ 2 ^ limits.alignBits ≤ limits.maxWriteSize ∨ comp.data = [] ∨
        min limits.maxSize maxComponentSize < comp.dataSize := by
  constructor
  · intro whole
    by_contra short
    simp only [not_or, not_le, not_lt] at short
    obtain ⟨short, filled, fits⟩ := short
    exact not_flashesWhole exponent short filled fits whole
  intro holds dev reported
  refine ⟨fun willing fits => ?_, fun fuel err ops => flashComponent_cancels⟩
  have small := dataSize_add_le fits exponent
  have positive (filled : comp.dataSize ≠ 0) : 0 < alignDown limits.maxWriteSize limits.alignBits := by
    rcases holds with wide | empty | refused
    · exact alignDown_pos_iff.mpr wide
    · exact absurd (congrArg length empty) filled
    · omega
  have below := alignDown_le limits.maxWriteSize limits.alignBits
  obtain ⟨fuel, blocks, run, covered, _⟩ := downloadLoop_covers willing.download (by omega)
    positive (Nat.dvd_mul_left _ _) below (by omega) (Nat.dvd_zero _) (by omega) 0
  obtain ⟨before, after, first, last, flash⟩ := willing.flash reported fits fuel
  have same : downloads (before ++ blocks ++ after) = downloads blocks := by
    rw [downloads_append, downloads_append, first, last, append_nil, nil_append]
  have consecutive :
      Consecutive limits comp.dataSize 0 (downloads (before ++ blocks ++ after)) := by
    rw [same]
    exact covered (Nat.zero_le _)
  exact ⟨fuel, _, flash _ (by simp) run, consecutive, consecutive.bytes⟩

theorem flashComponent_whole_small : FlashesWhole ⟨1, [1, 2, 3]⟩ ⟨16, 1, 2⟩ :=
  (flashComponent_whole_iff ⟨1, [1, 2, 3]⟩ ⟨16, 1, 2⟩ (by decide) (by decide)).mpr (.inl (by decide))

/-- A block aligned to 16 does not fit the 8 bytes of a write: nothing is ever sent. -/
theorem flashComponent_stuck : ¬ FlashesWhole ⟨1, [7]⟩ ⟨16, 4, 8⟩ :=
  not_flashesWhole (by decide) (by decide) (by decide) (by decide)

end MlnxOfed.Mlxfw
