/-
Taking a component out of the component block: the decoder runs up to the component's offset, always into
the component's buffer, and then once more for the component and its magic.
-/

import MlnxOfed.Mlxfw.Mfa2Loops

namespace MlnxOfed.Mlxfw

open List
open Lib.Logged (result_of_bind)
open Lib

deriving instance DecidableEq for File

inductive XzRet
  | ok | streamEnd | memError | memlimitError | formatError | optionsError | dataError | bufError

inductive Errno
  | noMem | inval
  deriving DecidableEq

instance decidableResult [DecidableEq α] : DecidableEq (Except Errno α)
  | .ok _, .ok _ => decidable_of_iff' _ (iff_of_eq (Except.ok.injEq _ _))
  | .error _, .error _ => decidable_of_iff' _ (iff_of_eq (Except.error.injEq _ _))
  | .ok _, .error _ => isFalse nofun
  | .error _, .ok _ => isFalse nofun

/-- `xz_dec_run` on the archive: a call that does not fail yields the next bytes, as many as there are and
have room. Its answer depends on number, position and room. -/
structure XzDec where
  block : List UInt8
  answer : Nat → Nat → Nat → XzRet

/-- The bytes of a call, over those that the buffer had. -/
def XzDec.fill (dec : XzDec) (pos room : Nat) (buf : List UInt8) : List UInt8 :=
  (dec.block.drop pos).take room ++ buf.drop (min room (dec.block.length - pos))

def xzDecRun : XzRet → Except Errno Bool
  | .streamEnd => .ok true
  | .ok => .ok false
  | .memError => .error .noMem
  | _ => .error .inval

/-- The loop of `mlxfw_mfa2_file_cb_offset_xz`: number of calls, offset and buffer. -/
def decodeUpTo (dec : XzDec) (off size : Nat) :
    Nat → Nat → Nat → List UInt8 → Option (Except Errno (Nat × Nat × List UInt8))
  | 0, _, _, _ => none
  | fuel + 1, call, currOff, buf =>
    let outSize := min size (off - currOff)
    if outSize = 0 then
      some (.ok (call, currOff, buf))
    else
      match xzDecRun (dec.answer call currOff outSize) with
      | .error err => some (.error err)
      | .ok true => some (.error .inval)
      | .ok false =>
        let buf := dec.fill currOff outSize buf
        let currOff := currOff + min outSize (dec.block.length - currOff)
        if currOff = off then
          some (.ok (call + 1, currOff, buf))
        else
          decodeUpTo dec off size fuel (call + 1) currOff buf

structure ExtractEnv where
  /-- There is none when `xz_dec_init` fails. -/
  decoder : Option XzDec
  allocated : Bool

def fileCbOffsetXz (fuel : Nat) (env : ExtractEnv) (off size : Nat) : Option (Except Errno (List UInt8)) :=
  match env.decoder with
  | none => some (.error .inval)
  | some dec =>
    match decodeUpTo dec off size fuel 0 0 (replicate size 0) with
    | none => none
    | some (.error err) => some (.error err)
    | some (.ok (call, pos, buf)) =>
      match xzDecRun (dec.answer call pos size) with
      | .error err => some (.error err)
      | .ok _ => some (.ok (dec.fill pos size buf))

def compMagic : List UInt8 :=
  [0x23, 0x42, 0x49, 0x4E, 0x2E, 0x43, 0x4F, 0x4D, 0x50, 0x4F, 0x4E, 0x45, 0x4E, 0x54, 0x21, 0x23]

structure CompData where
  index : Nat
  dataSize : Nat
  /-- What the buffer holds after the magic. -/
  data : List UInt8
  deriving DecidableEq

/-- `mlxfw_mfa2_file_component_get`; the pages of the buffer are zero beyond it. -/
def fileComponentExtract (fw : Firmware) (fuel : Nat) (env : ExtractEnv) (file : File) (psid : List Nat)
    (componentIndex : Nat) : Run (Except Errno CompData) := do
  match ← fileComponentGet fw fuel file psid componentIndex with
  | none => pure (.error .inval)
  | some (cbOffset, compSize, identifier) =>
    if env.allocated = false then
      pure (.error .noMem)
    else
      match fileCbOffsetXz fuel env cbOffset ((compSize + 16) % 2 ^ 32) with
      | none => Logged.stop
      | some (.error err) => pure (.error err)
      | some (.ok buff) =>
        if (buff ++ replicate 16 0).take 16 = compMagic then
          pure (.ok ⟨identifier, compSize, buff.drop 16⟩)
        else
          pure (.error .inval)

/-! ### The decoded bytes -/

theorem fill_length (dec : XzDec) (pos : Nat) {room buf} (fits : room ≤ buf.length) :
    (dec.fill pos room buf).length = buf.length := by
  simp only [XzDec.fill, length_append, length_take, length_drop]
  omega

private theorem decodeUpTo_spec {dec off size} (fuel) : ∀ {call currOff} {buf} {after}, currOff ≤ off →
      buf.length = size → decodeUpTo dec off size fuel call currOff buf = some (.ok after) →
      (0 < size → after.2.1 = off) ∧ after.2.2.length = size := by
  induction fuel with
  | zero => exact fun _ _ never => by cases never
  | succ fuel ih =>
    intro call currOff buf after old len decoded
    rw [decodeUpTo] at decoded
    dsimp only at decoded
    split at decoded
    case isTrue noRoom =>
      cases decoded
      exact ⟨fun filled => by dsimp only; omega, len⟩
    case isFalse =>
      have fits : min size (off - currOff) ≤ buf.length := len ▸ Nat.min_le_left _ _
      have newLen := (fill_length dec currOff fits).trans len
      split at decoded
      · cases decoded
      · cases decoded
      · split at decoded
        case isTrue reached =>
          cases decoded
          exact ⟨fun _ => reached, newLen⟩
        case isFalse => exact ih (by omega) newLen decoded

/-! ### The walk over the components -/

variable {fw : Firmware} {ρ : Type} {body : Option Nat → Unit → Run (Unit ⊕ ρ)} {count fuel : Nat}
  {debug : Bool}

theorem tlvForeach_walk (below : count < 2 ^ 16) (fuel) : ∀ {idx} {tlv pos},
    idx ≤ count → (tlvForeach fw body (2 ^ 16) count fuel idx tlv ()).result = some (.inl (pos, ())) →
      passed fw (count - idx) tlv = some pos ∧ ∀ k < count - idx, ∃ here,
        passed fw k tlv = some (some here) ∧ (body (some here) ()).result = some (.inl ()) := by
  induction fuel with
  | zero => exact fun _ never => by cases never
  | succ fuel ih =>
    intro idx tlv pos old looped
    by_cases inside : idx < count
    · rw [tlvForeach_turn inside] at looped
      obtain ⟨outcome, kept, looped⟩ := result_of_bind looped
      cases outcome with
      | inr result => cases looped
      | inl _ =>
        cases tlv with
        | none => cases looped
        | some here =>
          obtain ⟨next, got, looped⟩ := result_of_bind looped
          rw [Nat.mod_eq_of_lt (by omega)] at looped
          have step (k : Nat) : passed fw (k + 1) (some here) = passed fw k next := by
            rw [passed, got]
            rfl
          obtain ⟨last, all⟩ := ih inside looped
          rw [show count - idx = count - (idx + 1) + 1 by omega]
          refine ⟨(step _).trans last, fun k mem => ?_⟩
          cases k with
          | zero => exact ⟨here, rfl, kept⟩
          | succ k =>
            rw [step]
            exact all k (by omega)
    · rw [tlvForeach, if_neg inside] at looped
      cases looped
      rw [show count - idx = 0 by omega]
      exact ⟨rfl, fun k never => absurd never (Nat.not_lt_zero k)⟩

private theorem tlvForeach_returns {result} (fuel) : ∀ {idx} {tlv},
    (tlvForeach fw body (2 ^ 16) count fuel idx tlv ()).result = some (.inr result) →
      ∃ last, (body last ()).result = some (.inr result) := by
  induction fuel with
  | zero => exact nofun
  | succ fuel ih =>
    intro idx tlv looped
    by_cases inside : idx < count
    · rw [tlvForeach_turn inside] at looped
      obtain ⟨outcome, back, looped⟩ := result_of_bind looped
      cases outcome with
      | inr _ =>
        cases looped
        exact ⟨tlv, back⟩
      | inl _ =>
        cases tlv with
        | none => cases looped
        | some here =>
          obtain ⟨next, _, looped⟩ := result_of_bind looped
          exact ih looped
    · rw [tlvForeach, if_neg inside] at looped
      cases looped

private theorem tlvAdvance_reached {tlv here} (below : count < 2 ^ 16)
    (reached : (tlvAdvance fw fuel tlv count).result = some (some here)) :
    passed fw count tlv = some (some here) := by
  obtain ⟨outcome, looped, last⟩ := result_of_bind reached
  cases outcome with
  | inl left =>
    obtain ⟨pos, _⟩ := left
    cases last
    exact (tlvForeach_walk below fuel (Nat.zero_le _) looped).1
  | inr result =>
    cases last
    obtain ⟨left, back⟩ := tlvForeach_returns fuel looped
    cases left <;> cases back

private theorem validateAll_checked {check first} (below : count < 2 ^ 16)
    (valid : (validateAll fw fuel check first count).result = some true) {k} (mem : k < count) :
    ∃ here, passed fw k first = some (some here) ∧ (check here).result = some true := by
  obtain ⟨outcome, looped, last⟩ := result_of_bind valid
  cases outcome with
  | inr _ => cases last
  | inl left =>
    obtain ⟨here, reached, kept⟩ := (tlvForeach_walk below fuel (Nat.zero_le _) looped).2 k mem
    obtain ⟨checked, result, kept⟩ := result_of_bind kept
    cases checked with
    | false => cases kept
    | true => exact ⟨here, reached, result⟩

private theorem fileInit_valid {file} (opened : (fileInit fw fuel debug).result = some (some file)) :
    file.componentCount < 2 ^ 16 ∧ (fileValidate fw fuel debug file).result = some true := by
  unfold fileInit at opened
  split at opened
  · cases opened
  obtain ⟨multi, _, opened⟩ := result_of_bind opened
  split at opened
  · cases opened
  split at opened
  · cases opened
  obtain ⟨descriptor, _, opened⟩ := result_of_bind opened
  split at opened
  · cases opened
  obtain ⟨next, _, opened⟩ := result_of_bind opened
  split at opened
  · cases opened
  obtain ⟨devCount, _, opened⟩ := result_of_bind opened
  obtain ⟨firstComponent, _, opened⟩ := result_of_bind opened
  obtain ⟨componentCount, isCount, opened⟩ := result_of_bind opened
  obtain ⟨cbOffset, _, opened⟩ := result_of_bind opened
  dsimp only at opened
  split at opened
  · cases opened
  obtain ⟨size, _, opened⟩ := result_of_bind opened
  split at opened
  · cases opened
  obtain ⟨valid, checked, opened⟩ := result_of_bind opened
  split at opened
  case isTrue isValid =>
    cases opened
    cases isCount
    exact ⟨be16_lt fw _, isValid ▸ checked⟩
  case isFalse => cases opened

/-! ### A component that is returned -/

def Firmware.cbOffset (fw : Firmware) (desc : Nat) : Nat :=
  fw.be32 (desc + 4) * 2 ^ 32 + fw.be32 (desc + 8)

/-- The component is as its descriptor announces, the one pointed to among those validated. -/
structure Announced (fw : Firmware) (fuel : Nat) (debug : Bool) (file : File) (dec : XzDec)
    (compIdx desc : Nat) (comp : CompData) : Prop where
  listed : compIdx < file.componentCount
  validated : ∃ tlv multi child, passed fw compIdx file.firstComponent = some (some tlv) ∧
    (fileCompValidate fw fuel debug tlv).result = some true ∧
    (multiGet fw tlv).result = some (some multi) ∧ multiChild fw multi = some child ∧
    (componentDescriptorGet fw child).result = some (some desc)
  dataSize : comp.dataSize = fw.be32 (desc + 12)
  whole : fw.cbOffset desc + 16 + comp.dataSize ≤ dec.block.length
  length : comp.data.length = comp.dataSize
  data : comp.data = (dec.block.drop (fw.cbOffset desc + 16)).take comp.dataSize

private theorem fileCbOffsetXz_spec {env dec off size buff}
    (decoder : env.decoder = some dec) (decoded : fileCbOffsetXz fuel env off size = some (.ok buff)) :
    buff.length = size ∧ (0 < size → ∃ old, old.length = size ∧ buff = dec.fill off size old) := by
  unfold fileCbOffsetXz at decoded
  rw [decoder] at decoded
  dsimp only at decoded
  split at decoded
  · cases decoded
  · cases decoded
  next call pos buf upTo =>
    obtain ⟨reached, len⟩ := decodeUpTo_spec fuel (Nat.zero_le off) length_replicate upTo
    split at decoded
    · cases decoded
    · cases decoded
      refine ⟨(fill_length dec pos (le_of_eq len.symm)).trans len, fun filled => ⟨buf, len, ?_⟩⟩
      rw [← reached filled]

private theorem magic_fits {buff} (magic : (buff ++ replicate 16 0).take 16 = compMagic) : 16 ≤ buff.length := by
  by_contra short
  have last := congrArg (·[15]?) magic
  rw [getElem?_take_of_lt (by decide), getElem?_append_right (by omega),
    getElem?_replicate, if_pos (by omega)] at last
  exact absurd last (by decide)

variable {file : File} {env : ExtractEnv} {dec : XzDec} {psid : List Nat}
  {componentIndex devMulti cptrTlv cptr : Nat} {comp : CompData}

private theorem fileComponentTlvGet_reached {compIdx desc} (below : compIdx < 2 ^ 16)
    (found : (fileComponentTlvGet fw fuel file compIdx).result = some (some desc)) :
    ∃ tlv multi child, passed fw compIdx file.firstComponent = some (some tlv) ∧
      (multiGet fw tlv).result = some (some multi) ∧ multiChild fw multi = some child ∧
      (componentDescriptorGet fw child).result = some (some desc) := by
  unfold fileComponentTlvGet at found
  split at found
  · cases found
  obtain ⟨reached, walked, found⟩ := result_of_bind found
  cases reached with
  | none => cases found
  | some tlv =>
    obtain ⟨payload, isMulti, found⟩ := result_of_bind found
    cases payload with
    | none => cases found
    | some multi =>
      dsimp only at found
      split at found
      case h_1 => cases found
      case h_2 child isChild =>
        exact ⟨tlv, multi, child, tlvAdvance_reached below walked, isMulti, isChild, found⟩

variable (opened : (fileInit fw fuel debug).result = some (some file)) (decoder : env.decoder = some dec)
  (dev : (devGet fw fuel file psid).result = some (some devMulti))
  (ptrTlv : (multiChildFind fw fuel devMulti typeComponentPtr (componentIndex % 2 ^ 16)).result =
    some (some cptrTlv))
  (ptr : (componentPtrGet fw cptrTlv).result = some (some cptr))
  (got : (fileComponentExtract fw fuel env file psid componentIndex).result = some (.ok comp))

include decoder dev ptrTlv ptr got

/-- Before the last call the buffer holds what was decoded on the way to the offset. -/
private theorem fileComponentExtract_spec :
    ∃ desc, (fileComponentTlvGet fw fuel file (fw.be16 (cptr + 2))).result = some (some desc) ∧
      comp.dataSize = fw.be32 (desc + 12) ∧ ∃ old, old.length = comp.dataSize + 16 ∧
        comp.data = (dec.fill (fw.cbOffset desc) (comp.dataSize + 16) old).drop 16 := by
  obtain ⟨sizes, isSizes, got⟩ := result_of_bind got
  obtain ⟨component, found, isSizes⟩ := result_of_bind isSizes
  cases component with
  | none =>
    cases isSizes
    cases got
  | some desc =>
    cases isSizes
    obtain ⟨_, isDev, found⟩ := result_of_bind found
    cases dev.symm.trans isDev
    obtain ⟨_, isTlv, found⟩ := result_of_bind found
    cases ptrTlv.symm.trans isTlv
    obtain ⟨_, isPtr, found⟩ := result_of_bind found
    cases ptr.symm.trans isPtr
    obtain ⟨_, isIdx, found⟩ := result_of_bind found
    cases isIdx
    refine ⟨desc, found, ?_⟩
    dsimp only at got
    split at got
    · cases got
    split at got
    · cases got
    · cases got
    next buff decoded =>
      split at got
      case isFalse => cases got
      case isTrue magic =>
        cases got
        have small : fw.be32 (desc + 12) < 2 ^ 32 := by
          have high := be16_lt fw (desc + 12)
          have low := be16_lt fw (desc + 12 + 2)
          unfold Firmware.be32
          omega
        change fileCbOffsetXz fuel env (fw.cbOffset desc) ((fw.be32 (desc + 12) + 16) % 2 ^ 32) = _ at decoded
        obtain ⟨len, filled⟩ := fileCbOffsetXz_spec decoder decoded
        have fits := magic_fits magic
        have size : (fw.be32 (desc + 12) + 16) % 2 ^ 32 = fw.be32 (desc + 12) + 16 := by omega
        rw [size] at filled
        obtain ⟨old, oldLen, isFill⟩ := filled (by omega)
        exact ⟨rfl, old, oldLen, congrArg (·.drop 16) isFill⟩

include opened

/-- A component returned is as announced exactly when its index is below the number of components and the
block does not end before it. -/
theorem component_announced_iff :
    ∃ desc, (fileComponentTlvGet fw fuel file (fw.be16 (cptr + 2))).result = some (some desc) ∧
      (Announced fw fuel debug file dec (fw.be16 (cptr + 2)) desc comp ↔
        fw.be16 (cptr + 2) < file.componentCount ∧
          fw.cbOffset desc + 16 + fw.be32 (desc + 12) ≤ dec.block.length) := by
  obtain ⟨desc, found, size, old, oldLen, data⟩ :=
    fileComponentExtract_spec decoder dev ptrTlv ptr got
  refine ⟨desc, found, fun announced => ⟨announced.listed, size ▸ announced.whole⟩, ?_⟩
  rintro ⟨listed, whole⟩
  rw [← size] at whole
  obtain ⟨tlv, multi, child, reached, isMulti, isChild, isDesc⟩ :=
    fileComponentTlvGet_reached (be16_lt fw _) found
  obtain ⟨below, valid⟩ := fileInit_valid opened
  obtain ⟨devices, _, valid⟩ := result_of_bind valid
  split at valid
  · cases valid
  obtain ⟨here, alsoReached, checked⟩ := validateAll_checked below valid listed
  cases reached.symm.trans alsoReached
  have slice : comp.data = (dec.block.drop (fw.cbOffset desc + 16)).take comp.dataSize := by
    rw [data, XzDec.fill, Nat.min_eq_left (by omega), drop_of_length_le (le_of_eq oldLen),
      append_nil, drop_take, drop_drop, Nat.add_sub_cancel]
  refine ⟨listed, ⟨tlv, multi, child, reached, checked, isMulti, isChild, isDesc⟩, size, whole, ?_, slice⟩
  rw [slice, length_take, length_drop]
  omega

omit opened decoder dev ptrTlv ptr got

/-- A device with a PSID and a component of four bytes. -/
def componentImage : List UInt8 :=
  fingerprint ++ [0, 1, 0, 4, 0, 0, 0, 32] ++ [0, 2, 0, 28] ++
    [0, 1, 0, 1, 0, 0, 0, 4, 0, 0, 0, 1] ++ replicate 16 0 ++
    [0, 1, 0, 4, 0, 1, 0, 20] ++ [0, 0x2A, 0, 4, 7, 7, 7, 7] ++ [0, 0x22, 0, 8] ++
    replicate 8 0 ++ [0, 1, 0, 4, 0, 0, 0, 20] ++ [0, 4, 0, 16] ++ replicate 12 0 ++
    [0, 0, 0, 4, 0]

def componentFile : File := ⟨some 56, 1, some 84, 1, 4, 1⟩

def blockOf (bytes : List UInt8) : XzDec := ⟨compMagic ++ bytes, fun _ _ _ => .streamEnd⟩

theorem component_announced_small :
    let fw : Firmware := ⟨componentImage, fun _ => 0⟩
    let dec := blockOf [1, 2, 3, 4]
    ∃ desc, (fileComponentTlvGet fw 8 componentFile (fw.be16 (76 + 2))).result = some (some desc) ∧
      (Announced fw 8 false componentFile dec (fw.be16 (76 + 2)) desc ⟨0, 4, [1, 2, 3, 4]⟩ ↔
        fw.be16 (76 + 2) < componentFile.componentCount ∧
          fw.cbOffset desc + 16 + fw.be32 (desc + 12) ≤ dec.block.length) := by
  intro fw dec
  have got : (fileComponentExtract fw 8 ⟨some dec, true⟩ componentFile [7, 7, 7, 7] 0).result =
      some (.ok ⟨0, 4, [1, 2, 3, 4]⟩) := by decide +kernel
  have ptrTlv : (multiChildFind fw 8 60 typeComponentPtr (0 % 2 ^ 16)).result = some (some 72) := by
    decide +kernel
  exact component_announced_iff (by decide +kernel) rfl (by decide +kernel) ptrTlv (by decide +kernel)
    got

/-- The decoder's last call ends the stream after one of four bytes; the others stay zero. -/
theorem component_cut_short :
    let fw : Firmware := ⟨componentImage, fun _ => 0⟩
    (fileInit fw 8 false).result = some (some componentFile) ∧
      (fileComponentExtract fw 8 ⟨some (blockOf [1]), true⟩ componentFile [7, 7, 7, 7] 0).result =
        some (.ok ⟨0, 4, [1, 0, 0, 0]⟩) ∧
      ∀ desc, ¬ Announced fw 8 false componentFile (blockOf [1]) 0 desc ⟨0, 4, [1, 0, 0, 0]⟩ := by
  intro fw
  refine ⟨by decide +kernel, by decide +kernel, fun desc announced => ?_⟩
  have whole : fw.cbOffset desc + 16 + 4 ≤ 17 := announced.whole
  omega

end MlnxOfed.Mlxfw
