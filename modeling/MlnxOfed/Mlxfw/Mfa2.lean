/-
The MFA2 firmware file (drivers/net/ethernet/mellanox/mlxfw): the walk over its TLVs, the checks of
`mlxfw_mfa2_file_init`, and the search for a component up to its decompression. A pointer is the offset from
the first byte, and every byte read and payload returned is logged. Loops have fuel: a hostile file can make
one run for ever.
-/

import MlnxOfed.Lib.AccessLog

namespace MlnxOfed.Mlxfw

open Lib

structure Firmware where
  data : List UInt8
  /-- What the memory behind the image holds. -/
  beyond : Nat → UInt8

variable (fw : Firmware)

def Firmware.size : Nat := fw.data.length

def Firmware.byte (offset : Nat) : Nat :=
  (fw.data.getD offset (fw.beyond offset)).toNat

def Firmware.be16 (offset : Nat) : Nat := fw.byte offset * 2 ^ 8 + fw.byte (offset + 1)

def Firmware.be32 (offset : Nat) : Nat := fw.be16 offset * 2 ^ 16 + fw.be16 (offset + 2)

def Firmware.tlvType (tlv : Nat) : Nat := fw.byte (tlv + 1)

def Firmware.tlvLen (tlv : Nat) : Nat := fw.be16 (tlv + 2)

inductive Access
  | read (offset : Nat)
  /-- `mlxfw_mfa2_tlv_payload_get` returns the payload of the TLV. -/
  | payload (tlv len : Nat)
  /-- `mlxfw_mfa2_tlv_next` uses the payload of a multi-part TLV, which may be NULL. -/
  | deref (tlv : Nat) (multi : Option Nat)
  /-- The TLV itself is NULL. -/
  | null
  deriving DecidableEq

abbrev Run := Logged Access

def readByte (offset : Nat) : Run Nat := do
  Logged.emit (.read offset)
  pure (fw.byte offset)

def readBe16 (offset : Nat) : Run Nat := do
  let high ← readByte fw offset
  let low ← readByte fw (offset + 1)
  pure (high * 2 ^ 8 + low)

def readBe32 (offset : Nat) : Run Nat := do
  let high ← readBe16 fw offset
  let low ← readBe16 fw (offset + 2)
  pure (high * 2 ^ 16 + low)

def readBytes (fw : Firmware) (offset : Nat) : Nat → Run (List Nat)
  | 0 => pure []
  | count + 1 => do
      let first ← readByte fw offset
      let rest ← readBytes fw (offset + 1) count
      pure (first :: rest)

def typeMultiPart : Nat := 0x01
def typePackageDescriptor : Nat := 0x02
def typeComponentDescriptor : Nat := 0x04
def typeComponentPtr : Nat := 0x22
def typePsid : Nat := 0x2A

def nlaAlign (length : Nat) : Nat := (length + 3) / 4 * 4

def validPtr (ptr : Nat) : Bool := decide (0 < ptr) && decide (ptr < fw.size)

def tlvGet (ptr : Nat) : Option Nat :=
  if validPtr fw ptr && validPtr fw (ptr + 4) then some ptr else none

def tlvPayloadGet (tlv payloadType payloadSize : Nat) (varsize : Bool) : Run (Option Nat) := do
  let len ← readBe16 fw (tlv + 2)
  if !validPtr fw tlv || !validPtr fw (tlv + len - 1) then
    pure none
  else
    let type ← readByte fw (tlv + 1)
    if type ≠ payloadType then
      pure none
    else if varsize = true ∧ len < payloadSize then
      pure none
    else if varsize = false ∧ len ≠ payloadSize then
      pure none
    else
      Logged.emit (.payload tlv len)
      pure (some (tlv + 4))

def packageDescriptorGet (tlv : Nat) : Run (Option Nat) :=
  tlvPayloadGet fw tlv typePackageDescriptor 28 false

def multiGet (tlv : Nat) : Run (Option Nat) :=
  tlvPayloadGet fw tlv typeMultiPart 4 false

def psidGet (tlv : Nat) : Run (Option Nat) := tlvPayloadGet fw tlv typePsid 0 true

def componentPtrGet (tlv : Nat) : Run (Option Nat) :=
  tlvPayloadGet fw tlv typeComponentPtr 8 false

def componentDescriptorGet (tlv : Nat) : Run (Option Nat) :=
  tlvPayloadGet fw tlv typeComponentDescriptor 16 false

def multiChild (multi : Nat) : Option Nat := tlvGet fw (multi + nlaAlign 4)

/-- `mlxfw_mfa2_tlv_next`; the length is a `u16`. -/
def tlvNext (tlv : Nat) : Run (Option Nat) := do
  let len ← readBe16 fw (tlv + 2)
  let tlvLen := nlaAlign (4 + len) % 2 ^ 16
  let type ← readByte fw (tlv + 1)
  if type = typeMultiPart then
    let multi ← multiGet fw tlv
    Logged.emit (.deref tlv multi)
    match multi with
    | none => Logged.stop
    | some payload =>
      let totalLen ← readBe16 fw (payload + 2)
      pure (tlvGet fw (tlv + nlaAlign (tlvLen + totalLen) % 2 ^ 16))
  else
    pure (tlvGet fw (tlv + tlvLen))

/-- `mlxfw_mfa2_tlv_foreach` over a range. The body may return from the function; else the loop ends with
its last TLV. -/
def tlvForeach {σ ρ : Type} (fw : Firmware) (body : Option Nat → σ → Run (σ ⊕ ρ)) (range count : Nat) :
    Nat → Nat → Option Nat → σ → Run ((Option Nat × σ) ⊕ ρ)
  | 0, _, _, _ => Logged.stop
  | fuel + 1, idx, tlv, state =>
    if idx < count then do
      match ← body tlv state with
      | .inr result => pure (.inr result)
      | .inl state =>
        match tlv with
        | none => do
            Logged.emit .null
            Logged.stop
        | some here => do
            let next ← tlvNext fw here
            tlvForeach fw body range count fuel ((idx + 1) % range) next state
    else
      pure (.inl (tlv, state))

def tlvAdvance (fuel : Nat) (fromTlv : Option Nat) (count : Nat) : Run (Option Nat) := do
  let body (tlv : Option Nat) (_ : Unit) : Run (Unit ⊕ Option Nat) :=
    match tlv with
    | none => pure (.inr none)
    | some _ => pure (.inl ())
  match ← tlvForeach fw body (2 ^ 16) count fuel 0 fromTlv () with
  | .inl (tlv, _) => pure tlv
  | .inr result => pure result

def multiForeach {σ ρ : Type} (fw : Firmware) (body : Option Nat → σ → Run (σ ⊕ ρ)) (fuel : Nat)
    (multi : Nat) (state : σ) : Run ((Option Nat × σ) ⊕ ρ) := do
  let numExtensions ← readBe16 fw multi
  tlvForeach fw body (2 ^ 16) (numExtensions + 1) fuel 0 (multiChild fw multi) state

def multiChildFind (fuel multi type index : Nat) : Run (Option Nat) := do
  let body (tlv : Option Nat) (skip : Nat) : Run (Nat ⊕ Option Nat) :=
    match tlv with
    | none => pure (.inr none)
    | some here => do
        let found ← readByte fw (here + 1)
        if found = type then
          if skip = index then pure (.inr (some here)) else pure (.inl ((skip + 1) % 2 ^ 16))
        else
          pure (.inl skip)
  match ← multiForeach fw body fuel multi 0 with
  | .inl _ => pure none
  | .inr result => pure result

/-- `mlxfw_mfa2_tlv_multi_child_count`; there is no count when a child is not valid. -/
def multiChildCount (fuel multi type : Nat) : Run (Option Nat) := do
  let body (tlv : Option Nat) (count : Nat) : Run (Nat ⊕ Unit) :=
    match tlv with
    | none => pure (.inr ())
    | some here => do
        let found ← readByte fw (here + 1)
        if found = type then pure (.inl ((count + 1) % 2 ^ 16)) else pure (.inl count)
  match ← multiForeach fw body fuel multi 0 with
  | .inl (_, count) => pure (some count)
  | .inr _ => pure none

structure File where
  firstDev : Option Nat
  devCount : Nat
  firstComponent : Option Nat
  componentCount : Nat
  cb : Nat
  cbArchiveSize : Nat

def fingerprint : List UInt8 :=
  [0x4D, 0x4C, 0x4E, 0x58, 0x2E, 0x4D, 0x46, 0x41, 0x32, 0x2E, 0x58, 0x5A, 0x2E, 0x30, 0x30, 0x21]

/-- `mlxfw_mfa2_check`; the size compared includes the string's final zero. -/
def mfa2Check : Bool :=
  decide (17 ≤ fw.size) && decide (fw.data.take 16 = fingerprint)

def multiValidate (fuel multi : Nat) : Run Bool := do
  let body (tlv : Option Nat) (_ : Unit) : Run (Unit ⊕ Unit) :=
    match tlv with
    | none => pure (.inr ())
    | some _ => pure (.inl ())
  match ← multiForeach fw body fuel multi () with
  | .inl _ => pure true
  | .inr _ => pure false

/-- A device's component pointers, from the given one on. `debug`: `pr_debug` prints. -/
def devComponentPtrs (fw : Firmware) (fuel : Nat) (debug : Bool) (multi : Nat) : Nat → Nat → Run Bool
  | 0, _ => pure true
  | rest + 1, cptrIdx => do
      match ← multiChildFind fw fuel multi typeComponentPtr cptrIdx with
      | none => pure false
      | some tlv =>
        match ← componentPtrGet fw tlv with
        | none => pure false
        | some cptr =>
          let _ ← readBytes fw (cptr + 2) (if debug then 2 else 0)
          devComponentPtrs fw fuel debug multi rest (cptrIdx + 1)

def fileDevValidate (fuel : Nat) (debug : Bool) (devTlv : Nat) : Run Bool := do
  match ← multiGet fw devTlv with
  | none => pure false
  | some multi =>
    let valid ← multiValidate fw fuel multi
    if valid = false then
      pure false
    else
      match ← multiChildFind fw fuel multi typePsid 0 with
      | none => pure false
      | some tlv =>
        match ← psidGet fw tlv with
        | none => pure false
        | some psid =>
          let len ← readBe16 fw (tlv + 2)
          let _ ← readBytes fw psid (if debug then len else 0)
          match ← multiChildCount fw fuel multi typeComponentPtr with
          | none => pure false
          | some cptrCount =>
            if cptrCount = 0 then
              pure false
            else
              devComponentPtrs fw fuel debug multi cptrCount 0

def fileCompValidate (fuel : Nat) (debug : Bool) (compTlv : Nat) : Run Bool := do
  match ← multiGet fw compTlv with
  | none => pure false
  | some multi =>
    let valid ← multiValidate fw fuel multi
    if valid = false then
      pure false
    else
      match multiChild fw multi with
      | none => pure false
      | some tlv =>
        match ← componentDescriptorGet fw tlv with
        | none => pure false
        | some cdesc =>
          let _ ← readBytes fw (cdesc + 2) (if debug then 14 else 0)
          pure true

/-- The checks of all devices, or of all components. -/
def validateAll (fuel : Nat) (check : Nat → Run Bool) (first : Option Nat) (count : Nat) : Run Bool := do
  let body (tlv : Option Nat) (_ : Unit) : Run (Unit ⊕ Unit) :=
    match tlv with
    | none => pure (.inr ())
    | some here => do
        let valid ← check here
        if valid then pure (.inl ()) else pure (.inr ())
  match ← tlvForeach fw body (2 ^ 16) count fuel 0 first () with
  | .inl _ => pure true
  | .inr _ => pure false

def fileValidate (fuel : Nat) (debug : Bool) (file : File) : Run Bool := do
  let devices ← validateAll fw fuel (fileDevValidate fw fuel debug) file.firstDev file.devCount
  if devices = false then
    pure false
  else
    validateAll fw fuel (fileCompValidate fw fuel debug) file.firstComponent file.componentCount

/-- `mlxfw_mfa2_file_init` when its allocation succeeds. -/
def fileInit (fuel : Nat) (debug : Bool) : Run (Option File) := do
  match tlvGet fw (nlaAlign 16) with
  | none => pure none
  | some firstTlv =>
    match ← multiGet fw firstTlv with
    | none => pure none
    | some multi =>
      match multiChild fw multi with
      | none => pure none
      | some child =>
        match ← packageDescriptorGet fw child with
        | none => pure none
        | some pd =>
          match ← tlvNext fw firstTlv with
          | none => pure none
          | some firstDev =>
            let devCount ← readBe16 fw (pd + 2)
            let firstComponent ← tlvAdvance fw fuel (some firstDev) devCount
            let componentCount ← readBe16 fw pd
            let cbOffset ← readBe32 fw (pd + 4)
            let cb := (cbOffset + 3) % 2 ^ 32 / 4 * 4
            if validPtr fw cb = false then
              pure none
            else
              let cbArchiveSize ← readBe32 fw (pd + 8)
              if validPtr fw (cb + cbArchiveSize - 1) = false then
                pure none
              else
                let file : File :=
                  { firstDev := some firstDev
                    devCount := devCount
                    firstComponent := firstComponent
                    componentCount := componentCount
                    cb := cb
                    cbArchiveSize := cbArchiveSize }
                let valid ← fileValidate fw fuel debug file
                if valid then pure (some file) else pure none

/-- `mlxfw_mfa2_tlv_dev_get`; `memcmp` may read all bytes of the PSID. -/
def devGet (fuel : Nat) (file : File) (psid : List Nat) : Run (Option Nat) := do
  let psidSize := psid.length % 2 ^ 16
  let body (tlv : Option Nat) (_ : Unit) : Run (Unit ⊕ Option Nat) :=
    match tlv with
    | none => pure (.inr none)
    | some devTlv => do
        match ← multiGet fw devTlv with
        | none => pure (.inr none)
        | some multi =>
          match ← multiChildFind fw fuel multi typePsid 0 with
          | none => pure (.inr none)
          | some found =>
            let len ← readBe16 fw (found + 2)
            if len ≠ psidSize then
              pure (.inl ())
            else
              match ← psidGet fw found with
              | none => pure (.inr none)
              | some tlvPsid =>
                let bytes ← readBytes fw tlvPsid psidSize
                if bytes = psid.take psidSize then pure (.inr (some multi)) else pure (.inl ())
  match ← tlvForeach fw body (2 ^ 32) file.devCount fuel 0 file.firstDev () with
  | .inl _ => pure none
  | .inr result => pure result

def fileComponentCount (fuel : Nat) (file : File) (psid : List Nat) : Run (Option Nat) := do
  match ← devGet fw fuel file psid with
  | none => pure none
  | some multi => multiChildCount fw fuel multi typeComponentPtr

def fileComponentTlvGet (fuel : Nat) (file : File) (compIndex : Nat) : Run (Option Nat) := do
  if file.componentCount < compIndex then
    pure none
  else
    match ← tlvAdvance fw fuel file.firstComponent compIndex with
    | none => pure none
    | some compTlv =>
      match ← multiGet fw compTlv with
      | none => pure none
      | some multi =>
        match multiChild fw multi with
        | none => pure none
        | some child => componentDescriptorGet fw child

def fileComponentFind (fuel : Nat) (file : File) (psid : List Nat)
    (componentIndex : Nat) : Run (Option Nat) := do
  match ← devGet fw fuel file psid with
  | none => pure none
  | some multi =>
    match ← multiChildFind fw fuel multi typeComponentPtr (componentIndex % 2 ^ 16) with
    | none => pure none
    | some cptrTlv =>
      match ← componentPtrGet fw cptrTlv with
      | none => pure none
      | some cptr =>
        let compIdx ← readBe16 fw (cptr + 2)
        fileComponentTlvGet fw fuel file compIdx

/-- `mlxfw_mfa2_file_component_get` up to the decompression: offset, size and identifier. -/
def fileComponentGet (fuel : Nat) (file : File) (psid : List Nat)
    (componentIndex : Nat) : Run (Option (Nat × Nat × Nat)) := do
  match ← fileComponentFind fw fuel file psid componentIndex with
  | none => pure none
  | some comp =>
    let offsetHigh ← readBe32 fw (comp + 4)
    let offsetLow ← readBe32 fw (comp + 8)
    let compSize ← readBe32 fw (comp + 12)
    let identifier ← readBe16 fw (comp + 2)
    pure (some (offsetHigh * 2 ^ 32 + offsetLow, compSize, identifier))

inductive Call
  | componentCount (psid : List Nat)
  | componentGet (psid : List Nat) (index : Nat)

def fileCalls (fw : Firmware) (fuel : Nat) (file : File) : List Call → Run Unit
  | [] => pure ()
  | .componentCount psid :: calls => do
      let _ ← fileComponentCount fw fuel file psid
      fileCalls fw fuel file calls
  | .componentGet psid index :: calls => do
      let _ ← fileComponentGet fw fuel file psid index
      fileCalls fw fuel file calls

def mfa2Session (fuel : Nat) (debug : Bool) (calls : List Call) : Run Unit := do
  match ← fileInit fw fuel debug with
  | none => pure ()
  | some file => fileCalls fw fuel file calls

end MlnxOfed.Mlxfw
