/-
The builders of a matcher (dr_matcher.c): `dr_matcher_set_ste_builders` turns a match mask into the list of
builders of its rules; `ste_builder_arr` has room for seventeen.

A builder takes its fields out of a copy of the mask, and what is left decides about the builders after it.
Its lookup type and bit mask depend on the STE format, a parameter.
-/

import MlnxOfed.Steering.MatchMask
import MlnxOfed.Steering.IcmPool

namespace MlnxOfed.Steering

def drRuleMaxStes : Nat := 17

/-- `struct mlx5dr_ste_build`, with the kind of builder for its `ste_build_tag_func`. -/
structure SteBuild where
  inner : Bool := false
  rx : Bool := false
  vhcaIdValid : Bool := false
  luType : BitVec 16 := 0
  byteMask : BitVec 16 := 0
  bitMask : BitVec 128 := 0
  tagFunc : Option BuilderKind := none

/-- `mlx5dr_ste_conv_bit_to_byte_mask`: a bit for each of sixteen bytes, the first first. -/
def convBitToByteMask (bitMask : BitVec 128) : BitVec 16 :=
  (List.range 16).foldl
    (fun byteMask i =>
      (byteMask <<< 1) ||| if bitMask.extractLsb' (8 * (15 - i)) 8 = 0xff then 1 else 0)
    0

/-- The `build_*_init` functions of an STE format: the lookup type, and what becomes of the bit mask found
in the builder. -/
structure BuilderFormat where
  luType : BuilderKind → (rx inner : Bool) → BuilderCaps → MatchParam → BitVec 16
  bitMask : BuilderKind → (inner : Bool) → BuilderCaps → MatchParam → BitVec 128 → BitVec 128

def luTypeDontCare : BitVec 16 := 0x0f

def steBuildEmptyAlwaysHit (rx : Bool) (sb : SteBuild) : SteBuild :=
  { sb with rx := rx, luType := luTypeDontCare, byteMask := 0, tagFunc := some .emptyAlwaysHit }

/-- The functions `mlx5dr_ste_build_*`; only the source port's writes `vhca_id_valid`. -/
def BuilderFormat.steBuild (format : BuilderFormat) (caps : BuilderCaps) (kind : BuilderKind)
    (inner rx : Bool) (mask : MatchParam) (sb : SteBuild) : SteBuild :=
  let bitMask := format.bitMask kind inner caps mask sb.bitMask
  { inner := inner
    rx := rx
    vhcaIdValid :=
      if kind = .srcGvmiQpn then mask.misc .sourceEswitchOwnerVhcaId != 0 else sb.vhcaIdValid
    luType := format.luType kind rx inner caps mask
    byteMask := convBitToByteMask bitMask
    bitMask := bitMask
    tagFunc := some kind }

/-! ### `dr_matcher_set_ste_builders` -/

inductive RuleIpv where
  | ipv4
  | ipv6
  deriving DecidableEq

/-- What builders are made from besides the mask; `found` is the array's memory. -/
structure BuildEnv where
  format : BuilderFormat
  caps : BuilderCaps
  dmnType : DomainType
  rx : Bool
  found : Nat → SteBuild

/-- The builders written so far, from index zero, and what is left of the mask. -/
structure Building where
  sb : List SteBuild
  mask : MatchParam

def Building.idx (building : Building) : Nat := building.sb.length

/-- `mlx5dr_ste_build_*(&sb[idx++], &mask, …)`. -/
def Building.add (building : Building) (env : BuildEnv) (kind : BuilderKind) (inner : Bool) : Building where
  sb := building.sb ++ [env.format.steBuild env.caps kind inner env.rx building.mask (env.found building.idx)]
  mask := kind.consume inner building.mask

def Building.addWhen (building : Building) (env : BuildEnv) (wanted : Bool) (kind : BuilderKind)
    (inner : Bool) : Building :=
  if wanted then building.add env kind inner else building

variable (env : BuildEnv)

def buildRegisters (building : Building) : Building :=
  let building :=
    building.addWhen env (maskIsWqeMetadataSet building.mask.misc2) .generalPurpose false
  let building := building.addWhen env (maskIsRegC03Set building.mask.misc2) .register0 false
  let building := building.addWhen env (maskIsRegC47Set building.mask.misc2) .register1 false
  building.addWhen env (maskIsGvmiOrQpnSet building.mask.misc && (env.dmnType == .fdb || env.dmnType == .nicRx))
    .srcGvmiQpn false

def buildEthL2 (inner : Bool) (building : Building) : Building :=
  let building :=
    building.addWhen env (maskIsSmacSet (building.mask.spec inner) && maskIsDmacSet (building.mask.spec inner))
      .ethL2SrcDst inner
  let building :=
    building.addWhen env (maskIsSmacSet (building.mask.spec inner)) .ethL2Src inner
  building.addWhen env (maskIsL2Dst (building.mask.spec inner) building.mask.misc inner)
    .ethL2Dst inner

def buildEthL3 (inner : Bool) (building : Building) : RuleIpv → Building
  | .ipv6 =>
    let building :=
      building.addWhen env (maskIsDstAddrSet (building.mask.spec inner)) .ethL3Ipv6Dst inner
    let building :=
      building.addWhen env (maskIsSrcAddrSet (building.mask.spec inner)) .ethL3Ipv6Src inner
    building.addWhen env (maskIsEthL4Set (building.mask.spec inner) building.mask.misc inner)
      .ethIpv6L3L4 inner
  | .ipv4 =>
    let building :=
      building.addWhen env (maskIsIpv4_5TupleSet (building.mask.spec inner)) .ethL3Ipv4_5Tuple
        inner
    building.addWhen env (maskIsTtlSet (building.mask.spec inner)) .ethL3Ipv4Misc inner

def buildTunnels (building : Building) : Building :=
  if maskIsTnlVxlanGpe building.mask env.caps then
    building.add env .tnlVxlanGpe false
  else if maskIsTnlGeneve building.mask env.caps then
    let building := building.add env .tnlGeneve false
    building.addWhen env (maskIsTnlGeneveTlvOption building.mask.misc3) .tnlGeneveTlvOption false
  else
    building

/-- MPLS over GRE or UDP is looked for with the outer and again with the inner headers. -/
def buildMplsOver (inner : Bool) (building : Building) : Building :=
  if maskIsTnlMplsOverGre building.mask env.caps then
    building.add env .tnlMplsOverGre inner
  else
    building.addWhen env (maskIsTnlMplsOverUdp building.mask env.caps) .tnlMplsOverUdp inner

def buildL4Mpls (inner : Bool) (building : Building) : Building :=
  let building :=
    building.addWhen env (maskIsEthL4MiscSet building.mask.misc3 inner) .ethL4Misc inner
  let building := building.addWhen env (maskIsFirstMplsSet building.mask.misc2 inner) .mpls inner
  buildMplsOver env inner building

def buildIcmpGre (building : Building) : Building :=
  let building := building.addWhen env (maskIsIcmp building.mask env.caps) .icmp false
  building.addWhen env (maskIsTnlGreSet building.mask.misc) .tnlGre false

def buildOuter (outerIpv : RuleIpv) (building : Building) : Building :=
  let building := buildEthL2 env false (buildRegisters env building)
  let building := buildEthL3 env false building outerIpv
  buildIcmpGre env (buildL4Mpls env false (buildTunnels env building))

def buildInner (innerIpv : RuleIpv) (building : Building) : Building :=
  let building := building.addWhen env (maskIsEthL2TnlSet building.mask.misc) .ethL2Tnl true
  let building := buildEthL3 env true (buildEthL2 env true building) innerIpv
  buildL4Mpls env true building

def buildFlexParsers (building : Building) : Building :=
  let building := building.addWhen env (maskIsFlexParser03Set building.mask.misc4) .flexParser0 false
  building.addWhen env (maskIsFlexParser47Set building.mask.misc4) .flexParser1 false

def criteriaOuter : BitVec 8 := 1

def criteriaMisc : BitVec 8 := 2

def criteriaInner : BitVec 8 := 4

def criteriaMisc2 : BitVec 8 := 8

def criteriaMisc3 : BitVec 8 := 16

def criteriaMisc4 : BitVec 8 := 32

def criteriaHas (matchCriteria bits : BitVec 8) : Bool := matchCriteria &&& bits != 0

def MaskField.criteria : MaskField → BitVec 8
  | .outer _ => criteriaOuter
  | .misc _ => criteriaMisc
  | .inner _ => criteriaInner
  | .misc2 _ => criteriaMisc2
  | .misc3 _ => criteriaMisc3
  | .misc4 _ => criteriaMisc4

/-- `dr_matcher_copy_mask` into a mask of zeros. -/
def copyMask (srcMask : MatchParam) (matchCriteria : BitVec 8) : MatchParam := fun field =>
  if criteriaHas matchCriteria field.criteria then srcMask field else 0

/-- `mlx5dr_ste_build_pre_check` for a mask; `false` is `-EINVAL`. -/
def steBuildPreCheck (matchCriteria : BitVec 8) (mask : MatchParam) : Bool :=
  !(criteriaHas matchCriteria criteriaMisc &&
    ((mask.misc .sourcePort != 0 && mask.misc .sourcePort != 0xffff) ||
      (mask.misc .sourceEswitchOwnerVhcaId != 0 &&
        mask.misc .sourceEswitchOwnerVhcaId != 0xffff)))

/-- `struct mlx5dr_matcher`, as far as the builders read it. -/
structure MatcherMask where
  mask : MatchParam
  matchCriteria : BitVec 8

def dropsSourcePort (mask : MatchParam) : Bool :=
  env.dmnType == .fdb && env.rx && mask.misc .sourcePort != 0

variable (matcher : MatcherMask)

def MatcherMask.start (env : BuildEnv) : MatchParam :=
  let mask := copyMask matcher.mask matcher.matchCriteria
  if dropsSourcePort env mask then
    mask.clear [.misc .sourcePort, .misc .sourceEswitchOwnerVhcaId]
  else
    mask

def outerBits : BitVec 8 := criteriaOuter ||| criteriaMisc ||| criteriaMisc2 ||| criteriaMisc3

def innerBits : BitVec 8 := criteriaInner ||| criteriaMisc ||| criteriaMisc2 ||| criteriaMisc3

def MatcherMask.outerBlock (env : BuildEnv) (outerIpv : RuleIpv)
    (building : Building) : Building :=
  if criteriaHas matcher.matchCriteria outerBits then buildOuter env outerIpv building
  else building

def MatcherMask.innerBlock (env : BuildEnv) (innerIpv : RuleIpv)
    (building : Building) : Building :=
  if criteriaHas matcher.matchCriteria innerBits then buildInner env innerIpv building
  else building

def MatcherMask.flexBlock (env : BuildEnv) (building : Building) : Building :=
  if criteriaHas matcher.matchCriteria criteriaMisc4 then buildFlexParsers env building
  else building

def MatcherMask.build (env : BuildEnv) (outerIpv innerIpv : RuleIpv) : Building :=
  let building : Building := { sb := [], mask := matcher.start env }
  let building := matcher.outerBlock env outerIpv building
  let building := matcher.innerBlock env innerIpv building
  matcher.flexBlock env building

def MatcherMask.steBuilders (env : BuildEnv)
    (outerIpv innerIpv : RuleIpv) : List SteBuild :=
  let building := matcher.build env outerIpv innerIpv
  let allowEmptyMatch := dropsSourcePort env (copyMask matcher.mask matcher.matchCriteria)
  if (building.sb = [] ∧ allowEmptyMatch) ∨ matcher.matchCriteria = 0 then
    building.sb ++ [steBuildEmptyAlwaysHit env.rx (env.found building.idx)]
  else
    building.sb

inductive BuildRet where
  | ok
  | einval
  | eopnotsupp

/-- The return value and the builders written, also on failure. Large definers are disabled:
`dr_matcher_set_large_ste_builders` always declines. -/
def setSteBuilders (env : BuildEnv) (outerIpv innerIpv : RuleIpv) :
    BuildRet × List SteBuild :=
  if steBuildPreCheck matcher.matchCriteria matcher.mask then
    let sb := matcher.steBuilders env outerIpv innerIpv
    if sb = [] then (.einval, sb)
    else if (matcher.build env outerIpv innerIpv).mask.isConsumed then (.ok, sb)
    else (.eopnotsupp, sb)
  else
    (.einval, [])

end MlnxOfed.Steering
