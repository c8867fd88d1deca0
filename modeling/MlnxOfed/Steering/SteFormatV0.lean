/-
The builders in the v0 format (dr_ste_v0.c): their lookup types, and the fields of their bit masks with
their places in mlx5_ifc_dr.h.
-/

import MlnxOfed.Steering.SteBuilders

namespace MlnxOfed.Steering

/-- `MLX5_SET`: a field of the given width, its place counted from the first bit on. -/
def setTagField (bits : BitVec 128) (offset width value : Nat) : BitVec 128 :=
  let place := 128 - offset - width
  (bits &&& ~~~(BitVec.ofNat 128 (2 ^ width - 1) <<< place)) |||
    (BitVec.ofNat 128 (value % 2 ^ width) <<< place)

/-- A field of a tag and the field of the mask that it is set from. -/
structure TagField where
  offset : Nat
  width : Nat
  source : MaskField

def setTag (mask : MatchParam) (bits : BitVec 128) (tag : TagField) : BitVec 128 :=
  if mask tag.source ≠ 0 then setTagField bits tag.offset tag.width (mask tag.source) else bits

def setOnes (mask : MatchParam) (bits : BitVec 128) (tag : TagField) : BitVec 128 :=
  if mask tag.source ≠ 0 then setTagField bits tag.offset tag.width (2 ^ tag.width - 1) else bits

def setQualifier (mask : MatchParam) (offset : Nat) (cvlan svlan : MaskField)
    (bits : BitVec 128) : BitVec 128 :=
  if mask cvlan ≠ 0 ∨ mask svlan ≠ 0 then setTagField bits offset 2 3 else bits

def setParser (parserId value : Nat) (bits : BitVec 128) : BitVec 128 :=
  setTagField bits (32 * (3 - parserId % 4)) 32 value

def specTag (inner : Bool) (offset width : Nat) (field : SpecField) : TagField :=
  ⟨offset, width, specField inner field⟩

def miscTag (offset width : Nat) (field : MiscField) : TagField := ⟨offset, width, .misc field⟩

def misc2Tag (offset width : Nat) (field : Misc2Field) : TagField := ⟨offset, width, .misc2 field⟩

def misc3Tag (offset width : Nat) (field : Misc3Field) : TagField := ⟨offset, width, .misc3 field⟩

/-- The fields of a builder that are set by `DR_STE_SET_TAG`, in order. -/
def tagFieldsV0 (inner : Bool) : BuilderKind → List TagField
  | .generalPurpose => [misc2Tag 0 32 .metadataRegA]
  | .register0 =>
    [misc2Tag 0 32 .metadataRegC0, misc2Tag 32 32 .metadataRegC1, misc2Tag 64 32 .metadataRegC2,
      misc2Tag 96 32 .metadataRegC3]
  | .register1 =>
    [misc2Tag 0 32 .metadataRegC4, misc2Tag 32 32 .metadataRegC5, misc2Tag 64 32 .metadataRegC6,
      misc2Tag 96 32 .metadataRegC7]
  | .ethL2SrcDst =>
    [specTag inner 0 32 .dmac47_16, specTag inner 0x20 16 .dmac15_0,
      specTag inner 0x74 12 .firstVid, specTag inner 0x6f 1 .firstCfi,
      specTag inner 0x6c 3 .firstPrio]
  | .ethL2Src =>
    [specTag inner 0 32 .smac47_16, specTag inner 0x20 16 .smac15_0] ++ ethL2SrcOrDst
  | .ethL2Dst =>
    [specTag inner 0 32 .dmac47_16, specTag inner 0x20 16 .dmac15_0] ++ ethL2SrcOrDst
  | .ethL2Tnl =>
    [specTag inner 0 32 .dmac47_16, specTag inner 0x20 16 .dmac15_0,
      specTag inner 0x74 12 .firstVid, specTag inner 0x6b 1 .firstCfi,
      specTag inner 0x68 3 .firstPrio, specTag inner 0x60 1 .frag,
      specTag inner 0x30 16 .ethertype]
  | .ethL3Ipv6Dst =>
    [specTag inner 0 32 .dstIp127_96, specTag inner 32 32 .dstIp95_64,
      specTag inner 64 32 .dstIp63_32, specTag inner 96 32 .dstIp31_0]
  | .ethL3Ipv6Src =>
    [specTag inner 0 32 .srcIp127_96, specTag inner 32 32 .srcIp95_64,
      specTag inner 64 32 .srcIp63_32, specTag inner 96 32 .srcIp31_0]
  | .ethIpv6L3L4 =>
    [specTag inner 0x10 16 .tcpDport, specTag inner 0x30 16 .tcpSport,
      specTag inner 0x10 16 .udpDport, specTag inner 0x30 16 .udpSport,
      specTag inner 0x08 8 .ipProtocol, specTag inner 0x00 1 .frag,
      specTag inner 0x58 6 .ipDscp, specTag inner 0x25 2 .ipEcn,
      specTag inner 0x50 8 .ttlHoplimit, miscTag 0x6c 20 (ipv6FlowLabel inner),
      specTag inner 0x27 9 .tcpFlags]
  | .ethL3Ipv4_5Tuple =>
    [specTag inner 0x00 32 .dstIp31_0, specTag inner 0x20 32 .srcIp31_0,
      specTag inner 0x50 16 .tcpDport, specTag inner 0x50 16 .udpDport,
      specTag inner 0x40 16 .tcpSport, specTag inner 0x40 16 .udpSport,
      specTag inner 0x78 8 .ipProtocol, specTag inner 0x60 1 .frag,
      specTag inner 0x70 6 .ipDscp, specTag inner 0x65 2 .ipEcn, specTag inner 0x67 9 .tcpFlags]
  | .ethL3Ipv4Misc => [specTag inner 0x40 8 .ttlHoplimit]
  | .tnlVxlanGpe =>
    [misc3Tag 0x00 8 .outerVxlanGpeFlags, misc3Tag 0x18 8 .outerVxlanGpeNextProtocol,
      misc3Tag 0x20 24 .outerVxlanGpeVni]
  | .tnlGeneve =>
    [miscTag 0x10 16 .geneveProtocolType, miscTag 0x08 1 .geneveOam, miscTag 0x02 6 .geneveOptLen,
      miscTag 0x20 24 .geneveVni]
  | .ethL4Misc =>
    if inner then [misc3Tag 0x20 32 .innerTcpSeqNum, misc3Tag 0x40 32 .innerTcpAckNum]
    else [misc3Tag 0x20 32 .outerTcpSeqNum, misc3Tag 0x40 32 .outerTcpAckNum]
  | .mpls =>
    if inner then
      [misc2Tag 0x00 20 .innerFirstMplsLabel, misc2Tag 0x17 1 .innerFirstMplsSBos,
        misc2Tag 0x14 3 .innerFirstMplsExp, misc2Tag 0x18 8 .innerFirstMplsTtl]
    else
      [misc2Tag 0x00 20 .outerFirstMplsLabel, misc2Tag 0x17 1 .outerFirstMplsSBos,
        misc2Tag 0x14 3 .outerFirstMplsExp, misc2Tag 0x18 8 .outerFirstMplsTtl]
  | .tnlGre =>
    [miscTag 0x10 16 .greProtocol, miscTag 0x02 1 .greKPresent, miscTag 0x40 24 .greKeyH,
      miscTag 0x58 8 .greKeyL, miscTag 0x00 1 .greCPresent, miscTag 0x03 1 .greSPresent]
  | .srcGvmiQpn | .tnlGeneveTlvOption | .tnlMplsOverGre | .tnlMplsOverUdp | .icmp
  | .flexParser0 | .flexParser1 | .emptyAlwaysHit => []
where
  ethL2SrcOrDst : List TagField :=
    [specTag inner 0x54 12 .firstVid, specTag inner 0x4f 1 .firstCfi,
      specTag inner 0x4c 3 .firstPrio, specTag inner 0x60 1 .frag,
      specTag inner 0x30 16 .ethertype] ++
    if inner then
      [miscTag 0x74 12 .innerSecondVid, miscTag 0x6f 1 .innerSecondCfi, miscTag 0x6c 3 .innerSecondPrio]
    else
      [miscTag 0x74 12 .outerSecondVid, miscTag 0x6f 1 .outerSecondCfi, miscTag 0x6c 3 .outerSecondPrio]

def mplsHdr (label exp sBos ttl : Nat) : Nat :=
  label <<< 12 ||| exp <<< 9 ||| sBos <<< 8 ||| ttl

/-- The samples, each in its own parser, as `dr_ste_set_flex_parser` writes them. -/
def flexParserBits : List (Misc4Field × Misc4Field) → List Nat → MatchParam → BitVec 128 → BitVec 128
  | [], _, _, bits => bits
  | (id, value) :: samples, used, mask, bits =>
    if mask.misc4 id ∈ used then
      flexParserBits samples used mask bits
    else
      flexParserBits samples (mask.misc4 id :: used) mask (setParser (mask.misc4 id) (mask.misc4 value) bits)

/-- What a builder sets otherwise. -/
def otherBitsV0 (inner : Bool) (caps : BuilderCaps) (mask : MatchParam) (bits : BitVec 128) :
    BuilderKind → BitVec 128
  | .srcGvmiQpn =>
    setOnes mask (setOnes mask bits (miscTag 0x10 16 .sourcePort)) (miscTag 0x28 24 .sourceSqn)
  | .ethL2SrcDst =>
    let smac47_16 := mask.spec inner .smac47_16
    let smac15_0 := mask.spec inner .smac15_0
    let bits :=
      if smac47_16 ≠ 0 ∨ smac15_0 ≠ 0 then
        setTagField (setTagField bits 0x30 16 (smac47_16 >>> 16)) 0x40 32 (smac47_16 <<< 16 ||| smac15_0)
      else bits
    setQualifier mask 0x70 (specField inner .cvlanTag) (specField inner .svlanTag)
      (setOnes mask bits (specTag inner 0x64 2 .ipVersion))
  | .ethL2Src | .ethL2Dst =>
    let bits := setQualifier mask 0x50 (specField inner .cvlanTag) (specField inner .svlanTag)
      (setOnes mask bits (specTag inner 0x64 2 .ipVersion))
    if inner then
      setQualifier mask 0x70 (.misc .innerSecondCvlanTag) (.misc .innerSecondSvlanTag) bits
    else
      setQualifier mask 0x70 (.misc .outerSecondCvlanTag) (.misc .outerSecondSvlanTag) bits
  | .ethL2Tnl =>
    let bits := setOnes mask bits (specTag inner 0x64 2 .ipVersion)
    let bits :=
      if mask.misc .vxlanVni ≠ 0 then setTagField bits 0x40 32 (mask.misc .vxlanVni <<< 8)
      else bits
    setQualifier mask 0x70 (specField inner .cvlanTag) (specField inner .svlanTag) bits
  | .tnlGeneveTlvOption =>
    setParser caps.flexParserIdGeneveTlvOption0 (mask.misc3 .geneveTlvOption0Data) bits
  | .tnlMplsOverGre =>
    setParser caps.flexParserIdMplsOverGre
      (mplsHdr (mask.misc2 .outerFirstMplsOverGreLabel) (mask.misc2 .outerFirstMplsOverGreExp)
        (mask.misc2 .outerFirstMplsOverGreSBos) (mask.misc2 .outerFirstMplsOverGreTtl)) bits
  | .tnlMplsOverUdp =>
    setParser caps.flexParserIdMplsOverUdp
      (mplsHdr (mask.misc2 .outerFirstMplsOverUdpLabel) (mask.misc2 .outerFirstMplsOverUdpExp)
        (mask.misc2 .outerFirstMplsOverUdpSBos) (mask.misc2 .outerFirstMplsOverUdpTtl)) bits
  | .icmp =>
    if maskIsIcmpv4Set mask.misc3 then
      setParser caps.flexParserIdIcmpDw1 (mask.misc3 .icmpv4HeaderData) (setParser caps.flexParserIdIcmpDw0
          (mask.misc3 .icmpv4Type <<< 24 ||| mask.misc3 .icmpv4Code <<< 16) bits)
    else
      setParser caps.flexParserIdIcmpv6Dw1 (mask.misc3 .icmpv6HeaderData) (setParser caps.flexParserIdIcmpv6Dw0
          (mask.misc3 .icmpv6Type <<< 24 ||| mask.misc3 .icmpv6Code <<< 16) bits)
  | .flexParser0 | .flexParser1 => flexParserBits progSamples [] mask bits
  | _ => bits

def luTypeFlexParser0 : BitVec 16 := 0x22

def luTypeFlexParser1 : BitVec 16 := 0x23

def luTypeFlexParser (parserId : Nat) : BitVec 16 :=
  if parserId > 3 then luTypeFlexParser1 else luTypeFlexParser0

def calcLuType (rx inner : Bool) (typeO typeI typeD : BitVec 16) : BitVec 16 :=
  if inner then typeI else if rx then typeD else typeO

def luTypeV0 (kind : BuilderKind) (rx inner : Bool) (caps : BuilderCaps) (mask : MatchParam) : BitVec 16 :=
  match kind with
  | .generalPurpose => 0x18
  | .register0 => 0x2f
  | .register1 => 0x30
  | .srcGvmiQpn => 0x05
  | .ethL2SrcDst => calcLuType rx inner 0x36 0x37 0x38
  | .ethL2Src => calcLuType rx inner 0x08 0x09 0x1c
  | .ethL2Dst => calcLuType rx inner 0x06 0x07 0x1b
  | .ethL2Tnl => 0x0a
  | .ethL3Ipv6Dst => calcLuType rx inner 0x0d 0x0e 0x1e
  | .ethL3Ipv6Src => calcLuType rx inner 0x0f 0x10 0x1f
  | .ethIpv6L3L4 => calcLuType rx inner 0x13 0x14 0x21
  | .ethL3Ipv4_5Tuple => calcLuType rx inner 0x11 0x12 0x20
  | .ethL3Ipv4Misc => calcLuType rx inner 0x29 0x2a 0x2b
  | .tnlVxlanGpe | .tnlGeneve => 0x19
  | .tnlGeneveTlvOption => luTypeFlexParser caps.flexParserIdGeneveTlvOption0
  | .ethL4Misc => calcLuType rx inner 0x2c 0x2d 0x2e
  | .mpls => calcLuType rx inner 0x15 0x24 0x25
  | .tnlMplsOverGre => luTypeFlexParser caps.flexParserIdMplsOverGre
  | .tnlMplsOverUdp => luTypeFlexParser caps.flexParserIdMplsOverUdp
  | .icmp =>
    -- The version is looked up again after the builder has taken the fields out of the mask.
    if maskIsIcmpv4Set (BuilderKind.icmp.consume inner mask).misc3 then
      luTypeFlexParser caps.flexParserIdIcmpDw0
    else
      luTypeFlexParser caps.flexParserIdIcmpv6Dw0
  | .tnlGre => 0x16
  | .flexParser0 => luTypeFlexParser0
  | .flexParser1 => luTypeFlexParser1
  | .emptyAlwaysHit => luTypeDontCare

def steFormatV0 : BuilderFormat where
  luType := luTypeV0
  bitMask := fun kind inner caps mask found =>
    otherBitsV0 inner caps mask ((tagFieldsV0 inner kind).foldl (setTag mask) found) kind

end MlnxOfed.Steering
