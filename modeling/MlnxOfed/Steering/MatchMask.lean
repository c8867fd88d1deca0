/-
Match masks of software steering (dr_types.h, dr_matcher.c, dr_ste_v0.c, dr_ste_v1.c): the fields of `struct
mlx5dr_match_param`, the tests that decide which builder a mask needs, and the fields each builder takes,
the same in both formats.
-/

import MlnxOfed.Steering.Matcher

namespace MlnxOfed.Steering

/-- `struct mlx5dr_match_spec`. -/
inductive SpecField where
  | smac47_16 | smac15_0 | ethertype | dmac47_16 | dmac15_0 | firstPrio | firstCfi | firstVid
  | ipProtocol | ipDscp | ipEcn | cvlanTag | svlanTag | frag | ipVersion | tcpFlags
  | tcpSport | tcpDport | reservedAuto1 | l3Ok | l4Ok | ipv4ChecksumOk | l4ChecksumOk
  | ttlHoplimit | udpSport | udpDport | srcIp127_96 | srcIp95_64 | srcIp63_32 | srcIp31_0
  | dstIp127_96 | dstIp95_64 | dstIp63_32 | dstIp31_0
  deriving DecidableEq

/-- `struct mlx5dr_match_misc`. -/
inductive MiscField where
  | greCPresent | reservedAuto1 | greKPresent | greSPresent | sourceVhcaPort | sourceSqn
  | sourceEswitchOwnerVhcaId | sourcePort | outerSecondPrio | outerSecondCfi | outerSecondVid
  | innerSecondPrio | innerSecondCfi | innerSecondVid | outerSecondCvlanTag
  | innerSecondCvlanTag | outerSecondSvlanTag | innerSecondSvlanTag | reservedAuto2
  | greProtocol | greKeyH | greKeyL | vxlanVni | reservedAuto3 | geneveVni | reservedAuto4
  | geneveOam | reservedAuto5 | outerIpv6FlowLabel | reservedAuto6 | innerIpv6FlowLabel
  | reservedAuto7 | geneveOptLen | geneveProtocolType | reservedAuto8 | bthDstQp | innerEspSpi
  | outerEspSpi | reservedAuto9 | outerEmdTagData0 | outerEmdTagData1 | outerEmdTagData2
  | outerEmdTagData3 | outerEmdTagData4 | outerEmdTagData5 | reservedAuto10
  deriving DecidableEq

/-- `struct mlx5dr_match_misc2`. -/
inductive Misc2Field where
  | outerFirstMplsLabel | outerFirstMplsExp | outerFirstMplsSBos | outerFirstMplsTtl
  | innerFirstMplsLabel | innerFirstMplsExp | innerFirstMplsSBos | innerFirstMplsTtl
  | outerFirstMplsOverGreLabel | outerFirstMplsOverGreExp | outerFirstMplsOverGreSBos
  | outerFirstMplsOverGreTtl | outerFirstMplsOverUdpLabel | outerFirstMplsOverUdpExp
  | outerFirstMplsOverUdpSBos | outerFirstMplsOverUdpTtl | metadataRegC7 | metadataRegC6
  | metadataRegC5 | metadataRegC4 | metadataRegC3 | metadataRegC2 | metadataRegC1
  | metadataRegC0 | metadataRegA | pspSyndrome | reservedAuto1 | ipsecSyndrome
  | ipsecNextHeader | reservedAuto2 | reservedAuto3
  deriving DecidableEq

/-- `struct mlx5dr_match_misc3`. -/
inductive Misc3Field where
  | innerTcpSeqNum | outerTcpSeqNum | innerTcpAckNum | outerTcpAckNum | reservedAuto1
  | outerVxlanGpeVni | outerVxlanGpeNextProtocol | outerVxlanGpeFlags | reservedAuto2
  | icmpv4HeaderData | icmpv6HeaderData | icmpv4Type | icmpv4Code | icmpv6Type | icmpv6Code
  | geneveTlvOption0Data | reservedAuto3 | reservedAuto4 | reservedAuto5 | reservedAuto6
  | reservedAuto7 | reservedAuto8
  deriving DecidableEq

/-- `struct mlx5dr_match_misc4`. -/
inductive Misc4Field where
  | progSampleFieldValue0 | progSampleFieldId0 | progSampleFieldValue1 | progSampleFieldId1
  | progSampleFieldValue2 | progSampleFieldId2 | progSampleFieldValue3 | progSampleFieldId3
  | reservedAuto1 | reservedAuto2 | reservedAuto3 | reservedAuto4 | reservedAuto5
  | reservedAuto6 | reservedAuto7 | reservedAuto8
  deriving DecidableEq

/-- `struct mlx5dr_match_param`. -/
inductive MaskField where
  | outer (field : SpecField)
  | misc (field : MiscField)
  | inner (field : SpecField)
  | misc2 (field : Misc2Field)
  | misc3 (field : Misc3Field)
  | misc4 (field : Misc4Field)
  deriving DecidableEq

def SpecField.all : List SpecField :=
    [.smac47_16, .smac15_0, .ethertype, .dmac47_16, .dmac15_0, .firstPrio, .firstCfi, .firstVid,
     .ipProtocol, .ipDscp, .ipEcn, .cvlanTag, .svlanTag, .frag, .ipVersion, .tcpFlags, .tcpSport,
     .tcpDport, .reservedAuto1, .l3Ok, .l4Ok, .ipv4ChecksumOk, .l4ChecksumOk, .ttlHoplimit,
     .udpSport, .udpDport, .srcIp127_96, .srcIp95_64, .srcIp63_32, .srcIp31_0, .dstIp127_96,
     .dstIp95_64, .dstIp63_32, .dstIp31_0]

def MiscField.all : List MiscField :=
    [.greCPresent, .reservedAuto1, .greKPresent, .greSPresent, .sourceVhcaPort, .sourceSqn,
     .sourceEswitchOwnerVhcaId, .sourcePort, .outerSecondPrio, .outerSecondCfi, .outerSecondVid,
     .innerSecondPrio, .innerSecondCfi, .innerSecondVid, .outerSecondCvlanTag,
     .innerSecondCvlanTag, .outerSecondSvlanTag, .innerSecondSvlanTag, .reservedAuto2,
     .greProtocol, .greKeyH, .greKeyL, .vxlanVni, .reservedAuto3, .geneveVni, .reservedAuto4,
     .geneveOam, .reservedAuto5, .outerIpv6FlowLabel, .reservedAuto6, .innerIpv6FlowLabel,
     .reservedAuto7, .geneveOptLen, .geneveProtocolType, .reservedAuto8, .bthDstQp, .innerEspSpi,
     .outerEspSpi, .reservedAuto9, .outerEmdTagData0, .outerEmdTagData1, .outerEmdTagData2,
     .outerEmdTagData3, .outerEmdTagData4, .outerEmdTagData5, .reservedAuto10]

def Misc2Field.all : List Misc2Field :=
    [.outerFirstMplsLabel, .outerFirstMplsExp, .outerFirstMplsSBos, .outerFirstMplsTtl,
     .innerFirstMplsLabel, .innerFirstMplsExp, .innerFirstMplsSBos, .innerFirstMplsTtl,
     .outerFirstMplsOverGreLabel, .outerFirstMplsOverGreExp, .outerFirstMplsOverGreSBos,
     .outerFirstMplsOverGreTtl, .outerFirstMplsOverUdpLabel, .outerFirstMplsOverUdpExp,
     .outerFirstMplsOverUdpSBos, .outerFirstMplsOverUdpTtl, .metadataRegC7, .metadataRegC6,
     .metadataRegC5, .metadataRegC4, .metadataRegC3, .metadataRegC2, .metadataRegC1,
     .metadataRegC0, .metadataRegA, .pspSyndrome, .reservedAuto1, .ipsecSyndrome,
     .ipsecNextHeader, .reservedAuto2, .reservedAuto3]

def Misc3Field.all : List Misc3Field :=
    [.innerTcpSeqNum, .outerTcpSeqNum, .innerTcpAckNum, .outerTcpAckNum, .reservedAuto1,
     .outerVxlanGpeVni, .outerVxlanGpeNextProtocol, .outerVxlanGpeFlags, .reservedAuto2,
     .icmpv4HeaderData, .icmpv6HeaderData, .icmpv4Type, .icmpv4Code, .icmpv6Type, .icmpv6Code,
     .geneveTlvOption0Data, .reservedAuto3, .reservedAuto4, .reservedAuto5, .reservedAuto6,
     .reservedAuto7, .reservedAuto8]

def Misc4Field.all : List Misc4Field :=
    [.progSampleFieldValue0, .progSampleFieldId0, .progSampleFieldValue1, .progSampleFieldId1,
     .progSampleFieldValue2, .progSampleFieldId2, .progSampleFieldValue3, .progSampleFieldId3,
     .reservedAuto1, .reservedAuto2, .reservedAuto3, .reservedAuto4, .reservedAuto5,
     .reservedAuto6, .reservedAuto7, .reservedAuto8]

def MaskField.all : List MaskField :=
  SpecField.all.map .outer ++ MiscField.all.map .misc ++ SpecField.all.map .inner ++
    Misc2Field.all.map .misc2 ++ Misc3Field.all.map .misc3 ++ Misc4Field.all.map .misc4

theorem SpecField.mem_all (field) : field ∈ SpecField.all := by
  cases field <;> decide

theorem Misc4Field.mem_all (field) : field ∈ Misc4Field.all := by
  cases field <;> decide

abbrev MatchParam := MaskField → Nat

variable (mask : MatchParam)

def MatchParam.clear (fields : List MaskField) : MatchParam := fun field =>
  if field ∈ fields then 0 else mask field

/-- `dr_matcher_is_mask_consumed`. -/
def MatchParam.isConsumed : Bool :=
  MaskField.all.all fun field => mask field == 0

/-- A header's field as a builder finds it: `sb->inner ? &mask->inner : &mask->outer`. -/
def specField (inner : Bool) (field : SpecField) : MaskField :=
  if inner then .inner field else .outer field

def MatchParam.spec (inner : Bool) (field : SpecField) : Nat :=
  mask (specField inner field)

def specFields (inner : Bool) (fields : List SpecField) : List MaskField :=
  fields.map (specField inner)

def MatchParam.misc (mask : MatchParam) (field : MiscField) : Nat := mask (.misc field)

def MatchParam.misc2 (mask : MatchParam) (field : Misc2Field) : Nat := mask (.misc2 field)

def MatchParam.misc3 (mask : MatchParam) (field : Misc3Field) : Nat := mask (.misc3 field)

def MatchParam.misc4 (mask : MatchParam) (field : Misc4Field) : Nat := mask (.misc4 field)

def anySet {α : Type} (read : α → Nat) (fields : List α) : Bool :=
  fields.any fun field => read field != 0

def smacFields : List SpecField := [.smac47_16, .smac15_0]

def dmacFields : List SpecField := [.dmac47_16, .dmac15_0]

def srcAddrFields : List SpecField := [.srcIp127_96, .srcIp95_64, .srcIp63_32, .srcIp31_0]

def dstAddrFields : List SpecField := [.dstIp127_96, .dstIp95_64, .dstIp63_32, .dstIp31_0]

def tcpUdpFields : List SpecField := [.tcpSport, .tcpDport, .udpSport, .udpDport]

def firstVlanFields : List SpecField := [.firstVid, .firstCfi, .firstPrio]

def secondVlanFields (inner : Bool) : List MiscField :=
  if inner then
    [.innerSecondVid, .innerSecondCfi, .innerSecondPrio, .innerSecondCvlanTag, .innerSecondSvlanTag]
  else
    [.outerSecondVid, .outerSecondCfi, .outerSecondPrio, .outerSecondCvlanTag, .outerSecondSvlanTag]

def ipv6FlowLabel (inner : Bool) : MiscField :=
  if inner then .innerIpv6FlowLabel else .outerIpv6FlowLabel

def ethL4MiscFields (inner : Bool) : List Misc3Field :=
  if inner then [.innerTcpSeqNum, .innerTcpAckNum] else [.outerTcpSeqNum, .outerTcpAckNum]

def firstMplsFields (inner : Bool) : List Misc2Field :=
  if inner then
    [.innerFirstMplsLabel, .innerFirstMplsExp, .innerFirstMplsSBos, .innerFirstMplsTtl]
  else
    [.outerFirstMplsLabel, .outerFirstMplsExp, .outerFirstMplsSBos, .outerFirstMplsTtl]

def greFields : List MiscField :=
  [.greKeyH, .greKeyL, .greProtocol, .greCPresent, .greKPresent, .greSPresent]

def mplsOverGreFields : List Misc2Field :=
  [.outerFirstMplsOverGreLabel, .outerFirstMplsOverGreExp, .outerFirstMplsOverGreSBos,
    .outerFirstMplsOverGreTtl]

def mplsOverUdpFields : List Misc2Field :=
  [.outerFirstMplsOverUdpLabel, .outerFirstMplsOverUdpExp, .outerFirstMplsOverUdpSBos,
    .outerFirstMplsOverUdpTtl]

def vxlanGpeFields : List Misc3Field :=
  [.outerVxlanGpeVni, .outerVxlanGpeNextProtocol, .outerVxlanGpeFlags]

def geneveFields : List MiscField := [.geneveVni, .geneveOam, .geneveProtocolType, .geneveOptLen]

def icmpv4Fields : List Misc3Field := [.icmpv4Type, .icmpv4Code, .icmpv4HeaderData]

def icmpv6Fields : List Misc3Field := [.icmpv6Type, .icmpv6Code, .icmpv6HeaderData]

def regC03Fields : List Misc2Field :=
  [.metadataRegC0, .metadataRegC1, .metadataRegC2, .metadataRegC3]

def regC47Fields : List Misc2Field :=
  [.metadataRegC4, .metadataRegC5, .metadataRegC6, .metadataRegC7]

variable (spec : SpecField → Nat)

def maskIsSmacSet : Bool := anySet spec smacFields

def maskIsDmacSet : Bool := anySet spec dmacFields

def maskIsSrcAddrSet : Bool := anySet spec srcAddrFields

def maskIsDstAddrSet : Bool := anySet spec dstAddrFields

def maskIsIpv6OnlyMatchSet : Bool :=
  anySet spec [.srcIp127_96, .srcIp95_64, .srcIp63_32, .dstIp127_96, .dstIp95_64, .dstIp63_32]

def maskIsL3BaseSet : Bool :=
  anySet spec [.ipProtocol, .frag, .tcpFlags, .ipEcn, .ipDscp]

def maskIsTcpUdpBaseSet : Bool := anySet spec tcpUdpFields

def maskIsIpv4Set : Bool := anySet spec [.dstIp31_0, .srcIp31_0]

def maskIsIpv4_5TupleSet : Bool :=
  maskIsL3BaseSet spec || maskIsTcpUdpBaseSet spec || maskIsIpv4Set spec

def maskIsEthL2TnlSet (misc : MiscField → Nat) : Bool := misc .vxlanVni != 0

def maskIsTtlSet : Bool := spec .ttlHoplimit != 0

def maskIsL2Dst (misc : MiscField → Nat) (inner : Bool) : Bool :=
  anySet spec firstVlanFields || anySet spec [.cvlanTag, .svlanTag] || anySet spec dmacFields ||
    anySet spec [.ethertype, .ipVersion] || anySet misc (secondVlanFields inner)

def maskIsEthL4Set (misc : MiscField → Nat) (inner : Bool) : Bool :=
  maskIsL3BaseSet spec || maskIsTcpUdpBaseSet spec || maskIsTtlSet spec ||
    misc (ipv6FlowLabel inner) != 0

def maskIsEthL4MiscSet (misc3 : Misc3Field → Nat) (inner : Bool) : Bool :=
  anySet misc3 (ethL4MiscFields inner)

def maskIsFirstMplsSet (misc2 : Misc2Field → Nat) (inner : Bool) : Bool :=
  anySet misc2 (firstMplsFields inner)

def maskIsTnlGreSet (misc : MiscField → Nat) : Bool := anySet misc greFields

def maskIsOuterMplsOverGreSet (misc2 : Misc2Field → Nat) : Bool := anySet misc2 mplsOverGreFields

def maskIsOuterMplsOverUdpSet (misc2 : Misc2Field → Nat) : Bool := anySet misc2 mplsOverUdpFields

def maskIsVxlanGpeSet (misc3 : Misc3Field → Nat) : Bool := anySet misc3 vxlanGpeFields

def maskIsTnlGeneveSet (misc : MiscField → Nat) : Bool := anySet misc geneveFields

def maskIsTnlGeneveTlvOption (misc3 : Misc3Field → Nat) : Bool := misc3 .geneveTlvOption0Data != 0

def maskIsIcmpv4Set (misc3 : Misc3Field → Nat) : Bool := anySet misc3 icmpv4Fields

def maskIsIcmpv6Set (misc3 : Misc3Field → Nat) : Bool := anySet misc3 icmpv6Fields

def maskIsWqeMetadataSet (misc2 : Misc2Field → Nat) : Bool := misc2 .metadataRegA != 0

def maskIsRegC03Set (misc2 : Misc2Field → Nat) : Bool := anySet misc2 regC03Fields

def maskIsRegC47Set (misc2 : Misc2Field → Nat) : Bool := anySet misc2 regC47Fields

def maskIsGvmiOrQpnSet (misc : MiscField → Nat) : Bool := anySet misc [.sourceSqn, .sourcePort]

/-- `struct mlx5dr_cmd_caps`, as far as the builders read it. -/
structure BuilderCaps where
  swFormatVer : Nat
  flexProtocols : BitVec 32
  flexParserIdIcmpDw0 : Nat
  flexParserIdIcmpDw1 : Nat
  flexParserIdIcmpv6Dw0 : Nat
  flexParserIdIcmpv6Dw1 : Nat
  flexParserIdMplsOverGre : Nat
  flexParserIdMplsOverUdp : Nat
  flexParserIdGeneveTlvOption0 : Nat

def hwConnectx6dx : Nat := 1

variable (caps : BuilderCaps)

def BuilderCaps.suppVxlanGpe : Bool :=
  caps.swFormatVer == hwConnectx6dx || caps.flexProtocols.getLsbD 7

def BuilderCaps.suppTnlGeneve : Bool :=
  caps.swFormatVer == hwConnectx6dx || caps.flexProtocols.getLsbD 3

def BuilderCaps.suppIcmpV4 : Bool :=
  caps.swFormatVer == hwConnectx6dx || caps.flexProtocols.getLsbD 8

def BuilderCaps.suppIcmpV6 : Bool :=
  caps.swFormatVer == hwConnectx6dx || caps.flexProtocols.getLsbD 9

def BuilderCaps.suppTnlMplsOverGre : Bool := caps.flexProtocols.getLsbD 4

def BuilderCaps.suppTnlMplsOverUdp : Bool := caps.flexProtocols.getLsbD 5

def maskIsTnlVxlanGpe : Bool :=
  maskIsVxlanGpeSet mask.misc3 && caps.suppVxlanGpe

def maskIsTnlGeneve : Bool :=
  maskIsTnlGeneveSet mask.misc && caps.suppTnlGeneve

def maskIsIcmp : Bool :=
  if maskIsIcmpv4Set mask.misc3 then caps.suppIcmpV4
  else if maskIsIcmpv6Set mask.misc3 then caps.suppIcmpV6
  else false

def maskIsTnlMplsOverGre : Bool :=
  maskIsOuterMplsOverGreSet mask.misc2 && caps.suppTnlMplsOverGre

def maskIsTnlMplsOverUdp : Bool :=
  maskIsOuterMplsOverUdpSet mask.misc2 && caps.suppTnlMplsOverUdp

/-- The samples of `struct mlx5dr_match_misc4`: the fields of the parser's id and the value. -/
def progSamples : List (Misc4Field × Misc4Field) :=
  [(.progSampleFieldId0, .progSampleFieldValue0), (.progSampleFieldId1, .progSampleFieldValue1),
    (.progSampleFieldId2, .progSampleFieldValue2), (.progSampleFieldId3, .progSampleFieldValue3)]

def maskIsFlexParserId03Set (flexParserId flexParserValue : Nat) : Bool :=
  if flexParserId ≠ 0 then decide (flexParserId < 4) else flexParserValue != 0

def maskIsFlexParser03Set (misc4 : Misc4Field → Nat) : Bool :=
  progSamples.any fun (id, value) => maskIsFlexParserId03Set (misc4 id) (misc4 value)

def maskIsFlexParserId47Set (flexParserId : Nat) : Bool :=
  decide (4 ≤ flexParserId ∧ flexParserId < 8)

def maskIsFlexParser47Set (misc4 : Misc4Field → Nat) : Bool :=
  progSamples.any fun (id, _) => maskIsFlexParserId47Set (misc4 id)

/-- `dr_ste_set_flex_parser` for the samples in turn. `used` are the parsers marked in `parser_is_used`,
whose samples stay in the mask. -/
def setFlexParsers : List (Misc4Field × Misc4Field) → List Nat → MatchParam → MatchParam
  | [], _, mask => mask
  | (id, value) :: samples, used, mask =>
    if mask.misc4 id ∈ used then
      setFlexParsers samples used mask
    else
      setFlexParsers samples (mask.misc4 id :: used) (mask.clear [.misc4 id, .misc4 value])

inductive BuilderKind where
  | generalPurpose
  | register0
  | register1
  | srcGvmiQpn
  | ethL2SrcDst
  | ethL2Src
  | ethL2Dst
  | ethL2Tnl
  | ethL3Ipv6Dst
  | ethL3Ipv6Src
  | ethIpv6L3L4
  | ethL3Ipv4_5Tuple
  | ethL3Ipv4Misc
  | tnlVxlanGpe
  | tnlGeneve
  | tnlGeneveTlvOption
  | ethL4Misc
  | mpls
  | tnlMplsOverGre
  | tnlMplsOverUdp
  | icmp
  | tnlGre
  | flexParser0
  | flexParser1
  | emptyAlwaysHit
  deriving DecidableEq

/-- The fields taken out by `build_eth_l2_src_or_dst_bit_mask`, for either address. -/
def ethL2SrcOrDstFields (inner : Bool) : List MaskField :=
  specFields inner (firstVlanFields ++ [.frag, .ethertype, .ipVersion, .cvlanTag, .svlanTag]) ++
    (secondVlanFields inner).map MaskField.misc

/-- Of the two tags of the first VLAN, `build_eth_l2_src_dst` takes out only one. -/
def ethL2SrcDstTag (inner : Bool) (mask : MatchParam) : SpecField :=
  if mask.spec inner .cvlanTag ≠ 0 then .cvlanTag else .svlanTag

/-- The fields a builder of the kind takes out of its mask, in either STE format; flex parsers' builders are
apart. -/
def BuilderKind.cleared (inner : Bool) (mask : MatchParam) : BuilderKind → List MaskField
  | .generalPurpose => [.misc2 .metadataRegA]
  | .register0 => regC03Fields.map .misc2
  | .register1 => regC47Fields.map .misc2
  | .srcGvmiQpn => [.misc .sourcePort, .misc .sourceSqn, .misc .sourceEswitchOwnerVhcaId]
  | .ethL2SrcDst =>
    specFields inner (dmacFields ++ smacFields ++ firstVlanFields ++ [.ipVersion, ethL2SrcDstTag inner mask])
  | .ethL2Src => specFields inner smacFields ++ ethL2SrcOrDstFields inner
  | .ethL2Dst => specFields inner dmacFields ++ ethL2SrcOrDstFields inner
  | .ethL2Tnl =>
    specFields inner (dmacFields ++ firstVlanFields ++ [.frag, .ethertype, .ipVersion, .cvlanTag, .svlanTag]) ++
      [.misc .vxlanVni]
  | .ethL3Ipv6Dst => specFields inner dstAddrFields
  | .ethL3Ipv6Src => specFields inner srcAddrFields
  | .ethIpv6L3L4 =>
    specFields inner (tcpUdpFields ++ [.ipProtocol, .frag, .ipDscp, .ipEcn, .ttlHoplimit, .tcpFlags]) ++
      [.misc (ipv6FlowLabel inner)]
  | .ethL3Ipv4_5Tuple =>
    specFields inner ([.dstIp31_0, .srcIp31_0] ++ tcpUdpFields ++
        [.ipProtocol, .frag, .ipDscp, .ipEcn, .tcpFlags])
  | .ethL3Ipv4Misc => [specField inner .ttlHoplimit]
  | .tnlVxlanGpe => vxlanGpeFields.map .misc3
  | .tnlGeneve => geneveFields.map .misc
  | .tnlGeneveTlvOption => [.misc3 .geneveTlvOption0Data]
  | .ethL4Misc => (ethL4MiscFields inner).map .misc3
  | .mpls => (firstMplsFields inner).map .misc2
  | .tnlMplsOverGre => mplsOverGreFields.map .misc2
  | .tnlMplsOverUdp => mplsOverUdpFields.map .misc2
  | .icmp => (if maskIsIcmpv4Set mask.misc3 then icmpv4Fields else icmpv6Fields).map .misc3
  | .tnlGre => greFields.map .misc
  | .flexParser0 | .flexParser1 | .emptyAlwaysHit => []

def BuilderKind.consume (inner : Bool) (mask : MatchParam) : BuilderKind → MatchParam
  | .flexParser0 | .flexParser1 => setFlexParsers progSamples [] mask
  | kind => mask.clear (kind.cleared inner mask)

end MlnxOfed.Steering
