/-
How many builders a mask needs. `dr_matcher_set_ste_builders` never compares its index with the array's
length; the number is a function of mask, domain and capabilities, and can exceed the seventeen there is
room for.
-/

import MlnxOfed.Steering.SteFormatV0

namespace MlnxOfed.Steering

open List MaskField BuilderKind Building

def BuilderKind.touches (inner : Bool) : BuilderKind → List MaskField
  | .ethL2SrcDst =>
    specFields inner (dmacFields ++ smacFields ++ firstVlanFields ++ [.ipVersion, .cvlanTag, .svlanTag])
  | .icmp => (icmpv4Fields ++ icmpv6Fields).map .misc3
  | .flexParser0 | .flexParser1 => Misc4Field.all.map .misc4
  | kind => kind.cleared inner fun _ => 0

theorem MatchParam.clear_apply (mask : MatchParam) (fields : List MaskField) (field : MaskField) :
    mask.clear fields field = if field ∈ fields then 0 else mask field := rfl

theorem MatchParam.clear_of_not_mem {mask : MatchParam} {fields : List MaskField}
    {field : MaskField} (absent : field ∉ fields) : mask.clear fields field = mask field :=
  if_neg absent

private theorem setFlexParsers_of_not_misc4 {field} (elsewhere : field ∉ Misc4Field.all.map misc4) :
    ∀ (samples : List (Misc4Field × Misc4Field)) (used : List Nat) (mask : MatchParam),
      setFlexParsers samples used mask field = mask field := by
  have other : ∀ sample : Misc4Field, field ≠ .misc4 sample := by
    rintro sample rfl
    exact elsewhere (mem_map.mpr ⟨sample, sample.mem_all, rfl⟩)
  intro samples
  induction samples with
  | nil =>
    intro used mask
    rfl
  | cons sample samples ih =>
    intro used mask
    obtain ⟨id, value⟩ := sample
    rw [setFlexParsers]
    split
    · rw [ih]
    · rw [ih, MatchParam.clear_of_not_mem]
      simp [other id, other value]

theorem BuilderKind.cleared_subset (inner : Bool) (mask : MatchParam) (kind : BuilderKind) :
    kind.cleared inner mask ⊆ kind.touches inner := by
  cases kind with
  | ethL2SrcDst =>
    unfold cleared touches specFields ethL2SrcDstTag
    apply map_subset
    split <;> decide
  | icmp =>
    apply map_subset
    split <;> decide
  | flexParser0 => exact nil_subset _
  | flexParser1 => exact nil_subset _
  | _ => exact Subset.refl _

variable {kind : BuilderKind}

theorem BuilderKind.consume_untouched {inner field} (still : field ∉ kind.touches inner) (mask) :
    kind.consume inner mask field = mask field := by
  have kept : mask.clear (kind.cleared inner mask) field = mask field :=
    MatchParam.clear_of_not_mem fun taken => still (kind.cleared_subset inner mask taken)
  cases kind with
  | flexParser0 => exact setFlexParsers_of_not_misc4 still _ _ _
  | flexParser1 => exact setFlexParsers_of_not_misc4 still _ _ _
  | _ => exact kept

theorem Building.addWhen_untouched {inner field} (still : field ∉ kind.touches inner)
    (building : Building) (env : BuildEnv) (wanted : Bool) : (building.addWhen env wanted kind inner).mask field
    = building.mask field := by
  unfold addWhen
  split
  · exact consume_untouched still building.mask
  · rfl

theorem Building.add_idx (building : Building) (env : BuildEnv) (kind : BuilderKind)
    (inner : Bool) : (building.add env kind inner).idx = building.idx + 1 := by
  simp [idx, add]

theorem Building.addWhen_idx (building : Building) (env : BuildEnv) (wanted : Bool) (kind : BuilderKind)
    (inner : Bool) : (building.addWhen env wanted kind inner).idx = building.idx + wanted.toNat := by
  cases wanted with
  | false => rfl
  | true => exact building.add_idx env kind inner

def registersCount (dmnType : DomainType) (mask : MatchParam) : Nat :=
  (maskIsWqeMetadataSet mask.misc2).toNat + (maskIsRegC03Set mask.misc2).toNat +
    (maskIsRegC47Set mask.misc2).toNat +
    (maskIsGvmiOrQpnSet mask.misc && (dmnType == .fdb || dmnType == .nicRx)).toNat

def registersTouched : List MaskField :=
  [generalPurpose, .register0, .register1, .srcGvmiQpn].flatMap (touches false)

private theorem buildRegisters_idx (env building) : (buildRegisters env building).idx =
      building.idx + registersCount env.dmnType building.mask := by
  simp (disch := decide) only [buildRegisters, registersCount, addWhen_idx,
    maskIsWqeMetadataSet, maskIsRegC03Set, maskIsRegC47Set, maskIsGvmiOrQpnSet, anySet,
    regC03Fields, regC47Fields, any_cons, any_nil, MatchParam.misc, MatchParam.misc2,
    addWhen_untouched]
  omega

theorem buildRegisters_untouched {field} (still : field ∉ registersTouched) (env : BuildEnv)
    (building : Building) : (buildRegisters env building).mask field = building.mask field := by
  simp only [registersTouched, flatMap_cons, flatMap_nil, append_nil, mem_append, not_or] at still
  unfold buildRegisters
  rw [addWhen_untouched still.2.2.2, addWhen_untouched still.2.2.1,
    addWhen_untouched still.2.1, addWhen_untouched still.1]

/-! ### The headers up to layer three -/

private theorem specField_inj {inner left right} : specField inner left = specField inner right ↔ left = right := by
  cases inner <;> simp [specField]

theorem MatchParam.clear_specFields (mask : MatchParam) (inner : Bool) (fields : List SpecField)
    (more : List MiscField) (field : SpecField) :
    (mask.clear (specFields inner fields ++ more.map .misc)).spec inner field =
      if field ∈ fields then 0 else mask.spec inner field := by
  have among : specField inner field ∈ specFields inner fields ++ more.map MaskField.misc ↔
      field ∈ fields := by
    have notMisc other : specField inner field ≠ MaskField.misc other := by
      cases inner <;> simp [specField]
    simp [specFields, specField_inj, fun other => (notMisc other).symm]
  simp only [MatchParam.spec, MatchParam.clear_apply, among]

theorem MatchParam.clear_specFields_misc (mask : MatchParam) (inner : Bool)
    (fields : List SpecField) (more : List MiscField) (field : MiscField) :
    (mask.clear (specFields inner fields ++ more.map .misc)).misc field =
      if field ∈ more then 0 else mask.misc field := by
  have among : MaskField.misc field ∈ specFields inner fields ++ more.map MaskField.misc ↔ field ∈ more := by
    cases inner <;> simp [specFields, specField]
  simp only [MatchParam.misc, MatchParam.clear_apply, among]

/-- The header fields that the builder for one address takes out besides it. -/
def ethL2OtherFields : List SpecField :=
  firstVlanFields ++ [.frag, .ethertype, .ipVersion, .cvlanTag, .svlanTag]

/-- What is left for `build_eth_l2_dst` after both addresses were taken together. -/
def ethL2Rest (spec : SpecField → Nat) (misc : MiscField → Nat) (inner : Bool) : Bool :=
  spec .ethertype != 0 || (spec .cvlanTag != 0 && spec .svlanTag != 0) ||
    anySet misc (secondVlanFields inner)

def ethL2Count (spec : SpecField → Nat) (misc : MiscField → Nat) (inner : Bool) : Nat :=
  if maskIsSmacSet spec && maskIsDmacSet spec then 1 + (ethL2Rest spec misc inner).toNat
  else if maskIsSmacSet spec then 1
  else (maskIsL2Dst spec misc inner).toNat

/-- Whether a builder of layer two matches on fragments, so that none of layer three has to. -/
def ethL2TakesFrag (spec : SpecField → Nat) (misc : MiscField → Nat) (inner : Bool) : Bool :=
  if maskIsSmacSet spec && maskIsDmacSet spec then ethL2Rest spec misc inner
  else maskIsSmacSet spec || maskIsL2Dst spec misc inner

section EthL2

variable (inner : Bool) (mask : MatchParam)

theorem consume_ethL2SrcDst_spec (field : SpecField) : (ethL2SrcDst.consume inner mask).spec inner field =
      if field ∈ dmacFields ++ smacFields ++ firstVlanFields ++ [.ipVersion, ethL2SrcDstTag inner mask] then 0
      else mask.spec inner field := by
  have cleared := mask.clear_specFields inner
    (dmacFields ++ smacFields ++ firstVlanFields ++ [.ipVersion, ethL2SrcDstTag inner mask]) []
    field
  rw [map_nil, append_nil] at cleared
  exact cleared

private theorem consume_ethL2SrcDst_misc (field) : (ethL2SrcDst.consume inner mask).misc field = mask.misc field := by
  apply consume_untouched
  cases inner <;> cases field <;> decide

theorem consume_ethL2Src_spec (field : SpecField) : (ethL2Src.consume inner mask).spec inner field =
      if field ∈ smacFields ++ ethL2OtherFields then 0 else mask.spec inner field := by
  rw [← mask.clear_specFields inner _ (secondVlanFields inner)]
  simp only [consume, cleared, ethL2SrcOrDstFields, specFields, ethL2OtherFields, map_append, append_assoc]

private theorem consume_ethL2Src_misc (field : MiscField) : (ethL2Src.consume inner mask).misc field =
      if field ∈ secondVlanFields inner then 0 else mask.misc field := by
  rw [← mask.clear_specFields_misc inner (smacFields ++ ethL2OtherFields)]
  simp only [consume, cleared, ethL2SrcOrDstFields, specFields, ethL2OtherFields, map_append, append_assoc]

private theorem consume_ethL2Dst_frag : (BuilderKind.ethL2Dst.consume inner mask).spec inner .frag = 0 := by
  have cleared := mask.clear_specFields inner (dmacFields ++ ethL2OtherFields) (secondVlanFields inner) .frag
  rw [if_pos (by decide)] at cleared
  rw [← cleared]
  simp only [BuilderKind.consume, BuilderKind.cleared, ethL2SrcOrDstFields, specFields,
    ethL2OtherFields, map_append, append_assoc]

theorem anySet_eq_false_iff {α : Type} (read : α → Nat) (fields) :
    anySet read fields = false ↔ ∀ field ∈ fields, read field = 0 := by
  simp [anySet]

theorem anySet_congr {α : Type} {read other : α → Nat} {fields : List α}
    (agree : ∀ field ∈ fields, read field = other field) :
    anySet read fields = anySet other fields := by
  unfold anySet
  rw [Bool.eq_iff_iff, any_eq_true, any_eq_true]
  constructor
  · rintro ⟨field, mem, set⟩
    exact ⟨field, mem, by rwa [← agree field mem]⟩
  · rintro ⟨field, mem, set⟩
    exact ⟨field, mem, by rwa [agree field mem]⟩

private theorem ethL2SrcDst_leaves_smac : maskIsSmacSet ((ethL2SrcDst.consume inner mask).spec inner) = false := by
  apply (anySet_eq_false_iff _ _).mpr
  intro field mem
  rw [consume_ethL2SrcDst_spec, if_pos (by simp [mem])]

private theorem ethL2SrcDst_leaves_l2Dst : maskIsL2Dst ((ethL2SrcDst.consume inner mask).spec inner)
        (ethL2SrcDst.consume inner mask).misc inner =
      ethL2Rest (mask.spec inner) mask.misc inner := by
  have second : anySet (ethL2SrcDst.consume inner mask).misc (secondVlanFields inner) =
      anySet mask.misc (secondVlanFields inner) :=
    anySet_congr fun field _ => consume_ethL2SrcDst_misc inner mask field
  unfold maskIsL2Dst ethL2Rest
  rw [second]
  by_cases cvlan : mask.spec inner .cvlanTag = 0
  · simp [anySet, consume_ethL2SrcDst_spec, firstVlanFields, dmacFields, smacFields, ethL2SrcDstTag, cvlan]
  · have tagged : (mask.spec inner .cvlanTag != 0) = true := bne_iff_ne.mpr cvlan
    rw [tagged, Bool.true_and]
    simp [anySet, consume_ethL2SrcDst_spec, firstVlanFields, dmacFields, smacFields, ethL2SrcDstTag, cvlan]
    rw [Bool.or_comm (mask.spec inner .svlanTag != 0)]

private theorem ethL2Src_leaves_l2Dst (noDmac : maskIsDmacSet (mask.spec inner) = false) :
    maskIsL2Dst ((ethL2Src.consume inner mask).spec inner)
        (ethL2Src.consume inner mask).misc inner = false := by
  have second : anySet (ethL2Src.consume inner mask).misc (secondVlanFields inner) = false := by
    apply (anySet_eq_false_iff _ _).mpr
    intro field mem
    rw [consume_ethL2Src_misc, if_pos mem]
  unfold maskIsL2Dst
  rw [second]
  simp [maskIsDmacSet, anySet, dmacFields] at noDmac
  simp [anySet, consume_ethL2Src_spec, firstVlanFields, dmacFields, smacFields, ethL2OtherFields, noDmac]

end EthL2

def ethL2Touched (inner : Bool) : List MaskField :=
  [ethL2SrcDst, .ethL2Src, .ethL2Dst].flatMap (touches inner)

variable {field : MaskField}

theorem buildEthL2_untouched {inner} (still : field ∉ ethL2Touched inner) (env : BuildEnv)
    (building : Building) : (buildEthL2 env inner building).mask field = building.mask field := by
  simp only [ethL2Touched, flatMap_cons, flatMap_nil, append_nil, mem_append, not_or] at still
  unfold buildEthL2
  rw [addWhen_untouched still.2.2, addWhen_untouched still.2.1, addWhen_untouched still.1]

theorem Building.addWhen_true (building : Building) (env : BuildEnv) (kind : BuilderKind)
    (inner : Bool) : building.addWhen env true kind inner = building.add env kind inner := rfl

theorem Building.addWhen_false (building : Building) (env kind)
    (inner) : building.addWhen env false kind inner = building := rfl

theorem Building.add_mask (building : Building) (env) (kind : BuilderKind) (inner) :
    (building.add env kind inner).mask = kind.consume inner building.mask := rfl

private theorem spec_frag_ne_ethL2SrcDst (inner mask) :
    (ethL2SrcDst.consume inner mask).spec inner .frag = mask.spec inner .frag := by
  rw [consume_ethL2SrcDst_spec, if_neg]
  unfold ethL2SrcDstTag
  split <;> decide

theorem buildEthL2_spec (env inner building) : (buildEthL2 env inner building).idx =
        building.idx + ethL2Count (building.mask.spec inner) building.mask.misc inner ∧
      (buildEthL2 env inner building).mask.spec inner .frag =
        if ethL2TakesFrag (building.mask.spec inner) building.mask.misc inner then 0
        else building.mask.spec inner .frag := by
  unfold buildEthL2 ethL2Count ethL2TakesFrag
  cases smac : maskIsSmacSet (building.mask.spec inner) with
  | false =>
    simp only [smac, Bool.false_and, addWhen_false, Bool.false_or,
      addWhen_idx, Bool.false_eq_true, if_false, true_and]
    cases maskIsL2Dst (building.mask.spec inner) building.mask.misc inner with
    | false => rfl
    | true => exact consume_ethL2Dst_frag inner building.mask
  | true =>
    cases dmac : maskIsDmacSet (building.mask.spec inner) with
    | true =>
      simp only [Bool.and_self, addWhen_true, add_mask,
        ethL2SrcDst_leaves_smac, addWhen_false, ethL2SrcDst_leaves_l2Dst, if_true,
        addWhen_idx, add_idx, add_assoc, true_and]
      cases ethL2Rest (building.mask.spec inner) building.mask.misc inner with
      | false => exact spec_frag_ne_ethL2SrcDst inner building.mask
      | true => exact consume_ethL2Dst_frag inner _
    | false =>
      simp only [smac, Bool.and_false, addWhen_false, addWhen_true,
        add_mask, ethL2Src_leaves_l2Dst inner building.mask dmac, add_idx,
        Bool.false_eq_true, if_false, if_true, Bool.true_or, true_and]
      rw [consume_ethL2Src_spec, if_pos (by decide)]

/-- The header fields that the builders of layer three match on, but for fragments and addresses. -/
def ethL3BaseSet (spec : SpecField → Nat) (misc : MiscField → Nat) (inner : Bool) : Bool :=
  anySet spec [.ipProtocol, .tcpFlags, .ipEcn, .ipDscp] ||
    (spec .frag != 0 && !ethL2TakesFrag spec misc inner) || maskIsTcpUdpBaseSet spec

def ethL3Count (spec : SpecField → Nat) (misc : MiscField → Nat) (inner : Bool) : RuleIpv → Nat
  | .ipv6 =>
    (maskIsDstAddrSet spec).toNat + (maskIsSrcAddrSet spec).toNat +
      (ethL3BaseSet spec misc inner || maskIsTtlSet spec ||
        misc (ipv6FlowLabel inner) != 0).toNat
  | .ipv4 =>
    (ethL3BaseSet spec misc inner || maskIsIpv4Set spec).toNat + (maskIsTtlSet spec).toNat

def ethCount (spec : SpecField → Nat) (misc : MiscField → Nat) (inner : Bool) (ipv : RuleIpv) : Nat :=
  ethL2Count spec misc inner + ethL3Count spec misc inner ipv

def ethL3Touched (inner : Bool) : List MaskField :=
  [ethL3Ipv6Dst, .ethL3Ipv6Src, .ethIpv6L3L4, .ethL3Ipv4_5Tuple, .ethL3Ipv4Misc].flatMap (touches inner)

theorem buildEthL3_untouched {inner} (still : field ∉ ethL3Touched inner) (env)
    (building ipv) : (buildEthL3 env inner building ipv).mask field = building.mask
    field := by
  simp only [ethL3Touched, flatMap_cons, flatMap_nil, append_nil, mem_append, not_or] at still
  cases ipv with
  | ipv6 =>
    unfold buildEthL3
    rw [addWhen_untouched still.2.2.1, addWhen_untouched still.2.1, addWhen_untouched still.1]
  | ipv4 =>
    unfold buildEthL3
    rw [addWhen_untouched still.2.2.2.2, addWhen_untouched still.2.2.2.1]

private theorem buildEthL3_idx (env inner building ipv) :
    (buildEthL3 env inner building ipv).idx = building.idx + match ipv with
        | .ipv6 =>
          (maskIsDstAddrSet (building.mask.spec inner)).toNat +
            (maskIsSrcAddrSet (building.mask.spec inner)).toNat +
            (maskIsEthL4Set (building.mask.spec inner) building.mask.misc inner).toNat
        | .ipv4 =>
          (maskIsIpv4_5TupleSet (building.mask.spec inner)).toNat +
            (maskIsTtlSet (building.mask.spec inner)).toNat := by
  cases inner <;> cases ipv <;>
    simp (disch := decide) only [buildEthL3, addWhen_idx, maskIsDstAddrSet,
      maskIsSrcAddrSet, maskIsEthL4Set, maskIsIpv4_5TupleSet, maskIsTtlSet, maskIsL3BaseSet,
      maskIsTcpUdpBaseSet, maskIsIpv4Set, anySet, dstAddrFields, srcAddrFields, tcpUdpFields,
      any_cons, any_nil, MatchParam.misc, MatchParam.spec, specField, ipv6FlowLabel,
      addWhen_untouched, if_true, Bool.false_eq_true, if_false, add_assoc]

private theorem maskIsL3BaseSet_eq (spec : SpecField → Nat) : maskIsL3BaseSet spec =
      (anySet spec [.ipProtocol, .tcpFlags, .ipEcn, .ipDscp] || spec .frag != 0) := by
  simp only [maskIsL3BaseSet, anySet, any_cons, any_nil]
  cases spec .ipProtocol != 0 <;> cases spec .frag != 0 <;> simp

private theorem ethL3BaseSet_eq (env inner building) :
    (maskIsL3BaseSet ((buildEthL2 env inner building).mask.spec inner) ||
        maskIsTcpUdpBaseSet ((buildEthL2 env inner building).mask.spec inner)) =
      ethL3BaseSet (building.mask.spec inner) building.mask.misc inner := by
  have frag := (buildEthL2_spec env inner building).2
  have base : anySet ((buildEthL2 env inner building).mask.spec inner)
        [.ipProtocol, .tcpFlags, .ipEcn, .ipDscp] =
      anySet (building.mask.spec inner) [.ipProtocol, .tcpFlags, .ipEcn, .ipDscp] := by
    apply anySet_congr
    cases inner <;> intro field mem <;>
      exact buildEthL2_untouched (by revert field; decide) env building
  have ports : maskIsTcpUdpBaseSet ((buildEthL2 env inner building).mask.spec inner) =
      maskIsTcpUdpBaseSet (building.mask.spec inner) := by
    apply anySet_congr
    cases inner <;> intro field mem <;>
      exact buildEthL2_untouched (by revert field; decide) env building
  unfold ethL3BaseSet
  rw [ports, ← base, maskIsL3BaseSet_eq, frag]
  cases ethL2TakesFrag (building.mask.spec inner) building.mask.misc inner <;> simp

theorem buildEth_idx (env inner building ipv) :
    (buildEthL3 env inner (buildEthL2 env inner building) ipv).idx =
      building.idx + ethCount (building.mask.spec inner) building.mask.misc inner ipv := by
  have kept field (still : field ∉ ethL2Touched inner) : (buildEthL2 env inner building).mask field =
      building.mask field := buildEthL2_untouched still env building
  have base := ethL3BaseSet_eq env inner building
  have ttl : maskIsTtlSet ((buildEthL2 env inner building).mask.spec inner) =
      maskIsTtlSet (building.mask.spec inner) := by
    have same := kept (specField inner .ttlHoplimit) (by cases inner <;> decide)
    simp only [maskIsTtlSet, MatchParam.spec, same]
  have addr fields (among : fields ∈ [dstAddrFields, srcAddrFields, [.dstIp31_0, .srcIp31_0]]) : anySet
      ((buildEthL2 env inner building).mask.spec inner) fields = anySet (building.mask.spec inner)
      fields := by
    apply anySet_congr
    intro field mem
    apply kept
    revert fields field
    cases inner <;> decide
  rw [buildEthL3_idx, (buildEthL2_spec env inner building).1]
  unfold ethCount ethL3Count
  cases ipv with
  | ipv6 =>
    have flowLabel : (buildEthL2 env inner building).mask.misc (ipv6FlowLabel inner) =
        building.mask.misc (ipv6FlowLabel inner) :=
      kept (.misc (ipv6FlowLabel inner)) (by cases inner <;> decide)
    have dst := addr dstAddrFields (by simp)
    have src := addr srcAddrFields (by simp)
    simp only [maskIsEthL4Set, maskIsDstAddrSet, maskIsSrcAddrSet, dst, src, base, ttl, flowLabel]
    omega
  | ipv4 =>
    have ipv4 := addr [.dstIp31_0, .srcIp31_0] (by simp)
    simp only [maskIsIpv4_5TupleSet, maskIsIpv4Set, ipv4, base, ttl]
    omega

/-! ### Tunnels, layer four and MPLS -/

def tunnelsCount (caps : BuilderCaps) (mask : MatchParam) : Nat :=
  if maskIsTnlVxlanGpe mask caps then 1
  else if maskIsTnlGeneve mask caps then 1 + (maskIsTnlGeneveTlvOption mask.misc3).toNat
  else 0

def tunnelsTouched : List MaskField :=
  [tnlVxlanGpe, .tnlGeneve, .tnlGeneveTlvOption].flatMap (touches false)

theorem Building.add_untouched {kind inner} (still : field ∉ kind.touches inner)
    (building : Building) (env : BuildEnv) : (building.add env kind inner).mask field = building.mask field :=
  consume_untouched still building.mask

private theorem buildTunnels_idx (env building) :
    (buildTunnels env building).idx = building.idx + tunnelsCount env.caps building.mask := by
  unfold buildTunnels tunnelsCount
  split
  · exact building.add_idx env _ _
  split
  · have tlv : maskIsTnlGeneveTlvOption (building.add env .tnlGeneve false).mask.misc3 =
        maskIsTnlGeneveTlvOption building.mask.misc3 := by
      have same : (building.add env .tnlGeneve false).mask (.misc3 .geneveTlvOption0Data) =
          building.mask (.misc3 .geneveTlvOption0Data) :=
        add_untouched (by decide) building env
      simp only [maskIsTnlGeneveTlvOption, MatchParam.misc3, same]
    rw [addWhen_idx, add_idx, tlv, add_assoc]
  · rfl

private theorem buildTunnels_untouched (still : field ∉ tunnelsTouched) (env building) :
    (buildTunnels env building).mask field = building.mask field := by
  simp only [tunnelsTouched, flatMap_cons, flatMap_nil, append_nil, mem_append, not_or] at still
  unfold buildTunnels
  split
  · exact add_untouched still.1 building env
  · split
    · rw [addWhen_untouched still.2.2, add_untouched still.2.1]
    · rfl

variable {left right : MatchParam}

theorem maskIsTnlMplsOverGre_congr
    (agree : ∀ field ∈ mplsOverGreFields, left (.misc2 field) = right (.misc2 field))
    (caps) : maskIsTnlMplsOverGre left caps = maskIsTnlMplsOverGre right caps := by
  have same : maskIsOuterMplsOverGreSet left.misc2 = maskIsOuterMplsOverGreSet right.misc2 :=
    anySet_congr agree
  simp only [maskIsTnlMplsOverGre, same]

theorem maskIsTnlMplsOverUdp_congr
    (agree : ∀ field ∈ mplsOverUdpFields, left (.misc2 field) = right (.misc2 field))
    (caps) : maskIsTnlMplsOverUdp left caps = maskIsTnlMplsOverUdp right caps := by
  have same : maskIsOuterMplsOverUdpSet left.misc2 = maskIsOuterMplsOverUdpSet right.misc2 :=
    anySet_congr agree
  simp only [maskIsTnlMplsOverUdp, same]

private theorem buildMplsOver_spec (env inner building) :
    (buildMplsOver env inner building).idx = building.idx + (maskIsTnlMplsOverGre building.mask env.caps ||
            maskIsTnlMplsOverUdp building.mask env.caps).toNat ∧
      maskIsTnlMplsOverGre (buildMplsOver env inner building).mask env.caps = false ∧
      maskIsTnlMplsOverUdp (buildMplsOver env inner building).mask env.caps =
        (maskIsTnlMplsOverGre building.mask env.caps && maskIsTnlMplsOverUdp building.mask env.caps) := by
  unfold buildMplsOver
  cases greSet : maskIsTnlMplsOverGre building.mask env.caps with
  | true =>
    have taken : maskIsOuterMplsOverGreSet
        (building.add env .tnlMplsOverGre inner).mask.misc2 = false := by
      apply (anySet_eq_false_iff _ _).mpr
      intro field mem
      exact if_pos (mem_map_of_mem mem)
    rw [if_pos rfl]
    refine ⟨building.add_idx env _ _, ?_, ?_⟩
    · rw [maskIsTnlMplsOverGre, taken, Bool.false_and]
    · rw [Bool.true_and]
      apply maskIsTnlMplsOverUdp_congr
      intro field mem
      exact add_untouched (by revert field; cases inner <;> decide) building env
  | false =>
    rw [if_neg Bool.false_ne_true, Bool.false_or, Bool.false_and]
    refine ⟨addWhen_idx _ _ _ _ _, ?_, ?_⟩
    · rw [← greSet]
      apply maskIsTnlMplsOverGre_congr
      intro field mem
      exact addWhen_untouched (by revert field; cases inner <;> decide) building env _
    cases udpSet : maskIsTnlMplsOverUdp building.mask env.caps with
    | false => exact udpSet
    | true =>
      have taken : maskIsOuterMplsOverUdpSet
          (building.add env .tnlMplsOverUdp inner).mask.misc2 = false := by
        apply (anySet_eq_false_iff _ _).mpr
        intro field mem
        exact if_pos (mem_map_of_mem mem)
      rw [addWhen_true, maskIsTnlMplsOverUdp, taken, Bool.false_and]

def l4MplsCount (mask : MatchParam) (inner : Bool) : Nat :=
  (maskIsEthL4MiscSet mask.misc3 inner).toNat + (maskIsFirstMplsSet mask.misc2 inner).toNat

def mplsOverTouched (inner : Bool) : List MaskField :=
  [tnlMplsOverGre, .tnlMplsOverUdp].flatMap (touches inner)

private theorem buildMplsOver_untouched {inner} (still : field ∉ mplsOverTouched inner) (env)
    (building) : (buildMplsOver env inner building).mask field = building.mask field := by
  simp only [mplsOverTouched, flatMap_cons, flatMap_nil, append_nil, mem_append, not_or] at still
  unfold buildMplsOver
  split
  · exact add_untouched still.1 building env
  · exact addWhen_untouched still.2 building env _

def l4MplsTouched (inner : Bool) : List MaskField :=
  [ethL4Misc, .mpls].flatMap (touches inner) ++ mplsOverTouched inner

theorem buildL4Mpls_untouched {inner} (still : field ∉ l4MplsTouched inner) (env)
    (building) : (buildL4Mpls env inner building).mask field = building.mask field := by
  simp only [l4MplsTouched, flatMap_cons, flatMap_nil, append_nil, mem_append, not_or] at still
  unfold buildL4Mpls
  rw [buildMplsOver_untouched still.2, addWhen_untouched still.1.2, addWhen_untouched still.1.1]

theorem buildL4Mpls_spec (env inner building) :
    (buildL4Mpls env inner building).idx = building.idx + l4MplsCount building.mask inner +
          (maskIsTnlMplsOverGre building.mask env.caps || maskIsTnlMplsOverUdp building.mask env.caps).toNat ∧
      maskIsTnlMplsOverGre (buildL4Mpls env inner building).mask env.caps = false ∧
      maskIsTnlMplsOverUdp (buildL4Mpls env inner building).mask env.caps =
        (maskIsTnlMplsOverGre building.mask env.caps && maskIsTnlMplsOverUdp building.mask env.caps) := by
  have misc (wanted : Bool) (field : Misc2Field) : (building.addWhen env wanted .ethL4Misc inner).mask
      (.misc2 field) = building.mask (.misc2 field) := by
    apply addWhen_untouched
    cases inner <;> cases field <;> decide
  have mplsSame wanted : maskIsFirstMplsSet (building.addWhen env wanted .ethL4Misc inner).mask.misc2 inner =
      maskIsFirstMplsSet building.mask.misc2 inner := anySet_congr fun field _ => misc wanted field
  unfold buildL4Mpls
  dsimp only
  rw [mplsSame]
  have kept (wanted other : Bool) field (mem : field ∈ mplsOverGreFields ++ mplsOverUdpFields) :
      ((building.addWhen env wanted .ethL4Misc inner).addWhen env other .mpls inner).mask (.misc2 field) =
      building.mask (.misc2 field) := by
    rw [addWhen_untouched (by revert field; cases inner <;> decide), misc]
  have gre := fun wanted other => maskIsTnlMplsOverGre_congr
    (fun field mem => kept wanted other field (mem_append_left _ mem)) env.caps
  have udp := fun wanted other => maskIsTnlMplsOverUdp_congr
    (fun field mem => kept wanted other field (mem_append_right _ mem)) env.caps
  obtain ⟨idx, greAfter, udpAfter⟩ := buildMplsOver_spec env inner
    ((building.addWhen env (maskIsEthL4MiscSet building.mask.misc3 inner) .ethL4Misc inner).addWhen
      env (maskIsFirstMplsSet building.mask.misc2 inner) .mpls inner)
  rw [gre, udp] at idx udpAfter
  refine ⟨?_, greAfter, udpAfter⟩
  rw [idx, addWhen_idx, addWhen_idx]
  unfold l4MplsCount
  omega

def icmpGreCount (caps : BuilderCaps) (mask : MatchParam) : Nat :=
  (maskIsIcmp mask caps).toNat + (maskIsTnlGreSet mask.misc).toNat

def icmpGreTouched : List MaskField :=
  [icmp, .tnlGre].flatMap (touches false)

private theorem buildIcmpGre_idx (env building) :
    (buildIcmpGre env building).idx = building.idx + icmpGreCount env.caps building.mask := by
  have gre wanted : maskIsTnlGreSet (building.addWhen env wanted .icmp false).mask.misc = maskIsTnlGreSet
      building.mask.misc := by
    apply anySet_congr
    intro field mem
    exact addWhen_untouched (by revert field; decide) building env wanted
  unfold buildIcmpGre icmpGreCount
  rw [addWhen_idx, addWhen_idx, gre, add_assoc]

private theorem buildIcmpGre_untouched (still : field ∉ icmpGreTouched) (env building) :
    (buildIcmpGre env building).mask field = building.mask field := by
  simp only [icmpGreTouched, flatMap_cons, flatMap_nil, append_nil, mem_append, not_or] at still
  unfold buildIcmpGre
  rw [addWhen_untouched still.2, addWhen_untouched still.1]

/-- Among the samples, one of the parsers four to seven that an earlier sample has. -/
def repeatsFlexParser47 : List Nat → List Nat → Bool
  | [], _ => false
  | id :: ids, earlier =>
    (decide (id ∈ earlier) && maskIsFlexParserId47Set id) ||
      repeatsFlexParser47 ids (id :: earlier)

private theorem repeatsFlexParser47_congr {ids left earlier} (same : ∀ id, id ∈ left ↔ id ∈ earlier) :
    repeatsFlexParser47 ids left = repeatsFlexParser47 ids earlier := by
  induction ids generalizing left earlier with
  | nil => rfl
  | cons id ids ih =>
    have more : ∀ other, other ∈ id :: left ↔ other ∈ id :: earlier := by simp [same]
    simp only [repeatsFlexParser47, same, ih more]

def progSampleIds (misc4 : Misc4Field → Nat) : List Nat :=
  progSamples.map fun sample => misc4 sample.1

def flexParsersCount (misc4 : Misc4Field → Nat) : Nat :=
  if maskIsFlexParser03Set misc4 then
    1 + (repeatsFlexParser47 (progSampleIds misc4) []).toNat
  else
    (maskIsFlexParser47Set misc4).toNat

private theorem setFlexParsers_of_other {field} :
    ∀ (samples : List (Misc4Field × Misc4Field)) (used : List Nat) (mask : MatchParam),
      (∀ sample ∈ samples, field ≠ sample.1 ∧ field ≠ sample.2) →
        (setFlexParsers samples used mask).misc4 field = mask.misc4 field
  | [], _, _, _ => rfl
  | (id, value) :: samples, used, mask, apart => by
      have here := apart (id, value) (.head _)
      have later := fun sample mem => apart sample (.tail _ mem)
      rw [setFlexParsers]
      split
      · exact setFlexParsers_of_other samples used mask later
      · rw [setFlexParsers_of_other samples _ _ later]
        exact MatchParam.clear_of_not_mem (by simp [here.1, here.2])

def SamplesApart (samples : List (Misc4Field × Misc4Field)) : Prop :=
  samples.Pairwise fun earlier later =>
    earlier.1 ≠ later.1 ∧ earlier.1 ≠ later.2 ∧ later.1 ≠ earlier.2

private theorem setFlexParsers_leaves :
    ∀ (samples : List (Misc4Field × Misc4Field)) (used : List Nat) (mask : MatchParam), SamplesApart samples →
        (samples.any fun sample =>
            maskIsFlexParserId47Set ((setFlexParsers samples used mask).misc4 sample.1)) =
          repeatsFlexParser47 (samples.map fun sample => mask.misc4 sample.1) used
  | [], _, _, _ => rfl
  | (id, value) :: samples, used, mask, apart => by
      obtain ⟨here, later⟩ := pairwise_cons.mp apart
      have idApart sample (mem : sample ∈ samples) : id ≠ sample.1 ∧ id ≠ sample.2 :=
          ⟨(here sample mem).1, (here sample mem).2.1⟩
      rw [setFlexParsers, map_cons, repeatsFlexParser47, any_cons]
      by_cases marked : mask.misc4 id ∈ used
      · rw [if_pos marked, setFlexParsers_of_other samples used mask idApart,
          setFlexParsers_leaves samples used mask later,
          @repeatsFlexParser47_congr _ used (mask.misc4 id :: used) (by simp [marked])]
        simp [marked]
      have cleared : (mask.clear [.misc4 id, .misc4 value]).misc4 id = 0 := if_pos (.head _)
      have same : (samples.map fun sample =>
            (mask.clear [.misc4 id, .misc4 value]).misc4 sample.1) =
          samples.map fun sample => mask.misc4 sample.1 := by
        apply map_congr_left
        intro sample mem
        have apartHere := here sample mem
        exact MatchParam.clear_of_not_mem (by simp [apartHere.1.symm, apartHere.2.2])
      rw [if_neg marked, setFlexParsers_of_other samples _ _ idApart, cleared,
        setFlexParsers_leaves samples _ _ later, same]
      simp [marked, maskIsFlexParserId47Set]

private theorem progSamples_apart : SamplesApart progSamples := by
  unfold SamplesApart
  decide

private theorem buildFlexParsers_idx (env building) : (buildFlexParsers env building).idx =
      building.idx + flexParsersCount building.mask.misc4 := by
  unfold buildFlexParsers flexParsersCount
  dsimp only
  rw [addWhen_idx, addWhen_idx]
  cases maskIsFlexParser03Set building.mask.misc4 with
  | false =>
    rw [addWhen_false, if_neg Bool.false_ne_true]
    rfl
  | true =>
    have leaves : maskIsFlexParser47Set (building.add env .flexParser0 false).mask.misc4 =
        repeatsFlexParser47 (progSampleIds building.mask.misc4) [] :=
      setFlexParsers_leaves progSamples [] building.mask progSamples_apart
    rw [addWhen_true, leaves, if_pos rfl, add_assoc]
    rfl

/-! ### All builders of a mask -/

def Agree (fields : List MaskField) (left right : MatchParam) : Prop :=
  ∀ field ∈ fields, left field = right field

def ethFields (inner : Bool) : List MaskField :=
  SpecField.all.map (specField inner) ++ (ipv6FlowLabel inner :: secondVlanFields inner).map misc

theorem ethCount_congr {spec left right inner}
    (misc : ∀ field ∈ ipv6FlowLabel inner :: secondVlanFields inner, left field = right field)
    (ipv) : ethCount spec left inner ipv = ethCount spec right inner ipv := by
  have flowLabel := misc _ (.head _)
  have second : anySet left (secondVlanFields inner) = anySet right (secondVlanFields inner) :=
    anySet_congr fun field mem => misc field (.tail _ mem)
  simp only [ethCount, ethL2Count, ethL3Count, ethL3BaseSet, ethL2TakesFrag, ethL2Rest,
    maskIsL2Dst, second, flowLabel]

private theorem ethCount_agree {inner} (agree : Agree (ethFields inner) left right) (ipv) :
    ethCount (left.spec inner) left.misc inner ipv = ethCount (right.spec inner) right.misc inner ipv := by
  have spec : left.spec inner = right.spec inner :=
    funext fun field => agree _ (mem_append_left _ (mem_map_of_mem field.mem_all))
  rw [spec]
  exact ethCount_congr (fun field mem => agree _ (mem_append_right _ (mem_map_of_mem mem))) ipv

def tunnelsFields : List MaskField :=
  (.geneveTlvOption0Data :: vxlanGpeFields).map .misc3 ++ geneveFields.map .misc

private theorem tunnelsCount_congr (agree : Agree tunnelsFields left right)
    (caps) : tunnelsCount caps left = tunnelsCount caps right := by
  have misc3 field (mem : field ∈ .geneveTlvOption0Data :: vxlanGpeFields) : left.misc3 field = right.misc3
      field := agree _ (mem_append_left _ (mem_map_of_mem mem))
  have tlv := misc3 _ (.head _)
  have gpe : maskIsVxlanGpeSet left.misc3 = maskIsVxlanGpeSet right.misc3 :=
    anySet_congr fun field mem => misc3 field (.tail _ mem)
  have geneve : maskIsTnlGeneveSet left.misc = maskIsTnlGeneveSet right.misc := anySet_congr fun field mem =>
      agree _ (mem_append_right _ (mem_map_of_mem mem))
  unfold tunnelsCount maskIsTnlVxlanGpe maskIsTnlGeneve maskIsTnlGeneveTlvOption
  rw [gpe, geneve, tlv]

def l4MplsFields (inner : Bool) : List MaskField :=
  (ethL4MiscFields inner).map .misc3 ++ (firstMplsFields inner).map .misc2

theorem l4MplsCount_congr {inner} (agree : Agree (l4MplsFields inner) left right) :
    l4MplsCount left inner = l4MplsCount right inner := by
  have l4Misc : maskIsEthL4MiscSet left.misc3 inner = maskIsEthL4MiscSet right.misc3 inner :=
    anySet_congr fun field mem =>
      agree _ (mem_append_left _ (mem_map_of_mem mem))
  have mpls : maskIsFirstMplsSet left.misc2 inner = maskIsFirstMplsSet right.misc2 inner :=
    anySet_congr fun field mem =>
      agree _ (mem_append_right _ (mem_map_of_mem mem))
  simp only [l4MplsCount, l4Misc, mpls]

def icmpGreFields : List MaskField :=
  (icmpv4Fields ++ icmpv6Fields).map .misc3 ++ greFields.map .misc

private theorem icmpGreCount_congr (agree : Agree icmpGreFields left right)
    (caps) : icmpGreCount caps left = icmpGreCount caps right := by
  have misc3 field (mem : field ∈ icmpv4Fields ++ icmpv6Fields) : left.misc3 field = right.misc3 field :=
      agree _ (mem_append_left _ (mem_map_of_mem mem))
  have v4 : maskIsIcmpv4Set left.misc3 = maskIsIcmpv4Set right.misc3 :=
    anySet_congr fun field mem => misc3 field (mem_append_left _ mem)
  have v6 : maskIsIcmpv6Set left.misc3 = maskIsIcmpv6Set right.misc3 :=
    anySet_congr fun field mem => misc3 field (mem_append_right _ mem)
  have gre : maskIsTnlGreSet left.misc = maskIsTnlGreSet right.misc := anySet_congr fun field mem =>
      agree _ (mem_append_right _ (mem_map_of_mem mem))
  simp only [icmpGreCount, maskIsIcmp, v4, v6, gre]

def outerCount (env : BuildEnv) (outerIpv : RuleIpv) (mask : MatchParam) : Nat :=
  registersCount env.dmnType mask + ethCount (mask.spec false) mask.misc false outerIpv +
    tunnelsCount env.caps mask + l4MplsCount mask false +
    (maskIsTnlMplsOverGre mask env.caps || maskIsTnlMplsOverUdp mask env.caps).toNat +
    icmpGreCount env.caps mask

def innerSpec (mask : MatchParam) (field : SpecField) : Nat :=
  if maskIsEthL2TnlSet mask.misc ∧
      field ∈ dmacFields ++ firstVlanFields ++ [.frag, .ethertype, .ipVersion, .cvlanTag, .svlanTag] then 0
  else mask.spec true field

def innerCount (env : BuildEnv) (innerIpv : RuleIpv) (mask : MatchParam) : Nat :=
  (maskIsEthL2TnlSet mask.misc).toNat + ethCount (innerSpec mask) mask.misc true innerIpv +
    l4MplsCount mask true +
    (maskIsTnlMplsOverGre mask env.caps || maskIsTnlMplsOverUdp mask env.caps).toNat

def headerTouched : List MaskField :=
  registersTouched ++ ethL2Touched false ++ ethL3Touched false

def outerTouched : List MaskField :=
  headerTouched ++ tunnelsTouched ++ l4MplsTouched false ++ icmpGreTouched

section Blocks

variable (env : BuildEnv) (building : Building)

private theorem buildHeader_spec (outerIpv) :
    let after := buildEthL3 env false (buildEthL2 env false (buildRegisters env building)) outerIpv
    after.idx = building.idx + registersCount env.dmnType building.mask +
          ethCount (building.mask.spec false) building.mask.misc false outerIpv ∧
      ∀ field ∉ headerTouched, after.mask field = building.mask field := by
  have agree : Agree (ethFields false) (buildRegisters env building).mask building.mask := by
    intro field mem
    exact buildRegisters_untouched (by revert field; decide +kernel) env building
  refine ⟨?_, ?_⟩
  · rw [buildEth_idx, buildRegisters_idx, ethCount_agree agree]
  · intro field still
    simp only [headerTouched, mem_append, not_or] at still
    rw [buildEthL3_untouched still.2, buildEthL2_untouched still.1.2, buildRegisters_untouched still.1.1]

private theorem buildOuter_spec (outerIpv) : (buildOuter env outerIpv building).idx =
        building.idx + outerCount env outerIpv building.mask ∧
      maskIsTnlMplsOverGre (buildOuter env outerIpv building).mask env.caps = false ∧
      maskIsTnlMplsOverUdp (buildOuter env outerIpv building).mask env.caps =
        (maskIsTnlMplsOverGre building.mask env.caps && maskIsTnlMplsOverUdp building.mask env.caps) ∧
      ∀ field ∉ outerTouched, (buildOuter env outerIpv building).mask field = building.mask field := by
  obtain ⟨headerIdx, headerKept⟩ := buildHeader_spec env building outerIpv
  unfold buildOuter
  dsimp only at headerIdx headerKept ⊢
  generalize buildEthL3 env false (buildEthL2 env false (buildRegisters env building)) outerIpv =
    header at headerIdx headerKept ⊢
  have tunnelsKept field (still : field ∉ headerTouched ++ tunnelsTouched) : (buildTunnels env header).mask
      field = building.mask field := by
    rw [mem_append, not_or] at still
    rw [buildTunnels_untouched still.2, headerKept field still.1]
  have tunnels : tunnelsCount env.caps header.mask = tunnelsCount env.caps building.mask :=
    tunnelsCount_congr (fun field mem => headerKept field (by revert field; decide +kernel)) env.caps
  have l4Mpls : l4MplsCount (buildTunnels env header).mask false = l4MplsCount building.mask false :=
    l4MplsCount_congr fun field mem => tunnelsKept field (by revert field; decide +kernel)
  have gre : maskIsTnlMplsOverGre (buildTunnels env header).mask env.caps =
      maskIsTnlMplsOverGre building.mask env.caps :=
    maskIsTnlMplsOverGre_congr (fun field mem => tunnelsKept _ (by revert field; decide +kernel)) env.caps
  have udp : maskIsTnlMplsOverUdp (buildTunnels env header).mask env.caps =
      maskIsTnlMplsOverUdp building.mask env.caps :=
    maskIsTnlMplsOverUdp_congr (fun field mem => tunnelsKept _ (by revert field; decide +kernel)) env.caps
  obtain ⟨mplsIdx, greAfter, udpAfter⟩ := buildL4Mpls_spec env false (buildTunnels env header)
  have l4MplsKept field (still : field ∉ headerTouched ++ tunnelsTouched ++ l4MplsTouched false) :
      (buildL4Mpls env false (buildTunnels env header)).mask field = building.mask field := by
    rw [mem_append, not_or] at still
    rw [buildL4Mpls_untouched still.2, tunnelsKept field still.1]
  have icmpGre : icmpGreCount env.caps (buildL4Mpls env false (buildTunnels env header)).mask =
      icmpGreCount env.caps building.mask :=
    icmpGreCount_congr (fun field mem => l4MplsKept field (by revert field; decide +kernel)) env.caps
  have last field (still : field ∉ icmpGreTouched) : (buildIcmpGre env (buildL4Mpls env false
      (buildTunnels env header))).mask field = (buildL4Mpls env false (buildTunnels env header)).mask field :=
      buildIcmpGre_untouched still env _
  refine ⟨?_, ?_, ?_, ?_⟩
  · rw [buildIcmpGre_idx, icmpGre, mplsIdx, l4Mpls, gre, udp, buildTunnels_idx, tunnels, headerIdx]
    unfold outerCount
    omega
  · rw [maskIsTnlMplsOverGre_congr (fun field mem => last _ (by revert field; decide)) _]
    exact greAfter
  · rw [maskIsTnlMplsOverUdp_congr (fun field mem => last _ (by revert field; decide)) _, udpAfter, gre, udp]
  · intro field still
    rw [outerTouched, mem_append, not_or] at still
    rw [last field still.2, l4MplsKept field still.1]

private theorem addTnl_spec : let after := building.addWhen env (maskIsEthL2TnlSet building.mask.misc) .ethL2Tnl true
    after.mask.spec true = innerSpec building.mask ∧
      ∀ field ≠ .vxlanVni, after.mask.misc field = building.mask.misc field := by
  intro after
  have misc field (other : field ≠ .vxlanVni) : after.mask.misc field = building.mask.misc field := by
    apply addWhen_untouched
    revert other
    cases field <;> decide
  refine ⟨?_, misc⟩
  funext field
  unfold innerSpec after
  cases vni : maskIsEthL2TnlSet building.mask.misc with
  | false => simp [addWhen_false]
  | true =>
    have cleared := building.mask.clear_specFields true (dmacFields ++ firstVlanFields ++
        [.frag, .ethertype, .ipVersion, .cvlanTag, .svlanTag]) [.vxlanVni] field
    simp only [true_and]
    exact cleared

def innerTouched : List MaskField :=
  ethL2Tnl.touches true ++ ethL2Touched true ++ ethL3Touched true ++ l4MplsTouched true

private theorem buildInner_spec (innerIpv) : (buildInner env innerIpv building).idx =
        building.idx + innerCount env innerIpv building.mask ∧
      ∀ field ∉ innerTouched, (buildInner env innerIpv building).mask field = building.mask field := by
  obtain ⟨spec, misc⟩ := addTnl_spec env building
  have tnlKept field (still : field ∉ ethL2Tnl.touches true) : (building.addWhen env
      (maskIsEthL2TnlSet building.mask.misc) .ethL2Tnl true).mask field = building.mask field :=
      addWhen_untouched still building env _
  have tnlIdx := building.addWhen_idx env (maskIsEthL2TnlSet building.mask.misc) .ethL2Tnl true
  unfold buildInner
  dsimp only at spec misc ⊢
  generalize building.addWhen env (maskIsEthL2TnlSet building.mask.misc) .ethL2Tnl true =
    tnl at spec misc tnlKept tnlIdx ⊢
  have eth := buildEth_idx env true tnl innerIpv
  rw [spec, ethCount_congr (fun field mem => misc field (by revert field; decide))] at eth
  have ethKept field (still : field ∉ ethL2Tnl.touches true ++ ethL2Touched true ++ ethL3Touched true) :
      (buildEthL3 env true (buildEthL2 env true tnl) innerIpv).mask field = building.mask field := by
    simp only [mem_append, not_or] at still
    rw [buildEthL3_untouched still.2, buildEthL2_untouched still.1.2, tnlKept field still.1.1]
  generalize buildEthL3 env true (buildEthL2 env true tnl) innerIpv = header at eth ethKept ⊢
  have l4Mpls : l4MplsCount header.mask true = l4MplsCount building.mask true :=
    l4MplsCount_congr fun field mem => ethKept field (by revert field; decide +kernel)
  have gre : maskIsTnlMplsOverGre header.mask env.caps = maskIsTnlMplsOverGre building.mask env.caps :=
    maskIsTnlMplsOverGre_congr (fun field mem => ethKept _ (by revert field; decide +kernel)) env.caps
  have udp : maskIsTnlMplsOverUdp header.mask env.caps = maskIsTnlMplsOverUdp building.mask env.caps :=
    maskIsTnlMplsOverUdp_congr (fun field mem => ethKept _ (by revert field; decide +kernel)) env.caps
  refine ⟨?_, ?_⟩
  · rw [(buildL4Mpls_spec env true header).1, l4Mpls, gre, udp, eth, tnlIdx]
    unfold innerCount
    omega
  · intro field still
    rw [innerTouched, mem_append, not_or] at still
    rw [buildL4Mpls_untouched still.2, ethKept field still.1]

end Blocks

/-- The builders that a mask asks for, when MPLS over GRE and over UDP count one each. -/
def builderCount (env : BuildEnv) (mask : MatchParam) (outerIpv innerIpv : RuleIpv) : Nat :=
  registersCount env.dmnType mask + ethCount (mask.spec false) mask.misc false outerIpv +
    tunnelsCount env.caps mask + l4MplsCount mask false + icmpGreCount env.caps mask +
    (maskIsEthL2TnlSet mask.misc).toNat + ethCount (innerSpec mask) mask.misc true innerIpv +
    l4MplsCount mask true + (maskIsTnlMplsOverGre mask env.caps).toNat +
    (maskIsTnlMplsOverUdp mask env.caps).toNat + flexParsersCount mask.misc4

theorem criteriaHas_part {matchCriteria whole part} (within : whole &&& part = part)
    (absent : criteriaHas matchCriteria whole = false) :
    criteriaHas matchCriteria part = false := by
  simp only [criteriaHas, bne_eq_false_iff_eq] at absent ⊢
  rw [← within, ← BitVec.and_assoc, absent]
  exact BitVec.zero_and

theorem MatcherMask.start_zero {matcher : MatcherMask} {field : MaskField}
    (absent : criteriaHas matcher.matchCriteria field.criteria = false) (env) :
    matcher.start env field = 0 := by
  have copied : copyMask matcher.mask matcher.matchCriteria field = 0 := by
    rw [copyMask, if_neg (by simp [absent])]
  unfold MatcherMask.start
  split
  · rw [MatchParam.clear_apply]
    split
    · rfl
    · exact copied
  · exact copied

theorem anySet_zero {α : Type} {read} (zero : ∀ field, read field = 0)
    (fields : List α) : anySet read fields = false :=
  (anySet_eq_false_iff read fields).mpr fun field _ => zero field

theorem ethCount_zero {spec misc} (specZero : ∀ field, spec field = 0)
    (miscZero : ∀ field, misc field = 0) (inner : Bool) (ipv : RuleIpv) : ethCount spec misc inner ipv = 0 := by
  cases ipv <;>
    simp [ethCount, ethL2Count, ethL3Count, ethL3BaseSet, maskIsSmacSet, maskIsL2Dst,
      maskIsDstAddrSet, maskIsSrcAddrSet, maskIsTcpUdpBaseSet, maskIsTtlSet, maskIsIpv4Set,
      anySet_zero specZero, anySet_zero miscZero, specZero, miscZero]

theorem miscCounts_zero {mask} (misc : ∀ field, mask.misc field = 0)
    (misc2 : ∀ field, mask.misc2 field = 0) (misc3 : ∀ field, mask.misc3 field = 0) (env : BuildEnv) :
    registersCount env.dmnType mask = 0 ∧ tunnelsCount env.caps mask = 0 ∧
      (∀ inner, l4MplsCount mask inner = 0) ∧ icmpGreCount env.caps mask = 0 ∧
      maskIsEthL2TnlSet mask.misc = false ∧ maskIsTnlMplsOverGre mask env.caps = false ∧
      maskIsTnlMplsOverUdp mask env.caps = false := by
  refine ⟨?_, ?_, ?_, ?_, ?_, ?_, ?_⟩
  · simp [registersCount, maskIsWqeMetadataSet, maskIsRegC03Set, maskIsRegC47Set,
      maskIsGvmiOrQpnSet, anySet_zero misc, anySet_zero misc2, misc2]
  · simp [tunnelsCount, maskIsTnlVxlanGpe, maskIsTnlGeneve, maskIsVxlanGpeSet,
      maskIsTnlGeneveSet, anySet_zero misc, anySet_zero misc3]
  · intro inner
    simp [l4MplsCount, maskIsEthL4MiscSet, maskIsFirstMplsSet, anySet_zero misc2, anySet_zero misc3]
  · simp [icmpGreCount, maskIsIcmp, maskIsIcmpv4Set, maskIsIcmpv6Set, maskIsTnlGreSet,
      anySet_zero misc, anySet_zero misc3]
  · simp [maskIsEthL2TnlSet, misc]
  · simp [maskIsTnlMplsOverGre, maskIsOuterMplsOverGreSet, anySet_zero misc2]
  · simp [maskIsTnlMplsOverUdp, maskIsOuterMplsOverUdpSet, anySet_zero misc2]

theorem flexParsersCount_zero {misc4} (zero : ∀ field, misc4 field = 0) : flexParsersCount misc4 = 0 := by
  simp [flexParsersCount, maskIsFlexParser03Set, maskIsFlexParserId03Set, maskIsFlexParser47Set,
    maskIsFlexParserId47Set, zero]

theorem innerSpec_of_no_tnl {mask} (noTnl : maskIsEthL2TnlSet mask.misc = false) :
    innerSpec mask = mask.spec true := by
  funext field
  simp [innerSpec, noTnl]

private theorem innerSpec_congr {left right}
    (agree : Agree (.misc .vxlanVni :: SpecField.all.map (specField true)) left right) :
    innerSpec left = innerSpec right := by
  have vni : left.misc .vxlanVni = right.misc .vxlanVni := agree _ (.head _)
  have spec field : left.spec true field = right.spec true field :=
      agree _ (.tail _ (mem_map_of_mem field.mem_all))
  funext field
  unfold innerSpec maskIsEthL2TnlSet
  rw [vni, spec]

def outerParts : List (BitVec 8) := [criteriaOuter, criteriaMisc, criteriaMisc2, criteriaMisc3]

theorem outerBits_part : ∀ part ∈ outerParts, outerBits &&& part = part := by decide

def innerParts : List (BitVec 8) := [criteriaInner, criteriaMisc, criteriaMisc2, criteriaMisc3]

theorem innerBits_part : ∀ part ∈ innerParts, innerBits &&& part = part := by decide

section Total

variable (matcher : MatcherMask) (env : BuildEnv)

theorem MatcherMask.outerBlock_spec (outerIpv) : let start := matcher.start env
    let building := matcher.outerBlock env outerIpv { sb := [], mask := start }
    building.idx = outerCount env outerIpv start ∧ maskIsTnlMplsOverGre building.mask env.caps = false ∧
      maskIsTnlMplsOverUdp building.mask env.caps =
        (maskIsTnlMplsOverGre start env.caps && maskIsTnlMplsOverUdp start env.caps) ∧
      ∀ field ∉ outerTouched, building.mask field = start field := by
  intro start building
  unfold building MatcherMask.outerBlock
  cases wanted : criteriaHas matcher.matchCriteria outerBits with
  | true =>
    obtain ⟨idx, rest⟩ := buildOuter_spec env { sb := [], mask := start } outerIpv
    rw [if_pos rfl]
    refine ⟨?_, rest⟩
    rw [idx]
    exact zero_add _
  | false =>
    have zero (field : MaskField) (part : field.criteria ∈ outerParts) : start field = 0 :=
        MatcherMask.start_zero (criteriaHas_part (outerBits_part _ part) wanted) env
    obtain ⟨registers, tunnels, l4Mpls, icmpGre, -, gre, udp⟩ :=
      @miscCounts_zero start (fun field => zero (.misc field) (by simp [criteria, outerParts]))
        (fun field => zero (.misc2 field) (by simp [criteria, outerParts]))
        (fun field => zero (.misc3 field) (by simp [criteria, outerParts])) env
    have eth := @ethCount_zero (start.spec false) start.misc
      (fun field => zero (.outer field) (by simp [criteria, outerParts]))
      (fun field => zero (.misc field) (by simp [criteria, outerParts])) false outerIpv
    rw [if_neg Bool.false_ne_true]
    refine ⟨?_, gre, ?_, fun _ _ => rfl⟩
    · simp only [outerCount, registers, tunnels, l4Mpls, icmpGre, gre, udp, eth]
      rfl
    · rw [gre, udp]
      rfl

variable (outerIpv innerIpv : RuleIpv)

theorem MatcherMask.innerBlock_spec : let start := matcher.start env
    let outer := matcher.outerBlock env outerIpv { sb := [], mask := start }
    let building := matcher.innerBlock env innerIpv outer
    building.idx = outerCount env outerIpv start +
        ((maskIsEthL2TnlSet start.misc).toNat + ethCount (innerSpec start) start.misc true innerIpv +
          l4MplsCount start true +
          (maskIsTnlMplsOverGre start env.caps && maskIsTnlMplsOverUdp start env.caps).toNat) ∧
      ∀ field ∉ outerTouched ++ innerTouched, building.mask field = start field := by
  intro start outer building
  obtain ⟨outerIdx, gre, udp, kept⟩ := matcher.outerBlock_spec env outerIpv
  change maskIsTnlMplsOverGre outer.mask env.caps = _ at gre
  change maskIsTnlMplsOverUdp outer.mask env.caps = _ at udp
  change ∀ field ∉ outerTouched, outer.mask field = start field at kept
  unfold building MatcherMask.innerBlock
  cases wanted : criteriaHas matcher.matchCriteria innerBits with
  | true =>
    obtain ⟨idx, innerKept⟩ := buildInner_spec env outer innerIpv
    have vni : maskIsEthL2TnlSet outer.mask.misc = maskIsEthL2TnlSet start.misc := by
      have same : outer.mask (.misc .vxlanVni) = start (.misc .vxlanVni) := kept _ (by decide)
      simp only [maskIsEthL2TnlSet, MatchParam.misc, same]
    have spec : innerSpec outer.mask = innerSpec start :=
      innerSpec_congr fun field mem => kept field (by revert field; decide +kernel)
    have eth : ethCount (innerSpec start) outer.mask.misc true innerIpv =
        ethCount (innerSpec start) start.misc true innerIpv :=
      ethCount_congr (fun field mem => kept _ (by revert field; decide +kernel)) innerIpv
    have l4Mpls : l4MplsCount outer.mask true = l4MplsCount start true :=
      l4MplsCount_congr fun field mem => kept field (by revert field; decide +kernel)
    rw [if_pos rfl]
    refine ⟨?_, ?_⟩
    · rw [idx, outerIdx]
      simp only [innerCount, vni, spec, eth, l4Mpls, gre, udp, Bool.false_or]
      rfl
    · intro field still
      rw [mem_append, not_or] at still
      rw [innerKept field still.2, kept field still.1]
  | false =>
    have zero (field : MaskField) (part : field.criteria ∈ innerParts) : start field = 0 :=
        MatcherMask.start_zero (criteriaHas_part (innerBits_part _ part) wanted) env
    obtain ⟨-, -, l4Mpls, -, noTnl, noGre, -⟩ :=
      @miscCounts_zero start (fun field => zero (.misc field) (by simp [criteria, innerParts]))
        (fun field => zero (.misc2 field) (by simp [criteria, innerParts]))
        (fun field => zero (.misc3 field) (by simp [criteria, innerParts])) env
    have eth := @ethCount_zero (start.spec true) start.misc
      (fun field => zero (.inner field) (by simp [criteria, innerParts]))
      (fun field => zero (.misc field) (by simp [criteria, innerParts])) true innerIpv
    rw [if_neg Bool.false_ne_true]
    refine ⟨?_, ?_⟩
    · rw [outerIdx, innerSpec_of_no_tnl noTnl, eth, l4Mpls, noTnl, noGre]
      rfl
    · intro field still
      rw [mem_append, not_or] at still
      exact kept field still.1

theorem MatcherMask.build_idx : (matcher.build env outerIpv innerIpv).idx =
      builderCount env (matcher.start env) outerIpv innerIpv := by
  obtain ⟨idx, kept⟩ := matcher.innerBlock_spec env outerIpv innerIpv
  unfold MatcherMask.build
  dsimp only at idx kept ⊢
  generalize matcher.innerBlock env innerIpv
      (matcher.outerBlock env outerIpv { sb := [], mask := matcher.start env }) =
    building at idx kept ⊢
  have flex : (matcher.flexBlock env building).idx =
      building.idx + flexParsersCount (matcher.start env).misc4 := by
    unfold MatcherMask.flexBlock
    cases wanted : criteriaHas matcher.matchCriteria criteriaMisc4 with
    | true =>
      have same : building.mask.misc4 = (matcher.start env).misc4 :=
        funext fun field => kept _ (by cases field <;> decide)
      rw [if_pos rfl, buildFlexParsers_idx, same]
    | false =>
      have zero field : (matcher.start env).misc4 field = 0 :=
          @MatcherMask.start_zero matcher (.misc4 field) wanted env
      rw [if_neg Bool.false_ne_true, flexParsersCount_zero zero]
      rfl
  rw [flex, idx]
  unfold outerCount builderCount
  cases maskIsTnlMplsOverGre (matcher.start env) env.caps <;>
    cases maskIsTnlMplsOverUdp (matcher.start env) env.caps <;>
      simp only [Bool.or_false, Bool.or_true, Bool.and_false, Bool.and_true, Bool.or_self,
        Bool.and_self, Bool.toNat_true, Bool.toNat_false] <;>
      omega

end Total

theorem MatcherMask.start_of_empty {matcher : MatcherMask} (empty : matcher.matchCriteria = 0)
    (env) : matcher.start env = fun _ => 0 := by
  funext field
  apply MatcherMask.start_zero
  rw [empty, criteriaHas, bne_eq_false_iff_eq]
  exact BitVec.zero_and

private theorem builderCount_zero (env outerIpv innerIpv) :
    builderCount env (fun _ => 0) outerIpv innerIpv = 0 := by
  obtain ⟨registers, tunnels, l4Mpls, icmpGre, noTnl, gre, udp⟩ :=
    @miscCounts_zero (fun _ => 0) (fun _ => rfl) (fun _ => rfl) (fun _ => rfl) env
  have eth inner ipv : ethCount (MatchParam.spec (fun _ => 0) inner) (MatchParam.misc fun _ => 0) inner ipv =
      0 := ethCount_zero (fun _ => rfl) (fun _ => rfl) inner ipv
  have flex : flexParsersCount (MatchParam.misc4 fun _ => 0) = 0 := flexParsersCount_zero fun _ => rfl
  unfold builderCount
  rw [registers, tunnels, l4Mpls, l4Mpls, icmpGre, noTnl, gre, udp, innerSpec_of_no_tnl noTnl, eth, eth, flex]
  rfl

theorem setSteBuilders_written {matcher}
    (checked : steBuildPreCheck matcher.matchCriteria matcher.mask = true) (env)
    (outerIpv innerIpv) : (setSteBuilders matcher env outerIpv innerIpv).2 =
      matcher.steBuilders env outerIpv innerIpv := by
  unfold setSteBuilders
  rw [if_pos checked]
  dsimp only
  split
  · rfl
  · split <;> rfl

theorem MatcherMask.steBuilders_length (matcher : MatcherMask) (env outerIpv innerIpv) :
    let count := builderCount env (matcher.start env) outerIpv innerIpv
    let length := (matcher.steBuilders env outerIpv innerIpv).length
    length = count ∨ (count = 0 ∧ length = 1) := by
  intro count length
  have built : (matcher.build env outerIpv innerIpv).sb.length = count :=
    matcher.build_idx env outerIpv innerIpv
  unfold length MatcherMask.steBuilders
  dsimp only
  by_cases takesAll : ((matcher.build env outerIpv innerIpv).sb = [] ∧
      dropsSourcePort env (copyMask matcher.mask matcher.matchCriteria)) ∨ matcher.matchCriteria = 0
  · right
    have none : count = 0 := by
      rcases takesAll with ⟨noBuilder, -⟩ | empty
      · rw [← built, noBuilder]
        rfl
      · unfold count
        rw [matcher.start_of_empty empty]
        exact builderCount_zero env outerIpv innerIpv
    refine ⟨none, ?_⟩
    rw [if_pos takesAll, length_append, built, none]
    rfl
  · left
    rw [if_neg takesAll, built]

/-- `dr_matcher_set_ste_builders` stays inside the array exactly when it declines the source port
at once or the mask asks for at most seventeen builders. -/
theorem setSteBuilders_inBounds_iff (matcher : MatcherMask) (env : BuildEnv) (outerIpv innerIpv : RuleIpv) :
    (∀ i < (setSteBuilders matcher env outerIpv innerIpv).2.length, i < drRuleMaxStes) ↔
      steBuildPreCheck matcher.matchCriteria matcher.mask = false ∨
        builderCount env (matcher.start env) outerIpv innerIpv ≤ drRuleMaxStes := by
  have fits (length : Nat) : (∀ i < length, i < drRuleMaxStes) ↔ length ≤ drRuleMaxStes := by
    constructor
    · intro inside
      by_contra long
      exact absurd (inside drRuleMaxStes (by omega)) (lt_irrefl _)
    · intro short i below
      omega
  rw [fits]
  cases checked : steBuildPreCheck matcher.matchCriteria matcher.mask with
  | false =>
    have nothing : (setSteBuilders matcher env outerIpv innerIpv).2 = [] := by
      unfold setSteBuilders
      rw [if_neg (by simp [checked])]
    rw [nothing]
    simp
  | true =>
    have bound : 1 ≤ drRuleMaxStes := by decide
    rw [setSteBuilders_written checked]
    rcases matcher.steBuilders_length env outerIpv innerIpv with same | ⟨none, one⟩
    · rw [same]
      simp
    · rw [none, one]
      simp [bound]

/-- A mask of eighteen builders when both headers are IPv4, for both versions of the inner one. The last is
for its TCP numbers. -/
def crowdedMask : MatchParam
  | .misc2 .metadataRegA | .misc2 .metadataRegC0 | .misc2 .metadataRegC4 => 0xffffffff
  | .misc .sourcePort => 0xffff
  | .outer .smac15_0 | .outer .dmac15_0 | .outer .ethertype | .outer .tcpDport => 0xffff
  | .outer .ttlHoplimit | .inner .ttlHoplimit | .misc3 .outerVxlanGpeFlags => 0xff
  | .misc3 .outerTcpSeqNum | .misc3 .innerTcpSeqNum | .misc3 .icmpv4HeaderData => 0xffffffff
  | .misc2 .outerFirstMplsLabel => 0xfffff
  | .misc .greProtocol | .inner .smac15_0 | .inner .tcpDport => 0xffff
  | .misc .vxlanVni => 0xffffff
  | .inner .ipVersion => 0xf
  | _ => 0

def crowdedMatcher : MatcherMask where
  mask := crowdedMask
  matchCriteria := 0x1f

def crowdedCaps : BuilderCaps := ⟨0, 0x180, 0, 1, 2, 3, 4, 5, 6⟩

def crowdedEnv : BuildEnv where
  format := steFormatV0
  caps := crowdedCaps
  dmnType := .fdb
  rx := false
  found := fun _ => {}

example : builderCount crowdedEnv (crowdedMatcher.start crowdedEnv) .ipv4 .ipv4 = 18 := by decide +kernel

theorem crowded_overrun : ¬ ∀ i < (setSteBuilders crowdedMatcher crowdedEnv .ipv4 .ipv4).2.length,
      i < drRuleMaxStes := by
  decide +kernel

end MlnxOfed.Steering
