/-
The four arrays of builders of a matcher and its start table (dr_matcher.c).

`dr_matcher_set_all_ste_builders` fills an array for every pair of IP versions the mask allows, and
`dr_matcher_init_nic` takes the first builder of the last one for the start table. A rule takes the array of
its own versions, so all have to begin with the same builder. The arrays follow one another in memory, and a
builder keeps the bits of the bit mask it finds.
-/

import MlnxOfed.Steering.BuilderCount

namespace MlnxOfed.Steering

open Function Bool Option List Building MatcherMask

structure IpVersions where
  outerIpv4 : Bool
  outerIpv6 : Bool
  innerIpv4 : Bool
  innerIpv6 : Bool
  deriving DecidableEq

def headerIpVersions (ipVersion : Nat) (ipv6MaskPresent : Bool) : Bool × Bool :=
  if ipVersion = 0xf then (true, true)
  else if ipVersion = 6 ∨ ipv6MaskPresent then (false, true)
  else (true, false)

/-- `dr_matcher_get_mask_ip_versions`; `none` is `-EINVAL`. -/
def getMaskIpVersions (matcher : MatcherMask) : Option IpVersions :=
  let outer := criteriaHas matcher.matchCriteria criteriaOuter
  let inner := criteriaHas matcher.matchCriteria criteriaInner
  let outerIpv := if outer then matcher.mask.spec false .ipVersion else 0
  let outerIpv6MaskPresent := outer && maskIsIpv6OnlyMatchSet (matcher.mask.spec false)
  let innerIpv := if inner then matcher.mask.spec true .ipVersion else 0
  let innerIpv6MaskPresent := inner && maskIsIpv6OnlyMatchSet (matcher.mask.spec true)
  if (outerIpv = 4 ∧ outerIpv6MaskPresent) ∨ (innerIpv = 4 ∧ innerIpv6MaskPresent) then none
  else
    let outerVersions := headerIpVersions outerIpv outerIpv6MaskPresent
    let innerVersions := headerIpVersions innerIpv innerIpv6MaskPresent
    some
      { outerIpv4 := outerVersions.1
        outerIpv6 := outerVersions.2
        innerIpv4 := innerVersions.1
        innerIpv6 := innerVersions.2 }

/-- The calls of `dr_matcher_set_ste_builders`, in order. -/
def IpVersions.calls (versions : IpVersions) : List (RuleIpv × RuleIpv) :=
  (if versions.outerIpv4 && versions.innerIpv4 then [(.ipv4, .ipv4)] else []) ++
    (if versions.outerIpv4 && versions.innerIpv6 then [(.ipv4, .ipv6)] else []) ++
    (if versions.outerIpv6 && versions.innerIpv4 then [(.ipv6, .ipv4)] else []) ++
    if versions.outerIpv6 && versions.innerIpv6 then [(.ipv6, .ipv6)] else []

def RuleIpv.index : RuleIpv → Nat
  | .ipv4 => 0
  | .ipv6 => 1

/-- Where `ste_builder_arr[outer_ipv][inner_ipv]` begins, in builders. -/
def builderArr (ipv : RuleIpv × RuleIpv) : Nat :=
  drRuleMaxStes * (2 * ipv.1.index + ipv.2.index)

/-- What the builders use of `struct mlx5dr_matcher_rx_tx`; `steBuilderArr` is the memory from the first of
the four arrays on. -/
structure NicBuilders where
  steBuilderArr : Nat → SteBuild
  numOfBuilders : RuleIpv × RuleIpv → Nat
  steBuilder : Option (RuleIpv × RuleIpv)

def NicBuilders.new : NicBuilders where
  steBuilderArr := fun _ => {}
  numOfBuilders := fun _ => 0
  steBuilder := none

structure NicEnv where
  format : BuilderFormat
  caps : BuilderCaps
  dmnType : DomainType
  rx : Bool

def NicEnv.buildEnv (nicEnv : NicEnv) (found : Nat → SteBuild) : BuildEnv where
  format := nicEnv.format
  caps := nicEnv.caps
  dmnType := nicEnv.dmnType
  rx := nicEnv.rx
  found := found

def NicBuilders.buildEnv (nic : NicBuilders) (nicEnv : NicEnv) (ipv : RuleIpv × RuleIpv) : BuildEnv :=
  nicEnv.buildEnv fun k => nic.steBuilderArr (builderArr ipv + k)

/-- The memory after builders were written from `start` on. -/
def writeBuilders (memory : Nat → SteBuild) (start : Nat) (sb : List SteBuild) (position : Nat) : SteBuild :=
  if start ≤ position ∧ position < start + sb.length then
    sb.getD (position - start) (memory position)
  else
    memory position

/-- `dr_matcher_set_ste_builders` on the array for one pair of versions. -/
def NicBuilders.setSte (matcher : MatcherMask) (nicEnv : NicEnv) (nic : NicBuilders)
    (ipv : RuleIpv × RuleIpv) : NicBuilders :=
  let (ret, sb) := setSteBuilders matcher (nic.buildEnv nicEnv ipv) ipv.1 ipv.2
  let steBuilderArr := writeBuilders nic.steBuilderArr (builderArr ipv) sb
  match ret with
  | .ok =>
    { steBuilderArr := steBuilderArr
      numOfBuilders := update nic.numOfBuilders ipv sb.length
      steBuilder := some ipv }
  | _ => { nic with steBuilderArr := steBuilderArr }

def setAllSteBuilders (matcher : MatcherMask) (nicEnv : NicEnv) : Option NicBuilders :=
  match getMaskIpVersions matcher with
  | none => none
  | some versions =>
    let nic := versions.calls.foldl (NicBuilders.setSte matcher nicEnv) NicBuilders.new
    if nic.steBuilder.isSome then some nic else none

def NicBuilders.first (nic : NicBuilders) (ipv : RuleIpv × RuleIpv) : SteBuild :=
  nic.steBuilderArr (builderArr ipv)

/-- The lookup type and the byte mask of `s_htbl`, as `dr_matcher_init_nic` creates it. -/
def NicBuilders.startTable (nic : NicBuilders) : Option (BitVec 16 × BitVec 16) :=
  nic.steBuilder.map fun ipv => ((nic.first ipv).luType, (nic.first ipv).byteMask)

/-- `mlx5dr_matcher_select_builders` accepts the versions. -/
def NicBuilders.Populated (nic : NicBuilders) (ipv : RuleIpv × RuleIpv) : Prop :=
  nic.numOfBuilders ipv ≠ 0

/-! ### The first builder -/

/-- Two ways through the builders, equally far, with the same first one. -/
structure SameFirst (left right : Building) : Prop where
  first : left.sb.head? = right.sb.head?
  idx : left.idx = right.idx
  mask : left.mask = right.mask

def Building.Extends (before after : Building) : Prop := before.sb <+: after.sb

theorem Building.Extends.trans {first second third : Building} (earlier : first.Extends second)
    (later : second.Extends third) : first.Extends third :=
  IsPrefix.trans earlier later

theorem Building.add_extends (built : Building) (env kind)
    (inner) : built.Extends (built.add env kind inner) :=
  prefix_append _ _

theorem Building.addWhen_extends (built : Building) (env wanted kind inner) :
    built.Extends (built.addWhen env wanted kind inner) := by
  cases wanted with
  | false => exact prefix_refl _
  | true => exact built.add_extends env kind inner

theorem Building.Extends.first {old after : Building} (extended : old.Extends after)
    (nonempty : old.sb ≠ []) : after.sb.head? = old.sb.head? := by
  obtain ⟨more, appended⟩ := extended
  rw [← appended, head?_append_of_ne_nil _ nonempty]

section Same

variable (nicEnv : NicEnv) {found other : Nat → SteBuild} (foundFirst : found 0 = other 0)
include foundFirst

theorem SameFirst.add {left right} (same : SameFirst left right) (kind inner) :
    SameFirst (left.add (nicEnv.buildEnv found) kind inner)
      (right.add (nicEnv.buildEnv other) kind inner) := by
  refine ⟨?_, ?_, ?_⟩
  · unfold Building.add
    cases empty : left.sb with
    | nil =>
      have none : right.sb = [] := by
        rw [← head?_eq_none_iff, ← same.first, empty]
        rfl
      have leftIdx : left.idx = 0 := by rw [Building.idx, empty]; rfl
      have rightIdx : right.idx = 0 := by rw [Building.idx, none]; rfl
      simp only [none, nil_append, head?_cons, leftIdx, rightIdx, same.mask]
      simp only [NicEnv.buildEnv, foundFirst]
    | cons first rest =>
      have one : right.sb.head? = some first := by rw [← same.first, empty]; rfl
      obtain ⟨more, cons⟩ := head?_eq_some_iff.mp one
      rw [cons]
      rfl
  · rw [Building.add_idx, Building.add_idx, same.idx]
  · rw [Building.add_mask, Building.add_mask, same.mask]

theorem SameFirst.addWhen {left right} (same : SameFirst left right)
    (test : MatchParam → Bool) (kind inner) :
    SameFirst (left.addWhen (nicEnv.buildEnv found) (test left.mask) kind inner)
      (right.addWhen (nicEnv.buildEnv other) (test right.mask) kind inner) := by
  rw [same.mask]
  cases test right.mask with
  | false => exact same
  | true => exact same.add nicEnv foundFirst kind inner

theorem SameFirst.registers {left right} (same : SameFirst left right) :
    SameFirst (buildRegisters (nicEnv.buildEnv found) left)
      (buildRegisters (nicEnv.buildEnv other) right) := by
  have metadata := same.addWhen nicEnv foundFirst (fun mask => maskIsWqeMetadataSet mask.misc2)
    .generalPurpose false
  have regC03 := metadata.addWhen nicEnv foundFirst (fun mask => maskIsRegC03Set mask.misc2) .register0 false
  have regC47 := regC03.addWhen nicEnv foundFirst (fun mask => maskIsRegC47Set mask.misc2) .register1 false
  exact regC47.addWhen nicEnv foundFirst
    (fun mask =>
      maskIsGvmiOrQpnSet mask.misc && (nicEnv.dmnType == .fdb || nicEnv.dmnType == .nicRx))
    .srcGvmiQpn false

theorem SameFirst.ethL2 {left right} (same : SameFirst left right) (inner) :
    SameFirst (buildEthL2 (nicEnv.buildEnv found) inner left)
      (buildEthL2 (nicEnv.buildEnv other) inner right) := by
  have srcDst := same.addWhen nicEnv foundFirst
    (fun mask => maskIsSmacSet (mask.spec inner) && maskIsDmacSet (mask.spec inner)) .ethL2SrcDst
    inner
  have src := srcDst.addWhen nicEnv foundFirst (fun mask => maskIsSmacSet (mask.spec inner)) .ethL2Src inner
  exact src.addWhen nicEnv foundFirst (fun mask => maskIsL2Dst (mask.spec inner) mask.misc inner)
    .ethL2Dst inner

theorem SameFirst.ethL3 {left right} (same : SameFirst left right) (inner ipv) :
    SameFirst (buildEthL3 (nicEnv.buildEnv found) inner left ipv)
      (buildEthL3 (nicEnv.buildEnv other) inner right ipv) := by
  cases ipv with
  | ipv6 =>
    have dst := same.addWhen nicEnv foundFirst (fun mask => maskIsDstAddrSet (mask.spec inner))
      .ethL3Ipv6Dst inner
    have src := dst.addWhen nicEnv foundFirst (fun mask => maskIsSrcAddrSet (mask.spec inner))
      .ethL3Ipv6Src inner
    exact src.addWhen nicEnv foundFirst
      (fun mask => maskIsEthL4Set (mask.spec inner) mask.misc inner) .ethIpv6L3L4 inner
  | ipv4 =>
    have tuple := same.addWhen nicEnv foundFirst
      (fun mask => maskIsIpv4_5TupleSet (mask.spec inner)) .ethL3Ipv4_5Tuple inner
    exact tuple.addWhen nicEnv foundFirst (fun mask => maskIsTtlSet (mask.spec inner)) .ethL3Ipv4Misc inner

theorem SameFirst.tunnels {left right} (same : SameFirst left right) :
    SameFirst (buildTunnels (nicEnv.buildEnv found) left) (buildTunnels (nicEnv.buildEnv other) right) := by
  unfold buildTunnels
  rw [same.mask]
  change SameFirst (if maskIsTnlVxlanGpe right.mask nicEnv.caps then _ else _)
    (if maskIsTnlVxlanGpe right.mask nicEnv.caps then _ else _)
  split
  · exact same.add nicEnv foundFirst _ _
  change SameFirst (if maskIsTnlGeneve right.mask nicEnv.caps then _ else _)
    (if maskIsTnlGeneve right.mask nicEnv.caps then _ else _)
  split
  · exact (same.add nicEnv foundFirst .tnlGeneve false).addWhen nicEnv foundFirst
      (fun mask => maskIsTnlGeneveTlvOption mask.misc3) _ _
  · exact same

theorem SameFirst.mplsOver {left right} (same : SameFirst left right) (inner) :
    SameFirst (buildMplsOver (nicEnv.buildEnv found) inner left)
      (buildMplsOver (nicEnv.buildEnv other) inner right) := by
  unfold buildMplsOver
  rw [same.mask]
  change SameFirst (if maskIsTnlMplsOverGre right.mask nicEnv.caps then _ else _)
    (if maskIsTnlMplsOverGre right.mask nicEnv.caps then _ else _)
  split
  · exact same.add nicEnv foundFirst _ _
  · exact same.addWhen nicEnv foundFirst (fun _ => maskIsTnlMplsOverUdp right.mask nicEnv.caps) _ _

theorem SameFirst.l4Mpls {left right} (same : SameFirst left right) (inner) :
    SameFirst (buildL4Mpls (nicEnv.buildEnv found) inner left)
      (buildL4Mpls (nicEnv.buildEnv other) inner right) := by
  have l4Misc := same.addWhen nicEnv foundFirst (fun mask => maskIsEthL4MiscSet mask.misc3 inner)
    .ethL4Misc inner
  have mpls := l4Misc.addWhen nicEnv foundFirst (fun mask => maskIsFirstMplsSet mask.misc2 inner) .mpls inner
  exact mpls.mplsOver nicEnv foundFirst inner

theorem SameFirst.icmpGre {left right} (same : SameFirst left right) :
    SameFirst (buildIcmpGre (nicEnv.buildEnv found) left) (buildIcmpGre (nicEnv.buildEnv other) right) := by
  have icmp := same.addWhen nicEnv foundFirst (fun mask => maskIsIcmp mask nicEnv.caps) .icmp false
  exact icmp.addWhen nicEnv foundFirst (fun mask => maskIsTnlGreSet mask.misc) .tnlGre false

theorem SameFirst.outer {left right} (same : SameFirst left right) (ipv) :
    SameFirst (buildOuter (nicEnv.buildEnv found) ipv left)
      (buildOuter (nicEnv.buildEnv other) ipv right) := by
  have header := ((same.registers nicEnv foundFirst).ethL2 nicEnv foundFirst false).ethL3 nicEnv
    foundFirst false ipv
  exact ((header.tunnels nicEnv foundFirst).l4Mpls nicEnv foundFirst false).icmpGre nicEnv foundFirst

end Same

section Prefixes

variable (env : BuildEnv)

variable (inner : Bool)

theorem buildEthL3_extends (built : Building) (ipv) :
    built.Extends (buildEthL3 env inner built ipv) := by
  cases ipv with
  | ipv6 =>
    exact ((built.addWhen_extends env _ _ _).trans
      (addWhen_extends _ env _ _ _)).trans (addWhen_extends _ env _ _ _)
  | ipv4 =>
    exact (built.addWhen_extends env _ _ _).trans (addWhen_extends _ env _ _ _)

variable (building : Building)

private theorem buildTunnels_extends : building.Extends (buildTunnels env building) := by
  unfold buildTunnels
  split
  · exact building.add_extends env _ _
  · split
    · exact (building.add_extends env _ _).trans (addWhen_extends _ env _ _ _)
    · exact prefix_refl _

private theorem buildMplsOver_extends (built : Building) : built.Extends (buildMplsOver env inner built) := by
  unfold buildMplsOver
  split
  · exact built.add_extends env _ _
  · exact built.addWhen_extends env _ _ _

theorem buildL4Mpls_extends (built : Building) : built.Extends (buildL4Mpls env inner built) := by
  exact ((built.addWhen_extends env _ _ _).trans
    (addWhen_extends _ env _ _ _)).trans (buildMplsOver_extends env inner _)

private theorem buildIcmpGre_extends : building.Extends (buildIcmpGre env building) :=
  (building.addWhen_extends env _ _ _).trans (addWhen_extends _ env _ _ _)

private theorem buildOuter_extends (outerIpv building) :
    (buildEthL2 env false (buildRegisters env building)).Extends (buildOuter env outerIpv building) :=
  (((buildEthL3_extends env false _ outerIpv).trans (buildTunnels_extends env _)).trans
    (buildL4Mpls_extends env false _)).trans (buildIcmpGre_extends env _)

private theorem buildEthL2_extends (built : Building) : built.Extends (buildEthL2 env inner built) :=
  ((built.addWhen_extends env _ _ _).trans (addWhen_extends _ env _ _ _)).trans (addWhen_extends _ env _ _ _)

def buildInnerL2 (building : Building) : Building :=
  buildEthL2 env true (building.addWhen env (maskIsEthL2TnlSet building.mask.misc) .ethL2Tnl true)

private theorem buildInnerL2_extends : building.Extends (buildInnerL2 env building) :=
  (building.addWhen_extends env _ _ _).trans (buildEthL2_extends env true _)

theorem buildInner_extends (innerIpv built) :
    (buildInnerL2 env built).Extends (buildInner env innerIpv built) :=
  (buildEthL3_extends env true _ innerIpv).trans (buildL4Mpls_extends env true _)

private theorem buildFlexParsers_extends : building.Extends (buildFlexParsers env building) :=
  (building.addWhen_extends env _ _ _).trans (addWhen_extends _ env _ _ _)

theorem Building.ne_nil_of_idx {built : Building} (reached : built.idx ≠ 0) : built.sb ≠ [] := by
  intro empty
  apply reached
  rw [idx, empty]
  rfl

theorem ethL2Count_ne_zero {spec} (version : spec .ipVersion ≠ 0)
    (misc : MiscField → Nat) (inner) : ethL2Count spec misc inner ≠ 0 := by
  have l2Dst : maskIsL2Dst spec misc inner = true := by simp [maskIsL2Dst, anySet, version]
  unfold ethL2Count
  rw [l2Dst]
  split
  · omega
  · split <;> decide

private theorem buildHeader_ne_nil {built} (version : built.mask.spec false .ipVersion ≠ 0) :
    (buildEthL2 env false (buildRegisters env built)).sb ≠ [] := by
  apply ne_nil_of_idx
  have kept : (buildRegisters env built).mask.spec false .ipVersion = built.mask.spec false .ipVersion :=
    buildRegisters_untouched (by decide) env built
  rw [(buildEthL2_spec env false _).1]
  have counted := ethL2Count_ne_zero (kept ▸ version) (buildRegisters env built).mask.misc false
  omega

private theorem buildInnerL2_ne_nil {built} (version : built.mask.spec true .ipVersion ≠ 0) :
    (buildInnerL2 env built).sb ≠ [] := by
  apply ne_nil_of_idx
  unfold buildInnerL2
  rw [(buildEthL2_spec env true _).1, addWhen_idx]
  cases vni : maskIsEthL2TnlSet built.mask.misc with
  | true =>
    rw [toNat_true]
    omega
  | false =>
    have counted := ethL2Count_ne_zero version built.mask.misc true
    rw [addWhen_false]
    omega

end Prefixes

theorem MatcherMask.steBuilders_of_ne_nil {matcher : MatcherMask} {env : BuildEnv} {outerIpv innerIpv : RuleIpv}
    (nonempty : (matcher.build env outerIpv innerIpv).sb ≠ []) (criteria : matcher.matchCriteria ≠ 0) :
    matcher.steBuilders env outerIpv innerIpv = (matcher.build env outerIpv innerIpv).sb := by
  unfold steBuilders
  rw [if_neg]
  rintro (⟨none, -⟩ | empty)
  · exact nonempty none
  · exact criteria empty

theorem MatcherMask.criteria_ne_zero {matcher : MatcherMask} {env : BuildEnv} {field : MaskField}
    (set : matcher.start env field ≠ 0) : matcher.matchCriteria ≠ 0 := by
  intro empty
  rw [matcher.start_of_empty empty] at set
  exact set rfl

section FirstBuilder

variable (matcher : MatcherMask) (nicEnv : NicEnv)

def MatcherMask.outerL2 (env : BuildEnv) : Building :=
  buildEthL2 env false (buildRegisters env { sb := [], mask := matcher.start env })

def MatcherMask.outerBuilders (env : BuildEnv) (outerIpv : RuleIpv) : Building :=
  matcher.outerBlock env outerIpv { sb := [], mask := matcher.start env }

theorem MatcherMask.flexBlock_extends (env) (built : Building) :
    built.Extends (matcher.flexBlock env built) := by
  unfold flexBlock
  split
  · exact buildFlexParsers_extends env built
  · exact prefix_refl _

theorem MatcherMask.build_extends_outer (env outerIpv innerIpv) :
    (matcher.outerBuilders env outerIpv).Extends (matcher.build env outerIpv innerIpv) := by
  have inner : (matcher.outerBuilders env outerIpv).Extends
      (matcher.innerBlock env innerIpv (matcher.outerBuilders env outerIpv)) := by
    unfold innerBlock
    split
    · exact (buildInnerL2_extends env _).trans (buildInner_extends env innerIpv _)
    · exact prefix_refl _
  exact inner.trans (matcher.flexBlock_extends env _)

theorem MatcherMask.build_extends_inner {env outerIpv}
    (wanted : criteriaHas matcher.matchCriteria innerBits = true) (innerIpv) :
    (buildInnerL2 env (matcher.outerBuilders env outerIpv)).Extends
      (matcher.build env outerIpv innerIpv) := by
  have inner : (buildInnerL2 env (matcher.outerBuilders env outerIpv)).Extends
      (matcher.innerBlock env innerIpv (matcher.outerBuilders env outerIpv)) := by
    rw [innerBlock, if_pos wanted]
    exact buildInner_extends env innerIpv _
  exact inner.trans (matcher.flexBlock_extends env _)

private theorem first_of_outer_version {env : BuildEnv}
    (version : (matcher.start env).spec false .ipVersion ≠ 0) (outerIpv innerIpv) :
    (matcher.steBuilders env outerIpv innerIpv).head? = (matcher.outerL2 env).sb.head? := by
  have wanted : criteriaHas matcher.matchCriteria outerBits = true := by
    by_contra absent
    have part := criteriaHas_part (outerBits_part criteriaOuter (by decide)) (eq_false_iff.mpr absent)
    exact version (@start_zero matcher (.outer .ipVersion) part env)
  have nonempty : (matcher.outerL2 env).sb ≠ [] :=
    @buildHeader_ne_nil env { sb := [], mask := matcher.start env } version
  have extended : (matcher.outerL2 env).Extends (matcher.build env outerIpv innerIpv) := by
    have block := matcher.build_extends_outer env outerIpv innerIpv
    rw [outerBuilders, outerBlock, if_pos wanted] at block
    exact (buildOuter_extends env outerIpv _).trans block
  have first := extended.first nonempty
  have more : (matcher.build env outerIpv innerIpv).sb ≠ [] := by
    intro none
    rw [none, head?_nil, eq_comm, head?_eq_none_iff] at first
    exact nonempty first
  rw [steBuilders_of_ne_nil more (@criteria_ne_zero matcher env (.outer .ipVersion) version), first]

private theorem first_of_inner_version {env : BuildEnv} (version : (matcher.start env).spec true .ipVersion ≠ 0)
    (outerIpv innerIpv) : (matcher.steBuilders env outerIpv innerIpv).head? =
      (buildInnerL2 env (matcher.outerBuilders env outerIpv)).sb.head? := by
  have wanted : criteriaHas matcher.matchCriteria innerBits = true := by
    by_contra absent
    have part := criteriaHas_part (innerBits_part criteriaInner (by decide)) (eq_false_iff.mpr absent)
    exact version (@start_zero matcher (.inner .ipVersion) part env)
  have kept : (matcher.outerBuilders env outerIpv).mask.spec true .ipVersion =
      (matcher.start env).spec true .ipVersion :=
    (matcher.outerBlock_spec env outerIpv).2.2.2 (.inner .ipVersion) (by decide +kernel)
  have nonempty : (buildInnerL2 env (matcher.outerBuilders env outerIpv)).sb ≠ [] :=
    buildInnerL2_ne_nil env (kept ▸ version)
  have first := (matcher.build_extends_inner wanted innerIpv).first nonempty
  have more : (matcher.build env outerIpv innerIpv).sb ≠ [] := by
    intro none
    rw [none, head?_nil, eq_comm, head?_eq_none_iff] at first
    exact nonempty first
  rw [steBuilders_of_ne_nil more (@criteria_ne_zero matcher env (.inner .ipVersion) version), first]

private theorem first_eq {found other : Nat → SteBuild} (foundFirst : found 0 = other 0)
    {left right : RuleIpv × RuleIpv}
    (version : (matcher.start (nicEnv.buildEnv found)).spec false .ipVersion ≠ 0 ∨
      (left.1 = right.1 ∧ (matcher.start (nicEnv.buildEnv found)).spec true .ipVersion ≠ 0)) :
    (matcher.steBuilders (nicEnv.buildEnv found) left.1 left.2).head? =
      (matcher.steBuilders (nicEnv.buildEnv other) right.1 right.2).head? := by
  have start : SameFirst { sb := [], mask := matcher.start (nicEnv.buildEnv found) }
      { sb := [], mask := matcher.start (nicEnv.buildEnv other) } := ⟨rfl, rfl, rfl⟩
  rcases version with outer | ⟨sameOuter, inner⟩
  · rw [first_of_outer_version matcher outer, @first_of_outer_version matcher (nicEnv.buildEnv other) outer]
    exact ((start.registers nicEnv foundFirst).ethL2 nicEnv foundFirst false).first
  have block : SameFirst (matcher.outerBuilders (nicEnv.buildEnv found) left.1)
      (matcher.outerBuilders (nicEnv.buildEnv other) right.1) := by
    rw [sameOuter]
    unfold outerBuilders outerBlock
    split
    · exact start.outer nicEnv foundFirst right.1
    · exact start
  rw [first_of_inner_version matcher inner, @first_of_inner_version matcher (nicEnv.buildEnv other) inner]
  exact ((block.addWhen nicEnv foundFirst (fun mask => maskIsEthL2TnlSet mask.misc) .ethL2Tnl
    true).ethL2 nicEnv foundFirst true).first

end FirstBuilder

/-! ### Filling the four arrays -/

/-- The builders a call for a pair of versions needs, whatever the format or memory. -/
def NicEnv.count (nicEnv : NicEnv) (matcher : MatcherMask) (ipv : RuleIpv × RuleIpv) : Nat :=
  let env := nicEnv.buildEnv fun _ => {}
  builderCount env (matcher.start env) ipv.1 ipv.2

/-- No call writes into an array filled after it, or past the four arrays, where the counts lie. -/
def NoSpill (matcher : MatcherMask) (nicEnv : NicEnv) (calls : List (RuleIpv × RuleIpv)) : Prop :=
  (calls.Pairwise fun earlier later =>
      builderArr earlier + nicEnv.count matcher earlier ≤ builderArr later) ∧
    ∀ call ∈ calls, builderArr call + nicEnv.count matcher call ≤ 4 * drRuleMaxStes

instance (matcher : MatcherMask) (nicEnv : NicEnv) (calls : List (RuleIpv × RuleIpv)) :
    Decidable (NoSpill matcher nicEnv calls) :=
  inferInstanceAs (Decidable (_ ∧ _))

theorem IpVersions.calls_sorted (versions : IpVersions) :
    versions.calls.Pairwise fun earlier later => builderArr earlier < builderArr later := by
  obtain ⟨outerIpv4, outerIpv6, innerIpv4, innerIpv6⟩ := versions
  cases outerIpv4 <;> cases outerIpv6 <;> cases innerIpv4 <;> cases innerIpv6 <;> decide

variable {memory : Nat → SteBuild} {sb : List SteBuild}

private theorem writeBuilders_outside {start position} (outside : position < start ∨ start + sb.length ≤ position) :
    writeBuilders memory start sb position = memory position := by
  unfold writeBuilders
  rw [if_neg (by omega)]

private theorem writeBuilders_start {start}
    (nonempty : sb ≠ []) : sb.head? = some (writeBuilders memory start sb start) := by
  cases sb with
  | nil => exact absurd rfl nonempty
  | cons first rest => simp [writeBuilders]

section Filling

variable (matcher : MatcherMask) (nicEnv : NicEnv)

def NicBuilders.BeginsAs (nic : NicBuilders) (ipv : RuleIpv × RuleIpv) : Prop :=
  ∃ found : Nat → SteBuild, found 0 = {} ∧
    (matcher.steBuilders (nicEnv.buildEnv found) ipv.1 ipv.2).head? = some (nic.first ipv)

def NicBuilders.Used (nic : NicBuilders) (ipv : RuleIpv × RuleIpv) : Prop :=
  nic.Populated ipv ∨ nic.steBuilder = some ipv

/-- Between the calls: arrays to be filled begin with zeros, those in use with their first builder and lie
before them. -/
structure NicBuilders.Filled (nic : NicBuilders) (all rest : List (RuleIpv × RuleIpv)) :
    Prop where
  fresh : ∀ call ∈ rest, nic.first call = {}
  called : ∀ ipv, nic.Used ipv → ipv ∈ all
  begins : ∀ ipv, nic.Used ipv → nic.BeginsAs matcher nicEnv ipv
  before : ∀ ipv, nic.Used ipv → ∀ call ∈ rest, builderArr ipv < builderArr call

private theorem setSteBuilders_length_le (found) (ipv : RuleIpv × RuleIpv) :
    (setSteBuilders matcher (nicEnv.buildEnv found) ipv.1 ipv.2).2.length ≤
      max 1 (nicEnv.count matcher ipv) := by
  cases checked : steBuildPreCheck matcher.matchCriteria matcher.mask with
  | false =>
    unfold setSteBuilders
    rw [if_neg (by simp [checked])]
    exact Nat.zero_le _
  | true =>
    rw [setSteBuilders_written checked]
    rcases matcher.steBuilders_length (nicEnv.buildEnv found) ipv.1 ipv.2 with same | ⟨-, one⟩
    · rw [same]
      exact Nat.le_max_right _ _
    · rw [one]
      exact Nat.le_max_left _ _

variable {ipv : RuleIpv × RuleIpv}

private theorem setSteBuilders_ok {env} (ok : (setSteBuilders matcher env ipv.1 ipv.2).1 = .ok) :
    (setSteBuilders matcher env ipv.1 ipv.2).2 = matcher.steBuilders env ipv.1 ipv.2 ∧
      matcher.steBuilders env ipv.1 ipv.2 ≠ [] := by
  cases checked : steBuildPreCheck matcher.matchCriteria matcher.mask with
  | false =>
    unfold setSteBuilders at ok
    rw [if_neg (by simp [checked])] at ok
    cases ok
  | true =>
    refine ⟨setSteBuilders_written checked env ipv.1 ipv.2, ?_⟩
    intro none
    unfold setSteBuilders at ok
    rw [if_pos checked] at ok
    rw [if_pos none] at ok
    cases ok

theorem NicBuilders.setSte_arr (nic : NicBuilders) (ipv : RuleIpv × RuleIpv) :
    (nic.setSte matcher nicEnv ipv).steBuilderArr = writeBuilders nic.steBuilderArr (builderArr ipv)
        (setSteBuilders matcher (nic.buildEnv nicEnv ipv) ipv.1 ipv.2).2 := by
  unfold NicBuilders.setSte
  dsimp only
  split <;> rfl

variable {nic : NicBuilders}

theorem NicBuilders.setSte_used {ipv other} (used : (nic.setSte matcher nicEnv ipv).Used other) :
    nic.Used other ∨ (other = ipv ∧
        (setSteBuilders matcher (nic.buildEnv nicEnv ipv) ipv.1 ipv.2).1 = .ok) := by
  cases res : (setSteBuilders matcher (nic.buildEnv nicEnv ipv) ipv.1 ipv.2).1 with
  | ok =>
    by_cases same : other = ipv
    · exact .inr ⟨same, rfl⟩
    · left
      simp only [NicBuilders.Used, NicBuilders.Populated, NicBuilders.setSte, res] at used ⊢
      rw [update_of_ne same, some_inj] at used
      exact .inl (used.resolve_right fun here => same here.symm)
  | einval | eopnotsupp =>
    left
    simpa only [NicBuilders.Used, NicBuilders.Populated, NicBuilders.setSte, res] using used

theorem NicBuilders.Filled.setSte {all rest} (filled : nic.Filled matcher nicEnv all (ipv :: rest))
    (called : ipv ∈ all) (sorted : ∀ later ∈ rest, builderArr ipv < builderArr later)
    (room : ∀ later ∈ rest, builderArr ipv + nicEnv.count matcher ipv ≤ builderArr later) :
    (nic.setSte matcher nicEnv ipv).Filled matcher nicEnv all rest := by
  have length := setSteBuilders_length_le matcher nicEnv (fun k => nic.steBuilderArr (builderArr ipv + k)) ipv
  have arr := nic.setSte_arr matcher nicEnv ipv
  have outside other (apart : builderArr other < builderArr ipv ∨ other ∈ rest) :
      (nic.setSte matcher nicEnv ipv).first other = nic.first other := by
    unfold NicBuilders.first
    rw [arr, writeBuilders_outside]
    rcases apart with below | later
    · exact .inl below
    right
    have far := room other later
    have above := sorted other later
    have bound : builderArr ipv + max 1 (nicEnv.count matcher ipv) ≤ builderArr other := by omega
    exact le_trans (Nat.add_le_add_left length _) bound
  have earlier other (used : nic.Used other) : (nic.setSte matcher nicEnv ipv).first other = nic.first other :=
      outside other (.inl (filled.before other used ipv (.head _)))
  refine ⟨?_, ?_, ?_, ?_⟩
  · intro call mem
    rw [outside call (.inr mem)]
    exact filled.fresh call (.tail _ mem)
  · intro other used
    rcases NicBuilders.setSte_used matcher nicEnv used with old | ⟨rfl, -⟩
    · exact filled.called other old
    · exact called
  · intro other used
    rcases NicBuilders.setSte_used matcher nicEnv used with old | ⟨rfl, ok⟩
    · obtain ⟨found, zero, begins⟩ := filled.begins other old
      exact ⟨found, zero, by rw [begins, earlier other old]⟩
    · obtain ⟨written, nonempty⟩ := setSteBuilders_ok matcher ok
      refine ⟨fun k => nic.steBuilderArr (builderArr other + k), filled.fresh other (.head _), ?_⟩
      unfold NicBuilders.first
      rw [arr, written]
      exact writeBuilders_start nonempty
  · intro other used call mem
    rcases NicBuilders.setSte_used matcher nicEnv used with old | ⟨rfl, -⟩
    · exact filled.before other old call (.tail _ mem)
    · exact sorted call mem

theorem NicBuilders.new_filled (calls : List (RuleIpv × RuleIpv)) :
    NicBuilders.new.Filled matcher nicEnv calls calls := by
  have unused : ∀ ipv, ¬ NicBuilders.new.Used ipv := by
    rintro ipv (populated | taken)
    · exact populated rfl
    · cases taken
  exact ⟨fun _ _ => rfl, fun ipv used => absurd used (unused ipv),
    fun ipv used => absurd used (unused ipv), fun ipv used => absurd used (unused ipv)⟩

theorem NicBuilders.Filled.calls {all : List (RuleIpv × RuleIpv)} :
    ∀ {rest : List (RuleIpv × RuleIpv)} {nic : NicBuilders}, nic.Filled matcher nicEnv all rest → rest ⊆ all →
      (rest.Pairwise fun earlier later => builderArr earlier < builderArr later) →
      (rest.Pairwise fun earlier later =>
        builderArr earlier + nicEnv.count matcher earlier ≤ builderArr later) →
        (rest.foldl (NicBuilders.setSte matcher nicEnv) nic).Filled matcher nicEnv all []
  | [], _, filled, _, _, _ => filled
  | ipv :: rest, nic, filled, within, sorted, room => by
      obtain ⟨above, sorted⟩ := pairwise_cons.mp sorted
      obtain ⟨far, room⟩ := pairwise_cons.mp room
      exact (filled.setSte matcher nicEnv (within (.head _)) above far).calls
        (fun call mem => within (.tail _ mem)) sorted room

private theorem headerIpVersions_both {ipVersion ipv6MaskPresent}
    (both : (headerIpVersions ipVersion ipv6MaskPresent).1 = true ∧
      (headerIpVersions ipVersion ipv6MaskPresent).2 = true) : ipVersion = 0xf := by
  unfold headerIpVersions at both
  by_contra other
  rw [if_neg other] at both
  split at both
  · exact absurd both.1 (by simp)
  · exact absurd both.2 (by simp)

private theorem start_spec {matcher : MatcherMask} {inner : Bool} {field : SpecField}
    (here : criteriaHas matcher.matchCriteria (specField inner field).criteria = true)
    (env) : (matcher.start env).spec inner field = matcher.mask.spec inner field := by
  have copied : copyMask matcher.mask matcher.matchCriteria (specField inner field) =
      matcher.mask (specField inner field) := if_pos here
  unfold start MatchParam.spec
  dsimp only
  split
  · rw [MatchParam.clear_of_not_mem, copied]
    cases inner <;> simp [specField]
  · exact copied

variable {versions : IpVersions}

private theorem start_ipVersion (read : getMaskIpVersions matcher = some versions) (env) :
    (versions.outerIpv4 = true ∧ versions.outerIpv6 = true → (matcher.start env).spec false .ipVersion ≠ 0) ∧
      (versions.innerIpv4 = true ∧ versions.innerIpv6 = true →
        (matcher.start env).spec true .ipVersion ≠ 0) := by
  obtain ⟨-, eq⟩ := ite_none_left_eq_some.mp read
  have same := some.inj eq
  subst same
  refine ⟨?_, ?_⟩
  · intro both
    have version := headerIpVersions_both both
    cases here : criteriaHas matcher.matchCriteria criteriaOuter with
    | false => simp [here] at version
    | true =>
      rw [here, if_pos rfl] at version
      rw [@start_spec matcher false .ipVersion here env, version]
      decide
  intro both
  have version := headerIpVersions_both both
  cases here : criteriaHas matcher.matchCriteria criteriaInner with
  | false => simp [here] at version
  | true =>
    rw [here, if_pos rfl] at version
    rw [@start_spec matcher true .ipVersion here env, version]
    decide

theorem IpVersions.mem_calls (called : ipv ∈ versions.calls) :
    (ipv.1 = .ipv4 → versions.outerIpv4 = true) ∧ (ipv.1 = .ipv6 → versions.outerIpv6 = true) ∧
      (ipv.2 = .ipv4 → versions.innerIpv4 = true) ∧
      (ipv.2 = .ipv6 → versions.innerIpv6 = true) := by
  obtain ⟨outerIpv4, outerIpv6, innerIpv4, innerIpv6⟩ := versions
  revert ipv
  cases outerIpv4 <;> cases outerIpv6 <;> cases innerIpv4 <;> cases innerIpv6 <;>
    simp [IpVersions.calls]

theorem RuleIpv.both {left right : RuleIpv} (differ : left ≠ right) {v4 v6 : Bool}
    (leftV4 : left = .ipv4 → v4 = true) (leftV6 : left = .ipv6 → v6 = true)
    (rightV4 : right = .ipv4 → v4 = true) (rightV6 : right = .ipv6 → v6 = true) :
    v4 = true ∧ v6 = true := by
  cases left <;> cases right <;> simp_all

private theorem version_of_calls (read : getMaskIpVersions matcher = some versions) {left right}
    (leftCalled : left ∈ versions.calls) (rightCalled : right ∈ versions.calls) (differ : left ≠ right)
    (env) : (matcher.start env).spec false .ipVersion ≠ 0 ∨
      (left.1 = right.1 ∧ (matcher.start env).spec true .ipVersion ≠ 0) := by
  obtain ⟨outer, inner⟩ := start_ipVersion matcher read env
  obtain ⟨leftO4, leftO6, leftI4, leftI6⟩ := IpVersions.mem_calls leftCalled
  obtain ⟨rightO4, rightO6, rightI4, rightI6⟩ := IpVersions.mem_calls rightCalled
  by_cases sameOuter : left.1 = right.1
  · have differInner : left.2 ≠ right.2 := fun same => differ (Prod.ext sameOuter same)
    exact .inr ⟨sameOuter, inner (RuleIpv.both differInner leftI4 leftI6 rightI4 rightI6)⟩
  · exact .inl (outer (RuleIpv.both sameOuter leftO4 leftO6 rightO4 rightO6))

/-- Where no call spills into an array filled after it, all arrays in use begin with the same builder, that
of the start table. -/
theorem setAllSteBuilders_startTable {versions : IpVersions} {nic : NicBuilders}
    (read : getMaskIpVersions matcher = some versions) (noSpill : NoSpill matcher nicEnv versions.calls)
    (filled : setAllSteBuilders matcher nicEnv = some nic) (ipv : RuleIpv × RuleIpv)
    (populated : nic.Populated ipv) :
    nic.startTable = some ((nic.first ipv).luType, (nic.first ipv).byteMask) := by
  have all := (NicBuilders.new_filled matcher nicEnv versions.calls).calls matcher nicEnv
    (Subset.refl _) versions.calls_sorted noSpill.1
  unfold setAllSteBuilders at filled
  rw [read] at filled
  dsimp only at filled
  split at filled
  · next taken =>
      obtain ⟨last, lastEq⟩ := isSome_iff_exists.mp taken
      have same := some.inj filled
      rw [same] at all lastEq
      unfold NicBuilders.startTable
      rw [lastEq, map_some]
      by_cases here : last = ipv
      · rw [here]
      have lastUsed : nic.Used last := .inr lastEq
      have used : nic.Used ipv := .inl populated
      obtain ⟨found, zero, begins⟩ := all.begins ipv used
      obtain ⟨lastFound, lastZero, lastBegins⟩ := all.begins last lastUsed
      have version := version_of_calls matcher read (all.called last lastUsed)
        (all.called ipv used) here (nicEnv.buildEnv lastFound)
      have first := first_eq matcher nicEnv (lastZero.trans zero.symm) version
      rw [begins, lastBegins, some_inj] at first
      rw [first]
  · cases filled

end Filling

def versionsMatcher : MatcherMask where
  mask
    | .outer .dmac15_0 | .outer .tcpDport | .inner .tcpDport => 0xffff
    | .outer .ipVersion | .inner .ipVersion => 0xf
    | _ => 0
  matchCriteria := 0x05

def versionsEnv : NicEnv where
  format := steFormatV0
  caps := ⟨0, 0, 0, 1, 2, 3, 4, 5, 6⟩
  dmnType := .nicRx
  rx := true

theorem versions_startTable : ∃ nic, setAllSteBuilders versionsMatcher versionsEnv = some nic ∧
      nic.startTable = some ((nic.first (.ipv4, .ipv6)).luType,
        (nic.first (.ipv4, .ipv6)).byteMask) := by
  have run : (setAllSteBuilders versionsMatcher versionsEnv).map
      (fun nic => nic.numOfBuilders (.ipv4, .ipv6)) = some 4 := by
    decide +kernel
  obtain ⟨nic, filled, count⟩ := map_eq_some_iff.mp run
  have populated : nic.Populated (.ipv4, .ipv6) := by
    rw [NicBuilders.Populated, count]
    decide
  have read : getMaskIpVersions versionsMatcher = some ⟨true, true, true, true⟩ := by
    decide +kernel
  exact ⟨nic, filled, setAllSteBuilders_startTable versionsMatcher versionsEnv read
    (by decide +kernel) filled (.ipv4, .ipv6) populated⟩

def crowdedNic : NicEnv where
  format := steFormatV0
  caps := crowdedCaps
  dmnType := .fdb
  rx := false

theorem crowded_startTable : ∃ nic, setAllSteBuilders crowdedMatcher crowdedNic = some nic ∧
      nic.Populated (.ipv4, .ipv4) ∧ nic.Populated (.ipv4, .ipv6) ∧
        nic.startTable ≠ some ((nic.first (.ipv4, .ipv4)).luType,
          (nic.first (.ipv4, .ipv4)).byteMask) := by
  have run : ((setAllSteBuilders crowdedMatcher crowdedNic).map fun nic =>
        (nic.numOfBuilders (.ipv4, .ipv4), nic.numOfBuilders (.ipv4, .ipv6), nic.startTable,
          (nic.first (.ipv4, .ipv4)).luType, (nic.first (.ipv4, .ipv4)).byteMask)) =
      some (18, 17, some (0x18, 0xff00), 0x18, 0xf000) := by
    decide +kernel
  obtain ⟨nic, filled, facts⟩ := map_eq_some_iff.mp run
  simp only [Prod.mk.injEq] at facts
  obtain ⟨first, second, table, luType, byteMask⟩ := facts
  refine ⟨nic, filled, ?_, ?_, ?_⟩
  · rw [NicBuilders.Populated, first]
    decide
  · rw [NicBuilders.Populated, second]
    decide
  · rw [table, luType, byteMask]
    decide

end MlnxOfed.Steering
