/-
Entries of one table stay unique when every insertion is undisturbed.

A call that searched a group knows that it has no counted entry with its value as long as the version stays.
Other calls keep this knowledge: an entry is counted together with an increment of the version.
-/

import MlnxOfed.FsCore.AddFlowRules

namespace MlnxOfed.FsCore.AddFlowRules

open List Function Lib

variable {Criteria Value : Type} [DecidableEq Criteria] [DecidableEq Value]

/-! ### What a call knows -/

structure Shared (Criteria Value : Type) where
  ftVersion : Nat
  groups : List (GroupId Criteria)
  version : GroupId Criteria → Nat
  ftes : List (Fte Criteria Value)

def FsState.shared (state : FsState Criteria Value) : Shared Criteria Value :=
  { state with }

/-- The call knows all groups with its criteria while the table's version stays, and read no later versions.
Its own group may have the address of a known one. -/
structure Collected (shared : Shared Criteria Value) (adder : Adder Criteria Value) (bump : Nat)
    (own : Option (GroupId Criteria)) : Prop where
  later : adder.ftVersion + bump ≤ shared.ftVersion
  complete : shared.ftVersion = adder.ftVersion + bump → ∀ group ∈ shared.groups,
    group.mask = adder.criteria → group ∈ adder.matchHead ∨ own = some group
  bounded : shared.ftVersion = adder.ftVersion + bump → ∀ entry ∈ adder.read,
    own ≠ some entry.1 → entry.2 ≤ shared.version entry.1

/-- While its version stays, a searched group has no counted entry with the value. -/
def Missed (shared : Shared Criteria Value) (adder : Adder Criteria Value) (bump : Nat)
    (own : Option (GroupId Criteria)) (group : GroupId Criteria) : Prop :=
  shared.ftVersion = adder.ftVersion + bump → own ≠ some group → ∀ counter, (group, counter) ∈ adder.read →
    shared.version group = counter → ∀ entry ∈ shared.ftes, entry.group = group →
      entry.val = adder.value → entry.status ≠ .counted

structure Searched (shared : Shared Criteria Value) (adder : Adder Criteria Value) (bump : Nat)
    (own : Option (GroupId Criteria)) : Prop where
  collected : Collected shared adder bump own
  reads : adder.read.map Prod.fst = adder.matchHead
  missed : ∀ group ∈ adder.matchHead, Missed shared adder bump own group

def PhaseInv (shared : Shared Criteria Value) (adder : Adder Criteria Value) : Prop :=
  match adder.phase with
  | .idle => True
  | .readVersions rest =>
    Collected shared adder 0 none ∧ adder.read.map Prod.fst ++ rest = adder.matchHead
  | .search rest =>
    Collected shared adder 0 none ∧ adder.read.map Prod.fst = adder.matchHead ∧
      ∃ done, done ++ rest = adder.matchHead ∧ ∀ group ∈ done, Missed shared adder 0 none group
  | .checkTable => Searched shared adder 0 none
  | .checkGroups _ _ => Searched shared adder 0 none
  | .insert _ rest => Searched shared adder 0 none ∧ ∀ group ∈ rest, group ∈ adder.matchHead
  | .lockTable _ => Searched shared adder 0 none
  | .autoGroup group =>
    Searched shared adder 1 (some group) ∧ group ∈ shared.groups ∧
      group.mask = adder.criteria ∧ ∀ entry ∈ shared.ftes, entry.group ≠ group
  | .waitFte group fte => ∃ entry ∈ shared.ftes, entry.id = fte ∧ entry.group = group
  | .fill group fte => ∃ entry ∈ shared.ftes, entry.id = fte ∧ entry.group = group
  | .count group fte => ∃ entry ∈ shared.ftes, entry.id = fte ∧ entry.group = group

structure AdderInv (shared : Shared Criteria Value) (adder : Adder Criteria Value) : Prop where
  masks : adder.phase ≠ .idle → ∀ group ∈ adder.matchHead, group.mask = adder.criteria
  listed : adder.phase.holdsList → ∀ group ∈ adder.matchHead, group ∈ shared.groups
  phase : PhaseInv shared adder

structure Keeps (before after : Shared Criteria Value) (adder : Adder Criteria Value) : Prop where
  later : before.ftVersion ≤ after.ftVersion
  groups : after.ftVersion = before.ftVersion → ∀ group ∈ after.groups, group ∈ before.groups
  versions : after.ftVersion = before.ftVersion → ∀ group, before.version group ≤ after.version group
  counted : after.ftVersion = before.ftVersion → ∀ group,
    after.version group = before.version group → ∀ entry ∈ after.ftes, entry.group = group →
      entry.status = .counted →
        ∃ old ∈ before.ftes, old.group = group ∧ old.val = entry.val ∧ old.status = .counted
  referred : ∀ fte, adder.phase.refers fte → ∀ entry ∈ before.ftes, entry.id = fte →
    ∃ kept ∈ after.ftes, kept.id = fte ∧ kept.group = entry.group
  own : ∀ group, adder.phase = .autoGroup group → group ∈ before.groups →
    (∀ entry ∈ before.ftes, entry.group ≠ group) →
      group ∈ after.groups ∧ ∀ entry ∈ after.ftes, entry.group ≠ group
  listed : adder.phase.holdsList → ∀ group ∈ adder.matchHead, group ∈ before.groups → group ∈ after.groups

section Keeps

variable {before after : Shared Criteria Value} {adder : Adder Criteria Value}
  {bump : Nat} {own : Option (GroupId Criteria)}

omit [DecidableEq Criteria] [DecidableEq Value]

theorem Keeps.same_version (keeps : Keeps old after adder)
    (collected : adder.ftVersion + bump ≤ old.ftVersion) (same : after.ftVersion = adder.ftVersion + bump) :
    after.ftVersion = old.ftVersion ∧ old.ftVersion = adder.ftVersion + bump := by
  have later := keeps.later
  omega

theorem Collected.keep (collected : Collected before adder bump own)
    (keeps : Keeps before after adder) : Collected after adder bump own where
  later := le_trans collected.later keeps.later
  complete same group member := by
    obtain ⟨unchanged, old⟩ := keeps.same_version collected.later same
    exact collected.complete old group (keeps.groups unchanged group member)
  bounded same entry member notOwn := by
    obtain ⟨unchanged, old⟩ := keeps.same_version collected.later same
    exact le_trans (collected.bounded old entry member notOwn) (keeps.versions unchanged _)

theorem Missed.keep {group} (missed : Missed before adder bump own group)
    (collected : Collected before adder bump own) (keeps : Keeps before after adder) :
    Missed after adder bump own group := by
  intro same notOwn counter read version entry mem inGroup value counted
  obtain ⟨unchanged, old⟩ := keeps.same_version collected.later same
  -- the version was read before, so it cannot have come back to the value read
  have bounded := collected.bounded old _ read notOwn
  have later := keeps.versions unchanged group
  have still : after.version group = before.version group := by
    simp only at bounded
    omega
  obtain ⟨earlier, earlierIn, earlierGroup, earlierValue, earlierCounted⟩ :=
    keeps.counted unchanged group still entry mem inGroup counted
  exact missed old notOwn counter read (still.symm.trans version) earlier earlierIn earlierGroup
    (earlierValue.trans value) earlierCounted

theorem Searched.keep (searched : Searched old adder bump own)
    (keeps : Keeps old after adder) : Searched after adder bump own where
  collected := searched.collected.keep keeps
  reads := searched.reads
  missed group member := (searched.missed group member).keep searched.collected keeps

private theorem referred_keep (keeps : Keeps old after adder) {fte group}
    (refers : adder.phase.refers fte) (here : ∃ entry ∈ old.ftes, entry.id = fte ∧ entry.group = group) :
    ∃ entry ∈ after.ftes, entry.id = fte ∧ entry.group = group := by
  obtain ⟨entry, mem, same, inGroup⟩ := here
  obtain ⟨kept, keptIn, keptSame, keptGroup⟩ := keeps.referred fte refers entry mem same
  exact ⟨kept, keptIn, keptSame, keptGroup.trans inGroup⟩

theorem AdderInv.keep (inv : AdderInv old adder) (keeps : Keeps old after adder) :
    AdderInv after adder where
  masks := inv.masks
  listed holds group member :=
    keeps.listed holds group member (inv.listed holds group member)
  phase := by
    have known := inv.phase
    unfold PhaseInv at known ⊢
    split
    · trivial
    · rename_i rest phase
      rw [phase] at known
      exact ⟨known.1.keep keeps, known.2⟩
    · rename_i rest phase
      rw [phase] at known
      obtain ⟨collected, reads, done, split, missed⟩ := known
      exact ⟨collected.keep keeps, reads, done, split, fun group member =>
        (missed group member).keep collected keeps⟩
    · rename_i phase
      rw [phase] at known
      exact Searched.keep known keeps
    · rename_i phase
      rw [phase] at known
      exact Searched.keep known keeps
    · rename_i phase
      rw [phase] at known
      exact ⟨known.1.keep keeps, known.2⟩
    · rename_i phase
      rw [phase] at known
      exact Searched.keep known keeps
    · rename_i group phase
      rw [phase] at known
      obtain ⟨searched, listed, mask, empty⟩ := known
      obtain ⟨stillListed, stillEmpty⟩ := keeps.own group phase listed empty
      exact ⟨searched.keep keeps, stillListed, mask, stillEmpty⟩
    · rename_i group fte phase
      rw [phase] at known
      exact referred_keep keeps (by rw [phase]; rfl) known
    · rename_i group fte phase
      rw [phase] at known
      exact referred_keep keeps (by rw [phase]; rfl) known
    · rename_i group fte phase
      rw [phase] at known
      exact referred_keep keeps (by rw [phase]; rfl) known

end Keeps

/-! ### Changes of the shared state -/

def restatus (fte : Nat) (status : FteStatus) (entry : Fte Criteria Value) : Fte Criteria Value :=
  if entry.id = fte then { entry with status := status } else entry

section Changes

variable {shared : Shared Criteria Value} {adder : Adder Criteria Value}

omit [DecidableEq Criteria] [DecidableEq Value]

theorem restatus_id (fte status) (entry : Fte Criteria Value) :
    (restatus fte status entry).id = entry.id := by
  unfold restatus
  split <;> rfl

theorem restatus_group (fte status) (entry : Fte Criteria Value) :
    (restatus fte status entry).group = entry.group := by
  unfold restatus
  split <;> rfl

theorem restatus_val (fte status) (entry : Fte Criteria Value) :
    (restatus fte status entry).val = entry.val := by
  unfold restatus
  split <;> rfl

theorem Keeps.refl (shared : Shared Criteria Value) (adder : Adder Criteria Value) :
    Keeps shared shared adder where
  later := le_rfl
  groups _ _ member := member
  versions _ _ := le_rfl
  counted _ _ _ entry member inGroup counted := ⟨entry, member, inGroup, rfl, counted⟩
  referred _ _ entry member same := ⟨entry, member, same, rfl⟩
  own _ _ listed empty := ⟨listed, empty⟩
  listed _ _ _ listed := listed

private theorem keeps_insert {entry} (inserted : entry.status = .inserted)
    (elsewhere : adder.phase ≠ .autoGroup entry.group) :
    Keeps shared { shared with ftes := entry :: shared.ftes } adder where
  later := le_rfl
  groups _ _ member := member
  versions _ _ := le_rfl
  counted _ group _ other member inGroup counted := by
    rcases mem_cons.mp member with rfl | old
    · rw [inserted] at counted
      cases counted
    · exact ⟨other, old, inGroup, rfl, counted⟩
  referred _ _ other member same := ⟨other, mem_cons_of_mem _ member, same, rfl⟩
  own group phase listed empty := by
    refine ⟨listed, ?_⟩
    intro other member
    rcases mem_cons.mp member with rfl | old
    · intro same
      exact elsewhere (same ▸ phase)
    · exact empty other old
  listed _ _ _ listed := listed

/-- Only the status `counted` takes knowledge away, and then the group's version moves on. -/
theorem keeps_restatus {fte status}
    {version} (grows : ∀ group, shared.version group ≤ version group)
    (moves : status = .counted → ∀ entry ∈ shared.ftes, entry.id = fte →
      version entry.group ≠ shared.version entry.group) :
    Keeps shared { shared with
      version := version
      ftes := shared.ftes.map (restatus fte status) } adder where
  later := le_rfl
  groups _ _ member := member
  versions _ := grows
  counted _ group still other member inGroup counted := by
    obtain ⟨old, oldIn, rfl⟩ := mem_map.mp member
    rw [restatus_group] at inGroup
    refine ⟨old, oldIn, inGroup, (restatus_val _ _ _).symm, ?_⟩
    by_cases changed : old.id = fte
    · have isCounted : status = .counted := by
        rw [restatus, if_pos changed] at counted
        exact counted
      have moved := moves isCounted old oldIn changed
      rw [inGroup] at moved
      exact absurd still moved
    · rw [restatus, if_neg changed] at counted
      exact counted
  referred other _ entry member same := by
    exact ⟨restatus fte status entry, mem_map_of_mem member,
      (restatus_id _ _ _).trans same, restatus_group _ _ _⟩
  own group _ listed empty := by
    refine ⟨listed, ?_⟩
    intro other member
    obtain ⟨old, oldIn, rfl⟩ := mem_map.mp member
    rw [restatus_group]
    exact empty old oldIn
  listed _ _ _ listed := listed

private theorem keeps_remove {fte} (unreferenced : ¬adder.phase.refers fte) :
    Keeps shared { shared with ftes := removeKey Fte.id shared.ftes fte } adder where
  later := le_rfl
  groups _ _ member := member
  versions _ _ := le_rfl
  counted _ _ _ other member inGroup counted := by
    exact ⟨other, (mem_removeKey.mp member).1, inGroup, rfl, counted⟩
  referred other refers entry member same := by
    refine ⟨entry, mem_removeKey.mpr ⟨member, ?_⟩, same, rfl⟩
    rw [same]
    rintro rfl
    exact unreferenced refers
  own _ _ listed empty := ⟨listed, fun other member => empty other (mem_removeKey.mp member).1⟩
  listed _ _ _ listed := listed

theorem keeps_addGroup {group version} :
    Keeps shared { shared with
      ftVersion := shared.ftVersion + 1
      groups := group :: shared.groups
      version := version } adder where
  later := Nat.le_succ _
  groups same := absurd same (Nat.succ_ne_self _)
  versions same := absurd same (Nat.succ_ne_self _)
  counted same := absurd same (Nat.succ_ne_self _)
  referred _ _ entry mem same := ⟨entry, mem, same, rfl⟩
  own _ _ listed empty := ⟨.tail _ listed, empty⟩
  listed _ _ _ listed := mem_cons_of_mem _ listed

end Changes

private theorem keeps_removeGroup {shared : Shared Criteria Value} {adder : Adder Criteria Value}
    {group : GroupId Criteria} (unheld : ¬adder.phase.holdsGroup group)
    (unlisted : adder.phase.holdsList → group ∉ adder.matchHead) :
    Keeps shared { shared with groups := shared.groups.filter fun other => other ≠ group }
      adder where
  later := le_rfl
  groups _ _ member := (mem_filter.mp member).1
  versions _ _ := le_rfl
  counted _ _ _ entry member inGroup counted := ⟨entry, member, inGroup, rfl, counted⟩
  referred _ _ entry member same := ⟨entry, member, same, rfl⟩
  own other phase listed empty := by
    refine ⟨mem_filter.mpr ⟨listed, ?_⟩, empty⟩
    rw [decide_eq_true_eq]
    rintro rfl
    exact unheld (by rw [phase]; rfl)
  listed holds other member listed := by
    refine mem_filter.mpr ⟨listed, ?_⟩
    rw [decide_eq_true_eq]
    rintro rfl
    exact unlisted holds member

/-! ### The invariant -/

/-- Entries are unique whatever their status, and every call knows what its phase
says. -/
structure FsState.Inv (state : FsState Criteria Value) : Prop where
  unique : ∀ left ∈ state.ftes, ∀ right ∈ state.ftes, left.group.mask = right.group.mask →
    left.val = right.val → left = right
  ids : (state.ftes.map Fte.id).Nodup
  inGroups : ∀ entry ∈ state.ftes, entry.group ∈ state.groups
  calls : ∀ i, AdderInv state.shared (state.adders i)
  alone : ∀ i j group, (state.adders i).phase = .autoGroup group →
    (state.adders j).phase = .autoGroup group → i = j

section Steps

variable {state : FsState Criteria Value}

theorem FsState.Inv.known (inv : state.Inv) {i phase}
    (same : (state.adders i).phase = phase) :
    PhaseInv state.shared { state.adders i with phase := phase } := by
  rw [← same]
  exact (inv.calls i).phase

theorem FsState.Inv.change (inv : state.Inv) (changed : FsState Criteria Value)
    (adders : changed.adders = state.adders)
    (unique : ∀ left ∈ changed.ftes, ∀ right ∈ changed.ftes,
      left.group.mask = right.group.mask → left.val = right.val → left = right)
    (ids : (changed.ftes.map Fte.id).Nodup)
    (inGroups : ∀ entry ∈ changed.ftes, entry.group ∈ changed.groups) {i}
    (others : ∀ j, j ≠ i → Keeps state.shared changed.shared (state.adders j))
    {adder} (self : AdderInv changed.shared adder)
    (alone : ∀ group, adder.phase = .autoGroup group → ∀ j, j ≠ i → (state.adders j).phase ≠ .autoGroup group) :
    (changed.setAdder i adder).Inv := by
  refine ⟨unique, ids, inGroups, ?_, ?_⟩
  · intro j
    change AdderInv changed.shared (update changed.adders i adder j)
    by_cases same : j = i
    · subst same
      rw [update_self]
      exact self
    · rw [update_of_ne same, adders]
      exact (inv.calls j).keep (others j same)
  intro j k group first second
  change (update changed.adders i adder j).phase = _ at first
  change (update changed.adders i adder k).phase = _ at second
  by_cases isFirst : j = i
  · by_cases isSecond : k = i
    · rw [isFirst, isSecond]
    · rw [isFirst, update_self] at first
      rw [update_of_ne isSecond, adders] at second
      exact absurd second (alone group first k isSecond)
  by_cases isSecond : k = i
  · rw [isSecond, update_self] at second
    rw [update_of_ne isFirst, adders] at first
    exact absurd first (alone group second j isFirst)
  · rw [update_of_ne isFirst, adders] at first
    rw [update_of_ne isSecond, adders] at second
    exact inv.alone j k group first second

theorem FsState.Inv.own (inv : state.Inv) {i adder}
    (self : AdderInv state.shared adder) (plain : ∀ group, adder.phase ≠ .autoGroup group) :
    (state.setAdder i adder).Inv :=
  inv.change state rfl inv.unique inv.ids inv.inGroups (fun _ _ => Keeps.refl _ _) self
    fun group auto => absurd auto (plain group)

theorem FsState.Inv.next (inv : state.Inv) {i old phase}
    (now : (state.adders i).phase = old) (busy : old ≠ .idle) (list : phase.holdsList → old.holdsList)
    (known : PhaseInv state.shared { state.adders i with phase := phase })
    (plain : ∀ group, phase ≠ .autoGroup group) : (state.setPhase i phase).Inv := by
  rw [← now] at busy list
  refine inv.own ⟨?_, ?_, known⟩ plain
  · intro _
    exact (inv.calls i).masks busy
  · intro held
    exact (inv.calls i).listed (list held)

theorem FsState.Inv.shared (inv : state.Inv) {changed : FsState Criteria Value}
    (adders : changed.adders = state.adders)
    (unique : ∀ left ∈ changed.ftes, ∀ right ∈ changed.ftes,
      left.group.mask = right.group.mask → left.val = right.val → left = right)
    (ids : (changed.ftes.map Fte.id).Nodup)
    (inGroups : ∀ entry ∈ changed.ftes, entry.group ∈ changed.groups)
    (keeps : ∀ j, Keeps state.shared changed.shared (state.adders j)) : changed.Inv := by
  refine ⟨unique, ids, inGroups, ?_, ?_⟩
  · intro j
    rw [adders]
    exact (inv.calls j).keep (keeps j)
  · rw [adders]
    exact inv.alone

theorem FsState.Inv.restatus_unique (inv : state.Inv) (fte status left)
    (leftIn : left ∈ state.ftes.map (restatus fte status)) (right) (rightIn : right ∈ state.ftes.map
    (restatus fte status)) (sameMask : left.group.mask = right.group.mask) (sameVal : left.val = right.val) :
    left = right := by
  obtain ⟨oldLeft, oldLeftIn, rfl⟩ := mem_map.mp leftIn
  obtain ⟨oldRight, oldRightIn, rfl⟩ := mem_map.mp rightIn
  rw [restatus_group, restatus_group] at sameMask
  rw [restatus_val, restatus_val] at sameVal
  rw [inv.unique oldLeft oldLeftIn oldRight oldRightIn sameMask sameVal]

theorem FsState.Inv.restatus_ids (inv : state.Inv) (fte status) :
    ((state.ftes.map (restatus fte status)).map Fte.id).Nodup := by
  have same : (state.ftes.map (restatus fte status)).map Fte.id = state.ftes.map Fte.id := by
    rw [map_map]
    exact map_congr_left fun entry _ => restatus_id fte status entry
  rw [same]
  exact inv.ids

theorem FsState.Inv.restatus_inGroups (inv : state.Inv) (fte status entry)
    (mem : entry ∈ state.ftes.map (restatus fte status)) : entry.group ∈ state.groups := by
  obtain ⟨old, oldIn, rfl⟩ := mem_map.mp mem
  rw [restatus_group]
  exact inv.inGroups old oldIn

theorem FsState.Inv.absent (inv : state.Inv) {i bump own}
    (searched : Searched state.shared (state.adders i) bump own) (same : state.ftVersion =
    (state.adders i).ftVersion + bump) (groups : ∀ entry ∈ (state.adders i).read, state.version entry.1 =
    entry.2) (settled : ∀ entry ∈ state.ftes, entry.group.mask = (state.adders i).criteria → entry.val =
    (state.adders i).value → entry.status = .counted) (empty : ∀ group, own = some group → ∀ entry ∈
    state.ftes, entry.group ≠ group) (entry) (mem : entry ∈ state.ftes) (mask : entry.group.mask =
    (state.adders i).criteria) : entry.val ≠ (state.adders i).value := by
  intro value
  have counted := settled entry mem mask value
  have notOwn : own ≠ some entry.group := fun isOwn => empty _ isOwn entry mem rfl
  have matched := (searched.collected.complete same _ (inv.inGroups entry mem) mask).resolve_right
    notOwn
  rw [← searched.reads] at matched
  obtain ⟨⟨group, counter⟩, read, rfl⟩ := mem_map.mp matched
  have matchedHead : entry.group ∈ (state.adders i).matchHead := by
    rw [← searched.reads]
    exact matched
  exact searched.missed _ matchedHead same notOwn counter read (groups _ read) entry mem rfl
    value counted

theorem FsState.Inv.insert (inv : state.Inv) {i fte group}
    {active} (listed : group ∈ state.groups)
    (mask : group.mask = (state.adders i).criteria)
    (masks : ∀ matched ∈ (state.adders i).matchHead, matched.mask = (state.adders i).criteria)
    (fresh : fte ∉ state.ftes.map Fte.id)
    (free : ∀ j, j ≠ i → (state.adders j).phase ≠ .autoGroup group)
    (absent : ∀ entry ∈ state.ftes, entry.group.mask = (state.adders i).criteria →
      entry.val ≠ (state.adders i).value) :
    (inserted { state with active := active } i fte group).Inv := by
  refine inv.change { state with
    active := active
    ftes := ⟨fte, group, (state.adders i).value, .inserted⟩ :: state.ftes } rfl ?_ ?_ ?_ ?_ ?_ ?_
  · intro left leftIn right rightIn sameMask sameVal
    rcases mem_cons.mp leftIn with rfl | leftOld
    · rcases mem_cons.mp rightIn with rfl | rightOld
      · rfl
      · exact absurd sameVal.symm (absent right rightOld (sameMask.symm.trans mask))
    · rcases mem_cons.mp rightIn with rfl | rightOld
      · exact absurd sameVal (absent left leftOld (sameMask.trans mask))
      · exact inv.unique left leftOld right rightOld sameMask sameVal
  · exact nodup_cons.mpr ⟨fresh, inv.ids⟩
  · intro entry mem
    rcases mem_cons.mp mem with rfl | old
    · exact listed
    · exact inv.inGroups entry old
  · intro j other
    exact keeps_insert rfl (free j other)
  · refine ⟨fun _ => masks, fun held => held.elim, ?_⟩
    exact ⟨_, .head _, rfl, rfl⟩
  · intro other auto
    cases auto

end Steps

/-! ### Every step keeps the invariant -/

section Rephase

variable {shared : Shared Criteria Value} {adder : Adder Criteria Value} {bump : Nat}
  {own : Option (GroupId Criteria)}

omit [DecidableEq Criteria] [DecidableEq Value]

theorem Collected.rephase {phase}
    (collected : Collected shared { adder with phase := phase } bump own)
    (other : Phase Criteria) : Collected shared { adder with phase := other } bump own :=
  { collected with }

theorem Searched.rephase {phase}
    (searched : Searched shared { adder with phase := phase } bump own)
    (other : Phase Criteria) : Searched shared { adder with phase := other } bump own :=
  ⟨searched.collected.rephase other, searched.reads, searched.missed⟩

end Rephase

section Steps

variable {state : FsState Criteria Value} {i : Nat}

theorem FsState.Inv.collect (inv : state.Inv) (i criteria value) :
    (collected state i criteria value).Inv := by
  refine inv.own ⟨?_, ?_, ?_⟩ nofun
  · intro _ group mem
    exact of_decide_eq_true (mem_filter.mp mem).2
  · intro _ group mem
    exact (mem_filter.mp mem).1
  · refine ⟨⟨le_rfl, ?_, ?_⟩, rfl⟩
    · intro _ group mem mask
      exact .inl (mem_filter.mpr ⟨mem, decide_eq_true mask⟩)
    · intro _ entry mem
      cases mem

theorem FsState.Inv.readVersion (inv : state.Inv) {group}
    {rest}
    (phase : (state.adders i).phase = .readVersions (group :: rest)) :
    (state.setAdder i { state.adders i with
      read := (state.adders i).read ++ [(group, state.version group)]
      phase := .readVersions rest }).Inv := by
  obtain ⟨collected, reads⟩ : Collected state.shared _ 0 none ∧ _ ++ group :: rest = _ := inv.known phase
  have busy : (state.adders i).phase.holdsList := by
    rw [phase]
    trivial
  refine inv.own ⟨fun _ => (inv.calls i).masks (by rw [phase]; nofun),
    fun _ => (inv.calls i).listed busy, { collected with bounded := ?_ }, ?_⟩ nofun
  · intro same entry mem notOwn
    rcases mem_append.mp mem with old | new
    · exact collected.bounded same entry old notOwn
    · rw [mem_singleton.mp new]
      exact le_rfl
  · rw [map_append, append_assoc]
    exact reads

theorem FsState.Inv.lookupMissed (inv : state.Inv) {group}
    {rest}
    (phase : (state.adders i).phase = .search (group :: rest))
    (missed : (∀ entry ∈ state.ftes, entry.group = group → entry.val ≠ (state.adders i).value) ∨
      ∃ entry ∈ state.ftes, entry.group = group ∧ entry.val = (state.adders i).value ∧
        entry.status.active = false) :
    (state.setPhase i (.search rest)).Inv := by
  obtain ⟨collected, reads, done, split, before⟩ : Collected state.shared _ 0 none ∧ _ ∧
      ∃ done, done ++ group :: rest = _ ∧ ∀ group ∈ done, Missed state.shared _ 0 none group :=
    inv.known phase
  refine inv.next phase nofun id ⟨collected.rephase _, reads, done ++ [group], ?_, ?_⟩ nofun
  · rw [append_assoc]
    exact split
  intro other mem
  rcases mem_append.mp mem with old | new
  · exact before other old
  rw [mem_singleton.mp new]
  intro _ _ counter _ _ entry listed inGroup value counted
  rcases missed with none | ⟨found, foundIn, foundGroup, foundValue, inactive⟩
  · exact none entry listed inGroup value
  · -- the hash has one entry with the value, so the one it returned is this one
    have same := inv.unique entry listed found foundIn (by rw [inGroup, foundGroup])
      (value.trans foundValue.symm)
    rw [← same, counted] at inactive
    cases inactive

theorem FsState.Inv.lookupFound (inv : state.Inv) {group rest}
    (phase : (state.adders i).phase = .search (group :: rest)) {entry}
    (listed : entry ∈ state.ftes) (inGroup : entry.group = group) :
    (state.setPhase i (.waitFte group entry.id)).Inv :=
  inv.next phase nofun id ⟨entry, listed, rfl, inGroup⟩ nofun

theorem FsState.Inv.groupsChanged (inv : state.Inv) {sum}
    (phase : (state.adders i).phase = .checkGroups sum []) :
    (state.setAdder i { state.adders i with
      read := []
      takeWrite := true
      phase := .readVersions (state.adders i).matchHead }).Inv := by
  have searched : Searched state.shared _ 0 none := inv.known phase
  have busy : (state.adders i).phase.holdsList := by
    rw [phase]
    trivial
  refine inv.own ⟨fun _ => (inv.calls i).masks (by rw [phase]; nofun), fun _ => (inv.calls i).listed busy,
    ⟨searched.collected.later, searched.collected.complete, ?_⟩, rfl⟩ nofun
  intro _ entry mem
  cases mem

theorem FsState.Inv.insertFte (inv : state.Inv) {fte tryAgain group}
    {rest} (phase : (state.adders i).phase = .insert tryAgain (group :: rest))
    (lock : state.writable group) (fresh : fte ∉ state.ftes.map Fte.id) (undisturbed : state.Undisturbed i) :
    (inserted state i fte group).Inv := by
  obtain ⟨searched, inList⟩ : Searched state.shared { state.adders i with
      phase := .insert tryAgain (group :: rest) } 0 none ∧ ∀ other ∈ group :: rest, other ∈ _ :=
    inv.known phase
  have matched : group ∈ (state.adders i).matchHead := inList group (.head _)
  have masks := (inv.calls i).masks (by rw [phase]; nofun)
  have listed := (inv.calls i).listed (by rw [phase]; trivial) group matched
  have table := undisturbed.table
  rw [phase] at table
  have known : Searched state.shared (state.adders i) 0 none :=
    ⟨⟨searched.collected.later, searched.collected.complete, searched.collected.bounded⟩,
      searched.reads, searched.missed⟩
  exact inv.insert listed (masks group matched) masks fresh (fun j _ => lock.1 j)
    (inv.absent known table undisturbed.groups undisturbed.settled nofun)

theorem FsState.Inv.autoAlloc (inv : state.Inv) {group}
    (phase : (state.adders i).phase = .lockTable false)
    (mask : group.mask = (state.adders i).criteria)
    (fresh : group.address ∉ state.groups.map GroupId.address) :
    ({ state with
      ftVersion := state.ftVersion + 1
      groups := group :: state.groups
      active := update state.active group false
      version := update state.version group 0 }.setPhase i (.autoGroup group)).Inv := by
  have searched : Searched state.shared { state.adders i with phase := .lockTable false } 0 none :=
    inv.known phase
  have unlisted : group ∉ state.groups := fun listed => fresh (mem_map_of_mem listed)
  have unused : ∀ entry ∈ state.ftes, entry.group ≠ group :=
    fun entry mem same => unlisted (same ▸ inv.inGroups entry mem)
  refine inv.change { state with
    ftVersion := state.ftVersion + 1
    groups := group :: state.groups
    active := update state.active group false
    version := update state.version group 0 } rfl inv.unique inv.ids ?_ ?_ ?_ ?_
  · intro entry mem
    exact .tail _ (inv.inGroups entry mem)
  · intro j _
    exact keeps_addGroup
  · refine ⟨fun _ => (inv.calls i).masks (by rw [phase]; nofun), fun held => held.elim,
      ⟨⟨?_, ?_, ?_⟩, searched.reads, ?_⟩, .head _, mask, unused⟩
    · exact Nat.succ_le_succ searched.collected.later
    · intro same other mem sameMask
      rcases mem_cons.mp mem with rfl | old
      · exact .inr rfl
      · exact (searched.collected.complete (Nat.succ.inj same) other old sameMask).imp_right nofun
    · intro same entry mem notOwn
      have apart : entry.1 ≠ group := fun isOwn => notOwn (congrArg some isOwn.symm)
      change entry.2 ≤ update state.version group 0 entry.1
      rw [update_of_ne apart]
      exact searched.collected.bounded (Nat.succ.inj same) entry mem nofun
    intro other mem same notOwn counter read version entry listed inGroup value
    have apart : other ≠ group := fun isOwn => notOwn (congrArg some isOwn.symm)
    change update state.version group 0 other = counter at version
    rw [update_of_ne apart] at version
    exact searched.missed other mem (Nat.succ.inj same) nofun counter read version entry
      listed inGroup value
  · intro other auto j _ busy
    have same : other = group := (Phase.autoGroup.inj auto).symm
    obtain ⟨_, listed, _⟩ : Searched state.shared _ 1 _ ∧ other ∈ state.groups ∧ _ := inv.known busy
    exact unlisted (same ▸ listed)

theorem FsState.Inv.autoInsert (inv : state.Inv) {fte group}
    (phase : (state.adders i).phase = .autoGroup group) (fresh : fte ∉ state.ftes.map Fte.id)
    (undisturbed : state.Undisturbed i) :
    (inserted { state with active := update state.active group true } i fte group).Inv := by
  obtain ⟨searched, listed, mask, empty⟩ : Searched state.shared { state.adders i with
      phase := .autoGroup group } 1 (some group) ∧ group ∈ state.groups ∧ group.mask = _ ∧
        ∀ entry ∈ state.ftes, entry.group ≠ group := inv.known phase
  have masks := (inv.calls i).masks (by rw [phase]; nofun)
  have table := undisturbed.table
  rw [phase] at table
  have known : Searched state.shared (state.adders i) 1 (some group) :=
    ⟨⟨searched.collected.later, searched.collected.complete, searched.collected.bounded⟩,
      searched.reads, searched.missed⟩
  refine inv.insert listed mask masks fresh ?_
    (inv.absent known table undisturbed.groups undisturbed.settled ?_)
  · intro j other busy
    exact other (inv.alone j i group busy phase)
  · intro other isOwn
    rw [← Option.some.inj isOwn]
    exact empty

theorem FsState.Inv.restatus (inv : state.Inv) {fte group}
    (here : ∃ entry ∈ state.ftes, entry.id = fte ∧ entry.group = group) {status}
    (plain : status ≠ .counted) {phase} (next : phase = .idle ∨ phase = .count group fte)
    (busy : (state.adders i).phase ≠ .idle) : ((state.setStatus fte status).setPhase i phase).Inv := by
  obtain ⟨entry, listed, same, inGroup⟩ := here
  refine inv.change (state.setStatus fte status) rfl (inv.restatus_unique fte status)
    (inv.restatus_ids fte status) (inv.restatus_inGroups fte status) ?_ ?_ ?_
  · intro j _
    exact keeps_restatus (fun _ => le_rfl) fun isCounted => absurd isCounted plain
  · rcases next with rfl | rfl
    · exact ⟨fun idle => absurd rfl idle, fun held => held.elim, trivial⟩
    · refine ⟨fun _ => (inv.calls i).masks busy, fun held => held.elim, ?_⟩
      exact ⟨_, mem_map_of_mem listed, (restatus_id _ _ _).trans same, (restatus_group _ _ _).trans inGroup⟩
  · intro other auto
    rcases next with rfl | rfl
    · cases auto
    · cases auto

theorem FsState.Inv.increment (inv : state.Inv) {fte group}
    (phase : (state.adders i).phase = .count group fte) :
    ({ state.setStatus fte .counted with
      version := update state.version group (state.version group + 1) }.setPhase i
        .idle).Inv := by
  obtain ⟨entry, listed, same, inGroup⟩ : ∃ entry ∈ state.ftes, entry.id = fte ∧
    entry.group = group := inv.known phase
  refine inv.change { state.setStatus fte .counted with
    version := update state.version group (state.version group + 1) } rfl
    (inv.restatus_unique fte .counted) (inv.restatus_ids fte .counted)
    (inv.restatus_inGroups fte .counted) ?_ ?_ nofun
  · intro j _
    refine keeps_restatus ?_ ?_
    · intro other
      change state.version other ≤ update state.version group (state.version group + 1) other
      by_cases isGroup : other = group
      · rw [isGroup, update_self]
        exact Nat.le_succ _
      · exact le_of_eq (update_of_ne isGroup _ _).symm
    · intro _ other mem sameId
      have isEntry : other = entry := inj_on_of_nodup_map inv.ids mem listed (sameId.trans same.symm)
      change update state.version group (state.version group + 1) other.group ≠ state.version other.group
      rw [isEntry, inGroup, update_self]
      exact Nat.succ_ne_self _
  · exact ⟨fun idle => absurd rfl idle, fun held => held.elim, trivial⟩

end Steps

theorem FsStep.inv {state after : FsState Criteria Value}
    (step : FsStep FsState.Undisturbed state after) (inv : state.Inv) : after.Inv := by
  have leave i : (state.setPhase i .idle).Inv :=
      inv.own ⟨fun idle => absurd rfl idle, fun held => held.elim, trivial⟩ nofun
  cases step with
  | start i criteria value idle => exact inv.collect i criteria value
  | readVersion i group rest phase => exact inv.readVersion phase
  | startSearch i phase =>
    obtain ⟨collected, reads⟩ : Collected state.shared _ 0 none ∧ _ ++ [] = _ := inv.known phase
    rw [append_nil] at reads
    exact inv.next phase nofun id ⟨collected.rephase _, reads, [], rfl, nofun⟩ nofun
  | lookupMissed i group rest phase lock writeLock missed => exact inv.lookupMissed phase missed
  | lookupFound i group rest phase lock writeLock entry listed inGroup same active =>
    exact inv.lookupFound phase listed inGroup
  | lockFte i group fte phase lock =>
    have here : ∃ entry ∈ state.ftes, entry.id = fte ∧ entry.group = group := inv.known phase
    exact inv.next phase nofun (fun held => held.elim) here nofun
  | searchDone i phase =>
    obtain ⟨collected, reads, done, split, missed⟩ : Collected state.shared _ 0 none ∧ _ ∧
        ∃ done, done ++ [] = _ ∧ ∀ group ∈ done, Missed state.shared _ 0 none group :=
      inv.known phase
    rw [append_nil] at split
    refine inv.next phase nofun id ⟨collected.rephase _, reads, ?_⟩ nofun
    intro group mem
    exact missed group (split ▸ mem)
  | tableChanged i phase changed =>
    have searched : Searched state.shared _ 0 none := inv.known phase
    exact inv.next phase nofun (fun held => held.elim) (searched.rephase _) nofun
  | tableSame i phase same | checkVersion i sum group rest phase =>
    have searched : Searched state.shared _ 0 none := inv.known phase
    exact inv.next phase nofun id (searched.rephase _) nofun
  | groupsChanged i sum phase changed => exact inv.groupsChanged phase
  | groupsSame i sum phase same =>
    have searched : Searched state.shared _ 0 none := inv.known phase
    exact inv.next phase nofun id ⟨searched.rephase _, fun group mem => mem⟩ nofun
  | skipInactive i tryAgain group rest phase lock inactive | skipFull i tryAgain group rest phase lock active full =>
    obtain ⟨searched, inList⟩ : Searched state.shared _ 0 none ∧ ∀ other ∈ group :: rest, _ := inv.known phase
    exact inv.next phase nofun id
      ⟨searched.rephase _, fun other mem => inList other (.tail _ mem)⟩ nofun
  | insertFte i fte tryAgain group rest phase lock active room fresh permitted =>
    exact inv.insertFte phase lock fresh permitted
  | noGroup i tryAgain phase =>
    obtain ⟨searched, _⟩ : Searched state.shared _ 0 none ∧ ∀ other ∈ [], _ := inv.known phase
    exact inv.next phase nofun (fun held => held.elim) (searched.rephase _) nofun
  | collectAgain i again phase changed => exact inv.collect i _ _
  | autoAlloc i group phase same mask fresh => exact inv.autoAlloc phase mask fresh
  | autoInsert i fte group phase room fresh permitted => exact inv.autoInsert phase fresh permitted
  | giveUp i before => exact leave i
  | activate i fte group phase entry listed same =>
    have here : ∃ entry ∈ state.ftes, entry.id = fte ∧ entry.group = group := inv.known phase
    split
    · exact inv.next phase nofun (fun held => held.elim) here nofun
    · refine inv.restatus here ?_ (.inr rfl) (by rw [phase]; nofun)
      nofun
  | increment i fte group phase => exact inv.increment phase
  | rulesFound i fte group phase entry listed same counted => exact leave i
  | fillFailed i fte group phase entry listed same =>
    have here : ∃ entry ∈ state.ftes, entry.id = fte ∧ entry.group = group := inv.known phase
    split
    · refine inv.restatus here ?_ (.inl rfl) (by rw [phase]; nofun)
      nofun
    · exact leave i
  | deleteFte entry listed counted lock =>
    exact inv.shared rfl (inv.restatus_unique entry.id .deleted)
      (inv.restatus_ids entry.id .deleted) (inv.restatus_inGroups entry.id .deleted)
      fun _ => keeps_restatus (fun _ => le_rfl) nofun
  | removeFte entry listed deleted lock unreferenced =>
    have old other (mem : other ∈ removeKey Fte.id state.ftes entry.id) : other ∈ state.ftes :=
        (mem_removeKey.mp mem).1
    refine inv.shared rfl ?_ ?_ ?_ fun i => keeps_remove (unreferenced i)
    · intro left leftIn right rightIn
      exact inv.unique left (old left leftIn) right (old right rightIn)
    · exact inv.ids.sublist (Sublist.map _ filter_sublist)
    · intro other mem
      exact inv.inGroups other (old other mem)
  | createGroup group fresh =>
    refine inv.shared rfl inv.unique inv.ids ?_ fun _ => keeps_addGroup
    intro entry mem
    exact .tail _ (inv.inGroups entry mem)
  | groupReady group listed =>
    exact inv.shared rfl inv.unique inv.ids inv.inGroups fun _ => Keeps.refl _ _
  | removeGroup group empty unreferenced =>
    refine inv.shared rfl inv.unique inv.ids ?_
      fun i => keeps_removeGroup (unreferenced i).1 (unreferenced i).2
    intro entry mem
    exact mem_filter.mpr ⟨inv.inGroups entry mem, decide_eq_true (empty entry mem)⟩

theorem FsState.Start.inv {state : FsState Criteria Value} (start : state.Start) : state.Inv := by
  refine ⟨?_, ?_, ?_, ?_, ?_⟩
  · simp [start.ftes]
  · simp [start.ftes]
  · simp [start.ftes]
  · intro i
    have idle := start.idle i
    refine ⟨fun busy => absurd idle busy, ?_, ?_⟩
    · rw [idle]
      exact fun held => held.elim
    · unfold PhaseInv
      rw [idle]
      trivial
  · intro i j group auto
    rw [start.idle i] at auto
    cases auto

/-- Calls and deletions in any order leave at most one active entry for a value and criteria, if at each
insertion the call's checks would still pass. -/
theorem add_flow_rules_no_duplicates (state : FsState Criteria Value) (start : state.Start)
    (after : FsState Criteria Value)
    (reachable : Relation.ReflTransGen (FsStep FsState.Undisturbed) state after) :
    after.NoDuplicates := by
  have inv : after.Inv := by
    induction reachable with
    | refl => exact start.inv
    | tail _ step ih => exact step.inv ih
  intro left leftIn right rightIn _ _ sameMask sameVal
  exact inv.unique left leftIn right rightIn sameMask sameVal

def raceGroup : GroupId Nat := ⟨0, 0, 2⟩

def raceStart : FsState Nat Nat :=
  { ftVersion := 1
    groups := [raceGroup]
    active := fun _ => true
    version := fun _ => 0
    ftes := []
    adders := fun _ => ⟨0, 0, 0, [], [], false, .idle⟩ }

theorem raceStart_start : raceStart.Start := ⟨rfl, fun _ => rfl⟩

/-- Two calls for the value 5 that overlap: the second finds the version changed, searches again and takes
the first one's entry. Then the first makes a call for 6. -/
theorem add_flow_rules_no_duplicates_retry :
    ∃ after, Relation.ReflTransGen (FsStep FsState.Undisturbed) raceStart after ∧
      after.ftes = [⟨11, raceGroup, 6, .counted⟩, ⟨10, raceGroup, 5, .counted⟩] ∧
      (after.adders 1).takeWrite = true ∧ after.NoDuplicates := by
  have searched := (Relation.ReflTransGen.refl (r := FsStep FsState.Undisturbed)
      (a := raceStart)).tail (.start _ 0 0 5 rfl) |>.tail (.start _ 1 0 5 rfl)
    |>.tail (.readVersion _ 0 raceGroup [] rfl) |>.tail (.readVersion _ 1 raceGroup [] rfl)
    |>.tail (.startSearch _ 0 rfl) |>.tail (.startSearch _ 1 rfl)
    |>.tail (.lookupMissed _ 0 raceGroup [] rfl (by rintro (_ | _ | i) <;> nofun) nofun (.inl nofun))
    |>.tail (.lookupMissed _ 1 raceGroup [] rfl (by rintro (_ | _ | i) <;> nofun) nofun (.inl nofun))
    |>.tail (.searchDone _ 0 rfl) |>.tail (.searchDone _ 1 rfl)
  have first := searched.tail (.tableSame _ 0 rfl rfl)
    |>.tail (.checkVersion _ 0 0 raceGroup [] rfl) |>.tail (.groupsSame _ 0 _ rfl rfl)
    |>.tail (.insertFte _ 0 10 false raceGroup [] rfl
      ⟨by rintro (_ | _ | i) <;> nofun, by rintro (_ | _ | i) fte <;> nofun⟩ rfl (by decide) (by decide)
      ⟨rfl, by intro entry member; rw [List.mem_singleton.mp member]; rfl, nofun⟩)
    |>.tail (.activate _ 0 10 raceGroup rfl ⟨10, raceGroup, 5, .inserted⟩ (by decide) rfl)
    |>.tail (.increment _ 0 10 raceGroup rfl)
  have retried := first.tail (.tableSame _ 1 rfl rfl)
    |>.tail (.checkVersion _ 1 0 raceGroup [] rfl) |>.tail (.groupsChanged _ 1 _ rfl (by decide))
    |>.tail (.readVersion _ 1 raceGroup [] rfl) |>.tail (.startSearch _ 1 rfl)
    |>.tail (.lookupFound _ 1 raceGroup [] rfl (by rintro (_ | _ | i) <;> nofun)
      (fun _ => ⟨by rintro (_ | _ | i) <;> nofun, by rintro (_ | _ | i) fte <;> nofun⟩)
      ⟨10, raceGroup, 5, .counted⟩ (by decide) rfl rfl rfl)
    |>.tail (.lockFte _ 1 raceGroup 10 rfl (by rintro (_ | _ | i) held <;> exact held))
    |>.tail (.rulesFound _ 1 10 raceGroup rfl ⟨10, raceGroup, 5, .counted⟩ (by decide) rfl rfl)
  have again := retried.tail (.start _ 0 0 6 rfl)
    |>.tail (.readVersion _ 0 raceGroup [] rfl) |>.tail (.startSearch _ 0 rfl)
    |>.tail (.lookupMissed _ 0 raceGroup [] rfl (by rintro (_ | _ | i) <;> nofun) nofun (.inl (by decide)))
    |>.tail (.searchDone _ 0 rfl) |>.tail (.tableSame _ 0 rfl rfl)
    |>.tail (.checkVersion _ 0 0 raceGroup [] rfl) |>.tail (.groupsSame _ 0 _ rfl rfl)
    |>.tail (.insertFte _ 0 11 false raceGroup [] rfl
      ⟨by rintro (_ | _ | i) <;> nofun, by rintro (_ | _ | i) fte <;> nofun⟩ rfl (by decide) (by decide)
      ⟨rfl, by intro entry member; rw [List.mem_singleton.mp member]; rfl, by decide⟩)
    |>.tail (.activate _ 0 11 raceGroup rfl ⟨11, raceGroup, 6, .inserted⟩ (by decide) rfl)
    |>.tail (.increment _ 0 11 raceGroup rfl)
  exact ⟨_, again, rfl, rfl, add_flow_rules_no_duplicates _ raceStart_start _ again⟩

/-- Two calls that both pass their checks before either of them inserts its entry. -/
theorem add_flow_rules_race : ¬∀ state after : FsState Nat Nat, state.Start →
      Relation.ReflTransGen (FsStep fun _ _ => True) state after → after.NoDuplicates := by
  intro unique
  have searched := (Relation.ReflTransGen.refl (r := FsStep fun _ _ => True)
      (a := raceStart)).tail (.start _ 0 0 5 rfl) |>.tail (.start _ 1 0 5 rfl)
    |>.tail (.readVersion _ 0 raceGroup [] rfl) |>.tail (.readVersion _ 1 raceGroup [] rfl)
    |>.tail (.startSearch _ 0 rfl) |>.tail (.startSearch _ 1 rfl)
    |>.tail (.lookupMissed _ 0 raceGroup [] rfl (by rintro (_ | _ | i) <;> nofun) nofun
      (.inl nofun))
    |>.tail (.lookupMissed _ 1 raceGroup [] rfl (by rintro (_ | _ | i) <;> nofun) nofun
      (.inl nofun))
    |>.tail (.searchDone _ 0 rfl) |>.tail (.searchDone _ 1 rfl)
  have checked := searched.tail (.tableSame _ 0 rfl rfl) |>.tail (.tableSame _ 1 rfl rfl)
    |>.tail (.checkVersion _ 0 0 raceGroup [] rfl) |>.tail (.checkVersion _ 1 0 raceGroup [] rfl)
    |>.tail (.groupsSame _ 0 _ rfl rfl) |>.tail (.groupsSame _ 1 _ rfl rfl)
  have inserted := checked.tail (.insertFte _ 0 10 false raceGroup [] rfl
      ⟨by rintro (_ | _ | i) <;> nofun, by rintro (_ | _ | i) fte <;> nofun⟩ rfl (by decide)
      (by decide) trivial)
    |>.tail (.insertFte _ 1 11 false raceGroup [] rfl
      ⟨by rintro (_ | _ | i) <;> nofun, by rintro (_ | _ | i) fte <;> nofun⟩ rfl (by decide)
      (by decide) trivial)
  have counted := inserted.tail (.activate _ 0 10 raceGroup rfl ⟨10, raceGroup, 5, .inserted⟩ (by decide) rfl)
    |>.tail (.increment _ 0 10 raceGroup rfl)
    |>.tail (.activate _ 1 11 raceGroup rfl ⟨11, raceGroup, 5, .inserted⟩ (by decide) rfl)
    |>.tail (.increment _ 1 11 raceGroup rfl)
  have same := unique _ _ raceStart_start counted ⟨10, raceGroup, 5, .counted⟩ (by decide)
    ⟨11, raceGroup, 5, .counted⟩ (by decide) rfl rfl rfl rfl
  cases same

end MlnxOfed.FsCore.AddFlowRules
