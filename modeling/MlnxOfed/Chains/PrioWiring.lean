/-
The wiring of the entries: each leads to level 0 of the next priority of its chain or to the chain's default
miss, after every creation and destruction.
-/

import MlnxOfed.Chains.FdbPrios

namespace MlnxOfed.Chains

open List Option Function ChainsPriv Key

def ChainsPriv.fdbOf (s : ChainsPriv) (key : Key) : Option FlowTable :=
  (s.priosHt key).map FdbPrio.fdb

/-- The table of the first entry of a later priority, or the default miss of the chain. -/
def leadsTo (esw : Esw) (s : ChainsPriv) (key : Key) : Option FlowTable :=
  match Lib.upper (s.priosList key.chain) key.prio with
  | some first => s.fdbOf ⟨key.chain, first.1, first.2⟩
  | none => some (defaultMiss esw s key.chain)

def Wired (esw : Esw) (s : ChainsPriv) : Prop :=
  ∀ key prio, s.priosHt key = some prio → leadsTo esw s key = some prio.nextFdb

variable {esw : Esw} {env : Env} {refs : Key → Nat} {s t u : ChainsPriv} {chain : Nat}
  {key other : Key} {fdb nextFdb : FlowTable} {missRule : Nat} {prevs : List (Nat × Nat)}
  {prio : FdbPrio}

section

variable (rewired : Rewired chain prevs nextFdb s t)

include rewired

variable (present : ∀ pos ∈ prevs, s.priosHt ⟨chain, pos.1, pos.2⟩ ≠ none)

include present

theorem Rewired.found (found : t.priosHt key = some prio) : ∃ old, s.priosHt key = some old ∧
      old.fdb = prio.fdb ∧ old.ref = prio.ref := by
  by_cases isPrev : ∃ pos ∈ prevs, key = ⟨chain, pos.1, pos.2⟩
  · obtain ⟨pos, mem, rfl⟩ := isPrev
    obtain ⟨old, oldFound⟩ := ne_none_iff_exists'.mp (present pos mem)
    obtain ⟨rule, switched⟩ := rewired.switched pos mem old oldFound
    rw [switched] at found
    cases found
    exact ⟨old, oldFound, rfl, rfl⟩
  · have apart : ∀ pos ∈ prevs, key ≠ ⟨chain, pos.1, pos.2⟩ := fun pos mem same => isPrev ⟨pos, mem, same⟩
    rw [rewired.others key apart] at found
    exact ⟨prio, found, rfl, rfl⟩

omit present in
theorem Rewired.kept (found : s.priosHt key = some prio) : ∃ new, t.priosHt key = some new ∧
      new.fdb = prio.fdb ∧ new.ref = prio.ref := by
  by_cases isPrev : ∃ pos ∈ prevs, key = ⟨chain, pos.1, pos.2⟩
  · obtain ⟨pos, member, rfl⟩ := isPrev
    obtain ⟨rule, switched⟩ := rewired.switched pos member prio found
    exact ⟨_, switched, rfl, rfl⟩
  · have apart : ∀ pos ∈ prevs, key ≠ ⟨chain, pos.1, pos.2⟩ :=
      fun pos member same => isPrev ⟨pos, member, same⟩
    rw [← rewired.others key apart] at found
    exact ⟨prio, found, rfl, rfl⟩

theorem Rewired.map {α : Type} (read : FlowTable → Nat → α) (key) :
    (t.priosHt key).map (fun prio => read prio.fdb prio.ref) =
      (s.priosHt key).map fun prio => read prio.fdb prio.ref := by
  cases found : t.priosHt key with
  | none =>
    cases old : s.priosHt key with
    | none => rfl
    | some prio =>
      obtain ⟨new, isNew, -⟩ := rewired.kept old
      rw [found] at isNew
      cases isNew
  | some prio =>
    obtain ⟨old, oldFound, sameTable, sameRef⟩ := rewired.found present found
    rw [oldFound, map_some, map_some, sameTable, sameRef]

theorem Rewired.fdbOf (key) : t.fdbOf key = s.fdbOf key := rewired.map present (fun fdb _ => fdb) key

omit present

end

theorem Core.rewired (core : Core esw refs s) (rewired : Rewired chain prevs nextFdb s t)
    (here : ∀ pos ∈ prevs, s.priosHt ⟨chain, pos.1, pos.2⟩ ≠ none)
    (rules : Ruled esw [] t) : Core esw refs t := by
  have chainsHt : t.chainsHt = s.chainsHt := by rw [rewired.frame]
  have tables : t.tables = s.tables := by rw [rewired.frame]
  have nextTable : t.nextTable = s.nextTable := by rw [rewired.frame]
  constructor
  · intro chain
    rw [priosList_congr chainsHt]
    exact core.sorted chain
  · intro key
    have same := rewired.map here (fun _ _ => ()) key
    have isNone : t.priosHt key = none ↔ s.priosHt key = none := by
      rw [← map_eq_none_iff, same, map_eq_none_iff]
    rw [priosList_congr chainsHt, core.listed key, Ne, Ne, isNone]
  · intro chain fdbChain found
    rw [chainsHt] at found
    exact core.chainRef found
  · intro key
    rw [← core.counted key]
    have same := rewired.map here (fun _ => id) key
    cases found : t.priosHt key with
    | none =>
      rw [found] at same
      rw [map_eq_none_iff.mp same.symm]
    | some prio =>
      obtain ⟨old, oldFound, -, sameRef⟩ := rewired.found here found
      rw [oldFound]
      exact sameRef.symm
  · exact rules
  · intro key prio found
    obtain ⟨old, oldFound, sameTable, -⟩ := rewired.found here found
    rw [tables, ← sameTable]
    exact core.tabled oldFound
  · intro table mem
    rw [tables] at mem
    obtain ⟨key, prio, found, same⟩ := core.alive mem
    obtain ⟨new, newFound, sameTable, -⟩ := rewired.kept found
    exact ⟨key, new, newFound, sameTable.trans same⟩
  · intro key other prio otherPrio found otherFound same
    obtain ⟨old, oldFound, sameTable, -⟩ := rewired.found here found
    obtain ⟨otherOld, otherOldFound, otherTable, -⟩ := rewired.found here otherFound
    exact core.tableOnce oldFound otherOldFound (sameTable.trans (same.trans otherTable.symm))
  · rw [tables]
    exact core.tablesOnce
  · intro table mem
    rw [tables] at mem
    rw [nextTable]
    exact core.freshTable mem
  · rw [nextTable]
    exact core.afterSlow
  · rw [rewired.frame]
    exact core.inside

/-! ### Removal -/

def removed (key : Key) (prio : FdbPrio) (s : ChainsPriv) : ChainsPriv :=
  putFdbChain key.chain (destroyFdbTable prio.fdb (delFlowRules prio.missRule (unlinkFdbPrio key s)))

theorem removed_frame (key prio s) : removed key prio s = { s with
      chainsHt := (removed key prio s).chainsHt
      priosHt := update s.priosHt key none
      missRules := update s.missRules prio.missRule none
      tables := s.tables.erase prio.fdb
      fdbLeft := (removed key prio s).fdbLeft } := by
  unfold removed
  rw [putFdbChain_frame, destroyFdbTable_frame]
  rfl

theorem removed_chainsHt {fdbChain} (found : s.chainsHt key.chain = some fdbChain) :
    (removed key prio s).chainsHt = update s.chainsHt key.chain (if fdbChain.ref - 1 = 0 then none else
        some ⟨fdbChain.ref - 1, fdbChain.priosList.erase (key.prio, key.level)⟩) := by
  have old : (destroyFdbTable prio.fdb (delFlowRules prio.missRule (unlinkFdbPrio key s))).chainsHt
      = update s.chainsHt key.chain
        (some ⟨fdbChain.ref, fdbChain.priosList.erase (key.prio, key.level)⟩) := by
    rw [destroyFdbTable_frame]
    dsimp only [delFlowRules, unlinkFdbPrio, setPriosList]
    unfold priosList
    rw [found]
    rfl
  unfold removed putFdbChain
  rw [old, update_self]
  dsimp only
  rw [update_idem]

variable (core : Core esw refs s)

include core

theorem Core.removed_list (found : s.priosHt key = some prio) (chain) :
    (removed key prio s).priosList chain = if chain = key.chain then
      (s.priosList key.chain).erase (key.prio, key.level) else s.priosList chain := by
  have mem : (key.prio, key.level) ∈ s.priosList key.chain :=
    (core.listed key).mpr (by rw [found]; exact some_ne_none _)
  unfold priosList at mem ⊢
  cases chainFound : s.chainsHt key.chain with
  | none =>
    rw [chainFound] at mem
    cases mem
  | some fdbChain =>
    rw [chainFound] at mem
    dsimp only [Option.elim] at mem
    rw [removed_chainsHt chainFound]
    by_cases same : chain = key.chain
    · rw [if_pos same, same, update_self]
      have ref := (core.chainRef chainFound).1
      split
      · rename_i last
        have length := length_erase_of_mem mem
        have empty : (fdbChain.priosList.erase (key.prio, key.level)).length = 0 := by omega
        exact (length_eq_zero_iff.mp empty).symm
      · rfl
    · rw [if_neg same, update_of_ne same]

omit core in
theorem removed_others {other otherPrio} (otherFound : (removed key prio s).priosHt other = some otherPrio) :
    other ≠ key ∧ s.priosHt other = some otherPrio := by
  have priosHt : (removed key prio s).priosHt = update s.priosHt key none := by rw [removed_frame]
  rw [priosHt] at otherFound
  by_cases same : other = key
  · rw [same, update_self] at otherFound
    cases otherFound
  · rw [update_of_ne same] at otherFound
    exact ⟨same, otherFound⟩

omit core in
theorem Ruled.remove (ruled : Ruled esw [] s)
    (found : s.priosHt key = some prio) : Ruled esw [] (removed key prio s) := by
  have tcEndFdb : (removed key prio s).tcEndFdb = s.tcEndFdb := by rw [removed_frame]
  have priosHt : (removed key prio s).priosHt = update s.priosHt key none := by rw [removed_frame]
  have missRules : (removed key prio s).missRules =
      update s.missRules prio.missRule none := by rw [removed_frame]
  have nextRule : (removed key prio s).nextRule = s.nextRule := by rw [removed_frame]
  have kept {rule} (used : (removed key prio s).missRules rule ≠ none) : rule ≠ prio.missRule ∧ s.missRules
      rule ≠ none := by
    rw [missRules] at used
    by_cases same : rule = prio.missRule
    · rw [same, update_self] at used
      exact absurd rfl used
    · rw [update_of_ne same] at used
      exact ⟨same, used⟩
  constructor
  · intro other otherPrio otherFound
    obtain ⟨different, otherOld⟩ := removed_others otherFound
    have apart : otherPrio.missRule ≠ prio.missRule :=
      fun same => different (ruled.ruleOnce otherOld found same)
    rw [missRules, update_of_ne apart, missRuleOf_congr tcEndFdb]
    exact ruled.ruled otherOld
  · exact nofun
  · intro rule used
    obtain ⟨different, old⟩ := kept used
    rcases ruled.owned old with ⟨other, otherPrio, otherFound, same⟩ | ⟨_, member, _⟩
    · refine .inl ⟨other, otherPrio, ?_, same⟩
      rw [priosHt, update_of_ne]
      · exact otherFound
      · intro sameKey
        rw [sameKey, found] at otherFound
        cases otherFound
        exact different same.symm
    · cases member
  · intro first second firstPrio secondPrio firstFound secondFound same
    exact ruled.ruleOnce (removed_others firstFound).2 (removed_others secondFound).2 same
  · exact .nil
  · exact nofun
  · intro rule used
    rw [nextRule]
    exact ruled.fresh (kept used).2

theorem Core.remove (found : s.priosHt key = some prio) (unused : refs key = 0) :
    Core esw refs (removed key prio s) := by
  have priosHt : (removed key prio s).priosHt = update s.priosHt key none := by rw [removed_frame]
  have tables : (removed key prio s).tables = s.tables.erase prio.fdb := by rw [removed_frame]
  have nextTable : (removed key prio s).nextTable = s.nextTable := by rw [removed_frame]
  have mem : (key.prio, key.level) ∈ s.priosList key.chain :=
    (core.listed key).mpr (by rw [found]; exact some_ne_none _)
  constructor
  · intro chain
    rw [core.removed_list found]
    split
    · exact (core.sorted key.chain).sublist erase_sublist
    · exact core.sorted chain
  · intro other
    rw [core.removed_list found, priosHt]
    by_cases sameChain : other.chain = key.chain
    · rw [if_pos sameChain, (Lib.sorted_nodup (core.sorted key.chain)).mem_erase_iff]
      by_cases same : other = key
      · rw [same, update_self]
        exact iff_of_false (fun both => both.1 rfl) fun here => here rfl
      · rw [update_of_ne same, ← core.listed other, sameChain]
        exact and_iff_right fun samePair => same (pair_eq.mp ⟨sameChain, samePair⟩)
    · have apart : other ≠ key := fun same => sameChain (congrArg chain same)
      rw [if_neg sameChain, update_of_ne apart]
      exact core.listed other
  · intro chain fdbChain chainFound
    unfold priosList at mem
    cases old : s.chainsHt key.chain with
    | none =>
      rw [old] at mem
      cases mem
    | some oldChain =>
      rw [removed_chainsHt old] at chainFound
      rw [old] at mem
      by_cases same : chain = key.chain
      · rw [same, update_self] at chainFound
        split at chainFound
        · cases chainFound
        rename_i more
        cases chainFound
        have length := length_erase_of_mem mem
        have ref := (core.chainRef old).1
        dsimp only [Option.elim] at length ⊢
        omega
      · rw [update_of_ne same] at chainFound
        exact core.chainRef chainFound
  · intro other
    rw [priosHt]
    by_cases same : other = key
    · rw [same, update_self, unused]
      rfl
    · rw [update_of_ne same]
      exact core.counted other
  · exact core.rules.remove found
  · intro other otherPrio otherFound
    obtain ⟨apart, old⟩ := removed_others otherFound
    rw [tables, core.tablesOnce.mem_erase_iff]
    exact ⟨fun same => apart (core.tableOnce old found same), core.tabled old⟩
  · intro table isMember
    rw [tables, core.tablesOnce.mem_erase_iff] at isMember
    obtain ⟨other, otherPrio, otherFound, same⟩ := core.alive isMember.2
    refine ⟨other, otherPrio, ?_, same⟩
    rw [priosHt, update_of_ne]
    · exact otherFound
    · intro sameKey
      rw [sameKey, found] at otherFound
      cases otherFound
      exact isMember.1 same.symm
  · intro first second firstPrio secondPrio firstFound secondFound same
    exact core.tableOnce (removed_others firstFound).2 (removed_others secondFound).2 same
  · rw [tables]
    exact core.tablesOnce.erase _
  · intro table isMember
    rw [tables] at isMember
    rw [nextTable]
    exact core.freshTable (mem_of_mem_erase isMember)
  · rw [nextTable]
    exact core.afterSlow
  · rw [removed_frame]
    exact core.inside

omit core in
/-- The references of lower levels include those of higher ones, up to the last level. -/
structure Counts (refs : Key → Nat) : Prop where
  falls : ∀ chain prio level, refs ⟨chain, prio, level + 1⟩ ≤ refs ⟨chain, prio, level⟩
  top : ∀ chain prio level, fdbTcLevelsPerPrio < level → refs ⟨chain, prio, level⟩ = 0

omit core in
theorem Counts.antitone (counts : Counts refs) {chain prio low high} (le : low ≤ high) :
    refs ⟨chain, prio, high⟩ ≤ refs ⟨chain, prio, low⟩ := by
  induction le with
  | refl => exact le_rfl
  | step _ ih => exact (counts.falls chain prio _).trans ih

theorem Core.absent (found : s.priosHt key = none) : refs key = 0 := by
  rw [← core.counted key, found]
  rfl

omit core in
def Used (refs : Key → Nat) (s : ChainsPriv) : Prop :=
  ∀ key, s.priosHt key ≠ none ↔ refs key ≠ 0

theorem Core.levelled {more} (counts : Counts more)
    (used : Used more s) (chain) : Lib.Levelled (s.priosList chain) := by
  intro prio level mem
  refine (core.listed ⟨chain, prio, level⟩).mpr ((used _).mpr ?_)
  have above := (used _).mp ((core.listed ⟨chain, prio, level + 1⟩).mp mem)
  have below := counts.falls chain prio level
  omega

theorem Core.bounded {more} (counts : Counts more) (used : Used more s) (chain pos)
    (mem : pos ∈ s.priosList chain) : pos.2 < fdbTcLevelsPerPrio + 1 := by
  by_contra above
  refine (used ⟨chain, pos.1, pos.2⟩).mp ((core.listed ⟨chain, pos.1, pos.2⟩).mp mem) ?_
  exact counts.top chain pos.1 pos.2 (Nat.lt_of_not_le fun le => above (Nat.lt_succ_of_le le))

theorem Core.highest {more} (counts : Counts more) (used : ∀ other, other ≠ key → s.priosHt other
    ≠ none → more other ≠ 0) (unused : more key = 0) (other) (mem : other ∈ s.priosList key.chain)
    (sameGroup : other.1 = key.prio) : other.2 ≤ key.level := by
  by_contra above
  have apart : (⟨key.chain, other.1, other.2⟩ : Key) ≠ key := by
    intro same
    have sameLevel := congrArg level same
    dsimp only at sameLevel
    omega
  have isUsed := used _ apart ((core.listed ⟨key.chain, other.1, other.2⟩).mp mem)
  have under := @counts.antitone _ key.chain key.prio key.level other.2 (by omega)
  rw [sameGroup] at isUsed
  have isKey : ({ key with } : Key) = key := rfl
  rw [isKey, unused] at under
  exact isUsed (Nat.le_zero.mp under)

omit core in
theorem prevsOf_length (sorted : (s.priosList key.chain).Pairwise Lib.Before)
    (levelled : Lib.Levelled (s.priosList key.chain))
    (bounded : ∀ pos ∈ s.priosList key.chain, pos.2 < fdbTcLevelsPerPrio + 1)
    (member : (key.prio, key.level) ∈ s.priosList key.chain) :
    (prevsOf s key).length ≤ fdbTcLevelsPerPrio + 1 := by
  unfold prevsOf
  split
  · exact Nat.zero_le _
  · exact Lib.previous_length sorted levelled member bounded

omit core in
theorem prevsOf_nodup (sorted : (s.priosList key.chain).Pairwise Lib.Before) : (prevsOf s key).Nodup := by
  unfold prevsOf
  split
  · exact nodup_nil
  · exact Lib.previous_nodup sorted

theorem Core.present (pos) (mem : pos ∈ s.priosList chain) : s.priosHt ⟨chain, pos.1, pos.2⟩ ≠ none :=
  (core.listed ⟨chain, pos.1, pos.2⟩).mp mem

theorem Core.setRef (found : s.priosHt key = some prio) (ref) : Core esw (update refs key ref)
      { s with priosHt := update s.priosHt key (some { prio with ref := ref }) } := by
  have others : ∀ {other new}, update s.priosHt key (some { prio with ref := ref }) other =
      some new → ∃ old, s.priosHt other = some old ∧ new.fdb = old.fdb ∧
        new.nextFdb = old.nextFdb ∧ new.missRule = old.missRule := by
    intro other new isNew
    by_cases same : other = key
    · rw [same, update_self] at isNew
      cases isNew
      exact ⟨prio, same ▸ found, rfl, rfl, rfl⟩
    · rw [update_of_ne same] at isNew
      exact ⟨new, isNew, rfl, rfl, rfl⟩
  have back : ∀ {other old}, s.priosHt other = some old → ∃ new,
      update s.priosHt key (some { prio with ref := ref }) other = some new ∧
        new.fdb = old.fdb ∧ new.missRule = old.missRule := by
    intro other old isOld
    by_cases same : other = key
    · rw [same, found] at isOld
      cases isOld
      exact ⟨{ prio with ref := ref }, by rw [same, update_self], rfl, rfl⟩
    · exact ⟨old, by rw [update_of_ne same, isOld], rfl, rfl⟩
  constructor
  · exact core.sorted
  · intro other
    refine (core.listed other).trans ?_
    dsimp only
    by_cases same : other = key
    · rw [same, update_self, found]
      exact iff_of_true (some_ne_none _) (some_ne_none _)
    · rw [update_of_ne same]
  · exact core.chainRef
  · intro other
    dsimp only
    by_cases same : other = key
    · rw [same, update_self, update_self]
      rfl
    · rw [update_of_ne same, update_of_ne same]
      exact core.counted other
  · constructor
    · intro other new isNew
      obtain ⟨old, isOld, sameTable, sameNext, sameRule⟩ := others isNew
      rw [sameRule, sameTable, sameNext]
      exact core.rules.ruled isOld
    · exact nofun
    · intro rule used
      rcases core.rules.owned used with ⟨other, old, isOld, same⟩ | ⟨_, mem, _⟩
      · obtain ⟨new, isNew, -, sameRule⟩ := back isOld
        exact .inl ⟨other, new, isNew, sameRule.trans same⟩
      · cases mem
    · intro first second firstNew secondNew isFirst isSecond same
      obtain ⟨firstOld, wasFirst, -, -, firstRule⟩ := others isFirst
      obtain ⟨secondOld, wasSecond, -, -, secondRule⟩ := others isSecond
      exact core.rules.ruleOnce wasFirst wasSecond (firstRule.symm.trans (same.trans secondRule))
    · exact .nil
    · exact nofun
    · exact core.rules.fresh
  · intro other new isNew
    obtain ⟨old, isOld, sameTable, -, -⟩ := others isNew
    rw [sameTable]
    exact core.tabled isOld
  · intro table mem
    obtain ⟨other, old, isOld, same⟩ := core.alive mem
    obtain ⟨new, isNew, sameTable, -⟩ := back isOld
    exact ⟨other, new, isNew, sameTable.trans same⟩
  · intro first second firstNew secondNew isFirst isSecond same
    obtain ⟨firstOld, wasFirst, firstTable, -, -⟩ := others isFirst
    obtain ⟨secondOld, wasSecond, secondTable, -, -⟩ := others isSecond
    exact core.tableOnce wasFirst wasSecond (firstTable.symm.trans (same.trans secondTable))
  · exact core.tablesOnce
  · exact core.freshTable
  · exact core.afterSlow
  · exact core.inside

omit core

/-! ### The wiring -/

theorem leadsTo_congr {target source} (sameChain : target.chain = source.chain)
    (upper : Lib.upper (t.priosList target.chain) target.prio =
      Lib.upper (s.priosList source.chain) source.prio)
    (tables : ∀ first, Lib.upper (s.priosList source.chain) source.prio = some first →
      t.fdbOf ⟨source.chain, first.1, first.2⟩ = s.fdbOf ⟨source.chain, first.1, first.2⟩)
    (tcEndFdb : t.tcEndFdb = s.tcEndFdb) : leadsTo esw t target = leadsTo esw s source := by
  unfold leadsTo
  rw [upper, sameChain]
  cases found : Lib.upper (s.priosList source.chain) source.prio with
  | none =>
    unfold defaultMiss
    rw [tcEndFdb]
  | some first => exact tables first found

private theorem leadsTo_findNextFdb (sorted : (s.priosList key.chain).Pairwise Lib.Before)
    (levelled : Lib.Levelled (s.priosList key.chain))
    (here : ∀ pos ∈ s.priosList key.chain, s.priosHt ⟨key.chain, pos.1, pos.2⟩ ≠ none)
    (highest : ∀ other ∈ s.priosList key.chain, other.1 = key.prio → other.2 ≤ key.level) :
    leadsTo esw s key = some (findNextFdb esw key s) := by
  unfold leadsTo findNextFdb
  rw [@Lib.find_before _ _ _ (key.prio, key.level) highest]
  dsimp only
  cases found : Lib.upper (s.priosList key.chain) key.prio with
  | none => rfl
  | some first =>
    have member := (Lib.upper_mem found).1
    obtain ⟨prio, isEntry⟩ := ne_none_iff_exists'.mp (here first member)
    dsimp only
    unfold fdbOf
    rw [isEntry, map_some]
    dsimp only
    rw [if_pos (Lib.upper_level sorted levelled found)]

section OneMore

variable {pairs more : List (Nat × Nat)} {pos : Nat × Nat}

theorem upper_of_prev (list : t.priosList key.chain = more) (sorted : pairs.Pairwise Lib.Before)
    (sortedMore : more.Pairwise Lib.Before) (levelled : Lib.Levelled more)
    (members : ∀ other, other ∈ pairs ↔ other ∈ more ∧ other ≠ (key.prio, key.level))
    (mem : (key.prio, key.level) ∈ more) (highest : ∀ other ∈ more, other.1 = key.prio → other.2 ≤ key.level)
    (isPrev : pos ∈ prevsOf t key) : Lib.upper more pos.1 = some (key.prio, key.level) ∧
      Lib.upper pairs pos.1 = Lib.upper more key.prio := by
  unfold prevsOf at isPrev
  split at isPrev
  · cases isPrev
  rename_i level
  rw [not_not] at level
  rw [list] at isPrev
  refine Lib.upper_of_previous sorted sortedMore levelled members mem level ?_ isPrev
  intro other inMore same
  have under := highest other inMore same
  exact Prod.ext same ((Nat.le_zero.mp (level ▸ under)).trans level.symm)

theorem upper_of_not_prev (list : t.priosList key.chain = more) (sorted : pairs.Pairwise Lib.Before)
    (sortedMore : more.Pairwise Lib.Before) (levelled : Lib.Levelled more)
    (members : ∀ other, other ∈ pairs ↔ other ∈ more ∧ other ≠ (key.prio, key.level))
    (mem : (key.prio, key.level) ∈ more) (inside : pos ∈ more) (notPrev : pos ∉ prevsOf t key) :
    Lib.upper pairs pos.1 = Lib.upper more pos.1 := by
  by_cases level : key.level ≠ 0
  · exact Lib.upper_of_level sorted sortedMore levelled members level pos.1
  · unfold prevsOf at notPrev
    rw [if_neg level, list] at notPrev
    exact Lib.upper_of_not_previous sorted sortedMore levelled members mem inside notPrev

end OneMore

theorem Rewired.tcEndFdb (rewired : Rewired chain prevs nextFdb s t) : t.tcEndFdb = s.tcEndFdb := by
  rw [rewired.frame]

theorem Rewired.priosList (rewired : Rewired chain prevs nextFdb s t) (other) :
    t.priosList other = s.priosList other :=
  priosList_congr (by rw [rewired.frame]) other

theorem Linked.wired (core : Core esw refs s) (wired : Wired esw s) (absent : s.priosHt key = none)
    (linked : Linked esw key fdb missRule s t) (rewired : Rewired key.chain (prevsOf t key) fdb t u)
    (coreLinked : Core esw refs t) (levelled : Lib.Levelled (s.priosList key.chain))
    (levelledMore : Lib.Levelled (t.priosList key.chain))
    (highest : ∀ other ∈ t.priosList key.chain, other.1 = key.prio → other.2 ≤ key.level) :
    Wired esw u ∧ u.fdbOf key = some fdb ∧ ∀ other, other ≠ key → u.fdbOf other = s.fdbOf other := by
  have list : ∀ chain, u.priosList chain = t.priosList chain := rewired.priosList
  have notListed : (key.prio, key.level) ∉ s.priosList key.chain := fun mem => (core.listed key).mp mem absent
  have more : t.priosList key.chain = Lib.insertBefore (s.priosList key.chain) (key.prio, key.level) := by
    rw [linked.priosList, if_pos rfl]
  have sortedMore := coreLinked.sorted key.chain
  have members other : other ∈ s.priosList key.chain ↔ other ∈ t.priosList key.chain ∧ other ≠
      (key.prio, key.level) := by
    rw [more, Lib.mem_insertBefore]
    constructor
    · intro mem
      exact ⟨.inr mem, fun same => notListed (same ▸ mem)⟩
    · rintro ⟨same | mem, different⟩
      · exact absurd same different
      · exact mem
  have mem : (key.prio, key.level) ∈ t.priosList key.chain := by
    rw [more, Lib.mem_insertBefore]
    exact .inl rfl
  have present pos (isPrev : pos ∈ prevsOf t key) : t.priosHt ⟨key.chain, pos.1, pos.2⟩ ≠ none :=
      coreLinked.present pos (mem_prevsOf isPrev).1
  have tcEndFdb : u.tcEndFdb = s.tcEndFdb := rewired.tcEndFdb.trans linked.tcEndFdb
  have ownTable : u.fdbOf key = some fdb := by
    rw [rewired.fdbOf present]
    unfold fdbOf
    rw [linked.priosHt, update_self]
    rfl
  have tables other (different : other ≠ key) : u.fdbOf other = s.fdbOf other := by
    rw [rewired.fdbOf present]
    unfold fdbOf
    rw [linked.priosHt, update_of_ne different]
  have oldTables first (inside : first ∈ s.priosList key.chain) : u.fdbOf ⟨key.chain, first.1, first.2⟩ =
      s.fdbOf ⟨key.chain, first.1, first.2⟩ := by
    refine tables _ ?_
    intro same
    exact notListed ((pair_eq.mpr same).2 ▸ inside)
  refine ⟨?_, ownTable, tables⟩
  intro other prio found
  by_cases isPrev : other.chain = key.chain ∧ (other.prio, other.level) ∈ prevsOf t key
  · obtain ⟨sameChain, inPrevs⟩ := isPrev
    obtain ⟨toKey, -⟩ := upper_of_prev rfl (core.sorted key.chain) sortedMore levelledMore members
      mem highest inPrevs
    have isOther : other = ⟨key.chain, other.prio, other.level⟩ := (pair_eq.mp ⟨sameChain, rfl⟩)
    obtain ⟨old, oldFound⟩ := ne_none_iff_exists'.mp (present _ inPrevs)
    obtain ⟨rule, switched⟩ := rewired.switched _ inPrevs old oldFound
    rw [isOther, switched] at found
    cases found
    unfold leadsTo
    rw [list, sameChain, toKey]
    exact ownTable
  have apart : ∀ pos ∈ prevsOf t key, other ≠ ⟨key.chain, pos.1, pos.2⟩ := by
    intro pos inPrevs same
    subst same
    exact isPrev ⟨rfl, inPrevs⟩
  rw [rewired.others other apart] at found
  by_cases same : other = key
  · subst same
    rw [linked.priosHt, update_self] at found
    cases found
    have toNext := @leadsTo_findNextFdb esw _ _ (core.sorted other.chain) levelled core.present
      (fun pos inside => highest pos ((members pos).mp inside).1)
    rw [← toNext]
    refine leadsTo_congr rfl ?_ ?_ tcEndFdb
    · rw [list]
      exact (@Lib.upper_of_self _ _ _ (other.prio, other.level) (core.sorted other.chain) _
        sortedMore members).symm
    · intro first isUpper
      exact oldTables first (Lib.upper_mem isUpper).1
  rw [linked.priosHt, update_of_ne same] at found
  rw [← wired _ _ found]
  refine leadsTo_congr rfl ?_ ?_ tcEndFdb
  · rw [list]
    by_cases sameChain : other.chain = key.chain
    · have inside : (other.prio, other.level) ∈ t.priosList key.chain := by
        rw [← sameChain]
        refine (coreLinked.listed other).mpr ?_
        rw [linked.priosHt, update_of_ne same, found]
        exact some_ne_none _
      rw [sameChain]
      exact (upper_of_not_prev rfl (core.sorted key.chain) sortedMore levelledMore members
        mem inside (fun inPrevs => isPrev ⟨sameChain, inPrevs⟩)).symm
    · rw [linked.priosList, if_neg sameChain]
  · intro first isUpper
    refine tables _ ?_
    intro sameKey
    have inside := (Lib.upper_mem isUpper).1
    have pair := pair_eq.mpr sameKey
    rw [show other.chain = key.chain from pair.1] at inside
    exact notListed (pair.2 ▸ inside)

/-- When an entry is removed, the previous ones lead to what it led to. -/
theorem Rewired.wired_removed {prio} (core : Core esw refs s) (wired : Wired esw s)
    (found : s.priosHt key = some prio) (rewired : Rewired key.chain (prevsOf s key) prio.nextFdb s t)
    (coreRewired : Core esw refs t) (levelled : Lib.Levelled (s.priosList key.chain))
    (highest : ∀ other ∈ s.priosList key.chain, other.1 = key.prio → other.2 ≤ key.level) :
    Wired esw (removed key prio t) ∧
      ∀ other, other ≠ key → (removed key prio t).fdbOf other = s.fdbOf other := by
  have apartKey : ∀ pos ∈ prevsOf s key, key ≠ ⟨key.chain, pos.1, pos.2⟩ := by
    intro pos inPrevs same
    exact (mem_prevsOf inPrevs).2 (Key.pair_eq.mpr same).2.symm
  have foundStill : t.priosHt key = some prio := by rw [rewired.others key apartKey, found]
  have priosHt : (removed key prio t).priosHt = update t.priosHt key none := by rw [removed_frame]
  have tcEndFdb : (removed key prio t).tcEndFdb = s.tcEndFdb := by rw [← rewired.tcEndFdb, removed_frame]
  have list chain : (removed key prio t).priosList chain = if chain = key.chain then
      (s.priosList key.chain).erase (key.prio, key.level) else s.priosList chain := by
    rw [coreRewired.removed_list foundStill, rewired.priosList, rewired.priosList]
  have sorted := core.sorted key.chain
  have sortedLess := sorted.sublist (erase_sublist (a := (key.prio, key.level)))
  have members other : other ∈ (s.priosList key.chain).erase (key.prio, key.level) ↔ other ∈ s.priosList
      key.chain ∧ other ≠ (key.prio, key.level) := by
    rw [(Lib.sorted_nodup sorted).mem_erase_iff, and_comm]
  have mem : (key.prio, key.level) ∈ s.priosList key.chain :=
    (core.listed key).mpr (by rw [found]; exact some_ne_none _)
  have present pos (isPrev : pos ∈ prevsOf s key) : s.priosHt ⟨key.chain, pos.1, pos.2⟩ ≠ none :=
      core.present pos (mem_prevsOf isPrev).1
  have tables other (different : other ≠ key) : (removed key prio t).fdbOf other = s.fdbOf other := by
    rw [← rewired.fdbOf present]
    unfold ChainsPriv.fdbOf
    rw [priosHt, update_of_ne different]
  have upperTables {chain group first} (notKey : chain = key.chain → key.prio ≤ group ∨ first ≠
      (key.prio, key.level)) (isUpper : Lib.upper (s.priosList chain) group = some first) :
      (removed key prio t).fdbOf ⟨chain, first.1, first.2⟩ = s.fdbOf ⟨chain, first.1, first.2⟩ := by
    refine tables _ ?_
    intro sameKey
    have pair := Key.pair_eq.mpr sameKey
    rcases notKey pair.1 with before | different
    · have later := (Lib.upper_mem isUpper).2
      have same : first.1 = key.prio := congrArg Prod.fst pair.2
      omega
    · exact different pair.2
  refine ⟨?_, tables⟩
  intro other otherPrio otherFound
  have different : other ≠ key := by
    intro same
    rw [same, priosHt, update_self] at otherFound
    cases otherFound
  rw [priosHt, update_of_ne different] at otherFound
  by_cases isPrev : other.chain = key.chain ∧ (other.prio, other.level) ∈ prevsOf s key
  · obtain ⟨sameChain, inPrevs⟩ := isPrev
    obtain ⟨-, asKey⟩ := upper_of_prev rfl sortedLess sorted levelled members mem highest inPrevs
    have isOther : other = ⟨key.chain, other.prio, other.level⟩ := (Key.pair_eq.mp ⟨sameChain, rfl⟩)
    obtain ⟨old, oldFound⟩ := ne_none_iff_exists'.mp (present _ inPrevs)
    obtain ⟨rule, switched⟩ := rewired.switched _ inPrevs old oldFound
    rw [isOther, switched] at otherFound
    cases otherFound
    rw [← wired _ _ found]
    refine leadsTo_congr sameChain ?_ ?_ tcEndFdb
    · rw [list, sameChain, if_pos rfl]
      exact asKey
    · intro first isUpper
      exact upperTables (fun _ => .inl le_rfl) isUpper
  · have apart : ∀ pos ∈ prevsOf s key, other ≠ ⟨key.chain, pos.1, pos.2⟩ := by
      intro pos inPrevs same
      subst same
      exact isPrev ⟨rfl, inPrevs⟩
    rw [rewired.others other apart] at otherFound
    rw [← wired _ _ otherFound]
    have upperSame : Lib.upper ((removed key prio t).priosList other.chain) other.prio =
        Lib.upper (s.priosList other.chain) other.prio := by
      rw [list]
      by_cases sameChain : other.chain = key.chain
      · have inside : (other.prio, other.level) ∈ s.priosList key.chain := by
          rw [← sameChain]
          exact (core.listed other).mpr (by rw [otherFound]; exact some_ne_none _)
        rw [if_pos sameChain, sameChain]
        exact upper_of_not_prev rfl sortedLess sorted levelled members mem inside
          (fun inPrevs => isPrev ⟨sameChain, inPrevs⟩)
      · rw [if_neg sameChain]
    refine leadsTo_congr rfl upperSame ?_ tcEndFdb
    intro first isUpper
    refine upperTables ?_ isUpper
    intro sameChain
    rw [← upperSame, list, if_pos sameChain] at isUpper
    exact .inr ((members first).mp (Lib.upper_mem isUpper).1).2

end MlnxOfed.Chains
