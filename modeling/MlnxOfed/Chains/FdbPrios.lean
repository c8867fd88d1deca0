/-
Creation and destruction of an entry: a failed attempt leaves the state but for the counters, one that
succeeds keeps what holds of the entries.
-/

import MlnxOfed.Chains.ChainsCore

namespace MlnxOfed.Chains

open Prod Option List Function

def ChainsPriv.chainRef (s : ChainsPriv) (chain : Nat) : Nat :=
  (s.chainsHt chain).elim 0 FdbChain.ref

/-- The state is as before but for the numbers that are given out and the pool. -/
structure Restored (s t : ChainsPriv) : Prop where
  chainsHt : t.chainsHt = s.chainsHt
  priosHt : t.priosHt = s.priosHt
  tcEndFdb : t.tcEndFdb = s.tcEndFdb
  tables : t.tables = s.tables
  missRules : t.missRules = s.missRules
  overrun : t.overrun = s.overrun
  nextTable : s.nextTable ≤ t.nextTable
  nextRule : s.nextRule ≤ t.nextRule

structure Held (chain : Nat) (s t : ChainsPriv) : Prop where
  chainsHt : t.chainsHt = update s.chainsHt chain (some ⟨s.chainRef chain + 1, s.priosList chain⟩)
  priosHt : t.priosHt = s.priosHt
  tcEndFdb : t.tcEndFdb = s.tcEndFdb
  overrun : t.overrun = s.overrun
  nextTable : s.nextTable ≤ t.nextTable
  nextRule : s.nextRule ≤ t.nextRule

structure Linked (esw : Esw) (key : Key) (fdb : FlowTable) (missRule : Nat) (s t : ChainsPriv) : Prop where
  chainsHt : t.chainsHt = update s.chainsHt key.chain (some ⟨s.chainRef key.chain + 1,
    Lib.insertBefore (s.priosList key.chain) (key.prio, key.level)⟩)
  priosHt : t.priosHt = update s.priosHt key (some ⟨0, fdb, findNextFdb esw key s, missRule⟩)
  tcEndFdb : t.tcEndFdb = s.tcEndFdb
  tables : t.tables = fdb :: s.tables
  missRules : t.missRules = update s.missRules missRule (some (missRuleOf esw s fdb (findNextFdb esw key s)))
  overrun : t.overrun = s.overrun
  newTable : s.nextTable ≤ fdb.id ∧ fdb.id < t.nextTable
  newRule : s.nextRule ≤ missRule ∧ missRule < t.nextRule

variable {esw : Esw} {env : Env} {refs : Key → Nat} {s t u : ChainsPriv} {chain : Nat}
  {key other : Key} {fdb nextFdb : FlowTable} {missRule : Nat}

theorem putSzToPool_frame (sz s) : putSzToPool sz s = { s with fdbLeft := (putSzToPool sz s).fdbLeft } := by
  unfold putSzToPool
  split
  · rfl
  · rfl

theorem getAvailSzFromPool_frame (desired s) : (getAvailSzFromPool desired s).2 =
      { s with fdbLeft := (getAvailSzFromPool desired s).2.fdbLeft } := by
  unfold getAvailSzFromPool
  split
  · rfl
  · rfl

theorem destroyFdbTable_frame (fdb s) : destroyFdbTable fdb s =
    { s with tables := s.tables.erase fdb, fdbLeft := (destroyFdbTable fdb s).fdbLeft } := by
  unfold destroyFdbTable
  rw [putSzToPool_frame]

private theorem createFdbTable_none (res : createFdbTable esw env chain s = (none, t)) :
    t = { s with attempts := t.attempts, fdbLeft := t.fdbLeft } := by
  unfold createFdbTable at res
  dsimp only at res
  split at res
  · obtain rfl : _ = t := (mk.injEq .. ▸ res).2
    rw [getAvailSzFromPool_frame]
  · split at res
    · obtain rfl : _ = t := (mk.injEq .. ▸ res).2
      rw [putSzToPool_frame, getAvailSzFromPool_frame]
      rfl
    · cases (mk.injEq .. ▸ res).1

theorem createFdbTable_some (res : createFdbTable esw env chain s = (some fdb, t)) :
    fdb.id = s.nextTable ∧ t = { s with
      attempts := t.attempts
      fdbLeft := t.fdbLeft
      tables := fdb :: s.tables
      nextTable := s.nextTable + 1 } := by
  unfold createFdbTable at res
  dsimp only at res
  split at res
  · cases (mk.injEq .. ▸ res).1
  split at res
  · cases (mk.injEq .. ▸ res).1
  obtain ⟨sameTable, sameState⟩ := mk.injEq .. ▸ res
  cases sameTable
  cases sameState
  refine ⟨rfl, ?_⟩
  rw [getAvailSzFromPool_frame]
  rfl

/-! ### The chain -/

theorem createFdbChainRestore_frame : (createFdbChainRestore esw env chain s).2 =
      { s with attempts := (createFdbChainRestore esw env chain s).2.attempts } := by
  unfold createFdbChainRestore
  split
  · rfl
  · split
    · rfl
    · split
      · rfl
      · rfl

private theorem createFdbChain_false (res : createFdbChain esw env chain s = (false, t)) :
    t = { s with attempts := t.attempts } := by
  unfold createFdbChain at res
  split at res
  · obtain rfl : s.tick = t := (mk.injEq .. ▸ res).2
    rfl
  have frame := @createFdbChainRestore_frame esw env s.tick chain
  split at res
  · rename_i after failed
    obtain rfl : after = t := (mk.injEq .. ▸ res).2
    rw [failed] at frame
    exact frame
  rename_i after restored
  rw [restored] at frame
  split at res
  · obtain rfl : after.tick = t := (mk.injEq .. ▸ res).2
    dsimp only at frame
    rw [frame]
    rfl
  · cases (mk.injEq .. ▸ res).1

private theorem createFdbChain_true (res : createFdbChain esw env chain s = (true, t)) : t =
    { s with attempts := t.attempts, chainsHt := update s.chainsHt chain (some ⟨0, []⟩) } := by
  unfold createFdbChain at res
  split at res
  · cases (mk.injEq .. ▸ res).1
  have frame := @createFdbChainRestore_frame esw env s.tick chain
  split at res
  · cases (mk.injEq .. ▸ res).1
  rename_i after restored
  rw [restored] at frame
  split at res
  · cases (mk.injEq .. ▸ res).1
  · obtain rfl : _ = t := (mk.injEq .. ▸ res).2
    dsimp only at frame
    rw [frame]
    rfl

theorem getFdbChain_false (res : getFdbChain esw env chain s = (false, t)) :
    t = { s with attempts := t.attempts } := by
  unfold getFdbChain at res
  by_cases here : (s.chainsHt chain).isSome
  · rw [if_pos here] at res
    cases (Prod.mk.injEq .. ▸ res).1
  rw [if_neg here] at res
  dsimp only at res
  split at res
  · cases (Prod.mk.injEq .. ▸ res).1
  · rename_i failed
    obtain rfl : _ = t := (Prod.mk.injEq .. ▸ res).2
    exact createFdbChain_false (Prod.ext (Bool.eq_false_iff.mpr failed) rfl)

theorem getFdbChain_true (res : getFdbChain esw env chain s = (true, t)) :
    Held chain s t ∧ t.tables = s.tables ∧ t.missRules = s.missRules ∧ t.fdbLeft = s.fdbLeft := by
  unfold getFdbChain at res
  by_cases here : (s.chainsHt chain).isSome
  · obtain ⟨fdbChain, found⟩ := isSome_iff_exists.mp here
    rw [if_pos here] at res
    obtain rfl : _ = t := (mk.injEq .. ▸ res).2
    refine ⟨⟨?_, rfl, rfl, rfl, le_rfl, le_rfl⟩, rfl, rfl, rfl⟩
    unfold ChainsPriv.chainRef ChainsPriv.priosList
    dsimp only
    rw [found]
    rfl
  rw [if_neg here] at res
  rw [Bool.not_eq_true, isSome_eq_false_iff, isNone_iff_eq_none] at here
  cases created : createFdbChain esw env chain s with
  | mk made after =>
    rw [created] at res
    cases made with
    | false => cases (mk.injEq .. ▸ res).1
    | true =>
      have frame := createFdbChain_true created
      obtain rfl : _ = t := (mk.injEq .. ▸ res).2
      dsimp only
      rw [frame]
      refine ⟨⟨?_, rfl, rfl, rfl, le_rfl, le_rfl⟩, rfl, rfl, rfl⟩
      unfold ChainsPriv.chainRef ChainsPriv.priosList
      dsimp only
      rw [here, update_self, update_idem]
      rfl

theorem putFdbChain_frame (chain s) :
    putFdbChain chain s = { s with chainsHt := (putFdbChain chain s).chainsHt } := by
  unfold putFdbChain
  split
  · rfl
  · rfl

theorem Held.put (pos : ∀ fdbChain, s.chainsHt chain = some fdbChain → 0 < fdbChain.ref)
    (held : Held chain s t) : (putFdbChain chain t).chainsHt = s.chainsHt := by
  unfold putFdbChain
  rw [held.chainsHt, update_self]
  dsimp only
  rw [update_idem, update_eq_self_iff, Nat.add_sub_cancel]
  unfold ChainsPriv.chainRef ChainsPriv.priosList
  cases found : s.chainsHt chain with
  | none => rfl
  | some fdbChain =>
    have used := pos fdbChain found
    exact if_neg (Nat.ne_of_gt used)

theorem Held.restored (pos : ∀ fdbChain, s.chainsHt chain = some fdbChain → 0 < fdbChain.ref)
    (held : Held chain s t) (tables : t.tables = s.tables) (missRules : t.missRules = s.missRules) :
    Restored s (putFdbChain chain t) := by
  have put := held.put pos
  rw [putFdbChain_frame] at put ⊢
  exact ⟨put, held.priosHt, held.tcEndFdb, tables, missRules, held.overrun, held.nextTable, held.nextRule⟩

theorem Held.keeps (held : Held chain s t) (frame : u = { t with
      attempts := u.attempts
      fdbLeft := u.fdbLeft
      tables := u.tables
      missRules := u.missRules
      nextTable := u.nextTable
      nextRule := u.nextRule })
    (nextTable : t.nextTable ≤ u.nextTable) (nextRule : t.nextRule ≤ u.nextRule) :
    Held chain s u := by
  rw [frame]
  exact ⟨held.chainsHt, held.priosHt, held.tcEndFdb, held.overrun, held.nextTable.trans nextTable,
    held.nextRule.trans nextRule⟩

/-! ### Creation -/

theorem Held.findNextFdb (held : Held key.chain s t) :
    findNextFdb esw key t = Chains.findNextFdb esw key s := by
  have list : t.priosList key.chain = s.priosList key.chain := by
    unfold ChainsPriv.priosList
    rw [held.chainsHt, update_self]
    rfl
  unfold Chains.findNextFdb defaultMiss
  rw [list, held.priosHt, held.tcEndFdb]

theorem Held.linked (held : Held key.chain s t) (tables : t.tables = fdb :: s.tables)
    (missRules : t.missRules = update s.missRules missRule
      (some (missRuleOf esw s fdb (Chains.findNextFdb esw key s))))
    (newTable : s.nextTable ≤ fdb.id ∧ fdb.id < t.nextTable)
    (newRule : s.nextRule ≤ missRule ∧ missRule < t.nextRule) :
    Linked esw key fdb missRule s (linkFdbPrio key ⟨0, fdb, Chains.findNextFdb esw key s, missRule⟩ t) := by
  have list : t.priosList key.chain = s.priosList key.chain := by
    unfold ChainsPriv.priosList
    rw [held.chainsHt, update_self]
    rfl
  refine ⟨?_, ?_, held.tcEndFdb, tables, missRules, held.overrun, newTable, newRule⟩
  · unfold linkFdbPrio setPriosList
    rw [list]
    rw [held.chainsHt, update_self, update_idem]
    rfl
  · unfold linkFdbPrio setPriosList
    rw [held.priosHt]

/-- A creation fails before the entry is linked, or links it and goes on with the previous ones. -/
theorem createFdbPrio_cases (pos : ∀ fdbChain, s.chainsHt key.chain = some fdbChain → 0 < fdbChain.ref)
    (free : ∀ rule, s.nextRule ≤ rule → s.missRules rule = none) :
    (∃ t, createFdbPrio esw env key s = (none, t) ∧ Restored s t) ∨
      ∃ fdb missRule t, Linked esw key fdb missRule s t ∧ createFdbPrio esw env key s =
          match updatePrioPrevs esw env key fdb t with
          | (true, u) => (some ⟨0, fdb, findNextFdb esw key s, missRule⟩, u)
          | (false, u) =>
            (none, putFdbChain key.chain
              (destroyFdbTable fdb (delFlowRules missRule (unlinkFdbPrio key u)))) := by
  unfold createFdbPrio
  split
  · rename_i after failed
    refine .inl ⟨after, rfl, ?_⟩
    rw [getFdbChain_false failed]
    exact ⟨rfl, rfl, rfl, rfl, rfl, rfl, le_rfl, le_rfl⟩
  rename_i first got
  obtain ⟨held, tables, missRules, _⟩ := getFdbChain_true got
  split
  · refine .inl ⟨_, rfl, ?_⟩
    exact (held.keeps (u := first.tick.tick) rfl le_rfl le_rfl).restored pos tables missRules
  dsimp only
  split
  · rename_i after failed
    refine .inl ⟨_, rfl, ?_⟩
    rw [createFdbTable_none failed]
    exact Held.restored pos (held.keeps rfl le_rfl le_rfl) tables missRules
  rename_i fdb second made
  obtain ⟨idNext, frame⟩ := createFdbTable_some made
  have heldSecond : Held key.chain s second := by
    rw [frame]
    exact held.keeps rfl (Nat.le_succ _) le_rfl
  have secondTables : second.tables = fdb :: s.tables := by
    rw [frame, ← tables]
    rfl
  have secondRules : second.missRules = s.missRules := by
    rw [frame]
    exact missRules
  have bound : fdb.id < second.nextTable := by
    rw [frame, idNext]
    exact Nat.lt_succ_self _
  have above : s.nextTable ≤ fdb.id := by
    rw [idNext]
    exact held.nextTable
  have destroyed (u : ChainsPriv) (heldLast : Held key.chain s u) (lastTables : u.tables = fdb ::
      s.tables) (lastRules : u.missRules = s.missRules) : Restored s (putFdbChain key.chain
      (destroyFdbTable fdb u)) := by
    rw [destroyFdbTable_frame]
    refine Held.restored pos (heldLast.keeps rfl le_rfl le_rfl) ?_ lastRules
    rw [lastTables]
    exact erase_cons_head _ _
  split
  · exact .inl ⟨_, rfl, destroyed _ (heldSecond.keeps rfl le_rfl le_rfl) secondTables secondRules⟩
  split
  · rename_i third failed
    rw [addMissRule_none failed]
    exact .inl ⟨_, rfl, destroyed _ (heldSecond.keeps rfl le_rfl le_rfl) secondTables secondRules⟩
  rename_i missRule third added
  obtain ⟨isNext, frame⟩ := addMissRule_some added
  have ruleAbove : s.nextRule ≤ missRule := by
    rw [isNext]
    exact heldSecond.nextRule
  have heldThird : Held key.chain s third := by
    rw [frame]
    exact heldSecond.keeps rfl le_rfl (Nat.le_succ _)
  have thirdTables : third.tables = fdb :: s.tables := by
    rw [frame]
    exact secondTables
  have found : findNextFdb esw key first.tick.tick = findNextFdb esw key s :=
    Held.findNextFdb (held.keeps rfl le_rfl le_rfl)
  have thirdRules : third.missRules = update s.missRules missRule
      (some (missRuleOf esw s fdb (findNextFdb esw key s))) := by
    rw [frame]
    unfold missRuleOf
    rw [← found, ← secondRules, ← heldSecond.tcEndFdb]
    rfl
  split
  · refine .inl ⟨_, rfl, destroyed _ (heldThird.keeps rfl le_rfl
      le_rfl) thirdTables ?_⟩
    dsimp only [delFlowRules, ChainsPriv.tick]
    rw [thirdRules, update_idem, update_eq_self_iff]
    exact (free missRule ruleAbove).symm
  refine .inr ⟨fdb, missRule, _, Held.linked (heldThird.keeps
    (u := third.tick) rfl le_rfl le_rfl) thirdTables thirdRules
    ⟨above, ?_⟩ ⟨ruleAbove, ?_⟩, ?_⟩
  · rw [frame]
    exact bound
  · rw [frame, isNext]
    exact Nat.lt_succ_self _
  · rw [← found]
    rfl

/-! ### What is kept -/

theorem missRuleOf_congr (tcEndFdb : t.tcEndFdb = s.tcEndFdb) (fdb nextFdb) :
    missRuleOf esw t fdb nextFdb = missRuleOf esw s fdb nextFdb := by
  unfold missRuleOf
  rw [tcEndFdb]

theorem priosList_congr (chainsHt : t.chainsHt = s.chainsHt) (chain) :
    t.priosList chain = s.priosList chain := by
  unfold ChainsPriv.priosList
  rw [chainsHt]

theorem Ruled.restored (ruled : Ruled esw [] s) (restored : Restored s t) : Ruled esw [] t := by
  obtain ⟨chainsHt, priosHt, tcEndFdb, tables, missRules, overrun, _, nextRule⟩ := restored
  cases t
  cases priosHt
  cases tcEndFdb
  cases missRules
  exact { ruled with fresh := fun used => (ruled.fresh used).trans_le nextRule }

theorem Core.restored (core : Core esw refs s) (restored : Restored s t) : Core esw refs t := by
  have rules := core.rules.restored restored
  obtain ⟨chainsHt, priosHt, tcEndFdb, tables, missRules, overrun, nextTable, _⟩ := restored
  cases t
  cases chainsHt
  cases priosHt
  cases tables
  cases overrun
  exact { core with
    rules := rules
    freshTable member := (core.freshTable member).imp id fun below => below.trans_le nextTable
    afterSlow := core.afterSlow.trans_le nextTable }

theorem Core.positive (core : Core esw refs s) (chain fdbChain) (found : s.chainsHt chain = some
    fdbChain) : 0 < fdbChain.ref := (core.chainRef found).2

theorem Core.chainRef_eq (core : Core esw refs s) (chain) :
    s.chainRef chain = (s.priosList chain).length := by
  unfold ChainsPriv.chainRef ChainsPriv.priosList
  cases found : s.chainsHt chain with
  | none => rfl
  | some fdbChain => exact (core.chainRef found).1

theorem Linked.priosList (linked : Linked esw key fdb missRule s t) (chain) :
    t.priosList chain = if chain = key.chain then
      Lib.insertBefore (s.priosList key.chain) (key.prio, key.level) else s.priosList chain := by
  unfold ChainsPriv.priosList
  rw [linked.chainsHt]
  split
  · rename_i same
    rw [same, update_self]
    rfl
  · rename_i apart
    rw [update_of_ne apart]

theorem Key.pair_eq : other.chain = key.chain ∧ (other.prio, other.level) = (key.prio, key.level) ↔
    other = key := by
  constructor
  · rintro ⟨chain, pair⟩
    rw [Prod.mk.injEq] at pair
    cases other
    cases key
    exact Key.mk.injEq .. ▸ ⟨chain, pair⟩
  · rintro rfl
    exact ⟨rfl, rfl⟩

theorem Ruled.link (ruled : Ruled esw [] s) (linked : Linked esw key fdb missRule s t)
    (absent : s.priosHt key = none) : Ruled esw [] t := by
  have self : t.priosHt key = some ⟨0, fdb, findNextFdb esw key s, missRule⟩ := by
    rw [linked.priosHt, update_self]
  have others {other} (apart : other ≠ key) : t.priosHt other = s.priosHt other := by
    rw [linked.priosHt, update_of_ne apart]
  have kept {rule} (used : s.missRules rule ≠ none) : t.missRules rule = s.missRules rule ∧ rule ≠
      missRule := by
    have apart : rule ≠ missRule := Nat.ne_of_lt ((ruled.fresh used).trans_le linked.newRule.1)
    rw [linked.missRules, update_of_ne apart]
    exact ⟨rfl, apart⟩
  have used {other prio} (found : s.priosHt other = some prio) : s.missRules prio.missRule ≠ none := by
    rw [ruled.ruled found]
    exact some_ne_none _
  constructor
  · intro other prio found
    rw [missRuleOf_congr linked.tcEndFdb]
    by_cases same : other = key
    · rw [same, self] at found
      cases found
      rw [linked.missRules, update_self]
    · rw [others same] at found
      rw [(kept (used found)).1]
      exact ruled.ruled found
  · exact nofun
  · intro rule isUsed
    refine .inl ?_
    by_cases isNew : rule = missRule
    · exact ⟨key, _, self, isNew.symm⟩
    rw [linked.missRules, update_of_ne isNew] at isUsed
    rcases ruled.owned isUsed with ⟨other, prio, found, same⟩ | ⟨_, mem, _⟩
    · refine ⟨other, prio, ?_, same⟩
      rw [others]
      · exact found
      · intro sameKey
        rw [sameKey, absent] at found
        cases found
    · cases mem
  · intro first second firstPrio secondPrio firstFound secondFound sameRule
    by_cases firstNew : first = key
    · by_cases secondNew : second = key
      · exact firstNew.trans secondNew.symm
      · rw [firstNew, self] at firstFound
        cases firstFound
        rw [others secondNew] at secondFound
        exact absurd sameRule.symm (kept (used secondFound)).2
    rw [others firstNew] at firstFound
    by_cases secondNew : second = key
    · rw [secondNew, self] at secondFound
      cases secondFound
      exact absurd sameRule (kept (used firstFound)).2
    · rw [others secondNew] at secondFound
      exact ruled.ruleOnce firstFound secondFound sameRule
  · exact .nil
  · exact nofun
  · intro rule isUsed
    by_cases isNew : rule = missRule
    · rw [isNew]
      exact linked.newRule.2
    · rw [linked.missRules, update_of_ne isNew] at isUsed
      have below := ruled.fresh isUsed
      have bounds := linked.newRule
      omega

theorem Core.link (core : Core esw refs s) (linked : Linked esw key fdb missRule s t)
    (absent : s.priosHt key = none) : Core esw refs t := by
  have self : t.priosHt key = some ⟨0, fdb, findNextFdb esw key s, missRule⟩ := by
    rw [linked.priosHt, update_self]
  have others {other} (apart : other ≠ key) : t.priosHt other = s.priosHt other := by
    rw [linked.priosHt, update_of_ne apart]
  have notListed : (key.prio, key.level) ∉ s.priosList key.chain := by
    intro mem
    exact (core.listed key).mp mem absent
  have newTable {table} (mem : table ∈ s.tables) : table ≠ fdb := by
    intro same
    have below := (core.freshTable mem).2
    rw [same] at below
    exact absurd below (Nat.not_lt.mpr linked.newTable.1)
  constructor
  · intro chain
    rw [linked.priosList]
    split
    · exact Lib.sorted_insertBefore (core.sorted key.chain) notListed
    · exact core.sorted chain
  · intro other
    rw [linked.priosList]
    by_cases sameChain : other.chain = key.chain
    · rw [if_pos sameChain, Lib.mem_insertBefore]
      by_cases same : other = key
      · subst same
        rw [self]
        exact iff_of_true (.inl rfl) (some_ne_none _)
      · rw [others same, ← core.listed other, sameChain]
        exact or_iff_right fun samePair => same (Key.pair_eq.mp ⟨sameChain, samePair⟩)
    · have apart : other ≠ key := fun same => sameChain (congrArg Key.chain same)
      rw [if_neg sameChain, others apart]
      exact core.listed other
  · intro chain fdbChain found
    rw [linked.chainsHt] at found
    by_cases same : chain = key.chain
    · rw [same, update_self] at found
      cases found
      exact ⟨by rw [Lib.length_insertBefore, core.chainRef_eq], Nat.succ_pos _⟩
    · rw [update_of_ne same] at found
      exact core.chainRef found
  · intro other
    by_cases same : other = key
    · rw [same, self, ← core.counted key, absent]
      rfl
    · rw [others same]
      exact core.counted other
  · exact core.rules.link linked absent
  · intro other prio found
    rw [linked.tables]
    by_cases same : other = key
    · rw [same, self] at found
      cases found
      exact .head _
    · rw [others same] at found
      exact .tail _ (core.tabled found)
  · intro table mem
    rw [linked.tables] at mem
    rcases mem_cons.mp mem with isNew | old
    · exact ⟨key, _, self, isNew.symm⟩
    obtain ⟨other, prio, found, same⟩ := core.alive old
    refine ⟨other, prio, ?_, same⟩
    rw [others]
    · exact found
    · intro sameKey
      rw [sameKey, absent] at found
      cases found
  · intro first second firstPrio secondPrio firstFound secondFound sameTable
    by_cases firstNew : first = key
    · by_cases secondNew : second = key
      · exact firstNew.trans secondNew.symm
      · rw [firstNew, self] at firstFound
        cases firstFound
        rw [others secondNew] at secondFound
        exact absurd sameTable.symm (newTable (core.tabled secondFound))
    rw [others firstNew] at firstFound
    by_cases secondNew : second = key
    · rw [secondNew, self] at secondFound
      cases secondFound
      exact absurd sameTable (newTable (core.tabled firstFound))
    · rw [others secondNew] at secondFound
      exact core.tableOnce firstFound secondFound sameTable
  · rw [linked.tables, nodup_cons]
    exact ⟨fun mem => newTable mem rfl, core.tablesOnce⟩
  · intro table mem
    rw [linked.tables] at mem
    have bounds := linked.newTable
    rcases mem_cons.mp mem with rfl | old
    · exact ⟨by have := core.afterSlow; omega, bounds.2⟩
    · obtain ⟨above, below⟩ := core.freshTable old
      exact ⟨above, by omega⟩
  · have bounds := linked.newTable
    have after := core.afterSlow
    omega
  · rw [linked.overrun]
    exact core.inside

end MlnxOfed.Chains
