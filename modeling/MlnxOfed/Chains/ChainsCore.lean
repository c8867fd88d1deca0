/-
What holds of entries, tables and miss rules between the updates of the wiring, and that new rules for the
previous entries keep it.
-/

import MlnxOfed.Chains.EswChains

namespace MlnxOfed.Chains

open Prod List Option Function

structure Waiting where
  key : Key
  rule : Nat
  dest : FlowTable

structure Ruled (esw : Esw) (waiting : List Waiting) (s : ChainsPriv) : Prop where
  ruled : ∀ {key prio}, s.priosHt key = some prio →
    s.missRules prio.missRule = some (missRuleOf esw s prio.fdb prio.nextFdb)
  added : ∀ new ∈ waiting, ∃ prio, s.priosHt new.key = some prio ∧
    s.missRules new.rule = some (missRuleOf esw s prio.fdb new.dest)
  owned : ∀ {rule}, s.missRules rule ≠ none → (∃ key prio, s.priosHt key = some prio ∧ prio.missRule = rule) ∨
      ∃ new ∈ waiting, new.rule = rule
  ruleOnce : ∀ {key other prio otherPrio}, s.priosHt key = some prio →
    s.priosHt other = some otherPrio → prio.missRule = otherPrio.missRule → key = other
  addedOnce : waiting.Pairwise fun first second =>
    first.key ≠ second.key ∧ first.rule ≠ second.rule
  apart : ∀ {key prio}, s.priosHt key = some prio → ∀ new ∈ waiting, new.rule ≠ prio.missRule
  fresh : ∀ {rule}, s.missRules rule ≠ none → rule < s.nextRule

/-- Each table is that of one entry, and each entry is in the list of its chain. -/
structure Core (esw : Esw) (refs : Key → Nat) (s : ChainsPriv) : Prop where
  sorted : ∀ chain, (s.priosList chain).Pairwise Lib.Before
  listed : ∀ key, (key.prio, key.level) ∈ s.priosList key.chain ↔ s.priosHt key ≠ none
  chainRef : ∀ {chain fdbChain}, s.chainsHt chain = some fdbChain →
    fdbChain.ref = fdbChain.priosList.length ∧ 0 < fdbChain.ref
  counted : ∀ key, (s.priosHt key).elim 0 FdbPrio.ref = refs key
  rules : Ruled esw [] s
  tabled : ∀ {key prio}, s.priosHt key = some prio → prio.fdb ∈ s.tables
  alive : ∀ {table}, table ∈ s.tables → ∃ key prio, s.priosHt key = some prio ∧ prio.fdb = table
  tableOnce : ∀ {key other prio otherPrio}, s.priosHt key = some prio →
    s.priosHt other = some otherPrio → prio.fdb = otherPrio.fdb → key = other
  tablesOnce : s.tables.Nodup
  freshTable : ∀ {table}, table ∈ s.tables → 1 < table.id ∧ table.id < s.nextTable
  afterSlow : 1 < s.nextTable
  inside : s.overrun = false

variable {esw : Esw} {env : Env} {refs : Key → Nat} {s t : ChainsPriv} {chain : Nat} {key other : Key}
  {nextFdb : FlowTable} {waiting : List Waiting}

/-! ### New rules -/

def waits (chain : Nat) (nextFdb : FlowTable) (prevs : List (Nat × Nat)) (rules : List Nat) : List Waiting :=
  zipWith (fun pos rule => ⟨⟨chain, pos.1, pos.2⟩, rule, nextFdb⟩) prevs rules

theorem Ruled.free (ruled : Ruled esw waiting s) {rule} (next : s.nextRule ≤ rule) :
    s.missRules rule = none := by
  by_contra used
  have below := ruled.fresh used
  omega

theorem addMissRule_some {fdb rule} (res : addMissRule esw env fdb nextFdb s = (some rule, t)) :
    rule = s.nextRule ∧ t = { s.tick with
      missRules := update s.missRules rule (some (missRuleOf esw s fdb nextFdb))
      nextRule := s.nextRule + 1 } := by
  unfold addMissRule at res
  split at res
  · obtain ⟨same, rest⟩ := mk.injEq .. ▸ res
    cases same
    exact ⟨rfl, rest.symm⟩
  · cases (mk.injEq .. ▸ res).1

theorem addMissRule_none {fdb} (res : addMissRule esw env fdb nextFdb s = (none, t)) : t = s.tick := by
  unfold addMissRule at res
  split at res
  · cases (mk.injEq .. ▸ res).1
  · exact (mk.injEq .. ▸ res).2.symm

private theorem addMissRule_granted (fdb nextFdb s) : (addMissRule esw granted fdb nextFdb s).1 ≠ none := by
  have ok : s.ok granted = true := rfl
  unfold addMissRule
  rw [if_pos ok]
  exact some_ne_none _

theorem Ruled.add {prio} (ruled : Ruled esw waiting s)
    (found : s.priosHt key = some prio) (once : ∀ new ∈ waiting, new.key ≠ key)
    (missRules : t.missRules = update s.missRules s.nextRule (some (missRuleOf esw s prio.fdb nextFdb)))
    (priosHt : t.priosHt = s.priosHt) (tcEndFdb : t.tcEndFdb = s.tcEndFdb)
    (nextRule : t.nextRule = s.nextRule + 1) :
    Ruled esw (⟨key, s.nextRule, nextFdb⟩ :: waiting) t := by
  have sameRule fdb nextFdb : missRuleOf esw t fdb nextFdb = missRuleOf esw s fdb nextFdb := by
    unfold missRuleOf
    rw [tcEndFdb]
  have kept {rule} (used : s.missRules rule ≠ none) : t.missRules rule = s.missRules rule := by
    rw [missRules, update_of_ne (Nat.ne_of_lt (ruled.fresh used))]
  constructor
  · intro key prio found
    rw [priosHt] at found
    have rule := ruled.ruled found
    rw [kept (by rw [rule]; exact some_ne_none _), rule, sameRule]
  · intro new mem
    rcases mem_cons.mp mem with rfl | old
    · exact ⟨prio, by rw [priosHt]; exact found, by rw [missRules, update_self, sameRule]⟩
    · obtain ⟨prio, found, rule⟩ := ruled.added new old
      exact ⟨prio, by rw [priosHt]; exact found,
        by rw [kept (by rw [rule]; exact some_ne_none _), rule, sameRule]⟩
  · intro rule used
    rw [missRules] at used
    by_cases isNew : rule = s.nextRule
    · exact .inr ⟨_, .head _, isNew.symm⟩
    · rw [update_of_ne isNew] at used
      rw [priosHt]
      rcases ruled.owned used with entry | ⟨new, mem, same⟩
      · exact .inl entry
      · exact .inr ⟨new, mem_cons_of_mem _ mem, same⟩
  · intro key other prio otherPrio found otherFound
    rw [priosHt] at found otherFound
    exact ruled.ruleOnce found otherFound
  · rw [pairwise_cons]
    refine ⟨?_, ruled.addedOnce⟩
    intro new mem
    obtain ⟨prio, -, rule⟩ := ruled.added new mem
    have below := @ruled.fresh new.rule (by rw [rule]; exact some_ne_none _)
    exact ⟨(once new mem).symm, Nat.ne_of_gt below⟩
  · intro key prio found new mem
    rw [priosHt] at found
    rcases mem_cons.mp mem with rfl | old
    · have rule := ruled.ruled found
      exact Nat.ne_of_gt (ruled.fresh (by rw [rule]; exact some_ne_none _))
    · exact ruled.apart found new old
  · intro rule used
    rw [missRules] at used
    rw [nextRule]
    by_cases isNew : rule = s.nextRule
    · omega
    · rw [update_of_ne isNew] at used
      have below := ruled.fresh used
      omega

theorem Ruled.perm {permuted} (ruled : Ruled esw waiting s)
    (perm : waiting.Perm permuted) : Ruled esw permuted s :=
  { ruled with
    added := fun new member => ruled.added new (perm.mem_iff.mpr member)
    owned := by
      intro rule used
      rcases ruled.owned used with entry | ⟨new, member, same⟩
      · exact .inl entry
      · exact .inr ⟨new, perm.mem_iff.mp member, same⟩
    addedOnce := ruled.addedOnce.perm perm fun differ => ⟨differ.1.symm, differ.2.symm⟩
    apart found new member := ruled.apart found new (perm.mem_iff.mpr member) }

variable {prevs : List (Nat × Nat)} {n : Nat}

theorem addPrevRules_frame (fits : n + prevs.length ≤ fdbTcLevelsPerPrio + 1) :
    (addPrevRules esw env chain nextFdb prevs n s).2 = { s with
        attempts := (addPrevRules esw env chain nextFdb prevs n s).2.attempts
        missRules := (addPrevRules esw env chain nextFdb prevs n s).2.missRules
        nextRule := (addPrevRules esw env chain nextFdb prevs n s).2.nextRule } := by
  induction prevs generalizing n s with
  | nil => rfl
  | cons pos rest ih =>
    rw [length_cons] at fits
    rw [addPrevRules]
    split
    · rfl
    rename_i prio found
    have stored : storeMissRule n s = s := by
      unfold storeMissRule
      rw [decide_eq_false (by omega), Bool.or_false]
    rw [stored]
    split
    · rename_i after res
      rw [addMissRule_none res]
      rfl
    rename_i rule after res
    obtain ⟨-, same⟩ := addMissRule_some res
    have rest := ih (n := n + 1) (s := after) (by omega)
    split
    · rename_i last resultRest
      rw [resultRest] at rest
      dsimp only at rest ⊢
      rw [rest, same]
      rfl
    · rename_i rules last resultRest
      rw [resultRest] at rest
      rw [rest, same]
      rfl

theorem addPrevRules_nextRule : s.nextRule ≤ (addPrevRules esw env chain nextFdb prevs n s).2.nextRule := by
  induction prevs generalizing n s with
  | nil => exact le_rfl
  | cons pos rest ih =>
    rw [addPrevRules]
    split
    · exact le_rfl
    split
    · rename_i after res
      rw [addMissRule_none res]
      exact le_rfl
    rename_i rule after res
    have more := ih (n := n + 1) (s := after)
    have some : s.nextRule ≤ after.nextRule := by
      rw [(addMissRule_some res).2]
      exact Nat.le_succ _
    split
    · rename_i last resultRest
      rw [resultRest] at more
      exact some.trans more
    · rename_i rules last resultRest
      rw [resultRest] at more
      exact some.trans more

private theorem addPrevRules_fails (free : ∀ rule, s.nextRule ≤ rule → s.missRules rule = none)
    (res : addPrevRules esw env chain nextFdb prevs n s = (none, t)) :
    t.missRules = s.missRules := by
  induction prevs generalizing n s t with
  | nil => cases (mk.injEq .. ▸ res).1
  | cons pos rest ih =>
    rw [addPrevRules] at res
    split at res
    · cases (mk.injEq .. ▸ res).1
    rename_i prio found
    split at res
    · rename_i after resultAdd
      have same : after = t := (mk.injEq .. ▸ res).2
      rw [← same, addMissRule_none resultAdd]
      rfl
    rename_i rule after resultAdd
    obtain ⟨isNext, same⟩ := addMissRule_some resultAdd
    have rules : after.missRules = update s.missRules rule
        (some (missRuleOf esw (storeMissRule n s) prio.fdb nextFdb)) := by
      rw [same]
      rfl
    have nextRule : after.nextRule = s.nextRule + 1 := by
      rw [same]
      rfl
    split at res
    · rename_i last resultRest
      have sameLast : delFlowRules rule last = t := (mk.injEq .. ▸ res).2
      rw [← sameLast]
      have back : last.missRules = after.missRules := by
        refine ih ?_ resultRest
        intro other above
        rw [nextRule] at above
        have apart : other ≠ rule := by
          rw [isNext]
          exact Nat.ne_of_gt above
        rw [rules, update_of_ne apart]
        exact free other (Nat.le_of_succ_le above)
      dsimp only [delFlowRules]
      rw [back, rules, update_idem, update_eq_self_iff, isNext]
      exact (free _ le_rfl).symm
    · cases (mk.injEq .. ▸ res).1

variable {rules : List Nat}

private theorem addPrevRules_waits (ruled : Ruled esw waiting s) (prevsOnce : prevs.Nodup)
    (here : ∀ pos ∈ prevs, s.priosHt ⟨chain, pos.1, pos.2⟩ ≠ none)
    (apart : ∀ pos ∈ prevs, ∀ new ∈ waiting, new.key ≠ ⟨chain, pos.1, pos.2⟩)
    (res : addPrevRules esw env chain nextFdb prevs n s = (some rules, t)) :
    rules.length = prevs.length ∧ Ruled esw (waits chain nextFdb prevs rules ++ waiting) t := by
  induction prevs generalizing n s t waiting rules with
  | nil =>
    cases res
    exact ⟨rfl, ruled⟩
  | cons pos rest ih =>
    rw [nodup_cons] at prevsOnce
    rw [addPrevRules] at res
    split at res
    · rename_i absent
      exact absurd absent (here pos (.head _))
    rename_i prio found
    split at res
    · cases (Prod.mk.injEq .. ▸ res).1
    rename_i rule after resultAdd
    obtain ⟨isNext, same⟩ := addMissRule_some resultAdd
    have priosHt : after.priosHt = s.priosHt := by
      rw [same]
      rfl
    have added : Ruled esw (⟨⟨chain, pos.1, pos.2⟩, s.nextRule, nextFdb⟩ :: waiting)
        after := by
      refine ruled.add found (apart pos (.head _)) ?_ priosHt ?_ ?_
      · rw [same, isNext]
        rfl
      · rw [same]
        rfl
      · rw [same]
        rfl
    split at res
    · cases (Prod.mk.injEq .. ▸ res).1
    rename_i others last resultRest
    obtain ⟨sameRules, sameState⟩ := Prod.mk.injEq .. ▸ res
    cases sameRules
    cases sameState
    have more := ih added prevsOnce.2 ?_ ?_ resultRest
    · refine ⟨by rw [length_cons, length_cons, more.1], more.2.perm ?_⟩
      rw [isNext]
      exact perm_middle
    · intro other mem
      rw [priosHt]
      exact here other (.tail _ mem)
    intro other mem new isWaiting
    rcases mem_cons.mp isWaiting with rfl | old
    · intro same
      rw [Key.mk.injEq] at same
      exact prevsOnce.1 ((Prod.ext same.2.1 same.2.2 : pos = other) ▸ mem)
    · exact apart other (.tail _ mem) new old

private theorem addPrevRules_granted : (addPrevRules esw granted chain nextFdb prevs n s).1 ≠ none := by
  induction prevs generalizing n s with
  | nil => exact some_ne_none _
  | cons pos rest ih =>
    rw [addPrevRules]
    split
    · exact some_ne_none _
    split
    · rename_i prio _found _ after res
      have never := @addMissRule_granted esw prio.fdb nextFdb (storeMissRule n s)
      rw [res] at never
      exact absurd rfl never
    rename_i rule after res
    have others := ih (n := n + 1) (s := after)
    split
    · rename_i last resultRest
      rw [resultRest] at others
      exact absurd rfl others
    · exact some_ne_none _

/-! ### Switching to the new rules -/

theorem Ruled.switch {prio new}
    (ruled : Ruled esw (new :: waiting) s) (found : s.priosHt new.key = some prio)
    (missRules : t.missRules = update s.missRules prio.missRule none)
    (priosHt : t.priosHt = update s.priosHt new.key
      (some { prio with missRule := new.rule, nextFdb := new.dest }))
    (tcEndFdb : t.tcEndFdb = s.tcEndFdb) (nextRule : t.nextRule = s.nextRule) :
    Ruled esw waiting t := by
  have sameRule fdb nextFdb : missRuleOf esw t fdb nextFdb = missRuleOf esw s fdb nextFdb := by
    unfold missRuleOf
    rw [tcEndFdb]
  have newApart : new.rule ≠ prio.missRule := ruled.apart found new (.head _)
  have addedOnce := pairwise_cons.mp ruled.addedOnce
  have self : t.priosHt new.key = some { prio with missRule := new.rule, nextFdb := new.dest } := by
    rw [priosHt, update_self]
  have others {key} (apart : key ≠ new.key) : t.priosHt key = s.priosHt key := by
    rw [priosHt, update_of_ne apart]
  have kept {rule} (apart : rule ≠ prio.missRule) : t.missRules rule = s.missRules rule := by
    rw [missRules, update_of_ne apart]
  constructor
  · intro key otherPrio otherFound
    by_cases same : key = new.key
    · subst same
      rw [self] at otherFound
      cases otherFound
      obtain ⟨waitingPrio, waitingFound, rule⟩ := ruled.added new (.head _)
      cases found.symm.trans waitingFound
      rw [kept newApart, rule, sameRule]
    · rw [others same] at otherFound
      have apart : otherPrio.missRule ≠ prio.missRule :=
        fun sameRule => same (ruled.ruleOnce otherFound found sameRule)
      rw [kept apart, ruled.ruled otherFound, sameRule]
  · intro other mem
    obtain ⟨otherPrio, otherFound, rule⟩ := ruled.added other (.tail _ mem)
    refine ⟨otherPrio, ?_, ?_⟩
    · rw [others (addedOnce.1 other mem).1.symm]
      exact otherFound
    · rw [kept (ruled.apart found other (.tail _ mem)), rule, sameRule]
  · intro rule used
    have apart : rule ≠ prio.missRule := by
      intro same
      rw [missRules, same, update_self] at used
      exact used rfl
    rw [kept apart] at used
    rcases ruled.owned used with ⟨key, otherPrio, otherFound, same⟩ | ⟨other, mem, same⟩
    · have notSwitched : key ≠ new.key := by
        intro sameKey
        subst sameKey
        cases found.symm.trans otherFound
        exact apart same.symm
      exact .inl ⟨key, otherPrio, by rw [others notSwitched]; exact otherFound, same⟩
    · rcases mem_cons.mp mem with rfl | old
      · exact .inl ⟨_, _, self, same⟩
      · exact .inr ⟨other, old, same⟩
  · intro key other firstPrio otherPrio firstFound otherFound sameRule
    by_cases isNew : key = new.key
    · by_cases otherNew : other = new.key
      · exact isNew.trans otherNew.symm
      · rw [isNew, self] at firstFound
        cases firstFound
        rw [others otherNew] at otherFound
        exact absurd sameRule (ruled.apart otherFound new (.head _))
    rw [others isNew] at firstFound
    by_cases otherNew : other = new.key
    · rw [otherNew, self] at otherFound
      cases otherFound
      exact absurd sameRule.symm (ruled.apart firstFound new (.head _))
    · rw [others otherNew] at otherFound
      exact ruled.ruleOnce firstFound otherFound sameRule
  · exact addedOnce.2
  · intro key otherPrio otherFound other mem
    by_cases isNew : key = new.key
    · rw [isNew, self] at otherFound
      cases otherFound
      exact (addedOnce.1 other mem).2.symm
    · rw [others isNew] at otherFound
      exact ruled.apart otherFound other (.tail _ mem)
  · intro rule used
    have apart : rule ≠ prio.missRule := by
      intro same
      rw [missRules, same, update_self] at used
      exact used rfl
    rw [kept apart] at used
    rw [nextRule]
    exact ruled.fresh used

/-- Some entries of a chain have new rules, which lead to another table. -/
structure Rewired (chain : Nat) (prevs : List (Nat × Nat)) (nextFdb : FlowTable) (s t : ChainsPriv) : Prop where
  frame : t = { s with
    attempts := t.attempts
    missRules := t.missRules
    nextRule := t.nextRule
    priosHt := t.priosHt }
  newRules : s.nextRule ≤ t.nextRule
  others : ∀ key, (∀ pos ∈ prevs, key ≠ ⟨chain, pos.1, pos.2⟩) → t.priosHt key = s.priosHt key
  switched : ∀ pos ∈ prevs, ∀ prio, s.priosHt ⟨chain, pos.1, pos.2⟩ = some prio → ∃ rule,
    t.priosHt ⟨chain, pos.1, pos.2⟩ = some { prio with missRule := rule, nextFdb := nextFdb }

private theorem switchPrevRules_spec (ruled : Ruled esw (waits chain nextFdb prevs rules) s) (prevsOnce : prevs.Nodup)
    (length : rules.length = prevs.length) :
    Ruled esw [] (switchPrevRules chain nextFdb prevs rules s) ∧
      Rewired chain prevs nextFdb s (switchPrevRules chain nextFdb prevs rules s) := by
  induction prevs generalizing rules s with
  | nil =>
    cases rules with
    | nil => exact ⟨ruled, rfl, le_rfl, fun _ _ => rfl, nofun⟩
    | cons rule rules => cases length
  | cons pos rest ih =>
    cases rules with
    | nil => cases length
    | cons rule rules =>
      rw [nodup_cons] at prevsOnce
      obtain ⟨prio, found, -⟩ := ruled.added _ (.head _)
      have state : switchPrevRule chain nextFdb pos rule s = { delFlowRules prio.missRule s with
            priosHt := update s.priosHt ⟨chain, pos.1, pos.2⟩
              (some { prio with missRule := rule, nextFdb := nextFdb }) } := by
        unfold switchPrevRule
        rw [found]
      have switched : Ruled esw (waits chain nextFdb rest rules)
          (switchPrevRule chain nextFdb pos rule s) := by
        rw [state]
        exact ruled.switch found rfl rfl rfl rfl
      obtain ⟨restRuled, restFrame, restRules, restOthers, restSwitched⟩ :=
        ih switched prevsOnce.2 (Nat.succ.inj length)
      rw [switchPrevRules]
      refine ⟨restRuled, ?_, ?_, ?_, ?_⟩
      · rw [restFrame, state]
        rfl
      · rw [state] at restRules
        rw [state]
        exact restRules
      · intro key apart
        rw [restOthers key fun other mem => apart other (.tail _ mem), state]
        exact update_of_ne (apart pos (.head _)) _ _
      intro other mem otherPrio otherFound
      rcases mem_cons.mp mem with rfl | inRest
      · rw [otherFound] at found
        cases found
        refine ⟨rule, ?_⟩
        rw [restOthers, state]
        · exact update_self _ _ _
        · intro later isLater same
          rw [Key.mk.injEq] at same
          exact prevsOnce.1 ((Prod.ext same.2.1 same.2.2 : other = later) ▸ isLater)
      · refine restSwitched other inRest otherPrio ?_
        rw [state]
        dsimp only
        rw [update_of_ne, otherFound]
        intro same
        rw [Key.mk.injEq] at same
        exact prevsOnce.1 ((Prod.ext same.2.1 same.2.2 : other = pos) ▸ inRest)

def prevsOf (s : ChainsPriv) (key : Key) : List (Nat × Nat) :=
  if key.level ≠ 0 then [] else Lib.previous (s.priosList key.chain) (key.prio, key.level)

theorem mem_prevsOf {pos} (mem : pos ∈ prevsOf s key) :
    pos ∈ s.priosList key.chain ∧ pos ≠ (key.prio, key.level) := by
  unfold prevsOf at mem
  split at mem
  · cases mem
  · have inLow := (Lib.downToZero_sublist _).subset mem
    rw [mem_reverse] at inLow
    have notKey := all_eq_true.mp all_takeWhile pos inLow
    rw [decide_eq_true_eq] at notKey
    exact ⟨takeWhile_subset _ inLow, notKey⟩

theorem updatePrioPrevs_false (free : ∀ rule, s.nextRule ≤ rule → s.missRules rule = none)
    (fits : (prevsOf s key).length ≤ fdbTcLevelsPerPrio + 1)
    (res : updatePrioPrevs esw env key nextFdb s = (false, t)) :
    t = { s with attempts := t.attempts, nextRule := t.nextRule } ∧ s.nextRule ≤ t.nextRule := by
  unfold updatePrioPrevs at res
  unfold prevsOf at fits
  split at res
  · cases (mk.injEq .. ▸ res).1
  rename_i level
  rw [if_neg level] at fits
  dsimp only at res
  split at res
  · rename_i after failed
    obtain rfl : after = t := (mk.injEq .. ▸ res).2
    have frame := @addPrevRules_frame esw env s key.chain nextFdb _ 0 (by rw [zero_add]; exact fits)
    have above := @addPrevRules_nextRule esw env s key.chain nextFdb
      (Lib.previous (s.priosList key.chain) (key.prio, key.level)) 0
    rw [failed] at frame above
    rw [addPrevRules_fails free failed] at frame
    exact ⟨frame, above⟩
  · cases (mk.injEq .. ▸ res).1

theorem updatePrioPrevs_true (ruled : Ruled esw [] s)
    (here : ∀ pos ∈ s.priosList key.chain, s.priosHt ⟨key.chain, pos.1, pos.2⟩ ≠ none)
    (prevsOnce : (prevsOf s key).Nodup) (fits : (prevsOf s key).length ≤ fdbTcLevelsPerPrio + 1)
    (res : updatePrioPrevs esw env key nextFdb s = (true, t)) :
    Ruled esw [] t ∧ Rewired key.chain (prevsOf s key) nextFdb s t := by
  have presentPrevs pos (mem : pos ∈ prevsOf s key) : s.priosHt ⟨key.chain, pos.1, pos.2⟩ ≠ none :=
      here pos (mem_prevsOf mem).1
  unfold updatePrioPrevs at res
  unfold prevsOf at fits prevsOnce presentPrevs ⊢
  split at res
  · rename_i level
    rw [if_pos level]
    obtain rfl : s = t := (mk.injEq .. ▸ res).2
    exact ⟨ruled, rfl, le_rfl, fun _ _ => rfl, nofun⟩
  rename_i level
  rw [if_neg level] at fits prevsOnce presentPrevs ⊢
  dsimp only at res
  split at res
  · cases (mk.injEq .. ▸ res).1
  rename_i rules after added
  have frame := @addPrevRules_frame esw env s key.chain nextFdb _ 0 (by rw [zero_add]; exact fits)
  have above := @addPrevRules_nextRule esw env s key.chain nextFdb
    (Lib.previous (s.priosList key.chain) (key.prio, key.level)) 0
  rw [added] at frame above
  dsimp only at frame above
  obtain ⟨length, waiting⟩ := addPrevRules_waits ruled prevsOnce presentPrevs nofun added
  rw [append_nil] at waiting
  obtain ⟨ruledLast, rewired⟩ := switchPrevRules_spec waiting prevsOnce length
  obtain rfl : _ = t := (mk.injEq .. ▸ res).2
  have priosHt : after.priosHt = s.priosHt := by rw [frame]
  refine ⟨ruledLast, ?_, above.trans rewired.newRules, ?_, ?_⟩
  · rw [rewired.frame, frame]
  · intro key apart
    rw [rewired.others key apart, priosHt]
  · intro pos mem prio found
    rw [← priosHt] at found
    exact rewired.switched pos mem prio found

theorem updatePrioPrevs_granted : (updatePrioPrevs esw granted key nextFdb s).1 = true := by
  unfold updatePrioPrevs
  split
  · rfl
  dsimp only
  split
  · rename_i after failed
    have never := @addPrevRules_granted esw s key.chain nextFdb
      (Lib.previous (s.priosList key.chain) (key.prio, key.level)) 0
    rw [failed] at never
    exact absurd rfl never
  · rfl

end MlnxOfed.Chains
