/-
Getting and putting tables, with the recursion over the levels, also when it fails on its way.
-/

import MlnxOfed.Chains.SizePool

namespace MlnxOfed.Chains

open Prod Option Function

/-- The entries are those with references, they are wired, and the pool is in order if tables had the size
asked for. -/
structure Inv (esw : Esw) (sized : Prop) (refs : Key → Nat) (s : ChainsPriv) : Prop where
  core : Core esw refs s
  wired : Wired esw s
  used : Used refs s
  pooled : sized → Pooled esw s

def Kept (refs : Key → Nat) (s t : ChainsPriv) : Prop :=
  t.tcEndFdb = s.tcEndFdb ∧ ∀ key, refs key ≠ 0 → t.fdbOf key = s.fdbOf key

def one (key : Key) : Key → Nat :=
  fun other => if other = key then 1 else 0

variable {esw : Esw} {env : Env} {sized : Prop} {refs more : Key → Nat} {s t u : ChainsPriv}
  {chain prio level : Nat} {key : Key} {fdb nextFdb : FlowTable}

theorem Kept.refl (refs : Key → Nat) (s) : Kept refs s s := ⟨rfl, fun _ _ => rfl⟩

theorem Kept.trans (first : Kept refs s t) (second : Kept refs t u) : Kept refs s u :=
  ⟨second.1.trans first.1, fun key used => (second.2 key used).trans (first.2 key used)⟩

theorem Kept.mono (kept : Kept (refs + more) s t) : Kept refs s t := by
  refine ⟨kept.1, ?_⟩
  intro key used
  refine kept.2 key ?_
  rw [Pi.add_apply]
  omega

theorem one_self (key) : one key key = 1 := if_pos rfl

theorem one_of_ne {other} (apart : other ≠ key) : one key other = 0 :=
  if_neg apart

theorem add_one_self (refs : Key → Nat) (key) : (refs + one key) key = refs key + 1 := by
  rw [Pi.add_apply, one_self]

theorem add_one_of_ne {other} (apart : other ≠ key) : (refs + one key) other = refs other := by
  rw [Pi.add_apply, one_of_ne apart, add_zero]

theorem update_succ (refs : Key → Nat) (key) : update refs key (refs key + 1) = refs + one key := by
  funext other
  by_cases same : other = key
  · rw [same, update_self, add_one_self]
  · rw [update_of_ne same, add_one_of_ne same]

private theorem update_pred (refs : Key → Nat) (key) : update (refs + one key) key (refs key) = refs := by
  funext other
  by_cases same : other = key
  · rw [same, update_self]
  · rw [update_of_ne same, add_one_of_ne same]

theorem setRef_fdbOf {prio} (found : s.priosHt key = some prio) (ref other) :
    ChainsPriv.fdbOf { s with priosHt := update s.priosHt key (some { prio with ref := ref }) } other =
        s.fdbOf other := by
  unfold ChainsPriv.fdbOf
  dsimp only
  by_cases same : other = key
  · rw [same, update_self, found]
    rfl
  · rw [update_of_ne same]

theorem Wired.setRef (wired : Wired esw s) {prio} (found : s.priosHt key = some prio) (ref) :
    Wired esw { s with priosHt := update s.priosHt key (some { prio with ref := ref }) } := by
  intro other new isNew
  have same : leadsTo esw { s with
      priosHt := update s.priosHt key (some { prio with ref := ref }) } other = leadsTo esw s other :=
    leadsTo_congr rfl rfl (fun first _ => setRef_fdbOf found ref _) rfl
  rw [same]
  dsimp only at isNew
  by_cases isKey : other = key
  · rw [isKey, update_self] at isNew
    cases isNew
    rw [isKey]
    exact wired key prio found
  · rw [update_of_ne isKey] at isNew
    exact wired other new isNew

theorem Inv.setRef (inv : Inv esw sized refs s) {prio}
    (found : s.priosHt key = some prio) {ref} (isUsed : ref ≠ 0) :
    Inv esw sized (update refs key ref) { s with
      priosHt := update s.priosHt key (some { prio with ref := ref }) } where
  core := inv.core.setRef found ref
  wired := inv.wired.setRef found ref
  used other := by
    dsimp only
    by_cases same : other = key
    · rw [same, update_self, update_self]
      exact iff_of_true (some_ne_none _) isUsed
    · rw [update_of_ne same, update_of_ne same]
      exact inv.used other
  pooled isSized := (inv.pooled isSized).congr rfl rfl

theorem Core.ref_eq (core : Core esw refs s) {prio}
    (found : s.priosHt key = some prio) : prio.ref = refs key := by
  have counted := core.counted key
  rw [found] at counted
  exact counted

theorem Inv.restored (inv : Inv esw sized refs s) (restored : Restored s t)
    (pooled : sized → Pooled esw t) : Inv esw sized refs t := by
  have tables key : t.fdbOf key = s.fdbOf key := by
    unfold ChainsPriv.fdbOf
    rw [restored.priosHt]
  refine ⟨inv.core.restored restored, ?_, ?_, pooled⟩
  · intro key prio found
    rw [restored.priosHt] at found
    rw [← inv.wired _ _ found]
    refine leadsTo_congr rfl ?_ (fun first _ => tables _) restored.tcEndFdb
    rw [priosList_congr restored.chainsHt]
  · intro key
    rw [restored.priosHt]
    exact inv.used key

theorem Restored.kept (restored : Restored s t) (refs : Key → Nat) : Kept refs s t := by
  refine ⟨restored.tcEndFdb, ?_⟩
  intro key _used
  unfold ChainsPriv.fdbOf
  rw [restored.priosHt]

/-! ### Creation under the lock -/

theorem Linked.undone {missRule} (core : Core esw refs s) (absent : s.priosHt key = none)
    (linked : Linked esw key fdb missRule s t)
    (frame : u = { t with attempts := u.attempts, nextRule := u.nextRule })
    (newRules : t.nextRule ≤ u.nextRule) (prio : FdbPrio) (isFdb : prio.fdb = fdb)
    (isRule : prio.missRule = missRule) : Restored s (removed key prio u) := by
  have notListed : (key.prio, key.level) ∉ s.priosList key.chain := fun mem => (core.listed key).mp mem absent
  have chainFound : u.chainsHt key.chain = some ⟨s.chainRef key.chain + 1,
      Lib.insertBefore (s.priosList key.chain) (key.prio, key.level)⟩ := by
    rw [frame]
    rw [linked.chainsHt, update_self]
  have chainsHt : u.chainsHt = t.chainsHt := by rw [frame]
  have free : s.missRules missRule = none := core.rules.free linked.newRule.1
  refine ⟨?_, ?_, ?_, ?_, ?_, ?_, ?_, ?_⟩
  · rw [removed_chainsHt chainFound, chainsHt, linked.chainsHt]
    rw [update_idem, update_eq_self_iff, Nat.add_sub_cancel,
      Lib.erase_insertBefore (core.sorted key.chain) notListed]
    unfold ChainsPriv.chainRef ChainsPriv.priosList
    cases found : s.chainsHt key.chain with
    | none => rfl
    | some fdbChain => exact if_neg (Nat.ne_of_gt (core.positive key.chain fdbChain found))
  · rw [removed_frame, frame]
    rw [linked.priosHt, update_idem, update_eq_self_iff, absent]
  · rw [removed_frame, frame]
    exact linked.tcEndFdb
  · rw [removed_frame, frame]
    rw [linked.tables, isFdb, List.erase_cons_head]
  · rw [removed_frame, frame]
    rw [linked.missRules, isRule, update_idem, update_eq_self_iff, free]
  · rw [removed_frame, frame]
    exact linked.overrun
  · rw [removed_frame, frame]
    have above := linked.newTable
    exact above.1.trans (le_of_lt above.2)
  · rw [removed_frame]
    have above := linked.newRule
    exact (above.1.trans (le_of_lt above.2)).trans newRules

variable (inv : Inv esw sized refs s)

include inv

theorem Linked.shape {missRule}
    (counts : Counts (refs + one key)) (linked : Linked esw key fdb missRule s t) (core : Core esw refs t) :
    Lib.Levelled (t.priosList key.chain) ∧ (∀ pos ∈ t.priosList key.chain, pos.2 < fdbTcLevelsPerPrio + 1) ∧
      (key.prio, key.level) ∈ t.priosList key.chain := by
  have here : t.priosHt key ≠ none := by
    rw [linked.priosHt, update_self]
    exact some_ne_none _
  have used : Used (refs + one key) t := by
    intro other
    by_cases same : other = key
    · rw [same, add_one_self]
      exact iff_of_true here (Nat.succ_ne_zero _)
    · rw [linked.priosHt, update_of_ne same, add_one_of_ne same]
      exact inv.used other
  exact ⟨core.levelled counts used key.chain, core.bounded counts used key.chain, (core.listed key).mpr here⟩

private theorem Inv.pooled_created {prio} (fits : sized → Sized esw env)
    (res : createFdbPrio esw env key s = (prio, t)) (isSized : sized) : Pooled esw t := by
  have kept : Pooled esw (createFdbPrio esw env key s).2 :=
    (inv.pooled isSized).createFdbPrio (fits isSized)
  rw [res] at kept
  exact kept

private theorem createFdbPrio_none (counts : Counts (refs + one key)) (fits : sized → Sized esw env)
    (absent : s.priosHt key = none) (res : createFdbPrio esw env key s = (none, t)) :
    Inv esw sized refs t ∧ Kept refs s t := by
  have free rule (next : s.nextRule ≤ rule) : s.missRules rule = none := inv.core.rules.free next
  have pooled := inv.pooled_created fits res
  have restored : Restored s t := by
    rcases @createFdbPrio_cases esw env _ _ (inv.core.positive key.chain) free with
      ⟨last, failed, restored⟩ | ⟨fdb, missRule, linkedState, linked, same⟩
    · rw [res] at failed
      cases failed
      exact restored
    rw [res] at same
    split at same
    · cases (mk.injEq .. ▸ same).1
    rename_i after failed
    obtain rfl : t = _ := (mk.injEq .. ▸ same).2
    have core := inv.core.link linked absent
    obtain ⟨levelled, bounded, mem⟩ := linked.shape inv counts core
    obtain ⟨frame, newRules⟩ := updatePrioPrevs_false (fun rule next => core.rules.free next)
      (prevsOf_length (core.sorted key.chain) levelled bounded mem) failed
    exact linked.undone inv.core absent frame newRules ⟨0, fdb, fdb, missRule⟩ rfl rfl
  exact ⟨inv.restored restored pooled, restored.kept refs⟩

/-- An entry that is created has no reference yet. -/
private theorem createFdbPrio_some {prio} (counts : Counts refs)
    (countsMore : Counts (refs + one key)) (fits : sized → Sized esw env)
    (absent : s.priosHt key = none) (res : createFdbPrio esw env key s = (some prio, t)) :
    Inv esw sized (refs + one key) { t with
        priosHt := update t.priosHt key (some { prio with ref := prio.ref + 1 }) } ∧
      Kept refs s { t with
        priosHt := update t.priosHt key (some { prio with ref := prio.ref + 1 }) } ∧
      ChainsPriv.fdbOf { t with
        priosHt := update t.priosHt key (some { prio with ref := prio.ref + 1 }) } key = some prio.fdb := by
  have free rule (next : s.nextRule ≤ rule) : s.missRules rule = none := inv.core.rules.free next
  have pooled := inv.pooled_created fits res
  rcases @createFdbPrio_cases esw env _ _ (inv.core.positive key.chain) free with
    ⟨last, failed, -⟩ | ⟨fdb, missRule, linkedState, linked, same⟩
  · rw [res] at failed
    cases (mk.injEq .. ▸ failed).1
  rw [res] at same
  split at same
  · rename_i after done
    obtain ⟨samePrio, sameState⟩ := mk.injEq .. ▸ same
    cases samePrio
    subst sameState
    have unused : refs key = 0 := inv.core.absent absent
    have core := inv.core.link linked absent
    obtain ⟨levelled, bounded, mem⟩ := linked.shape inv countsMore core
    obtain ⟨rules, rewired⟩ := updatePrioPrevs_true core.rules core.present
      (prevsOf_nodup (core.sorted key.chain))
      (prevsOf_length (core.sorted key.chain) levelled bounded mem) done
    have present pos (isPrev : pos ∈ prevsOf linkedState key) : linkedState.priosHt
        ⟨key.chain, pos.1, pos.2⟩ ≠ none := core.present pos (mem_prevsOf isPrev).1
    have coreLast := core.rewired rewired present rules
    have others other (apart : other ≠ key) (isPresent : linkedState.priosHt other ≠ none) : refs other ≠
        0 := by
      rw [linked.priosHt, update_of_ne apart] at isPresent
      exact (inv.used other).mp isPresent
    obtain ⟨wired, ownTable, tables⟩ := linked.wired inv.core inv.wired absent rewired core
      (inv.core.levelled counts inv.used key.chain) levelled (core.highest counts others unused)
    have found : t.priosHt key = some ⟨0, fdb, findNextFdb esw key s, missRule⟩ := by
      rw [rewired.others, linked.priosHt, update_self]
      intro pos isPrev isKey
      exact (mem_prevsOf isPrev).2 (Key.pair_eq.mpr isKey).2.symm
    have refsOne : update refs key (0 + 1) = refs + one key := by rw [← unused, update_succ]
    refine ⟨⟨?_, ?_, ?_, ?_⟩, ⟨?_, ?_⟩, ?_⟩
    · rw [← refsOne]
      exact coreLast.setRef found (0 + 1)
    · exact wired.setRef found (0 + 1)
    · intro other
      dsimp only
      by_cases isKey : other = key
      · rw [isKey, update_self, add_one_self]
        exact iff_of_true (some_ne_none _) (Nat.succ_ne_zero _)
      · rw [update_of_ne isKey, add_one_of_ne isKey, ← inv.used other]
        have same := rewired.map present (fun _ _ => ()) other
        rw [linked.priosHt, update_of_ne isKey] at same
        rw [Ne, Ne, ← map_eq_none_iff, same, map_eq_none_iff]
    · exact fun isSized => (pooled isSized).congr rfl rfl
    · exact rewired.tcEndFdb.trans linked.tcEndFdb
    · intro other isUsed
      rw [setRef_fdbOf found]
      refine tables other ?_
      intro isKey
      rw [isKey] at isUsed
      exact isUsed unused
    · rw [setRef_fdbOf found]
      exact ownTable
  · cases (mk.injEq .. ▸ same).1

private theorem lockedGet_none (counts : Counts (refs + one key))
    (fits : sized → Sized esw env) (res : lockedGet esw env key s = (none, t)) :
    Inv esw sized refs t ∧ Kept refs s t := by
  unfold lockedGet at res
  cases found : s.priosHt key with
  | some prio =>
    rw [found] at res
    cases (mk.injEq .. ▸ res).1
  | none =>
    rw [found] at res
    cases made : createFdbPrio esw env key s with
    | mk prio after =>
      rw [made] at res
      cases prio with
      | none =>
        cases res
        exact createFdbPrio_none inv counts fits found made
      | some prio => cases (mk.injEq .. ▸ res).1

private theorem lockedGet_some (counts : Counts refs) (countsMore : Counts (refs + one key))
    (fits : sized → Sized esw env) (res : lockedGet esw env key s = (some fdb, t)) :
    Inv esw sized (refs + one key) t ∧ Kept refs s t ∧ t.fdbOf key = some fdb := by
  unfold lockedGet at res
  cases found : s.priosHt key with
  | some prio =>
    rw [found] at res
    obtain ⟨sameTable, sameState⟩ := mk.injEq .. ▸ res
    cases sameTable
    cases sameState
    have more := inv.setRef found (Nat.succ_ne_zero prio.ref)
    rw [inv.core.ref_eq found, update_succ] at more
    refine ⟨by rw [inv.core.ref_eq found]; exact more, ⟨rfl, ?_⟩, ?_⟩
    · exact fun other _ => setRef_fdbOf found _ other
    · rw [setRef_fdbOf found]
      unfold ChainsPriv.fdbOf
      rw [found]
      rfl
  | none =>
    rw [found] at res
    cases made : createFdbPrio esw env key s with
    | mk prio after =>
      rw [made] at res
      cases prio with
      | none => cases (mk.injEq .. ▸ res).1
      | some prio =>
        obtain ⟨sameTable, sameState⟩ := mk.injEq .. ▸ res
        cases sameTable
        cases sameState
        exact createFdbPrio_some inv counts countsMore fits found made

omit inv

private theorem destroyFdbPrio_spec {prio} (core : Core esw refs s) (wired : Wired esw s)
    (used : Used (refs + one key) s) (pooled : sized → Pooled esw s) (counts : Counts (refs + one key))
    (countsLess : Counts refs) (found : s.priosHt key = some prio) (unused : refs key = 0) :
    Inv esw sized refs (destroyFdbPrio esw granted key prio s) ∧
      (destroyFdbPrio esw granted key prio s).tcEndFdb = s.tcEndFdb ∧
      ∀ other, other ≠ key → (destroyFdbPrio esw granted key prio s).fdbOf other = s.fdbOf other := by
  have sorted := core.sorted key.chain
  have levelled := core.levelled counts used key.chain
  have mem : (key.prio, key.level) ∈ s.priosList key.chain :=
    (core.listed key).mpr (by rw [found]; exact some_ne_none _)
  have highest := core.highest countsLess (fun other apart present => by
    have isUsed := (used other).mp present
    rw [add_one_of_ne apart] at isUsed
    exact isUsed) unused
  cases updated : updatePrioPrevs esw granted key prio.nextFdb s with
  | mk done t =>
    have isDone := @updatePrioPrevs_granted esw s key prio.nextFdb
    rw [updated] at isDone
    dsimp only at isDone
    rw [isDone] at updated
    have isRemoved : destroyFdbPrio esw granted key prio s = removed key prio t := by
      unfold destroyFdbPrio
      rw [updated]
      rfl
    obtain ⟨rules, rewired⟩ := updatePrioPrevs_true core.rules core.present (prevsOf_nodup sorted)
      (prevsOf_length sorted levelled (core.bounded counts used key.chain) mem) updated
    have present pos (isPrev : pos ∈ prevsOf s key) : s.priosHt ⟨key.chain, pos.1, pos.2⟩ ≠ none :=
        core.present pos (mem_prevsOf isPrev).1
    have coreRewired := core.rewired rewired present rules
    have foundStill : t.priosHt key = some prio := by
      rw [rewired.others, found]
      intro pos isPrev isKey
      exact (mem_prevsOf isPrev).2 (Key.pair_eq.mpr isKey).2.symm
    obtain ⟨wiredLast, tables⟩ := rewired.wired_removed core wired found coreRewired levelled highest
    have tcEndFdb : (removed key prio t).tcEndFdb = s.tcEndFdb := by rw [← rewired.tcEndFdb, removed_frame]
    rw [isRemoved]
    refine ⟨⟨coreRewired.remove foundStill unused, wiredLast, ?_, ?_⟩, tcEndFdb, tables⟩
    · intro other
      rw [removed_frame]
      dsimp only
      by_cases isKey : other = key
      · rw [isKey, update_self, unused]
        exact iff_of_false (fun present => present rfl) (fun isUsed => isUsed rfl)
      · have sameRefs : (refs + one key) other = refs other := add_one_of_ne isKey
        rw [update_of_ne isKey, ← sameRefs, ← used other]
        have same := rewired.map present (fun _ _ => ()) other
        rw [Ne, Ne, ← map_eq_none_iff, same, map_eq_none_iff]
    · intro isSized
      have pooledRewired : Pooled esw t :=
        (pooled isSized).congr (by rw [rewired.frame]) (by rw [rewired.frame])
      exact putFdbChain_pooled (Pooled.destroy (pooledRewired.congr rfl rfl) (coreRewired.tabled foundStill))

theorem lockedPut_spec (inv : Inv esw sized (refs + one key) s) (counts : Counts (refs + one key))
    (countsLess : Counts refs) : ∃ t, lockedPut esw key s = (true, t) ∧
      Inv esw sized refs t ∧ Kept refs s t := by
  obtain ⟨prio, found⟩ := ne_none_iff_exists'.mp ((inv.used key).mpr (by
    rw [add_one_self]
    exact Nat.succ_ne_zero _))
  have ref : prio.ref - 1 = refs key := by rw [inv.core.ref_eq found, add_one_self, Nat.add_sub_cancel]
  unfold lockedPut
  rw [found]
  dsimp only
  rw [ref]
  have tables := setRef_fdbOf found (refs key)
  split_ifs with last
  · have core := inv.core.setRef found (refs key)
    rw [update_pred] at core
    have isUsed : Used (refs + one key) { s with
        priosHt := update s.priosHt key (some { prio with ref := refs key }) } := by
      intro other
      dsimp only
      by_cases same : other = key
      · rw [same, update_self, add_one_self]
        exact iff_of_true (some_ne_none _) (Nat.succ_ne_zero _)
      · rw [update_of_ne same]
        exact inv.used other
    obtain ⟨less, tcEndFdb, kept⟩ := destroyFdbPrio_spec core (inv.wired.setRef found (refs key)) isUsed
      (fun isSized => (inv.pooled isSized).congr rfl rfl) counts countsLess
      (update_self _ _ _) last
    refine ⟨_, rfl, less, tcEndFdb, ?_⟩
    intro other otherUsed
    rw [kept other (fun same => otherUsed (same ▸ last)), tables]
  · refine ⟨_, rfl, ?_, rfl, fun other _ => tables other⟩
    have less := inv.setRef found last
    rw [update_pred] at less
    exact less

/-! ### The recursion -/

def prevRefs (chain prio : Nat) : Nat → Key → Nat
  | 0 => 0
  | level + 1 => prevRefs chain prio level + (prevRefs chain prio level + one ⟨chain, prio, level⟩)

def tableRefs (key : Key) : Key → Nat :=
  prevRefs key.chain key.prio key.level + one key

theorem Counts.zero : Counts 0 := ⟨fun _ _ _ => le_rfl, fun _ _ _ _ => rfl⟩

theorem Counts.add (counts : Counts refs) (countsMore : Counts more) : Counts (refs + more) where
  falls chain prio level := Nat.add_le_add (counts.falls chain prio level) (countsMore.falls chain prio level)
  top chain prio level above := by
    rw [Pi.add_apply, counts.top chain prio level above, countsMore.top chain prio level above]

private theorem prevRefs_apply (chain prio level key) : prevRefs chain prio level key =
      if key.chain = chain ∧ key.prio = prio ∧ key.level < level then
        2 ^ (level - 1 - key.level) else 0 := by
  induction level with
  | zero =>
    rw [if_neg (fun both => Nat.not_lt_zero _ both.2.2)]
    rfl
  | succ level ih =>
    have unfolded : prevRefs chain prio (level + 1) key = prevRefs chain prio level key +
        (prevRefs chain prio level key + one ⟨chain, prio, level⟩ key) := rfl
    rw [unfolded, ih]
    unfold one
    by_cases same : key.chain = chain ∧ key.prio = prio
    · obtain ⟨sameChain, samePrio⟩ := same
      rcases Nat.lt_trichotomy key.level level with less | isLevel | above
      · have apart : key ≠ ⟨chain, prio, level⟩ := by
          intro isKey
          rw [isKey] at less
          exact lt_irrefl _ less
        have exponent : level + 1 - 1 - key.level = level - 1 - key.level + 1 := by omega
        rw [if_pos ⟨sameChain, samePrio, less⟩, if_neg apart,
          if_pos ⟨sameChain, samePrio, by omega⟩, exponent, Nat.pow_succ]
        omega
      · have isKey : key = ⟨chain, prio, level⟩ := by rw [← sameChain, ← samePrio, ← isLevel]
        rw [if_neg (by omega), if_pos isKey, if_pos ⟨sameChain, samePrio, by omega⟩, isLevel]
        simp
      · have apart : key ≠ ⟨chain, prio, level⟩ := by
          intro isKey
          rw [isKey] at above
          exact lt_irrefl _ above
        rw [if_neg (by omega), if_neg apart, if_neg (by omega)]
    · have apart : key ≠ ⟨chain, prio, level⟩ := by
        intro isKey
        rw [isKey] at same
        exact same ⟨rfl, rfl⟩
      rw [if_neg (fun both => same ⟨both.1, both.2.1⟩), if_neg apart,
        if_neg (fun both => same ⟨both.1, both.2.1⟩)]

theorem tableRefs_apply (key other) : tableRefs key other =
      if other.chain = key.chain ∧ other.prio = key.prio then
        if other.level < key.level then 2 ^ (key.level - 1 - other.level)
        else if other.level = key.level then 1 else 0
      else 0 := by
  unfold tableRefs
  rw [Pi.add_apply, prevRefs_apply]
  unfold one
  by_cases same : other.chain = key.chain ∧ other.prio = key.prio
  · have isKey : other = key ↔ other.level = key.level := by
      constructor
      · rintro rfl
        rfl
      · intro sameLevel
        exact Key.pair_eq.mp ⟨same.1, Prod.ext same.2 sameLevel⟩
    rw [if_pos same]
    by_cases less : other.level < key.level
    · rw [if_pos ⟨same.1, same.2, less⟩, if_neg (fun both => (isKey.mp both ▸ less).ne rfl),
        if_pos less, add_zero]
    · rw [if_neg (fun both => less both.2.2), if_neg less, zero_add]
      by_cases sameLevel : other.level = key.level
      · rw [if_pos (isKey.mpr sameLevel), if_pos sameLevel]
      · rw [if_neg (fun both => sameLevel (isKey.mp both)), if_neg sameLevel]
  · have apart : other ≠ key := by
      rintro rfl
      exact same ⟨rfl, rfl⟩
    rw [if_neg (fun both => same ⟨both.1, both.2.1⟩), if_neg apart, if_neg same]

theorem tableRefs_counts (fits : key.level ≤ fdbTcLevelsPerPrio) : Counts (tableRefs key) where
  falls chain prio level := by
    rw [tableRefs_apply, tableRefs_apply]
    dsimp only
    split
    · rcases Nat.lt_trichotomy (level + 1) key.level with less | isLevel | above
      · rw [if_pos less, if_pos (Nat.lt_of_succ_lt less)]
        exact Nat.pow_le_pow_right (Nat.succ_pos _) (by omega)
      · rw [if_neg (by omega), if_pos isLevel, if_pos (by omega)]
        exact Nat.one_le_two_pow
      · rw [if_neg (by omega), if_neg (by omega)]
        exact Nat.zero_le _
    · exact Nat.zero_le _
  top chain prio level above := by
    rw [tableRefs_apply]
    dsimp only
    split
    · rw [if_neg (by omega), if_neg (by omega)]
    · rfl

theorem prevRefs_counts (fits : level ≤ fdbTcLevelsPerPrio + 1) : Counts (prevRefs chain prio level) := by
  induction level with
  | zero => exact Counts.zero
  | succ level ih =>
    have tableCounts := @tableRefs_counts ⟨chain, prio, level⟩ (Nat.le_of_succ_le_succ fits)
    exact (ih (Nat.le_of_succ_le fits)).add tableCounts

theorem putPrevs_spec (fits : level ≤ fdbTcLevelsPerPrio + 1) :
    ∀ {refs} {s}, Counts refs → Inv esw sized (refs + prevRefs chain prio level) s →
      Inv esw sized refs (putPrevs esw chain prio level s) ∧
        Kept refs s (putPrevs esw chain prio level s) := by
  induction level with
  | zero =>
    intro refs s _counts inv
    exact ⟨inv, Kept.refl refs s⟩
  | succ level ih =>
    intro refs s counts inv
    have ih := @ih (Nat.le_of_succ_le fits)
    have prevCounts := @prevRefs_counts chain prio _ (Nat.le_of_succ_le fits)
    have tableCounts := @tableRefs_counts ⟨chain, prio, level⟩ (Nat.le_of_succ_le_succ fits)
    have split : refs + prevRefs chain prio (level + 1) = refs + prevRefs chain prio level +
        prevRefs chain prio level + one ⟨chain, prio, level⟩ := by
      rw [prevRefs, add_assoc, add_assoc]
    have sum : refs + prevRefs chain prio level + prevRefs chain prio level + one ⟨chain, prio, level⟩ =
          refs + prevRefs chain prio level + tableRefs ⟨chain, prio, level⟩ := add_assoc _ _ _
    rw [split] at inv
    obtain ⟨first, res, invFirst, keptFirst⟩ := lockedPut_spec inv
      (by rw [sum]; exact (counts.add prevCounts).add tableCounts)
      ((counts.add prevCounts).add prevCounts)
    rw [putPrevs]
    unfold putWith
    rw [res]
    obtain ⟨invSecond, keptSecond⟩ := ih (counts.add prevCounts) invFirst
    obtain ⟨invThird, keptThird⟩ := ih counts invSecond
    exact ⟨invThird, keptFirst.mono.mono.trans (keptSecond.mono.trans keptThird)⟩

theorem putTable_spec (fits : key.level ≤ fdbTcLevelsPerPrio) (counts : Counts refs)
    (inv : Inv esw sized (refs + tableRefs key) s) :
    Inv esw sized refs (putTable esw key s) ∧ Kept refs s (putTable esw key s) := by
  have prevCounts := @prevRefs_counts key.chain key.prio _ (Nat.le_succ_of_le fits)
  have sum : refs + prevRefs key.chain key.prio key.level + one key = refs + tableRefs key := add_assoc _ _ _
  rw [← sum] at inv
  obtain ⟨first, res, invFirst, keptFirst⟩ := lockedPut_spec inv
    (by rw [sum]; exact counts.add (tableRefs_counts fits)) (counts.add prevCounts)
  unfold putTable putWith
  rw [res]
  obtain ⟨invSecond, keptSecond⟩ := putPrevs_spec (Nat.le_succ_of_le fits) counts invFirst
  exact ⟨invSecond, keptFirst.mono.trans keptSecond⟩

theorem getWith_spec {getPrevs}
    (fits : key.level ≤ fdbTcLevelsPerPrio) (enough : sized → Sized esw env) (counts : Counts refs)
    (prevs : match getPrevs s with
      | (false, t) => Inv esw sized refs t ∧ Kept refs s t
      | (true, t) =>
        Inv esw sized (refs + prevRefs key.chain key.prio key.level) t ∧ Kept refs s t) :
    match getWith esw env getPrevs key s with
    | (none, t) => Inv esw sized refs t ∧ Kept refs s t
    | (some fdb, t) =>
      Inv esw sized (refs + tableRefs key) t ∧ Kept refs s t ∧ t.fdbOf key = some fdb := by
  have prevCounts := @prevRefs_counts key.chain key.prio _ (Nat.le_succ_of_le fits)
  have sum : refs + prevRefs key.chain key.prio key.level + one key = refs + tableRefs key := add_assoc _ _ _
  have countsMore : Counts (refs + prevRefs key.chain key.prio key.level + one key) := by
    rw [sum]
    exact counts.add (tableRefs_counts fits)
  unfold getWith
  cases got : getPrevs s with
  | mk done first =>
    rw [got] at prevs
    cases done with
    | false => exact prevs
    | true =>
      obtain ⟨invFirst, keptFirst⟩ := prevs
      dsimp only
      cases locked : lockedGet esw env key first with
      | mk table second =>
        cases table with
        | none =>
          obtain ⟨invSecond, keptSecond⟩ :=
            lockedGet_none invFirst countsMore enough locked
          obtain ⟨invThird, keptThird⟩ := putPrevs_spec (Nat.le_succ_of_le fits) counts invSecond
          exact ⟨invThird, keptFirst.trans (keptSecond.mono.trans keptThird)⟩
        | some fdb =>
          obtain ⟨invSecond, keptSecond, isTable⟩ :=
            lockedGet_some invFirst (counts.add prevCounts) countsMore enough locked
          rw [sum] at invSecond
          exact ⟨invSecond, keptFirst.trans keptSecond.mono, isTable⟩

private theorem getPrevs_spec (fits : level ≤ fdbTcLevelsPerPrio + 1) (enough : sized → Sized esw env) :
    ∀ {refs} {s}, Counts refs → Inv esw sized refs s → match getPrevs esw env chain prio level s with
      | (false, t) => Inv esw sized refs t ∧ Kept refs s t
      | (true, t) => Inv esw sized (refs + prevRefs chain prio level) t ∧ Kept refs s t := by
  induction level with
  | zero =>
    intro refs s _counts inv
    exact ⟨inv, Kept.refl refs s⟩
  | succ level ih =>
    intro refs s counts inv
    have ih := @ih (Nat.le_of_succ_le fits)
    have prevCounts := @prevRefs_counts chain prio _ (Nat.le_of_succ_le fits)
    have loop := ih counts inv
    rw [getPrevs]
    cases got : getPrevs esw env chain prio level s with
    | mk done first =>
      rw [got] at loop
      cases done with
      | false => exact loop
      | true =>
        obtain ⟨invFirst, keptFirst⟩ := loop
        dsimp only
        have table := @getWith_spec _ _ _ _ _ ⟨chain, prio, level⟩ _
          (Nat.le_of_succ_le_succ fits) enough (counts.add prevCounts)
          (ih (counts.add prevCounts) invFirst)
        cases last : getWith esw env (getPrevs esw env chain prio level) ⟨chain, prio, level⟩ first with
        | mk res second =>
          rw [last] at table
          cases res with
          | none =>
            obtain ⟨invSecond, keptSecond⟩ := table
            obtain ⟨invThird, keptThird⟩ := putPrevs_spec (Nat.le_of_succ_le fits) counts invSecond
            exact ⟨invThird, keptFirst.trans (keptSecond.mono.trans keptThird)⟩
          | some fdb =>
            obtain ⟨invSecond, keptSecond, -⟩ := table
            dsimp only at invSecond ⊢
            refine ⟨?_, keptFirst.trans keptSecond.mono⟩
            rw [prevRefs, ← add_assoc]
            exact invSecond

theorem getTable_spec (fits : key.level ≤ fdbTcLevelsPerPrio) (enough : sized → Sized esw env)
    (counts : Counts refs) (inv : Inv esw sized refs s) :
    match getTable esw env key s with
    | (none, t) => Inv esw sized refs t ∧ Kept refs s t
    | (some fdb, t) =>
      Inv esw sized (refs + tableRefs key) t ∧ Kept refs s t ∧ t.fdbOf key = some fdb := by
  unfold getTable
  split_ifs
  · exact ⟨inv, Kept.refl refs s⟩
  · exact getWith_spec fits enough counts (getPrevs_spec (Nat.le_succ_of_le fits) enough counts inv)

end MlnxOfed.Chains
