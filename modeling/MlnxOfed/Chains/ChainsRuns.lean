/-
Runs of gets and puts: the lists, the wiring, the references and the pool; a get that fails leaves them as
they were.
-/

import MlnxOfed.Chains.ChainTables

namespace MlnxOfed.Chains

open Prod List Option

inductive Reachable (esw : Esw) (Allowed : Env → Prop) : ChainsPriv → List Key → Prop where
  | opened {env s} : Allowed env → openChains esw env (init esw) = (true, s) → Reachable esw Allowed s []
  | got {env key fdb s t users} : Reachable esw Allowed s users → Allowed env →
      key.level ≤ fdbTcLevelsPerPrio → getTable esw env key s = (some fdb, t) →
      Reachable esw Allowed t (key :: users)
  | failed {env key s t users} : Reachable esw Allowed s users → Allowed env →
      key.level ≤ fdbTcLevelsPerPrio → getTable esw env key s = (none, t) →
      Reachable esw Allowed t users
  | put {key s users} : Reachable esw Allowed s users → key ∈ users →
      Reachable esw Allowed (putTable esw key s) (users.erase key)

/-- The uses of a table by a get: one of its own level, and of a lower one those of the loops over the
levels. -/
def usesOf (user key : Key) : Nat :=
  if key.chain = user.chain ∧ key.prio = user.prio then
    if key.level < user.level then 2 ^ (user.level - 1 - key.level)
    else if key.level = user.level then 1 else 0
  else 0

def outstanding (esw : Esw) (users : List Key) (key : Key) : Nat :=
  ((endKey esw :: rootKey :: users).map fun user => usesOf user key).sum

def NextPrio (s : ChainsPriv) (key : Key) (next : Nat) : Prop :=
  (∃ level, (next, level) ∈ s.priosList key.chain) ∧ key.prio < next ∧
    ∀ pos ∈ s.priosList key.chain, key.prio < pos.1 → next ≤ pos.1

/-- The table is that of level 0 of the next higher priority, or else the default miss. -/
def Leads (esw : Esw) (s : ChainsPriv) (key : Key) (table : FlowTable) : Prop :=
  (∀ next, NextPrio s key next → s.fdbOf ⟨key.chain, next, 0⟩ = some table) ∧
    ((∀ pos ∈ s.priosList key.chain, pos.1 ≤ key.prio) → table = defaultMiss esw s key.chain)

structure Sound (esw : Esw) (users : List Key) (s : ChainsPriv) : Prop where
  sorted : ∀ chain, (s.priosList chain).Pairwise Lib.Before
  zeroLevel : ∀ chain prio level, (prio, level) ∈ s.priosList chain → (prio, 0) ∈ s.priosList chain
  listed : ∀ key, (key.prio, key.level) ∈ s.priosList key.chain ↔ s.priosHt key ≠ none
  leads : ∀ key prio, s.priosHt key = some prio → Leads esw s key prio.nextFdb
  ruled : ∀ key prio, s.priosHt key = some prio →
    s.missRules prio.missRule = some (missRuleOf esw s prio.fdb prio.nextFdb)
  alive : ∀ id rule, s.missRules id = some rule →
    rule.table ∈ s.tables ∧ (rule.dest ∈ s.tables ∨ rule.dest = tcSlowFdb)
  prioRef : ∀ key, (s.priosHt key).elim 0 FdbPrio.ref = outstanding esw users key
  chainRef : ∀ chain, s.chainRef chain = (s.priosList chain).length
  inside : s.overrun = false

/-- All is as before: the references, what each entry and its rule lead to, the tables and the
pool. -/
structure Same (s t : ChainsPriv) : Prop where
  chainsHt : t.chainsHt = s.chainsHt
  entries : ∀ key, (t.priosHt key).map (fun prio =>
      (prio.ref, prio.fdb, prio.nextFdb, t.missRules prio.missRule)) =
    (s.priosHt key).map fun prio =>
      (prio.ref, prio.fdb, prio.nextFdb, s.missRules prio.missRule)
  tcEndFdb : t.tcEndFdb = s.tcEndFdb
  tables : t.tables.Perm s.tables
  overrun : t.overrun = s.overrun

variable {esw : Esw} {env : Env} {Allowed : Env → Prop} {sized : Prop} {refs : Key → Nat}
  {s t : ChainsPriv} {key : Key} {users : List Key}

theorem init_inv (esw) : Inv esw sized 0 (init esw) where
  core := by
    constructor
    · exact fun _ => .nil
    · exact fun _ => iff_of_false not_mem_nil (fun here => here rfl)
    · exact nofun
    · exact fun _ => rfl
    · exact ⟨nofun, nofun, fun used => absurd rfl used, nofun, .nil, nofun, fun used => absurd rfl used⟩
    · exact nofun
    · exact nofun
    · exact nofun
    · exact nodup_nil
    · exact nofun
    · exact Nat.lt_succ_self 1
    · rfl
  wired := nofun
  used _ := iff_of_false (fun here => here rfl) (fun used => used rfl)
  pooled _ _ _ := rfl

theorem tableRefs_level_zero {key} (level : key.level = 0) : tableRefs key = one key := by
  unfold tableRefs
  rw [level]
  exact zero_add _

theorem Inv.setEnd {ft} (inv : Inv esw sized (one (endKey esw)) s)
    (found : s.fdbOf (endKey esw) = some ft) (null : s.tcEndFdb = nullTable) :
    Inv esw sized (one (endKey esw)) { s with tcEndFdb := ft } := by
  have only {key} (present : s.priosHt key ≠ none) : key = endKey esw := by
    by_contra apart
    exact (inv.used key).mp present (one_of_ne apart)
  have leads : ∀ {key}, s.priosHt key ≠ none → leadsTo esw s key = some tcSlowFdb ∧
      leadsTo esw { s with tcEndFdb := ft } key = some tcSlowFdb := by
    intro key present
    obtain rfl := only present
    have none : Lib.upper (s.priosList (endKey esw).chain) (endKey esw).prio = none := by
      cases isUpper : Lib.upper (s.priosList (endKey esw).chain) (endKey esw).prio with
      | none => rfl
      | some first =>
        obtain ⟨mem, later⟩ := Lib.upper_mem isUpper
        have isEnd := only (inv.core.present first mem)
        have samePrio := congrArg Key.prio isEnd
        dsimp only at samePrio
        rw [samePrio] at later
        exact absurd later (lt_irrefl _)
    have noneAfter : Lib.upper (ChainsPriv.priosList { s with tcEndFdb := ft }
        (endKey esw).chain) (endKey esw).prio = Option.none := none
    unfold leadsTo
    rw [none, noneAfter]
    exact ⟨congrArg some (if_pos rfl), congrArg some (if_pos rfl)⟩
  have nextFdb {key prio} (isPrio : s.priosHt key = some prio) : prio.nextFdb = tcSlowFdb := by
    have present : s.priosHt key ≠ none := by
      rw [isPrio]
      exact some_ne_none _
    have toNext := inv.wired key prio isPrio
    rw [(leads present).1] at toNext
    exact (some.inj toNext).symm
  have ftBounds : 1 < ft.id := by
    obtain ⟨prio, isPrio, same⟩ := Option.map_eq_some_iff.mp found
    rw [← same]
    exact (inv.core.freshTable (inv.core.tabled isPrio)).1
  have rule : ∀ {key prio}, s.priosHt key = some prio →
      missRuleOf esw { s with tcEndFdb := ft } prio.fdb prio.nextFdb =
        missRuleOf esw s prio.fdb prio.nextFdb := by
    intro key prio isPrio
    have notFt : tcSlowFdb ≠ ft := by
      intro same
      rw [← same] at ftBounds
      exact lt_irrefl _ ftBounds
    have notNull : tcSlowFdb ≠ nullTable := by decide
    unfold missRuleOf
    rw [nextFdb isPrio, null]
    rw [decide_eq_false notFt, decide_eq_false notNull]
  refine ⟨⟨inv.core.sorted, inv.core.listed, inv.core.chainRef, inv.core.counted, ?_,
    inv.core.tabled, inv.core.alive, inv.core.tableOnce, inv.core.tablesOnce, inv.core.freshTable,
    inv.core.afterSlow, inv.core.inside⟩, ?_, inv.used,
    fun isSized => (inv.pooled isSized).congr rfl rfl⟩
  · refine ⟨?_, nofun, inv.core.rules.owned, inv.core.rules.ruleOnce, .nil, nofun, inv.core.rules.fresh⟩
    intro key prio isPrio
    rw [rule isPrio]
    exact inv.core.rules.ruled isPrio
  · intro key prio isPrio
    have present : s.priosHt key ≠ none := by
      rw [show s.priosHt key = some prio from isPrio]
      exact some_ne_none _
    rw [(leads present).2, nextFdb isPrio]

def allRefs (esw : Esw) : List Key → Key → Nat
  | [] => tableRefs (endKey esw) + tableRefs rootKey
  | user :: users => allRefs esw users + tableRefs user

theorem openChains_inv (enough : sized → Sized esw env) (res : openChains esw env (init esw) = (true, s)) :
    Inv esw sized (allRefs esw []) s ∧ s.fdbOf (endKey esw) = some s.tcEndFdb := by
  have endFits : (endKey esw).level ≤ fdbTcLevelsPerPrio := Nat.zero_le _
  have rootFits : rootKey.level ≤ fdbTcLevelsPerPrio := Nat.zero_le _
  have endTable := getTable_spec endFits enough Counts.zero (init_inv esw)
  unfold openChains at res
  cases gotEnd : getTable esw env (endKey esw) (init esw) with
  | mk ft first =>
    rw [gotEnd] at res endTable
    cases ft with
    | none => cases (mk.injEq .. ▸ res).1
    | some ft =>
      obtain ⟨invFirst, keptFirst, isEnd⟩ := endTable
      rw [zero_add, tableRefs_level_zero rfl] at invFirst
      have invEnd := invFirst.setEnd isEnd keptFirst.1
      have counts : Counts (one (endKey esw)) := by
        rw [← tableRefs_level_zero rfl]
        exact tableRefs_counts endFits
      have rootTable := getTable_spec rootFits enough counts invEnd
      dsimp only at res
      cases gotRoot : getTable esw env rootKey { first with tcEndFdb := ft } with
      | mk root second =>
        rw [gotRoot] at res rootTable
        cases root with
        | none => cases (mk.injEq .. ▸ res).1
        | some root =>
          obtain ⟨invSecond, keptSecond, -⟩ := rootTable
          dsimp only at res
          split at res
          · obtain rfl : second = s := (mk.injEq .. ▸ res).2
            constructor
            · rw [allRefs, @tableRefs_level_zero (endKey esw) rfl]
              exact invSecond
            · rw [keptSecond.1, keptSecond.2 (endKey esw) (by
                rw [one_self]
                exact Nat.one_ne_zero)]
              exact isEnd
          · cases (mk.injEq .. ▸ res).1

private theorem allRefs_apply (esw users key) : allRefs esw users key = outstanding esw users key := by
  have single user : tableRefs user key = usesOf user key := tableRefs_apply user key
  unfold outstanding
  induction users with
  | nil =>
    rw [allRefs, Pi.add_apply, single, single]
    rfl
  | cons user users ih =>
    rw [allRefs, Pi.add_apply, single, ih]
    simp only [map_cons, sum_cons]
    omega

private theorem allRefs_erase {user} (mem : user ∈ users) :
    allRefs esw users = allRefs esw (users.erase user) + tableRefs user := by
  induction users with
  | nil => cases mem
  | cons head rest ih =>
    by_cases same : head = user
    · subst same
      rw [erase_cons_head, allRefs]
    · rw [erase_cons_tail (by simpa using same), allRefs, allRefs,
        ih ((mem_cons.mp mem).resolve_left (Ne.symm same)), add_right_comm]

theorem allRefs_counts (fits : ∀ user ∈ users, user.level ≤ fdbTcLevelsPerPrio) :
    Counts (allRefs esw users) := by
  induction users with
  | nil => exact (tableRefs_counts (Nat.zero_le _)).add (tableRefs_counts (Nat.zero_le _))
  | cons user users ih =>
    exact (ih fun other mem => fits other (.tail _ mem)).add (tableRefs_counts (fits user (.head _)))

private theorem allRefs_end : allRefs esw users (endKey esw) ≠ 0 := by
  induction users with
  | nil =>
    rw [allRefs, Pi.add_apply, @tableRefs_level_zero (endKey esw) rfl, one_self]
    omega
  | cons user users ih =>
    rw [allRefs, Pi.add_apply]
    omega

theorem Reachable.inv (enough : sized → ∀ env, Allowed env → Sized esw env)
    (reached : Reachable esw Allowed s users) :
    Inv esw sized (allRefs esw users) s ∧ s.fdbOf (endKey esw) = some s.tcEndFdb ∧
      ∀ user ∈ users, user.level ≤ fdbTcLevelsPerPrio := by
  have stays {refs : Key → Nat} {s t : ChainsPriv} (used : refs (endKey esw) ≠ 0) (kept : Kept refs s t)
      (isEnd : s.fdbOf (endKey esw) = some s.tcEndFdb) : t.fdbOf (endKey esw) = some t.tcEndFdb := by
    rw [kept.1, kept.2 _ used]
    exact isEnd
  induction reached with
  | opened ok res =>
    obtain ⟨inv, isEnd⟩ := openChains_inv (fun isSized => enough isSized _ ok) res
    exact ⟨inv, isEnd, nofun⟩
  | @got env key fdb s t users _ ok fits res ih =>
    obtain ⟨inv, isEnd, levels⟩ := ih
    have spec := getTable_spec fits (fun isSized => enough isSized _ ok) (allRefs_counts levels) inv
    rw [res] at spec
    obtain ⟨invAfter, kept, -⟩ := spec
    refine ⟨invAfter, stays allRefs_end kept isEnd, ?_⟩
    intro user mem
    rcases mem_cons.mp mem with rfl | old
    · exact fits
    · exact levels user old
  | @failed env key s t users _ ok fits res ih =>
    obtain ⟨inv, isEnd, levels⟩ := ih
    have spec := getTable_spec fits (fun isSized => enough isSized _ ok) (allRefs_counts levels) inv
    rw [res] at spec
    exact ⟨spec.1, stays allRefs_end spec.2 isEnd, levels⟩
  | @put key s users _ mem ih =>
    obtain ⟨inv, isEnd, levels⟩ := ih
    have levelsLess user (inside : user ∈ users.erase key) : user.level ≤ fdbTcLevelsPerPrio :=
        levels user (mem_of_mem_erase inside)
    rw [allRefs_erase mem] at inv
    obtain ⟨invAfter, kept⟩ := putTable_spec (levels key mem) (allRefs_counts levelsLess) inv
    exact ⟨invAfter, stays allRefs_end kept isEnd, levelsLess⟩

/-! ### What holds in every state -/

theorem Inv.leads (inv : Inv esw sized refs s) (counts : Counts refs) {prio}
    (found : s.priosHt key = some prio) : Leads esw s key prio.nextFdb := by
  have sorted := inv.core.sorted key.chain
  have levelled := inv.core.levelled counts inv.used key.chain
  have toNext := inv.wired key prio found
  unfold leadsTo at toNext
  cases isUpper : Lib.upper (s.priosList key.chain) key.prio with
  | none =>
    rw [isUpper] at toNext
    constructor
    · rintro next ⟨⟨level, mem⟩, later, -⟩
      exact absurd later ((@Lib.upper_eq_none _ _ _ (key.prio, key.level)).mp isUpper _ mem)
    · intro _last
      exact (some.inj toNext).symm
  | some first =>
    rw [isUpper] at toNext
    obtain ⟨mem, later⟩ := Lib.upper_mem isUpper
    constructor
    · rintro next ⟨⟨level, nextMember⟩, nextLater, least⟩
      have under := least first mem later
      have zero := levelled.zero nextMember
      have same : first = (next, 0) := by
        rcases Lib.upper_first sorted isUpper (next, 0) zero nextLater with same | less | less
        · exact same.symm
        · exact absurd less (Nat.not_lt.mpr under)
        · exact absurd less.2 (Nat.not_lt_zero _)
      rw [same] at toNext
      exact toNext
    · intro last
      exact absurd later (Nat.not_lt.mpr (last first mem))

theorem Inv.sound (inv : Inv esw sized (allRefs esw users) s) (counts : Counts (allRefs esw users))
    (isEnd : s.fdbOf (endKey esw) = some s.tcEndFdb) : Sound esw users s where
  sorted := inv.core.sorted
  zeroLevel chain _ _ member := (inv.core.levelled counts inv.used chain).zero member
  listed := inv.core.listed
  leads _ _ found := inv.leads counts found
  ruled _ _ found := inv.core.rules.ruled found
  alive id rule isRule := by
    have live {key fdb} (isTable : s.fdbOf key = some fdb) : fdb ∈ s.tables := by
      obtain ⟨prio, found, same⟩ := map_eq_some_iff.mp isTable
      rw [← same]
      exact inv.core.tabled found
    rcases @inv.core.rules.owned id (by rw [isRule]; exact some_ne_none _) with
      ⟨key, prio, found, same⟩ | ⟨_, member, _⟩
    · have ruled := inv.core.rules.ruled found
      rw [same, isRule] at ruled
      cases ruled
      refine ⟨inv.core.tabled found, ?_⟩
      have toNext := inv.wired key prio found
      unfold leadsTo at toNext
      split at toNext
      · exact .inl (live toNext)
      · unfold defaultMiss at toNext
        split at toNext
        · exact .inr (some.inj toNext).symm
        · rw [← some.inj toNext] at *
          exact .inl (live isEnd)
    · cases member
  prioRef key := by rw [inv.core.counted, allRefs_apply]
  chainRef := inv.core.chainRef_eq
  inside := inv.core.inside

/-- What is in use and the tables of the entries determine the rest. -/
theorem Inv.same (inv : Inv esw sized refs s) (invAfter : Inv esw sized refs t)
    (kept : Kept refs s t) : Same s t := by
  have here key : t.priosHt key ≠ none ↔ s.priosHt key ≠ none :=
      (invAfter.used key).trans (inv.used key).symm
  have list chain : t.priosList chain = s.priosList chain := by
    refine Lib.sorted_ext (invAfter.core.sorted chain) (inv.core.sorted chain) ?_
    intro pos
    exact (invAfter.core.listed ⟨chain, pos.1, pos.2⟩).trans
      ((here ⟨chain, pos.1, pos.2⟩).trans (inv.core.listed ⟨chain, pos.1, pos.2⟩).symm)
  have tables key : t.fdbOf key = s.fdbOf key := by
    by_cases used : refs key = 0
    · have absent : s.priosHt key = none := by
        by_contra isPresent
        exact (inv.used key).mp isPresent used
      have absentAfter : t.priosHt key = none := by
        by_contra isPresent
        exact (invAfter.used key).mp isPresent used
      unfold ChainsPriv.fdbOf
      rw [absent, absentAfter]
    · exact kept.2 key used
  refine ⟨?_, ?_, kept.1, ?_, ?_⟩
  · funext chain
    have same := list chain
    unfold ChainsPriv.priosList at same
    cases found : s.chainsHt chain with
    | none =>
      rw [found] at same
      cases after : t.chainsHt chain with
      | none => rfl
      | some fdbChain =>
        rw [after] at same
        obtain ⟨ref, positive⟩ := invAfter.core.chainRef after
        have empty : fdbChain.priosList = [] := same
        rw [empty] at ref
        exact absurd ref (Nat.ne_of_gt positive)
    | some fdbChain =>
      obtain ⟨ref, positive⟩ := inv.core.chainRef found
      rw [found] at same
      cases after : t.chainsHt chain with
      | none =>
        rw [after] at same
        have empty : [] = fdbChain.priosList := same
        rw [← empty] at ref
        exact absurd ref (Nat.ne_of_gt positive)
      | some other =>
        rw [after] at same
        have lists : other.priosList = fdbChain.priosList := same
        have refs : other.ref = fdbChain.ref := by rw [(invAfter.core.chainRef after).1, lists, ref]
        cases other
        cases fdbChain
        cases lists
        cases refs
        rfl
  · intro key
    cases found : s.priosHt key with
    | none =>
      have absent : t.priosHt key = none := by
        by_contra isPresent
        exact (here key).mp isPresent found
      rw [absent]
      rfl
    | some prio =>
      obtain ⟨after, foundAfter⟩ := ne_none_iff_exists'.mp ((here key).mpr (by
        rw [found]
        exact some_ne_none _))
      have sameTable : after.fdb = prio.fdb := by
        have same := tables key
        unfold ChainsPriv.fdbOf at same
        rw [found, foundAfter] at same
        exact some.inj same
      have sameRef : after.ref = prio.ref := by rw [invAfter.core.ref_eq foundAfter, inv.core.ref_eq found]
      have sameNext : after.nextFdb = prio.nextFdb := by
        have toNext : leadsTo esw t key = leadsTo esw s key :=
          leadsTo_congr rfl (by rw [list]) (fun first _ => tables _) kept.1
        rw [invAfter.wired key after foundAfter, inv.wired key prio found] at toNext
        exact some.inj toNext
      have sameRule : t.missRules after.missRule = s.missRules prio.missRule := by
        rw [invAfter.core.rules.ruled foundAfter, inv.core.rules.ruled found, sameTable, sameNext,
          missRuleOf_congr kept.1]
      rw [foundAfter, map_some, map_some, sameTable, sameRef, sameNext, sameRule]
  · refine (perm_ext_iff_of_nodup invAfter.core.tablesOnce inv.core.tablesOnce).mpr ?_
    have isTable {u : ChainsPriv} {table : FlowTable} (core : Core esw refs u) : (table ∈ u.tables ↔ ∃ key,
        u.fdbOf key = some table) := by
      constructor
      · intro mem
        obtain ⟨key, prio, found, same⟩ := core.alive mem
        refine ⟨key, ?_⟩
        unfold ChainsPriv.fdbOf
        rw [found, map_some, same]
      · rintro ⟨key, found⟩
        obtain ⟨prio, isPrio, same⟩ := map_eq_some_iff.mp found
        rw [← same]
        exact core.tabled isPrio
    intro table
    rw [isTable invAfter.core, isTable inv.core]
    exact exists_congr fun key => by rw [tables]
  · rw [invAfter.core.inside, inv.core.inside]

theorem Reachable.sound (reached : Reachable esw Allowed s users) : Sound esw users s := by
  obtain ⟨inv, isEnd, levels⟩ : Inv esw False (allRefs esw users) s ∧ _ := reached.inv nofun
  exact inv.sound (allRefs_counts levels) isEnd

theorem Pooled.left (pooled : Pooled esw s) (pooledAfter : Pooled esw t) (tables : t.tables.Perm s.tables) (i)
    (small : i < 4) : t.fdbLeft i = s.fdbLeft i := by
  have before := pooled i small
  have after := pooledAfter i small
  rw [tables.countP_eq] at after
  omega

/-- Lists, wiring, references and pool in runs where tables have the size taken for them; a failed get
leaves all. -/
theorem chains_sound (reached : Reachable esw (Sized esw) s users) :
    Sound esw users s ∧ Pooled esw s ∧ ∀ env key, Sized esw env → key.level ≤ fdbTcLevelsPerPrio →
        ∀ t, getTable esw env key s = (none, t) →
          Same s t ∧ ∀ i < 4, t.fdbLeft i = s.fdbLeft i := by
  obtain ⟨inv, -, levels⟩ : Inv esw True (allRefs esw users) s ∧ _ :=
    reached.inv fun _ _ allowed => allowed
  have pooled := inv.pooled trivial
  refine ⟨reached.sound, pooled, ?_⟩
  intro env key isSized fits t result
  have spec := getTable_spec fits (fun _ => isSized) (allRefs_counts levels) inv
  rw [result] at spec
  have same := inv.same spec.1 spec.2
  exact ⟨same, pooled.left (spec.1.pooled trivial) same.tables⟩

def deviceEsw : Esw := ⟨true, true, 24, false⟩

private theorem granted_sized : Sized deviceEsw granted := by
  have exact : ∀ i < 4, createFlowTable deviceEsw ⟨true, fun _ => 1⟩ (eswPools i) =
      some (eswPools i) := by decide +kernel
  intro n i maxFte small made
  have same := (exact i small).symm.trans made
  exact (some.inj same).symm

/-- After the opening, level 1 of priority 2 is got. -/
theorem chains_sound_level_one : Sound deviceEsw [⟨0, 2, 1⟩]
        (getTable deviceEsw granted ⟨0, 2, 1⟩ (openChains deviceEsw granted (init deviceEsw)).2).2 ∧
      Pooled deviceEsw
        (getTable deviceEsw granted ⟨0, 2, 1⟩ (openChains deviceEsw granted (init deviceEsw)).2).2 := by
  have opened : Reachable deviceEsw (Sized deviceEsw) (openChains deviceEsw granted (init deviceEsw)).2 [] :=
    Reachable.opened granted_sized (Prod.ext (by decide +kernel) rfl)
  have isSome : (getTable deviceEsw granted ⟨0, 2, 1⟩
      (openChains deviceEsw granted (init deviceEsw)).2).1.isSome = true := by decide +kernel
  obtain ⟨fdb, found⟩ := isSome_iff_exists.mp isSome
  have got := chains_sound (.got opened granted_sized (by decide) (Prod.ext found rfl))
  exact ⟨got.1, got.2.1⟩

def softwareEsw : Esw := ⟨true, true, 24, true⟩

/-- With software managed steering a table that is got and put does not give back its size. -/
theorem size_not_put_back :
    ∃ s t, Reachable softwareEsw (fun _ => True) s [] ∧ Reachable softwareEsw (fun _ => True) t [] ∧
      t.tables = s.tables ∧ s.fdbLeft 0 = 3 ∧ t.fdbLeft 0 = 2 := by
  have opened : Reachable softwareEsw (fun _ => True)
      (openChains softwareEsw granted (init softwareEsw)).2 [] :=
    Reachable.opened trivial (Prod.ext (by decide +kernel) rfl)
  have isSome : (getTable softwareEsw granted ⟨0, 2, 0⟩
      (openChains softwareEsw granted (init softwareEsw)).2).1.isSome = true := by decide +kernel
  obtain ⟨fdb, found⟩ := isSome_iff_exists.mp isSome
  have got := Reachable.got opened trivial (by decide) (Prod.ext found rfl)
  refine ⟨_, _, opened, got.put (.head _), ?_, ?_, ?_⟩
  · decide +kernel
  · decide +kernel
  · decide +kernel

end MlnxOfed.Chains
