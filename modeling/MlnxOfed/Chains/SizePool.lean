/-
The pool of table sizes: what is left of a size and the tables of that size stay as many as at the start, if
every table is created with the size taken for it.
-/

import MlnxOfed.Chains.PrioWiring

namespace MlnxOfed.Chains

open Prod List Function

def Sized (esw : Esw) (env : Env) : Prop :=
  ∀ n i maxFte, i < 4 → createFlowTable esw (env n) (eswPools i) = some maxFte → maxFte = eswPools i

def Pooled (esw : Esw) (s : ChainsPriv) : Prop :=
  ∀ i < 4, s.fdbLeft i + s.tables.countP (fun table => table.maxFte = eswPools i) = initSzPool esw i

variable {esw : Esw} {env : Env} {refs : Key → Nat} {s t : ChainsPriv} {chain : Nat}
  {key : Key} {fdb nextFdb : FlowTable}

theorem eswPools_inj : ∀ i < 4, ∀ j < 4, eswPools i = eswPools j → i = j := by decide

theorem eswPools_pos (i) : eswPools i ≠ 0 := by
  unfold eswPools
  split <;> decide

theorem Pooled.congr (pooled : Pooled esw s) (fdbLeft : t.fdbLeft = s.fdbLeft)
    (tables : t.tables = s.tables) : Pooled esw t := by
  intro i small
  rw [fdbLeft, tables]
  exact pooled i small

private theorem searchPool_some {fits desired i} : ∀ {pool} {found}, searchPool fits desired pool found = some i →
      (i ∈ pool ∧ fits i = true) ∨ found = some i := by
  intro pool
  induction pool with
  | nil => exact fun res => .inr res
  | cons head rest ih =>
    intro found res
    rw [searchPool] at res
    split at res
    · rename_i fitting
      split at res
      · rcases ih res with ⟨mem, fit⟩ | isHead
        · exact .inl ⟨.tail _ mem, fit⟩
        · cases isHead
          exact .inl ⟨.head _, fitting⟩
      · cases res
        exact .inl ⟨.head _, fitting⟩
    · rcases ih res with ⟨mem, fit⟩ | same
      · exact .inl ⟨.tail _ mem, fit⟩
      · exact .inr same

theorem getAvailSzFromPool_cases (desired s) :
    getAvailSzFromPool desired s = (0, s) ∨ ∃ i < 4, s.fdbLeft i ≠ 0 ∧
      getAvailSzFromPool desired s = (eswPools i,
        { s with fdbLeft := update s.fdbLeft i (s.fdbLeft i - 1) }) := by
  unfold getAvailSzFromPool
  split
  · rename_i i found
    rcases searchPool_some found with ⟨mem, fit⟩ | clash
    · refine .inr ⟨i, ?_, ?_, rfl⟩
      · simp only [mem_cons, not_mem_nil, or_false] at mem
        omega
      · rw [Bool.and_eq_true, decide_eq_true_eq] at fit
        exact fit.1
    · cases clash
  · exact .inl rfl

theorem putSzToPool_eswPools {i} (small : i < 4) (s) : putSzToPool (eswPools i) s =
      { s with fdbLeft := update s.fdbLeft i (s.fdbLeft i + 1) } := by
  have found : [3, 2, 1, 0].find? (fun j => decide (eswPools i = eswPools j)) = some i := by
    revert i
    decide
  unfold putSzToPool
  rw [found]

theorem Pooled.take (pooled : Pooled esw s) {i} (small : i < 4) (left : s.fdbLeft i ≠ 0)
    (size : fdb.maxFte = eswPools i) (fdbLeft : t.fdbLeft = update s.fdbLeft i (s.fdbLeft i - 1))
    (tables : t.tables = fdb :: s.tables) : Pooled esw t := by
  intro j smallOther
  have before := pooled j smallOther
  rw [fdbLeft, tables]
  by_cases same : j = i
  · subst same
    rw [update_self, countP_cons_of_pos (by simp [size])]
    omega
  · have other : fdb.maxFte ≠ eswPools j := by
      rw [size]
      exact fun sameSize => same (eswPools_inj i small j smallOther sameSize).symm
    rw [update_of_ne same, countP_cons_of_neg (by simp [other])]
    exact before

private theorem countP_erase_add {p : FlowTable → Bool} {tables : List FlowTable} (mem : fdb ∈ tables) :
    (tables.erase fdb).countP p + (if p fdb then 1 else 0) = tables.countP p := by
  have perm := (perm_cons_erase mem).countP_eq p
  rw [perm, countP_cons]

theorem Pooled.destroy (pooled : Pooled esw s) (mem : fdb ∈ s.tables) :
    Pooled esw (destroyFdbTable fdb s) := by
  intro j small
  have before := pooled j small
  have count := countP_erase_add (p := fun table => table.maxFte = eswPools j) mem
  unfold destroyFdbTable
  dsimp only
  by_cases pooledSize : ∃ i < 4, fdb.maxFte = eswPools i
  · obtain ⟨i, smallOther, size⟩ := pooledSize
    rw [size, putSzToPool_eswPools smallOther]
    dsimp only
    rw [size] at count
    by_cases same : j = i
    · subst same
      rw [if_pos (by simp)] at count
      rw [update_self]
      omega
    · have other : eswPools i ≠ eswPools j :=
        fun sameSize => same (eswPools_inj i smallOther j small sameSize).symm
      rw [if_neg (by simpa using other)] at count
      rw [update_of_ne same]
      omega
  · have none : [3, 2, 1, 0].find? (fun i => decide (fdb.maxFte = eswPools i)) = none := by
      rw [find?_eq_none]
      intro i inPool same
      rw [decide_eq_true_eq] at same
      refine pooledSize ⟨i, ?_, same⟩
      simp only [mem_cons, not_mem_nil, or_false] at inPool
      omega
    rw [if_neg] at count
    · unfold putSzToPool
      rw [none]
      dsimp only
      omega
    · intro same
      rw [decide_eq_true_eq] at same
      exact pooledSize ⟨j, small, same⟩

theorem Pooled.createFails (pooled : Pooled esw s)
    (res : createFdbTable esw env chain s = (none, t)) : Pooled esw t := by
  unfold createFdbTable at res
  rcases getAvailSzFromPool_cases (desiredSz esw chain) s with empty | ⟨i, small, left, taken⟩
  · rw [empty] at res
    cases res
    exact pooled
  rw [taken] at res
  rw [if_neg (eswPools_pos i)] at res
  split at res
  · obtain rfl : _ = t := (mk.injEq .. ▸ res).2
    rw [putSzToPool_eswPools small]
    refine pooled.congr ?_ rfl
    dsimp only [ChainsPriv.tick]
    rw [update_self, update_idem, update_eq_self_iff]
    omega
  · cases (mk.injEq .. ▸ res).1

theorem Pooled.create (pooled : Pooled esw s) (sized : Sized esw env)
    (res : createFdbTable esw env chain s = (some fdb, t)) : Pooled esw t := by
  unfold createFdbTable at res
  rcases getAvailSzFromPool_cases (desiredSz esw chain) s with empty | ⟨i, small, left, taken⟩
  · rw [empty] at res
    cases res
  rw [taken] at res
  rw [if_neg (eswPools_pos i)] at res
  split at res
  · cases (mk.injEq .. ▸ res).1
  rename_i maxFte made
  have size := sized s.attempts i maxFte small made
  obtain ⟨sameTable, sameState⟩ := mk.injEq .. ▸ res
  cases sameTable
  cases sameState
  exact pooled.take small left size rfl rfl

theorem putFdbChain_pooled (pooled : Pooled esw s) : Pooled esw (putFdbChain chain s) := by
  rw [putFdbChain_frame]
  exact pooled.congr rfl rfl

variable {prevs : List (Nat × Nat)}

private theorem addPrevRules_pool {n} : (addPrevRules esw env chain nextFdb prevs n s).2.fdbLeft = s.fdbLeft ∧
      (addPrevRules esw env chain nextFdb prevs n s).2.tables = s.tables := by
  induction prevs generalizing n s with
  | nil => exact ⟨rfl, rfl⟩
  | cons pos rest ih =>
    rw [addPrevRules]
    split
    · exact ⟨rfl, rfl⟩
    split
    · rename_i after failed
      rw [addMissRule_none failed]
      exact ⟨rfl, rfl⟩
    rename_i rule after added
    have first : after.fdbLeft = s.fdbLeft ∧ after.tables = s.tables := by
      rw [(addMissRule_some added).2]
      exact ⟨rfl, rfl⟩
    have others := ih (n := n + 1) (s := after)
    split
    · rename_i last failed
      rw [failed] at others
      exact ⟨others.1.trans first.1, others.2.trans first.2⟩
    · rename_i rules last done
      rw [done] at others
      exact ⟨others.1.trans first.1, others.2.trans first.2⟩

private theorem switchPrevRules_pool {rules} : (switchPrevRules chain nextFdb prevs rules s).fdbLeft = s.fdbLeft ∧
      (switchPrevRules chain nextFdb prevs rules s).tables = s.tables := by
  induction prevs generalizing rules s with
  | nil => exact ⟨rfl, rfl⟩
  | cons pos rest ih =>
    cases rules with
    | nil => exact ⟨rfl, rfl⟩
    | cons rule rules =>
      have first : (switchPrevRule chain nextFdb pos rule s).fdbLeft = s.fdbLeft ∧
          (switchPrevRule chain nextFdb pos rule s).tables = s.tables := by
        unfold switchPrevRule
        split
        · exact ⟨rfl, rfl⟩
        · exact ⟨rfl, rfl⟩
      have others := @ih (switchPrevRule chain nextFdb pos rule s) rules
      exact ⟨others.1.trans first.1, others.2.trans first.2⟩

private theorem updatePrioPrevs_pool : (updatePrioPrevs esw env key nextFdb s).2.fdbLeft = s.fdbLeft ∧
    (updatePrioPrevs esw env key nextFdb s).2.tables = s.tables := by
  unfold updatePrioPrevs
  split
  · exact ⟨rfl, rfl⟩
  have added := @addPrevRules_pool esw env s key.chain nextFdb
    (Lib.previous (s.priosList key.chain) (key.prio, key.level)) 0
  dsimp only
  split
  · rename_i after failed
    rw [failed] at added
    exact added
  · rename_i rules after done
    rw [done] at added
    have switched := @switchPrevRules_pool after key.chain nextFdb
      (Lib.previous (s.priosList key.chain) (key.prio, key.level)) rules
    exact ⟨switched.1.trans added.1, switched.2.trans added.2⟩

theorem Pooled.createFdbPrio (pooled : Pooled esw s) (sized : Sized esw env) :
    Pooled esw (createFdbPrio esw env key s).2 := by
  unfold Chains.createFdbPrio
  have chainPool {made first} (got : getFdbChain esw env key.chain s = (made, first)) : Pooled esw first := by
    cases made with
    | false =>
      rw [getFdbChain_false got]
      exact pooled.congr rfl rfl
    | true => exact pooled.congr (getFdbChain_true got).2.2.2 (getFdbChain_true got).2.1
  split
  · rename_i after failed
    exact chainPool failed
  rename_i first got
  have pooledFirst := chainPool got
  split
  · exact putFdbChain_pooled (pooledFirst.congr rfl rfl)
  dsimp only
  split
  · rename_i after failed
    exact putFdbChain_pooled (Pooled.createFails (pooledFirst.congr (t := first.tick.tick) rfl rfl) failed)
  rename_i fdb second created
  have pooledSecond : Pooled esw second :=
    Pooled.create (pooledFirst.congr (t := first.tick.tick) rfl rfl) sized created
  have mem : fdb ∈ second.tables := by
    rw [(createFdbTable_some created).2]
    exact .head _
  have destroyed (u : ChainsPriv) (fdbLeft : u.fdbLeft = second.fdbLeft) (tables : u.tables =
      second.tables) : Pooled esw (putFdbChain key.chain (destroyFdbTable fdb u)) := by
    exact putFdbChain_pooled (Pooled.destroy (pooledSecond.congr fdbLeft tables) (by rw [tables]; exact mem))
  split
  · exact destroyed _ rfl rfl
  split
  · rename_i third failed
    rw [addMissRule_none failed]
    exact destroyed _ rfl rfl
  rename_i missRule third added
  have frame := (addMissRule_some added).2
  have fdbLeft : third.fdbLeft = second.fdbLeft := by
    rw [frame]
    rfl
  have tables : third.tables = second.tables := by
    rw [frame]
    rfl
  split
  · exact destroyed _ fdbLeft tables
  have updated := @updatePrioPrevs_pool esw env (linkFdbPrio key
      ⟨0, fdb, findNextFdb esw key first, missRule⟩ third.tick) key fdb
  split
  · rename_i last done
    rw [done] at updated
    exact pooledSecond.congr (updated.1.trans fdbLeft) (updated.2.trans tables)
  · rename_i last failed
    rw [failed] at updated
    exact destroyed _ (updated.1.trans fdbLeft) (updated.2.trans tables)

end MlnxOfed.Chains
