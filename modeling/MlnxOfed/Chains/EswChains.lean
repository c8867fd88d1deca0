/-
The chains of the e-switch (esw/chains.c): a flow table for each chain, priority and level in use, the miss
rules between priorities, and the pool of table sizes. No Makefile builds the file, and the header
`esw/chains.h` it includes is missing.

Whether an allocation, creation or addition succeeds is up to the environment. The size of a created table
is that of `mlx5_create_flow_table`: from the pool of the device (fs_ft_pool.c) with device managed
steering, `INT_MAX` (steering/fs_dr.c) with software managed. References are counted without a bound.
-/

import MlnxOfed.Lib.LevelList

namespace MlnxOfed.Chains

open Function

def uintMax : Nat := 2 ^ 32 - 1

def intMax : Nat := 2 ^ 31 - 1

def fdbTcMaxChain : Nat := 3

def fdbTcMaxPrio : Nat := 16

def fdbTcLevelsPerPrio : Nat := 2

structure Esw where
  priosSupported : Bool
  ignoreFlowLevel : Bool
  logMaxFtSize : Nat
  softwareSteering : Bool

variable (esw : Esw)

def getChainRange : Nat :=
  if esw.priosSupported then
    if esw.ignoreFlowLevel then uintMax - 1 else fdbTcMaxChain
  else 1

def getFtChain : Nat :=
  getChainRange esw + 1

def getPrioRange : Nat :=
  if esw.priosSupported then
    if esw.ignoreFlowLevel then uintMax else fdbTcMaxPrio
  else 1

def getLevelRange : Nat :=
  if esw.ignoreFlowLevel then uintMax else fdbTcLevelsPerPrio

structure FlowTable where
  id : Nat
  maxFte : Nat
  deriving DecidableEq

def nullTable : FlowTable := ⟨0, 0⟩

def tcSlowFdb : FlowTable := ⟨1, 0⟩

/-- A rule in the miss group of a table, and whether it sets the chain in the packet. -/
structure MissRule where
  table : FlowTable
  dest : FlowTable
  ignoreFlowLevel : Bool
  modHdr : Bool

/-- `struct fdb_chain`: `prios_list` holds the priority and level of each entry; mapping, header and restore
rule go with it. -/
structure FdbChain where
  ref : Nat
  priosList : List (Nat × Nat)

structure Key where
  chain : Nat
  prio : Nat
  level : Nat
  deriving DecidableEq

/-- `struct fdb_prio`: its miss group is made and destroyed with the table. -/
structure FdbPrio where
  ref : Nat
  fdb : FlowTable
  nextFdb : FlowTable
  missRule : Nat

/-- `struct mlx5_esw_chains_priv`, with tables and miss rules; `overrun`: a write behind the end of
`miss_rules`. -/
structure ChainsPriv where
  chainsHt : Nat → Option FdbChain
  priosHt : Key → Option FdbPrio
  tcEndFdb : FlowTable
  fdbLeft : Nat → Nat
  tables : List FlowTable
  missRules : Nat → Option MissRule
  nextTable : Nat
  nextRule : Nat
  attempts : Nat
  overrun : Bool

/-- What an attempt meets: `ftLeft` is the device's pool of flow tables, which others use too. -/
structure Attempt where
  ok : Bool
  ftLeft : Nat → Nat

abbrev Env := Nat → Attempt

def granted : Env := fun _ => ⟨true, fun _ => 1⟩

def ChainsPriv.tick (s : ChainsPriv) : ChainsPriv :=
  { s with attempts := s.attempts + 1 }

def ChainsPriv.ok (env : Env) (s : ChainsPriv) : Bool :=
  (env s.attempts).ok

def ChainsPriv.priosList (s : ChainsPriv) (chain : Nat) : List (Nat × Nat) :=
  (s.chainsHt chain).elim [] FdbChain.priosList

def eswSize : Nat := 16 * 1024 * 1024

def eswPools : Nat → Nat
  | 0 => 4 * 1024 * 1024
  | 1 => 1024 * 1024
  | 2 => 64 * 1024
  | _ => 128

def eswFtTblSz : Nat := 64 * 1024

def poolNextSize : Nat := 0

/-- The loops over a pool from the smallest size up: the first that fits, or the last where the next one is
asked for. -/
def searchPool (fits : Nat → Bool) (desired : Nat) : List Nat → Option Nat → Option Nat
  | [], found => found
  | i :: rest, found =>
    if fits i then
      if desired = poolNextSize then searchPool fits desired rest (some i) else some i
    else searchPool fits desired rest found

def getAvailSzFromPool (desired : Nat) (s : ChainsPriv) : Nat × ChainsPriv :=
  match searchPool (fun i => s.fdbLeft i ≠ 0 && desired < eswPools i) desired [3, 2, 1, 0] none with
  | some i =>
    (eswPools i, { s with fdbLeft := update s.fdbLeft i (s.fdbLeft i - 1) })
  | none => (0, s)

def putSzToPool (sz : Nat) (s : ChainsPriv) : ChainsPriv :=
  match [3, 2, 1, 0].find? fun i => sz = eswPools i with
  | some i => { s with fdbLeft := update s.fdbLeft i (s.fdbLeft i + 1) }
  | none => s

def initSzPool (i : Nat) : Nat :=
  if eswPools i ≤ 2 ^ esw.logMaxFtSize then eswSize / eswPools i else 0

def ftPools : Nat → Nat
  | 4 => 1
  | i => eswPools i

def ftPoolGetAvailSz (ftLeft : Nat → Nat) (desired : Nat) : Option Nat :=
  (searchPool (fun i => ftLeft i ≠ 0 && desired ≤ ftPools i && ftPools i ≤ 2 ^ esw.logMaxFtSize)
    desired [4, 3, 2, 1, 0] none).map ftPools

/-- The `max_fte` of the table created for a size of the pool, a power of two. -/
def createFlowTable (attempt : Attempt) (sz : Nat) : Option Nat :=
  if attempt.ok then
    if esw.softwareSteering then some intMax else ftPoolGetAvailSz esw attempt.ftLeft sz
  else none

/-- A table of the chain for flow tables needs more than `ESW_FT_TBL_SZ` entries. -/
def desiredSz (chain : Nat) : Nat :=
  if chain = getFtChain esw then eswFtTblSz else poolNextSize

variable (env : Env)

def createFdbTable (chain : Nat) (s : ChainsPriv) : Option FlowTable × ChainsPriv :=
  let got := getAvailSzFromPool (desiredSz esw chain) s
  if got.1 = 0 then (none, got.2)
  else
    match createFlowTable esw (env s.attempts) got.1 with
    | none => (none, putSzToPool got.1 got.2.tick)
    | some maxFte =>
      (some ⟨s.nextTable, maxFte⟩,
        { got.2.tick with
          tables := ⟨s.nextTable, maxFte⟩ :: s.tables
          nextTable := s.nextTable + 1 })

def destroyFdbTable (fdb : FlowTable) (s : ChainsPriv) : ChainsPriv :=
  { putSzToPool fdb.maxFte s with tables := s.tables.erase fdb }

def missRuleOf (s : ChainsPriv) (fdb nextFdb : FlowTable) : MissRule where
  table := fdb
  dest := nextFdb
  ignoreFlowLevel := esw.ignoreFlowLevel
  modHdr := nextFdb = s.tcEndFdb && esw.priosSupported

def addMissRule (fdb nextFdb : FlowTable) (s : ChainsPriv) : Option Nat × ChainsPriv :=
  if s.ok env then
    (some s.nextRule,
      { s.tick with
        missRules :=
          update s.missRules s.nextRule (some (missRuleOf esw s fdb nextFdb))
        nextRule := s.nextRule + 1 })
  else (none, s.tick)

def delFlowRules (rule : Nat) (s : ChainsPriv) : ChainsPriv :=
  { s with missRules := update s.missRules rule none }

/-- The write of `miss_rules[n]`, an array of `FDB_TC_LEVELS_PER_PRIO + 1` rules. -/
def storeMissRule (n : Nat) (s : ChainsPriv) : ChainsPriv :=
  { s with overrun := s.overrun || decide (fdbTcLevelsPerPrio < n) }

/-- The first loop of `mlx5_esw_chains_update_prio_prevs`, with its revert. -/
def addPrevRules (esw : Esw) (env : Env) (chain : Nat) (nextFdb : FlowTable) :
    List (Nat × Nat) → Nat → ChainsPriv → Option (List Nat) × ChainsPriv
  | [], _, s => (some [], s)
  | pos :: rest, n, s =>
    match s.priosHt ⟨chain, pos.1, pos.2⟩ with
    | none => (some [], s)
    | some prio =>
      match addMissRule esw env prio.fdb nextFdb (storeMissRule n s) with
      | (none, s) => (none, s)
      | (some rule, s) =>
        match addPrevRules esw env chain nextFdb rest (n + 1) s with
        | (none, s) => (none, delFlowRules rule s)
        | (some rules, s) => (some (rule :: rules), s)

def switchPrevRule (chain : Nat) (nextFdb : FlowTable) (pos : Nat × Nat) (rule : Nat)
    (s : ChainsPriv) : ChainsPriv :=
  match s.priosHt ⟨chain, pos.1, pos.2⟩ with
  | none => s
  | some prio =>
    { delFlowRules prio.missRule s with
      priosHt := update s.priosHt ⟨chain, pos.1, pos.2⟩
        (some { prio with missRule := rule, nextFdb := nextFdb }) }

def switchPrevRules (chain : Nat) (nextFdb : FlowTable) : List (Nat × Nat) → List Nat → ChainsPriv → ChainsPriv
  | pos :: rest, rule :: rules, s =>
    switchPrevRules chain nextFdb rest rules (switchPrevRule chain nextFdb pos rule s)
  | _, _, s => s

variable (key : Key)

def updatePrioPrevs (nextFdb : FlowTable) (s : ChainsPriv) : Bool × ChainsPriv :=
  if key.level ≠ 0 then (true, s)
  else
    let prevs := Lib.previous (s.priosList key.chain) (key.prio, key.level)
    match addPrevRules esw env key.chain nextFdb prevs 0 s with
    | (none, s) => (false, s)
    | (some rules, s) => (true, switchPrevRules key.chain nextFdb prevs rules s)

/-- `create_fdb_chain_restore`: the mapping, the header and the rule. -/
def createFdbChainRestore (chain : Nat) (s : ChainsPriv) : Bool × ChainsPriv :=
  if chain = getFtChain esw || !esw.priosSupported then (true, s)
  else if !s.ok env then (false, s.tick)
  else if !s.tick.ok env then (false, s.tick.tick)
  else (s.tick.tick.ok env, s.tick.tick.tick)

def createFdbChain (chain : Nat) (s : ChainsPriv) : Bool × ChainsPriv :=
  if !s.ok env then (false, s.tick)
  else
    match createFdbChainRestore esw env chain s.tick with
    | (false, s) => (false, s)
    | (true, s) =>
      if !s.ok env then (false, s.tick)
      else
        (true, { s.tick with chainsHt := update s.chainsHt chain (some ⟨0, []⟩) })

def getFdbChain (chain : Nat) (s : ChainsPriv) : Bool × ChainsPriv :=
  let taken := if (s.chainsHt chain).isSome then (true, s) else createFdbChain esw env chain s
  if taken.1 then
    (true, { taken.2 with
      chainsHt := update taken.2.chainsHt chain
        ((taken.2.chainsHt chain).map fun fdbChain => { fdbChain with ref := fdbChain.ref + 1 }) })
  else (false, taken.2)

def putFdbChain (chain : Nat) (s : ChainsPriv) : ChainsPriv :=
  match s.chainsHt chain with
  | none => s
  | some fdbChain =>
    { s with
      chainsHt := update s.chainsHt chain
        (if fdbChain.ref - 1 = 0 then none else some { fdbChain with ref := fdbChain.ref - 1 }) }

variable (s : ChainsPriv)

def defaultMiss (chain : Nat) : FlowTable :=
  if chain = getFtChain esw then tcSlowFdb else s.tcEndFdb

/-- What `mlx5_esw_chains_create_fdb_prio` finds from the first entry that is larger. -/
def findNextFdb : FlowTable :=
  match (s.priosList key.chain).find? fun other => Lib.Before (key.prio, key.level) other with
  | none => defaultMiss esw s key.chain
  | some pos =>
    match s.priosHt ⟨key.chain, pos.1, pos.2⟩ with
    | none => defaultMiss esw s key.chain
    | some p => if pos.2 = 0 then p.fdb else p.nextFdb

def setPriosList (chain : Nat) (list : List (Nat × Nat)) (s : ChainsPriv) : ChainsPriv :=
  { s with
    chainsHt := update s.chainsHt chain
      ((s.chainsHt chain).map fun fdbChain => { fdbChain with priosList := list }) }

/-- The insertion into `prios_ht` and into the list of the chain. -/
def linkFdbPrio (prio : FdbPrio) (s : ChainsPriv) : ChainsPriv :=
  setPriosList key.chain (Lib.insertBefore (s.priosList key.chain) (key.prio, key.level))
    { s with priosHt := update s.priosHt key (some prio) }

def unlinkFdbPrio : ChainsPriv :=
  setPriosList key.chain ((s.priosList key.chain).erase (key.prio, key.level))
    { s with priosHt := update s.priosHt key none }

def createFdbPrio : Option FdbPrio × ChainsPriv :=
  match getFdbChain esw env key.chain s with
  | (false, s) => (none, s)
  | (true, s) =>
    -- the entry and the attributes of its group
    if !(s.ok env && s.tick.ok env) then (none, putFdbChain key.chain s.tick.tick)
    else
      let nextFdb := findNextFdb esw key s
      match createFdbTable esw env key.chain s.tick.tick with
      | (none, s) => (none, putFdbChain key.chain s)
      | (some fdb, s) =>
        -- the miss group
        if !s.ok env then (none, putFdbChain key.chain (destroyFdbTable fdb s.tick))
        else
          match addMissRule esw env fdb nextFdb s.tick with
          | (none, s) => (none, putFdbChain key.chain (destroyFdbTable fdb s))
          | (some missRule, s) =>
            if !s.ok env then
              (none, putFdbChain key.chain (destroyFdbTable fdb (delFlowRules missRule s.tick)))
            else
              match updatePrioPrevs esw env key fdb
                (linkFdbPrio key ⟨0, fdb, nextFdb, missRule⟩ s.tick) with
              | (true, s) => (some ⟨0, fdb, nextFdb, missRule⟩, s)
              | (false, s) =>
                (none, putFdbChain key.chain
                  (destroyFdbTable fdb (delFlowRules missRule (unlinkFdbPrio key s))))

def destroyFdbPrio (prio : FdbPrio) (s : ChainsPriv) : ChainsPriv :=
  let updated := (updatePrioPrevs esw env key prio.nextFdb s).2
  putFdbChain key.chain (destroyFdbTable prio.fdb (delFlowRules prio.missRule (unlinkFdbPrio key updated)))

/-- The part of `mlx5_esw_chains_get_table` under the lock. -/
def lockedGet : Option FlowTable × ChainsPriv :=
  let found := match s.priosHt key with
    | some prio => (some prio, s)
    | none => createFdbPrio esw env key s
  match found with
  | (none, s) => (none, s)
  | (some prio, s) =>
    (some prio.fdb, { s with priosHt := update s.priosHt key (some { prio with ref := prio.ref + 1 }) })

/-- `mlx5_esw_chains_put_table` under the lock, where a rule can always be added. -/
def lockedPut : Bool × ChainsPriv :=
  match s.priosHt key with
  | none => (false, s)
  | some prio =>
    let s := { s with
      priosHt := update s.priosHt key (some { prio with ref := prio.ref - 1 }) }
    if prio.ref - 1 = 0 then
      (true, destroyFdbPrio esw granted key { prio with ref := prio.ref - 1 } s)
    else (true, s)

/-- `mlx5_esw_chains_put_table`, given how the lower levels are put. -/
def putWith (putPrevs : ChainsPriv → ChainsPriv) (key : Key) (s : ChainsPriv) : ChainsPriv :=
  match lockedPut esw key s with
  | (false, s) => s
  | (true, s) => putPrevs s

def putPrevs (esw : Esw) (chain prio : Nat) : Nat → ChainsPriv → ChainsPriv
  | 0, s => s
  | level + 1, s =>
    putPrevs esw chain prio level (putWith esw (putPrevs esw chain prio level) ⟨chain, prio, level⟩ s)

def putTable : ChainsPriv :=
  putWith esw (putPrevs esw key.chain key.prio key.level) key s

/-- `mlx5_esw_chains_get_table` in its ranges, given how it gets the lower levels. -/
def getWith (getPrevs : ChainsPriv → Bool × ChainsPriv) (key : Key)
    (s : ChainsPriv) : Option FlowTable × ChainsPriv :=
  match getPrevs s with
  | (false, s) => (none, s)
  | (true, s) =>
    match lockedGet esw env key s with
    | (none, s) => (none, putPrevs esw key.chain key.prio key.level s)
    | (some fdb, s) => (some fdb, s)

/-- The loop that gets the levels under one, with the puts after a failure. -/
def getPrevs (esw : Esw) (env : Env) (chain prio : Nat) : Nat → ChainsPriv → Bool × ChainsPriv
  | 0, s => (true, s)
  | level + 1, s =>
    match getPrevs esw env chain prio level s with
    | (false, s) => (false, s)
    | (true, s) =>
      match getWith esw env (getPrevs esw env chain prio level) ⟨chain, prio, level⟩ s with
      | (none, s) => (false, putPrevs esw chain prio level s)
      | (some _, s) => (true, s)

def outOfRange : Bool :=
  (getChainRange esw < key.chain && key.chain ≠ getFtChain esw) ||
    getPrioRange esw < key.prio || getLevelRange esw < key.level

def getTable : Option FlowTable × ChainsPriv :=
  if outOfRange esw key then (none, s)
  else getWith esw env (getPrevs esw env key.chain key.prio key.level) key s

/-- `mlx5_esw_chains_init` -/
def init : ChainsPriv where
  chainsHt := fun _ => none
  priosHt := fun _ => none
  tcEndFdb := nullTable
  fdbLeft := initSzPool esw
  tables := []
  missRules := fun _ => none
  nextTable := 2
  nextRule := 0
  attempts := 0
  overrun := false

def endKey : Key :=
  ⟨getFtChain esw, 1, 0⟩

def rootKey : Key :=
  ⟨0, 1, 0⟩

/-- `mlx5_esw_chains_open`, without its table for split rules. -/
def openChains : Bool × ChainsPriv :=
  match getTable esw env (endKey esw) s with
  | (none, s) => (false, s)
  | (some ft, s) =>
    match getTable esw env rootKey { s with tcEndFdb := ft } with
    | (none, s) => (false, putTable esw (endKey esw) s)
    | (some _, s) =>
      if esw.priosSupported || s.ok env then (true, s)
      else (false, putTable esw (endKey esw) (putTable esw rootKey s))

end MlnxOfed.Chains
