/-
The cache of memory regions (mlx5/mr.c): its entries by order, the asynchronous creation of keys, the work
that fills an entry or takes from it, and the regions lent.

Each locked section is a step. A key is known by a number of its entry not used again. Where a function
gives up the lock in its middle, `worker` says how far the work is; a thread of `add_keys` outside the work
that counted a creation and has not issued it is one of `adders`. Counters have no bound, since a device has
fewer than 2^24 keys. What the work reads of the time and the other entries is a parameter.
-/

import MlnxOfed.Lib.KeyedList

namespace MlnxOfed.Mr

/-! ### State -/

def maxPendingRegMr : Nat := 8

def mrCacheLastStdEntry : Nat := 20

def maxMrCacheEntries : Nat := 23

/-- Where `__cache_work_func` is without the lock. -/
inductive Worker where
  | idle
  | adding
  | issuing
  | issueFailed
  | added (again : Bool)
  | releasing
  | destroying (mkey : Nat)
  deriving DecidableEq

/-- `struct mlx5_cache_ent`, with its keys: those in `head`, those lent and the order asked for, those to be
destroyed and destroyed. `issued` are the creations not reported; `cleaning` is set from the cleanup's start
to the end of `clean_keys`. -/
structure CacheEnt where
  order : Nat
  limit : Nat
  head : List Nat
  availableMrs : Nat
  totalMrs : Nat
  pending : Nat
  fillToHighWater : Bool
  disabled : Bool
  workQueued : Bool
  dworkQueued : Bool
  worker : Worker
  adders : Nat
  issued : Nat
  cleaning : Bool
  lent : List (Nat × Nat)
  dying : List Nat
  destroyed : List Nat
  nextMkey : Nat

namespace CacheEnt

def queueAdjustCacheLocked (fillDelay : Bool) (ent : CacheEnt) : CacheEnt :=
  if ent.disabled || fillDelay then ent
  else if ent.availableMrs < ent.limit then
    { ent with fillToHighWater := true, workQueued := true }
  else if ent.fillToHighWater && ent.availableMrs + ent.pending < 2 * ent.limit then
    { ent with workQueued := true }
  else if ent.availableMrs = 2 * ent.limit then { ent with fillToHighWater := false }
  else if 2 * ent.limit < ent.availableMrs then
    if ent.pending ≠ 0 then { ent with fillToHighWater := false, dworkQueued := true }
    else { ent with fillToHighWater := false, workQueued := true }
  else ent

/-- An entry of `mlx5_mr_cache_init`. -/
def init (order limit : Nat) : CacheEnt :=
  queueAdjustCacheLocked false
    { order := order
      limit := limit
      head := []
      availableMrs := 0
      totalMrs := 0
      pending := 0
      fillToHighWater := false
      disabled := false
      workQueued := false
      dworkQueued := false
      worker := .idle
      adders := 0
      issued := 0
      cleaning := false
      lent := []
      dying := []
      destroyed := []
      nextMkey := 0 }

def lend (ent : CacheEnt) (order mkey : Nat) (rest : List Nat) : CacheEnt :=
  { ent with
    head := rest
    availableMrs := ent.availableMrs - 1
    lent := (mkey, order) :: ent.lent }

/-- The locked section of `mlx5_mr_cache_alloc`, which asks for the order of the entry. -/
def mlx5MrCacheAlloc (fillDelay : Bool) (ent : CacheEnt) : CacheEnt :=
  match ent.head with
  | [] => ent
  | mkey :: rest => (ent.lend ent.order mkey rest).queueAdjustCacheLocked fillDelay

/-- One pass of the loop of `get_cache_mr`. -/
def getCacheMr (fillDelay : Bool) (ent : CacheEnt) (order : Nat) : CacheEnt :=
  match ent.head with
  | [] => ent.queueAdjustCacheLocked fillDelay
  | mkey :: rest => (ent.lend order mkey rest).queueAdjustCacheLocked fillDelay

/-- The locked section of `create_cache_mr`. -/
def createCacheMr (ent : CacheEnt) (order : Nat) : CacheEnt :=
  { ent with
    totalMrs := ent.totalMrs + 1
    lent := (ent.nextMkey, order) :: ent.lent
    nextMkey := ent.nextMkey + 1 }

def giveBack (ent : CacheEnt) (use : Nat × Nat) : CacheEnt :=
  { ent with
    head := ent.head ++ [use.1]
    availableMrs := ent.availableMrs + 1
    lent := ent.lent.erase use }

/-- `detach_mr_from_cache`, after which the key is destroyed. -/
def detachMrFromCache (ent : CacheEnt) (use : Nat × Nat) : CacheEnt :=
  { ent with
    totalMrs := ent.totalMrs - 1
    lent := ent.lent.erase use
    dying := ent.dying ++ [use.1] }

/-- The locked section of `mlx5_mr_cache_free`, the region invalidated or not. -/
def mlx5MrCacheFree (fillDelay : Bool) (ent : CacheEnt) (use : Nat × Nat) (invalidated : Bool) : CacheEnt :=
  if invalidated then (ent.giveBack use).queueAdjustCacheLocked fillDelay
  else ent.detachMrFromCache use

def addMr (ent : CacheEnt) : CacheEnt :=
  { ent with
    head := ent.head ++ [ent.nextMkey]
    availableMrs := ent.availableMrs + 1
    totalMrs := ent.totalMrs + 1
    nextMkey := ent.nextMkey + 1 }

/-- The locked section of `create_mkey_callback`; a failure also sets the delay. -/
def createMkeyCallback (fillDelay : Bool) (ent : CacheEnt) (created : Bool) : CacheEnt :=
  let reported :=
    if created then ent.addMr.queueAdjustCacheLocked fillDelay else ent
  { reported with pending := reported.pending - 1, issued := reported.issued - 1 }

/-- The first locked section of `__cache_work_func`. -/
def cacheWorkFunc (fillDelay : Bool) (ent : CacheEnt) : CacheEnt :=
  if ent.disabled then ent
  else if ent.fillToHighWater && ent.availableMrs + ent.pending < 2 * ent.limit && !fillDelay then
    { ent with worker := .adding }
  else if 2 * ent.limit < ent.availableMrs then { ent with worker := .releasing }
  else ent

/-- The second locked section of `__cache_work_func` for a release: delayed work may be queued, and a region
leaves. -/
def releaseLocked (fillDelay : Bool) (ent : CacheEnt) (delay : Bool) : CacheEnt :=
  if ent.disabled then { ent with worker := .idle }
  else
    let ent := if delay then { ent with dworkQueued := true } else ent
    match ent.head with
    | [] => ({ ent with worker := .idle }).queueAdjustCacheLocked fillDelay
    | mkey :: rest =>
      { ent with
        head := rest
        availableMrs := ent.availableMrs - 1
        totalMrs := ent.totalMrs - 1
        worker := .destroying mkey }

inductive Move where
  | cacheAlloc
  | getCacheMr (order : Nat)
  | createCacheMr (order : Nat)
  | cacheFree (use : Nat × Nat) (invalidated : Bool)
  | destroyMkey (mkey : Nat)
  | addKey
  | addIssue
  | addIssueFailed
  | callback (created : Bool)
  | work (delayed : Bool)
  | workAdd (allocated : Bool)
  | workIssue (issued : Bool)
  | workIssueFailed
  | workAdded
  | workRelease (delay : Bool)
  | workDestroy
  | disable
  | cancelWork
  | cleanKey
  deriving DecidableEq

/-- A step on an entry, where it is the next one of its thread. -/
def step (fillDelay : Bool) (ent : CacheEnt) : Move → Option CacheEnt
  | .cacheAlloc => some (ent.mlx5MrCacheAlloc fillDelay)
  | .getCacheMr order => some (ent.getCacheMr fillDelay order)
  | .createCacheMr order => some (ent.createCacheMr order)
  | .cacheFree use invalidated =>
    if use ∈ ent.lent then some (ent.mlx5MrCacheFree fillDelay use invalidated) else none
  | .destroyMkey mkey =>
    if mkey ∈ ent.dying then
      some { ent with dying := ent.dying.erase mkey, destroyed := ent.destroyed ++ [mkey] }
    else none
  | .addKey =>
    if ent.pending < maxPendingRegMr then
      some { ent with pending := ent.pending + 1, adders := ent.adders + 1 }
    else some ent
  | .addIssue =>
    if ent.adders = 0 then none
    else some { ent with adders := ent.adders - 1, issued := ent.issued + 1 }
  | .addIssueFailed =>
    if ent.adders = 0 then none
    else some { ent with adders := ent.adders - 1, pending := ent.pending - 1 }
  | .callback created =>
    if ent.issued = 0 then none else some (ent.createMkeyCallback fillDelay created)
  | .work delayed =>
    if ent.worker ≠ .idle || (if delayed then ent.dworkQueued else ent.workQueued) = false then none
    else if delayed then some (({ ent with dworkQueued := false }).cacheWorkFunc fillDelay)
    else some (({ ent with workQueued := false }).cacheWorkFunc fillDelay)
  | .workAdd allocated =>
    if ent.worker ≠ .adding then none
    else if allocated = false then some { ent with worker := .added true }
    else if ent.pending < maxPendingRegMr then
      some { ent with pending := ent.pending + 1, worker := .issuing }
    else some { ent with worker := .added false }
  | .workIssue issued =>
    if ent.worker ≠ .issuing then none
    else if issued then some { ent with worker := .added false, issued := ent.issued + 1 }
    else some { ent with worker := .issueFailed }
  | .workIssueFailed =>
    if ent.worker ≠ .issueFailed then none
    else some { ent with pending := ent.pending - 1, worker := .added true }
  | .workAdded =>
    match ent.worker with
    | .added again =>
      some { ent with worker := .idle, dworkQueued := ent.dworkQueued || (again && !ent.disabled) }
    | _ => none
  | .workRelease delay =>
    if ent.worker ≠ .releasing then none else some (ent.releaseLocked fillDelay delay)
  | .workDestroy =>
    match ent.worker with
    | .destroying mkey =>
      some (({ ent with
        worker := .idle
        destroyed := ent.destroyed ++ [mkey] }).queueAdjustCacheLocked fillDelay)
    | _ => none
  | .disable => if ent.disabled then none else some { ent with disabled := true, cleaning := true }
  | .cancelWork =>
    if ent.cleaning && ent.worker = .idle && (ent.workQueued || ent.dworkQueued) then
      some { ent with workQueued := false, dworkQueued := false }
    else none
  | .cleanKey =>
    if ent.cleaning && ent.worker = .idle && !ent.workQueued && !ent.dworkQueued &&
        ent.issued = 0 && ent.adders = 0 then
      match ent.head with
      | [] => some { ent with cleaning := false }
      | mkey :: rest =>
        some { ent with
          head := rest
          availableMrs := ent.availableMrs - 1
          totalMrs := ent.totalMrs - 1
          dying := ent.dying ++ [mkey] }
    else none

end CacheEnt

/-- `struct mlx5_mr_cache`, with the delay after a failed creation. -/
structure MrCache where
  fillDelay : Bool
  ents : Nat → CacheEnt

/-- `mlx5_mr_cache_init`, with the limits of the profile. -/
def MrCache.init (limits : Nat → Nat) : MrCache where
  fillDelay := false
  ents := fun e => CacheEnt.init (e + 2) (limits e)

/-- `mr_cache_ent_from_order`, the number of the entry. -/
def mrCacheEntFromOrder (order : Nat) : Option Nat :=
  if order < 2 then some 0
  else if mrCacheLastStdEntry < order - 2 then none
  else some (order - 2)

/-- The entries that `alloc_mr_from_cache` takes a region of an order from. -/
def mayServe (order e : Nat) : Bool :=
  (mrCacheEntFromOrder order).any fun first => first ≤ e && e ≤ mrCacheLastStdEntry

inductive CacheMove where
  | ent (e : Nat) (move : CacheEnt.Move)
  | timer

/-- The entries of a step: `mlx5_mr_cache_alloc` takes the special ones, and creates a region where there is
none, `alloc_mr_from_cache` those for its order and creates one in the first of these. -/
def suits (e : Nat) : CacheEnt.Move → Bool
  | .cacheAlloc => mrCacheLastStdEntry < e
  | .getCacheMr order => mayServe order e
  | .createCacheMr order =>
    (mrCacheLastStdEntry < e && order = e + 2) || mrCacheEntFromOrder order = some e
  | _ => true

def MrCache.step (cache : MrCache) : CacheMove → Option MrCache
  | .ent e move =>
    if e < maxMrCacheEntries && suits e move then
      ((cache.ents e).step cache.fillDelay move).map fun next =>
        { cache with
          fillDelay := cache.fillDelay || move = .callback false
          ents := Function.update cache.ents e next }
    else none
  | .timer => some { cache with fillDelay := false }

end MlnxOfed.Mr
