/-
Register mappings (en/mapping.c): data that users give get a small number, the same one for the same data,
and a number no longer used may keep its data for a grace period.

An item is known by a number not used again, for its address. `mapping_add` and the locked part of
`mapping_remove` are one step each; `mapping_free_item` puts the item on the pending list and schedules the
work in two. The work reads the time and scans the list in one step, frees the items one by one, and
schedules itself in a last step.
-/

import MlnxOfed.Lib.WrappedClock

namespace MlnxOfed.Mapping

open Function Lib

/-- The width of `unsigned long` and `HZ`, with the range that jiffies.h takes. -/
structure Kernel where
  bits : Nat
  hz : Nat
  wide : 32 ≤ bits
  slow : hz < 12288

/-- `msecs_to_jiffies(MAPPING_GRACE_PERIOD)`, for 2000 ms. -/
def Kernel.grace (kernel : Kernel) : Nat :=
  2 * kernel.hz

structure MappingItem (Data : Type) where
  data : Data
  cnt : Nat
  id : Nat
  timeout : Nat

/-- The local variables of `mapping_work_handler` after the scan. -/
structure WorkHandler where
  pendingItems : List Nat
  minTimeout : Nat
  deriving DecidableEq

structure Drop (Data : Type) where
  item : Nat
  id : Nat
  data : Data
  time : Nat

/-- `struct mapping_ctx` with items and work. `clock`: the jiffies before they wrap; `uses`: numbers
returned by additions and not removed. -/
structure MappingCtx (Data : Type) where
  xarray : Nat → Option Nat
  ht : List Nat
  maxId : Nat
  delayedRemoval : Bool
  pendingList : List Nat
  queued : Bool
  refcount : Nat
  item : Nat → MappingItem Data
  nextItem : Nat
  freed : List Nat
  scheduling : Bool
  handler : Option WorkHandler
  clock : Nat
  uses : List (Nat × Data)
  drops : List (Drop Data)

variable {Data : Type}

def mappingCreate [Inhabited Data] (maxId : Nat) (delayedRemoval : Bool) (clock : Nat) : MappingCtx Data where
  xarray := fun _ => none
  ht := []
  maxId := if maxId = 0 then 2 ^ 32 - 1 else maxId
  delayedRemoval := delayedRemoval
  pendingList := []
  queued := false
  refcount := 1
  item := fun _ => ⟨default, 0, 0, 0⟩
  nextItem := 0
  freed := []
  scheduling := false
  handler := none
  clock := clock
  uses := []
  drops := []

namespace MappingCtx

def jiffies (kernel : Kernel) (ctx : MappingCtx Data) : Nat :=
  ctx.clock % 2 ^ kernel.bits

def mappingFind (ctx : MappingCtx Data) (id : Nat) : Option Data :=
  (ctx.xarray id).map fun i => (ctx.item i).data

/-- The end of `mapping_add`; `cnt` is an `int`. -/
def attach (ctx : MappingCtx Data) (i : Nat) : MappingCtx Data :=
  { ctx with
    item := update ctx.item i
      { ctx.item i with cnt := ((ctx.item i).cnt + 1) % 2 ^ 32 }
    uses := ((ctx.item i).id, (ctx.item i).data) :: ctx.uses }

/-- `mapping_add`. The allocation may fail, and `xa_alloc` finds a free index or fails. -/
def mappingAdd [DecidableEq Data] (ctx : MappingCtx Data) (data : Data) (allocated : Bool)
    (index : Option Nat) : Option (MappingCtx Data) :=
  match ctx.ht.find? fun i => (ctx.item i).data = data with
  | some i => some (ctx.attach i)
  | none =>
    if allocated = false then some ctx
    else
      match index with
      | none =>
        some { ctx with nextItem := ctx.nextItem + 1, freed := ctx.freed ++ [ctx.nextItem] }
      | some id =>
        if 1 ≤ id ∧ id ≤ ctx.maxId ∧ ctx.xarray id = none then
          some (({ ctx with
            item := update ctx.item ctx.nextItem ⟨data, 0, id, 0⟩
            nextItem := ctx.nextItem + 1
            ht := ctx.nextItem :: ctx.ht
            xarray := update ctx.xarray id (some ctx.nextItem) } :
            MappingCtx Data).attach ctx.nextItem)
        else none

def mappingRemoveAndFree (ctx : MappingCtx Data) (i : Nat) : MappingCtx Data :=
  { ctx with
    xarray := update ctx.xarray (ctx.item i).id none
    freed := ctx.freed ++ [i] }

/-- `mapping_free_item` up to the end of its locked section. -/
def mappingFreeItem (kernel : Kernel) (ctx : MappingCtx Data) (i : Nat) : MappingCtx Data :=
  if ctx.delayedRemoval = false then ctx.mappingRemoveAndFree i
  else
    { ctx with
      item := update ctx.item i
        { ctx.item i with timeout := (ctx.jiffies kernel + kernel.grace) % 2 ^ kernel.bits }
      pendingList := ctx.pendingList ++ [i]
      scheduling := true
      drops := ⟨i, (ctx.item i).id, (ctx.item i).data, ctx.clock⟩ :: ctx.drops }

def positive (cnt : Nat) : Bool :=
  0 < cnt && cnt < 2 ^ 31

def mappingRemove (kernel : Kernel) (ctx : MappingCtx Data) (id : Nat) : MappingCtx Data :=
  match ctx.xarray id with
  | none => ctx
  | some i =>
    let cnt := ((ctx.item i).cnt + (2 ^ 32 - 1)) % 2 ^ 32
    let ctx := { ctx with item := update ctx.item i { ctx.item i with cnt := cnt } }
    if positive cnt then ctx
    else ({ ctx with ht := ctx.ht.erase i }).mappingFreeItem kernel i

/-- `time_after(now, mi->timeout)`. -/
def expired (kernel : Kernel) (ctx : MappingCtx Data) (i : Nat) : Bool :=
  timeAfter kernel.bits (ctx.jiffies kernel) (ctx.item i).timeout

/-- An item in the scan of `mapping_work_handler`: the items that stay, those taken, and the least timeout
so far (zero: none). -/
def scanItem (kernel : Kernel) (ctx : MappingCtx Data) (scan : List Nat × List Nat × Nat) (i : Nat) :
    List Nat × List Nat × Nat :=
  let (stay, taken, minTimeout) := scan
  let timeout := (ctx.item i).timeout
  if ctx.expired kernel i then (stay, i :: taken, minTimeout)
  else if minTimeout = 0 || timeBefore kernel.bits timeout minTimeout then
    (stay ++ [i], taken, timeout)
  else (stay ++ [i], taken, minTimeout)

/-- `mapping_work_handler` up to the end of its locked section. -/
def mappingWorkHandler (kernel : Kernel) (ctx : MappingCtx Data) : MappingCtx Data :=
  let (stay, taken, minTimeout) := ctx.pendingList.foldl (ctx.scanItem kernel) ([], [], 0)
  { ctx with
    pendingList := stay
    queued := false
    handler := some ⟨taken, minTimeout⟩ }

/-- `mapping_destroy`. The last one waits for the work and cancels it; items in use are lost. -/
def mappingDestroy (ctx : MappingCtx Data) : MappingCtx Data :=
  if 1 < ctx.refcount then { ctx with refcount := ctx.refcount - 1 }
  else
    let flushed :=
      if ctx.delayedRemoval then ctx.pendingList.foldl mappingRemoveAndFree ctx else ctx
    { flushed with
      refcount := 0
      queued := false
      pendingList := []
      ht := []
      xarray := fun _ => none }

end MappingCtx

inductive Move (Data : Type) where
  | tick (passed : Nat)
  | createForId
  | add (data : Data) (allocated : Bool) (index : Option Nat)
  | remove (id : Nat) (data : Data)
  | schedule
  | work
  | freeItem
  | rearm
  | destroy

/-- A step, where the lock is free and it is its thread's next. A removal undoes an addition; queued work
runs at any time. -/
def step [DecidableEq Data] (kernel : Kernel) (ctx : MappingCtx Data) (move : Move Data) :
    Option (MappingCtx Data) :=
  if ctx.refcount = 0 then none
  else
    match move with
    | .tick passed => some { ctx with clock := ctx.clock + passed }
    | .createForId => some { ctx with refcount := ctx.refcount + 1 }
    | .add data allocated index =>
      if ctx.scheduling then none else ctx.mappingAdd data allocated index
    | .remove id data =>
      if ctx.scheduling || (id, data) ∉ ctx.uses then none
      else some { ctx.mappingRemove kernel id with uses := ctx.uses.erase (id, data) }
    | .schedule =>
      if ctx.scheduling then some { ctx with scheduling := false, queued := true } else none
    | .work =>
      if ctx.queued && ctx.handler.isNone then some (ctx.mappingWorkHandler kernel) else none
    | .freeItem =>
      match ctx.handler with
      | some ⟨i :: rest, minTimeout⟩ =>
        some { ctx.mappingRemoveAndFree i with handler := some ⟨rest, minTimeout⟩ }
      | _ => none
    | .rearm =>
      match ctx.handler with
      | some ⟨[], minTimeout⟩ =>
        some { ctx with handler := none, queued := ctx.queued || minTimeout ≠ 0 }
      | _ => none
    | .destroy =>
      if ctx.refcount = 1 && (ctx.scheduling || ctx.handler.isSome) then none
      else some ctx.mappingDestroy

def run [DecidableEq Data] (kernel : Kernel) (kind : MappingCtx Data → Move Data → Bool) :
    MappingCtx Data → List (Move Data) → Option (MappingCtx Data)
  | ctx, [] => some ctx
  | ctx, move :: rest =>
    if kind ctx move then (step kernel ctx move).bind fun next => run kernel kind next rest
    else none

end MlnxOfed.Mapping
