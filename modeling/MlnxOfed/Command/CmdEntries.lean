/-
The life of a firmware command: its messages, its work entry with the references to it, its slot and its
semaphore. A function is one step, cut only where it sleeps: in a semaphore, in a wait, while it polls.
Firmware delivers the event of a doorbell at any later time.
-/

import MlnxOfed.Command.Mailbox

namespace MlnxOfed.Command.Entries

open Option List Function

structure Msg where
  parent : Option Nat
  id : Nat
  deriving DecidableEq

structure MsgCache where
  head : List Msg
  maxInboxSize : Nat
  free : Nat

/-- The loop of `alloc_msg` over the caches. -/
def takeMsg (inSize : Nat) : List MsgCache → List MsgCache × Option Msg
  | [] => ([], none)
  | ch :: rest =>
    if ch.maxInboxSize < inSize then
      (ch :: (takeMsg inSize rest).1, (takeMsg inSize rest).2)
    else
      match ch.head with
      | [] => (ch :: (takeMsg inSize rest).1, (takeMsg inSize rest).2)
      | msg :: others => ({ ch with head := others, free := ch.free - 1 } :: rest, some msg)

/-- `alloc_msg`; `fresh` is what `mlx5_alloc_cmd_msg` returns. -/
def allocMsg (caches : List MsgCache) (inSize : Nat) (fresh : Option Msg) : List MsgCache × Option Msg :=
  if inSize ≤ 16 then (caches, fresh)
  else
    match takeMsg inSize caches with
    | (caches, some msg) => (caches, some msg)
    | (caches, none) => (caches, fresh)

def freeMsg (caches : List MsgCache) (msg : Msg) : List MsgCache :=
  match msg.parent with
  | some parent =>
    caches.modify parent fun ch => { ch with head := ch.head ++ [msg], free := ch.free + 1 }
  | none => caches

/-- `create_msg_cache`, where `filled` says how many messages could be allocated; a sub-function's caches
are zeroed. -/
def createMsgCache (isSf : Bool) (filled : Nat → Nat) : List MsgCache :=
  cmdCacheEntSize.mapIdx fun k size =>
    if isSf then { head := [], maxInboxSize := 0, free := 0 }
    else
      { head := (range (filled k)).map fun j => { parent := some k, id := j }
        maxInboxSize := size
        free := filled k }

/-- Where `ent->work` is: on no queue, on `cmd->wq`, in `down`, in `poll_timeout`. -/
inductive Work
  | idle
  | queued
  | blocked
  | polling
  deriving DecidableEq

/-- `ent->cb_timeout_work`; once running it can no longer be cancelled. -/
inductive Timer
  | idle
  | armed
  | running
  deriving DecidableEq

/-- `struct mlx5_cmd_work_ent`, with what doorbell and callers still owe it, and counters of what was done.
-/
structure Ent where
  callback : Bool
  pageQueue : Bool
  polling : Bool
  op : Nat
  idx : Option Nat
  refcnt : Nat
  ret : Int
  status : Nat
  pendingComp : Bool
  work : Work
  cbTimeout : Timer
  /-- The caller is in `mlx5_cmd_invoke` and has its reference. -/
  waiter : Bool
  /-- The event of the doorbell is not yet delivered. -/
  event : Bool
  completions : Nat
  downs : Nat
  ups : Nat
  idxFrees : Nat

def Ent.none : Ent :=
  { callback := false, pageQueue := false, polling := false, op := 0, idx := Option.none,
    refcnt := 0, ret := 0, status := 0, pendingComp := false, work := .idle, cbTimeout := .idle,
    waiter := false, event := false, completions := 0, downs := 0, ups := 0, idxFrees := 0 }

/-- A call of `cmd_exec`: `ctx` is the context of `mlx5_cmd_exec_cb`, `callbacks` the values of its calls.
-/
structure Call where
  ctx : Option Nat
  inb : Option Msg
  outb : Bool
  inFrees : Nat
  outFrees : Nat
  callbacks : List Int
  result : Option Int

def Call.none : Call :=
  { ctx := Option.none, inb := Option.none, outb := false, inFrees := 0, outFrees := 0,
    callbacks := [], result := Option.none }

inductive Mode
  | polling
  | events
  deriving DecidableEq

structure Config where
  maxRegCmds : Nat
  mode : Mode

/-- The interface; entry and call of a command have one number. `toComplete` and `toPut` count for each slot
the running `mlx5_cmd_trigger_completions` that refer to its entry and have to complete it, or only to put
it. -/
structure Dev where
  next : Nat
  calls : Nat → Call
  ents : Nat → Ent
  sem : Nat
  pagesSem : Nat
  bitmask : Nat → Bool
  entArr : Nat → Option Nat
  toComplete : Nat → Nat
  toPut : Nat → Nat
  caches : List MsgCache
  numInflight : Nat → Nat

variable (config : Config)

/-- `mlx5_cmd_init`: the bit of the page slot is not set. -/
def Dev.init (caches : List MsgCache) : Dev :=
  { next := 0
    calls := fun _ => Call.none
    ents := fun _ => Ent.none
    sem := config.maxRegCmds
    pagesSem := 1
    bitmask := fun i => decide (i < config.maxRegCmds)
    entArr := fun _ => none
    toComplete := fun _ => 0
    toPut := fun _ => 0
    caches := caches
    numInflight := fun _ => 1 }

variable (dev : Dev)

def Dev.setEnt (e : Nat) (ent : Ent) : Dev :=
  { dev with ents := update dev.ents e ent }

def Dev.setCall (c : Nat) (call : Call) : Dev :=
  { dev with calls := update dev.calls c call }

def eio : Int := -5
def eagain : Int := -11
def enomem : Int := -12
def einval : Int := -22
def etimedout : Int := -110
def ecanceled : Int := -125

def opManagePages : Nat := 0x108

/-- The opcodes that `mlx5_internal_err_ret_value` answers with `MLX5_CMD_STAT_OK`. -/
def internalOk : List Nat :=
  [0x103, 0x105, 0x108, 0x202, 0x302, 0x401, 0x501, 0x715, 0x601, 0x701, 0x706, 0x718, 0x711,
    0x772, 0x783, 0x787, 0x801, 0x803, 0x807, 0x80f, 0x817, 0x828, 0x82b, 0x843, 0x845, 0x902,
    0x906, 0x90a, 0x90e, 0x914, 0x918, 0x931, 0x934, 0x938, 0x93a, 0x721, 0x724, 0x507, 0x50a,
    0x755, 0x93c, 0x936, 0x92f, 0x93e, 0x941, 0x963, 0xa03, 0x206, 0x204, 0x740, 0x114, 0x765,
    0x805]

/-- The opcodes that it answers with `-EIO`. -/
def internalAborted : List Nat :=
  [0x100, 0x101, 0x102, 0x104, 0x107, 0x109, 0x10a, 0x10b, 0x10e, 0x10f, 0x200, 0x201, 0x203,
    0x301, 0x303, 0x304, 0x400, 0x402, 0x403, 0x500, 0x502, 0x503, 0x504, 0x505, 0x506, 0x50b,
    0x50c, 0x50e, 0x600, 0x700, 0x702, 0x703, 0x705, 0x707, 0x708, 0x717, 0x719, 0x71a, 0x710,
    0x712, 0x713, 0x714, 0x750, 0x751, 0x752, 0x753, 0x754, 0x760, 0x761, 0x762, 0x763, 0x764,
    0x76f, 0x770, 0x771, 0x773, 0x774, 0x775, 0x780, 0x781, 0x782, 0x784, 0x785, 0x786, 0x800,
    0x802, 0x804, 0x819, 0x820, 0x821, 0x806, 0x80a, 0x50d, 0x80b, 0x80c, 0x80d, 0x80e, 0x816,
    0x822, 0x823, 0x824, 0x825, 0x826, 0x827, 0x829, 0x82a, 0x840, 0x841, 0x842, 0x844, 0x900,
    0x901, 0x903, 0x904, 0x905, 0x907, 0x908, 0x909, 0x90b, 0x90c, 0x90d, 0x90f, 0x912, 0x913,
    0x915, 0x916, 0x917, 0x919, 0x720, 0x722, 0x723, 0x728, 0x930, 0x932, 0x933, 0x935, 0x937,
    0x939, 0x93b, 0x93d, 0x940, 0x960, 0x961, 0x962, 0x964, 0xa00, 0xa01, 0xa02, 0xa04, 0xa06,
    0xa08, 0xa0a, 0x205, 0x111, 0x113, 0xb00, 0x72a, 0x729, 0xb0d, 0xb0e]

def internalErrRetValue (op : Nat) : Int :=
  if op ∈ internalOk then 0
  else if op ∈ internalAborted then eio
  else einval

def statusToErr (status : Nat) : Int :=
  if status = 0x0 ∨ status = 0xfe then 0
  else if status = 0x1 ∨ status = 0x2 then -53
  else if status = 0x3 ∨ status = 0x4 ∨ status = 0x5 then -14
  else if status = 0x7 ∨ status = 0x8 ∨ status = 0x10 ∨ status = 0x9 then -42
  else if status = 0x6 then eio
  else einval

def cmdEntGet (e : Nat) : Dev :=
  dev.setEnt e { dev.ents e with refcnt := (dev.ents e).refcnt + 1 }

/-- `cmd_ent_put`: the last reference frees the slot of the entry. -/
def cmdEntPut (e : Nat) : Dev :=
  let ent := dev.ents e
  if ent.refcnt ≠ 1 then dev.setEnt e { ent with refcnt := ent.refcnt - 1 }
  else
    match ent.idx with
    | none => dev.setEnt e { ent with refcnt := 0 }
    | some i =>
      { dev.setEnt e { ent with refcnt := 0, idxFrees := ent.idxFrees + 1 } with
        bitmask := update dev.bitmask i true }

def upSem (e : Nat) : Dev :=
  let ent := dev.ents e
  let dev := dev.setEnt e { ent with ups := ent.ups + 1 }
  if ent.pageQueue then { dev with pagesSem := dev.pagesSem + 1 }
  else { dev with sem := dev.sem + 1 }

/-- `mlx5_free_cmd_msg` of the output message and `free_msg` of the input message. -/
def freeMsgs (c : Nat) : Dev :=
  let call := dev.calls c
  { dev.setCall c { call with outFrees := call.outFrees + 1, inFrees := call.inFrees + 1 } with
    caches :=
      match call.inb with
      | some msg => freeMsg dev.caches msg
      | none => dev.caches }

/-- `mlx5_cmd_exec_cb_handler`: the user's callback, then one command less in flight. -/
def execCbHandler (c : Nat) (err : Int) : Dev :=
  let call := dev.calls c
  let dev := dev.setCall c { call with callbacks := call.callbacks ++ [err] }
  match call.ctx with
  | some ctx =>
    { dev with
      numInflight := update dev.numInflight ctx (dev.numInflight ctx - 1) }
  | none => dev

def countCompletion (e : Nat) : Dev :=
  dev.setEnt e { dev.ents e with completions := (dev.ents e).completions + 1 }

inductive CompType
  | event
  | forced
  | polling
  deriving DecidableEq

/-- The answer of a completed command: `verify_signature`, delivery status, `mlx5_copy_from_msg` with
`mlx5_cmd_check`. -/
structure Reply where
  signature : Int
  status : Nat
  output : Int

/-- `ent->ret` and `ent->status` of a completed command. -/
def setResult (e : Nat) (triggered : Bool) (reply : Reply) : Dev :=
  let ent := dev.ents e
  if ent.ret = 0 then
    dev.setEnt e
      { ent with ret := reply.signature, status := if triggered then 0xfe else reply.status }
  else dev

def callbackErr (ent : Ent) (reply : Reply) : Int :=
  let err := if ent.ret = 0 then reply.output else ent.ret
  if err = 0 then ent.status else err

def cancelTimeout (e : Nat) : Dev :=
  let ent := dev.ents e
  if ent.callback = true ∧ ent.cbTimeout = .armed then
    cmdEntPut (dev.setEnt e { ent with cbTimeout := .idle }) e
  else dev

/-- The event's reference: `down` is `mlx5_cmd_is_down(dev) || !opcode_allowed(cmd, ent->op)`. -/
def putEvent (e : Nat) (type : CompType) (down : Bool) : Dev :=
  if type ≠ .forced ∨ down = true then cmdEntPut dev e else dev

/-- Messages, last reference and callback of an asynchronous command, or waking the caller; then the
semaphore. -/
def finishEnt (e : Nat) (reply : Reply) : Dev :=
  let ent := dev.ents e
  let dev := countCompletion dev e
  if ent.callback then
    upSem (execCbHandler (cmdEntPut (freeMsgs dev e) e) e (callbackErr ent reply)) e
  else upSem dev e

/-- The end of the loop body of `mlx5_cmd_comp_handler`, for a command completed here. -/
def completeEnt (e : Nat) (type : CompType) (down triggered : Bool) (reply : Reply) : Dev :=
  finishEnt (setResult (putEvent (cancelTimeout dev e) e type down) e triggered reply) e reply

/-- `mlx5_cmd_comp_handler` for the bit `i` of its vector. -/
def compHandler (i : Nat) (type : CompType) (down triggered : Bool) (reply : Reply) : Dev :=
  match dev.entArr i with
  | none => dev
  | some e =>
    let ent := dev.ents e
    if ent.pendingComp then
      let dev := dev.setEnt e { ent with pendingComp := false }
      -- an event is no completion of a command that is polled
      if ent.polling = true ∧ type = .event then dev
      else completeEnt dev e type down triggered reply
    else
      let dev := if type = .event ∧ ent.polling = false then cmdEntPut dev e else dev
      if type ≠ .polling then dev
      else completeEnt dev e type down triggered reply

/-- The handler for `1UL << ent->idx`; an `idx` of `-EINVAL` leaves none of the low 32 bits. -/
def compHandlerOf (e : Nat) (type : CompType) (down : Bool) (reply : Reply) : Dev :=
  match (dev.ents e).idx with
  | some i => compHandler dev i type down false reply
  | none => dev

/-- `cmd_alloc_index` after its retries. -/
def cmdAllocIndex (dev : Dev) : Option Nat :=
  (range config.maxRegCmds).find? dev.bitmask

def Ent.slotless (ent : Ent) : Ent :=
  { ent with work := .idle, downs := ent.downs + 1, completions := ent.completions + 1 }

/-- No slot: the command ends with `-EAGAIN`. -/
def slotFailed (e : Nat) : Dev :=
  let ent := dev.ents e
  let dev := dev.setEnt e ent.slotless
  if ent.callback then
    upSem (cmdEntPut (freeMsgs (execCbHandler dev e eagain) e) e) e
  else
    upSem (dev.setEnt e { dev.ents e with ret := eagain }) e

/-- The entry in its slot, with the references for the delayed work and for the event. `cmd_alloc_index` and
the store to `ent_arr`, which takes no lock, are one step. -/
def takeSlot (e i : Nat) : Dev :=
  let ent := dev.ents e
  { dev.setEnt e
      { ent with
        idx := some i
        work := .idle
        downs := ent.downs + 1
        cbTimeout := if ent.callback then .armed else .idle
        refcnt := ent.refcnt + (if ent.callback then 1 else 0) + 1
        pendingComp := true } with
    bitmask := update dev.bitmask i false
    entArr := update dev.entArr i (some e) }

/-- The second half of `cmd_work_handler`; `down` and `downAfter` are what it and `mlx5_cmd_comp_handler`
find. -/
def postCmd (dev : Dev) (e i : Nat) (down downAfter : Bool) (reply : Reply) : Dev :=
  let dev := takeSlot dev e i
  let ent := dev.ents e
  if down then
    let dev := dev.setEnt e { ent with ret := internalErrRetValue ent.op }
    compHandler dev i .forced downAfter false reply
  else
    dev.setEnt e
      { ent with
        event := decide (config.mode = .events)
        work := if config.mode = .polling ∨ ent.polling = true then .polling else .idle }

/-- `cmd_work_handler` from its `down` on; a semaphore at zero lets nobody pass. -/
def cmdWorkHandler (dev : Dev) (e : Nat) (down downAfter : Bool) (reply : Reply) :
    Option Dev :=
  let ent := dev.ents e
  if ent.work ≠ .blocked then none
  else if ent.pageQueue then
    if dev.pagesSem = 0 then none
    else
      some (postCmd config { dev with pagesSem := dev.pagesSem - 1 } e config.maxRegCmds down
        downAfter reply)
  else if dev.sem = 0 then none
  else
    match cmdAllocIndex config dev with
    | some i => some (postCmd config { dev with sem := dev.sem - 1 } e i down downAfter reply)
    | none => some (slotFailed { dev with sem := dev.sem - 1 } e)

inductive Api
  | exec
  | execPolling
  | execCb (ctx : Nat)

/-- The arguments of a call, and how the steps of `cmd_exec` end: interface, allocations of messages and
entry, `mlx5_copy_to_msg`, `queue_work`. -/
structure CallArgs where
  api : Api
  op : Nat
  inSize : Nat
  down : Bool
  inMemory : Bool
  copyErr : Int
  outMemory : Bool
  entMemory : Bool
  queued : Bool

def Api.ctx : Api → Option Nat
  | .execCb ctx => some ctx
  | _ => none

def Api.forcePolling : Api → Bool
  | .execPolling => true
  | _ => false

variable (args : CallArgs)

/-- `mlx5_cmd_invoke` up to the wait: the entry, or an error. -/
def cmdInvoke : Ent ⊕ Int :=
  let callback := args.api.ctx.isSome
  let pageQueue := decide (args.op = opManagePages)
  if callback = true ∧ pageQueue = true then .inr einval
  else if args.entMemory = false then .inr enomem
  else if pageQueue = false ∧ args.queued = false then .inr enomem
  else
    .inl
      { Ent.none with
        callback := callback
        pageQueue := pageQueue
        polling := args.api.forcePolling
        op := args.op
        refcnt := 1
        work := if pageQueue then .blocked else .queued
        waiter := !callback }

/-- The end of `cmd_exec` for a failed call: only without callback are its messages freed. -/
def failCall (c : Nat) (err : Int) : Dev :=
  let call := dev.calls c
  let dev :=
    if call.ctx.isSome then dev
    else
      { dev.setCall c
          { call with
            outFrees := call.outFrees + (if call.outb then 1 else 0)
            inFrees := call.inFrees + (if call.inb.isSome then 1 else 0) } with
        caches :=
          match call.inb with
          | some msg => freeMsg dev.caches msg
          | none => dev.caches }
  dev.setCall c { dev.calls c with result := some err }

def beginCall : Dev :=
  { dev.setCall dev.next { Call.none with ctx := args.api.ctx } with next := dev.next + 1 }

def giveIn (c : Nat) (caches : List MsgCache) (inb : Msg) : Dev :=
  { dev.setCall c { dev.calls c with inb := some inb } with caches := caches }

def giveOut (c : Nat) : Dev :=
  dev.setCall c { dev.calls c with outb := true }

def startEnt (c : Nat) (ent : Ent) : Dev :=
  let dev := dev.setEnt c ent
  if ent.callback then dev.setCall c { dev.calls c with result := some 0 } else dev

/-- The message that `mlx5_alloc_cmd_msg` gives to the call. -/
def freshMsg : Option Msg :=
  if args.inMemory then some { parent := none, id := dev.next } else none

def cmdExec : Dev :=
  let c := dev.next
  let fresh := freshMsg dev args
  let dev := beginCall dev args
  if args.down then failCall dev c (internalErrRetValue args.op)
  else
    match allocMsg dev.caches args.inSize fresh with
    | (caches, none) => failCall { dev with caches := caches } c enomem
    | (caches, some inb) =>
      let dev := giveIn dev c caches inb
      if args.copyErr ≠ 0 then failCall dev c args.copyErr
      else if args.outMemory = false then failCall dev c enomem
      else
        let dev := giveOut dev c
        match cmdInvoke args with
        | .inr err => failCall dev c err
        | .inl ent => startEnt dev c ent

/-- `mlx5_cmd_exec`, `mlx5_cmd_exec_polling` and `mlx5_cmd_exec_cb`. -/
def exec : Dev :=
  match args.api with
  | .execCb ctx =>
    if dev.numInflight ctx = 0 then
      { dev.setCall dev.next { Call.none with ctx := some ctx, result := some eio } with
        next := dev.next + 1 }
    else
      let after :=
        cmdExec
          { dev with
            numInflight := update dev.numInflight ctx (dev.numInflight ctx + 1) } args
      if (after.calls dev.next).result ≠ some 0 then
        { after with
          numInflight := update after.numInflight ctx (after.numInflight ctx - 1) }
      else after
  | _ => cmdExec dev args

/-- The end of `mlx5_cmd_invoke` and `cmd_exec` for a caller that waited; `output` is that of
`mlx5_copy_from_msg`. -/
def returnWaiter (e : Nat) (output : Int) : Dev :=
  let ent := dev.ents e
  let dev := cmdEntPut (dev.setEnt e { ent with waiter := false }) e
  let err :=
    if ent.ret ≠ 0 then ent.ret
    else if ent.status ≠ 0 then statusToErr ent.status
    else output
  let dev := freeMsgs dev e
  dev.setCall e { dev.calls e with result := some err }

inductive Step
  | exec (args : CallArgs)
  /-- The work queue starts `cmd_work_handler`. -/
  | handle (e : Nat)
  /-- `cmd_work_handler` comes out of `down`. -/
  | post (e : Nat) (down downAfter : Bool) (reply : Reply)
  /-- `poll_timeout` returns. -/
  | polled (e : Nat) (timedOut down : Bool) (reply : Reply)
  /-- Firmware delivers the event of the doorbell of this command. -/
  | event (e : Nat) (down : Bool) (reply : Reply)
  /-- The delayed work starts. -/
  | expire (e : Nat)
  /-- `cb_timeout_handler` after `mlx5_cmd_eq_recover`. -/
  | cbTimeout (e : Nat) (down : Bool) (reply : Reply)
  /-- `wait_func` cancels a work that never started. -/
  | waitCanceled (e : Nat)
  /-- `wait_func` is woken. -/
  | waitDone (e : Nat) (output : Int)
  /-- `wait_func` gives up, after `wait_func_handle_exec_timeout`. -/
  | waitTimeout (e : Nat) (down : Bool) (reply : Reply)
  /-- The locked part of `mlx5_cmd_trigger_completions`. -/
  | trigger
  /-- Its `mlx5_cmd_comp_handler`, for one bit. -/
  | triggerComplete (i : Nat) (down : Bool) (reply : Reply)
  /-- Its last loop, for one bit. -/
  | triggerPut (i : Nat)

def usedSlots (dev : Dev) : List Nat :=
  (range (config.maxRegCmds + 1)).filter fun i => !dev.bitmask i

/-- One round of the loop of `mlx5_cmd_trigger_completions` under the lock. -/
def triggerSlot (i : Nat) : Dev :=
  match dev.entArr i with
  | none => dev
  | some e =>
    { cmdEntGet dev e with toComplete := update dev.toComplete i (dev.toComplete i + 1) }

/-- The caller of a page command runs `cmd_work_handler` itself before it waits. -/
def Ent.waits (ent : Ent) : Bool :=
  ent.waiter && (!ent.pageQueue || decide (ent.work = .idle))

def cbTimeoutHandler (e : Nat) (down : Bool) (reply : Reply) : Dev :=
  let ent := dev.ents e
  let dev :=
    if ent.pendingComp then
      compHandlerOf (dev.setEnt e { ent with ret := etimedout }) e .forced down reply
    else dev
  cmdEntPut (dev.setEnt e { dev.ents e with cbTimeout := .idle }) e

/-- A step that cannot be taken, or that dereferences `NULL`, has no next state. -/
def step (dev : Dev) : Step → Option Dev
  | .exec args => some (exec dev args)
  | .handle e =>
    if (dev.ents e).work = .queued then
      some (dev.setEnt e { dev.ents e with work := .blocked })
    else none
  | .post e down downAfter reply => cmdWorkHandler config dev e down downAfter reply
  | .polled e timedOut down reply =>
    if (dev.ents e).work = .polling then
      let dev :=
        dev.setEnt e
          { dev.ents e with work := .idle, ret := if timedOut then etimedout else 0 }
      some (compHandlerOf dev e (if timedOut then .forced else .polling) down reply)
    else none
  | .event e down reply =>
    if (dev.ents e).event then
      some (compHandlerOf (dev.setEnt e { dev.ents e with event := false }) e .event down reply)
    else none
  | .expire e =>
    if (dev.ents e).cbTimeout = .armed then
      some (dev.setEnt e { dev.ents e with cbTimeout := .running })
    else none
  | .cbTimeout e down reply =>
    if (dev.ents e).cbTimeout = .running then some (cbTimeoutHandler dev e down reply) else none
  | .waitCanceled e =>
    if (dev.ents e).waits = true ∧ (dev.ents e).work = .queued then
      some (returnWaiter (dev.setEnt e { dev.ents e with work := .idle, ret := ecanceled }) e 0)
    else none
  | .waitDone e output =>
    if (dev.ents e).waits = true ∧ 0 < (dev.ents e).completions then
      some (returnWaiter dev e output)
    else none
  | .waitTimeout e down reply =>
    if (dev.ents e).waits = true ∧ (dev.ents e).work ≠ .queued ∧
        (dev.ents e).completions = 0 ∧ config.mode = .events ∧ (dev.ents e).polling = false then
      some (returnWaiter
        (compHandlerOf (dev.setEnt e { dev.ents e with ret := etimedout }) e .forced down reply) e
        0)
    else none
  | .trigger =>
    if (usedSlots config dev).all fun i => (dev.entArr i).isSome then
      some ((usedSlots config dev).foldl triggerSlot dev)
    else none
  | .triggerComplete i down reply =>
    if dev.toComplete i = 0 then none
    else
      let dev :=
        { dev with
          toComplete := update dev.toComplete i (dev.toComplete i - 1)
          toPut := update dev.toPut i (dev.toPut i + 1) }
      some (compHandler dev i .forced down true reply)
  | .triggerPut i =>
    if dev.toPut i = 0 then none
    else
      let dev := { dev with toPut := update dev.toPut i (dev.toPut i - 1) }
      match dev.entArr i with
      | some e => some (cmdEntPut dev e)
      | none => none

inductive Reachable (config : Config) (caches : List MsgCache) (ok : Dev → Step → Prop) : Dev → Prop
  | init : Reachable config caches ok (Dev.init config caches)
  | step {dev after : Dev} (move : Step) (before : Reachable config caches ok dev)
      (allowed : ok dev move) (moved : step config dev move = some after) :
      Reachable config caches ok after

def run (config : Config) : Dev → List Step → Option Dev
  | dev, [] => some dev
  | dev, move :: moves => (step config dev move).bind fun after => run config after moves

theorem Reachable.run {config caches ok} (always : ∀ dev move, ok dev move) (moves) :
    ∀ {dev after}, Reachable config caches ok dev → run config dev moves = some after →
      Reachable config caches ok after := by
  induction moves with
  | nil =>
    intro dev after reached ran
    rw [Entries.run, some.injEq] at ran
    rw [← ran]
    exact reached
  | cons move moves ih =>
    intro dev after reached ran
    rw [Entries.run, bind_eq_some_iff] at ran
    obtain ⟨middle, moved, rest⟩ := ran
    exact ih (.step move reached (always dev move) moved) rest

end MlnxOfed.Command.Entries
