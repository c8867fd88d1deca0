/-
The life of a send request in the MAD layer (drivers/infiniband/core/mad.c), for agents without kernel RMPP:
posting, completion, response, timeout and retry, cancellation and the end of the agent, with the window of
SMPs and the congestion control of SA queries. A step is one section under a lock. What a thread still has
to do after it dropped the lock is a task of the request; any pending task may run next.
-/

import Mathlib.Data.List.DropRight
import MlnxOfed.Mad.SendQueues

namespace MlnxOfed.Mad

open Function
open Lib (fileLast unfile)

inductive WcStatus
  | success
  | locQpOpErr
  | wrFlushErr
  | respTimeoutErr
  | generalErr
  | other (code : Nat)
  deriving DecidableEq

inductive AgentList
  | send
  | wait
  | done
  deriving DecidableEq

/-- Who sends a request: `ib_post_send_mad`, or `sa_cc_mad_done` from the queue. -/
inductive Caller
  | post
  | queue
  deriving DecidableEq

/-- What a thread past a locked section has still to do with the request. -/
inductive Task
  /-- The request is on the send list; `ib_send_mad` follows. -/
  | send (caller : Caller)
  /-- `ib_send_mad` failed; the request is to leave the send list. -/
  | unpost (caller : Caller) (error : WcStatus)
  /-- `ib_mad_send_done` moved the request to the send queue; `ib_post_send` follows. -/
  | repost
  /-- `ib_mad_send_done` took the request; `ib_mad_complete_send_wr` follows. -/
  | sent (status : WcStatus)
  /-- `smp_mad_done` could not post the request; `ib_mad_complete_send_wr` follows. -/
  | failed
  /-- The request is off all lists; `smp_mad_done` or `sa_cc_mad_done`, then `send_handler`. -/
  | done (status : WcStatus)
  /-- The request is on the local list of `cancel_mads`. -/
  | cancelled
  /-- `send_handler` follows. -/
  | notify (status : WcStatus)
  /-- `send_sa_cc_mad` follows. -/
  | ccSend (timeoutMs retries : Nat) (caller : Caller)
  /-- The request is on the local list of its agent, with or without a response. -/
  | localDone (response : Bool)
  deriving DecidableEq

/-- What follows once a response has its request: `recv_handler`, `ib_mad_complete_send_wr`. -/
inductive RespTask
  | deliver
  | complete
  deriving DecidableEq

inductive Event
  | recv
  | send (status : WcStatus)

/-- `struct ib_mad_send_wr_private`, its pending tasks, whether `ib_post_send_mad` returned 0, and the
handler calls. -/
structure Wr where
  agent : Nat := 0
  mgmtClass : Nat := 0
  method : Nat := 0
  tid : Nat := 0
  timeoutMs : Nat := 0
  timeout : Nat := 0
  retriesLeft : Nat := 0
  refcount : Int := 0
  status : WcStatus := .success
  isSmpMad : Bool := false
  isSaCcMad : Bool := false
  expTime : Nat := 0
  canceled : Bool := false
  tasks : List Task := []
  resps : List RespTask := []
  accepted : Bool := false
  log : List Event := []

/-- What is fixed: module parameters, congestion control, and the QP of each agent. -/
structure Config extends Params where
  hz : Nat
  hz_pos : 0 < hz
  ccMaxOutstanding : Nat
  queueSize : Nat
  timeSaMad : Nat
  qpOf : Nat → Qp

structure Port where
  next : Nat
  wr : Nat → Wr
  agentLists : Nat × AgentList → List Nat
  /-- `timed_work` of the agent is pending or runs. -/
  timedWork : Nat → Bool
  /-- `ib_unregister_mad_agent` was called. -/
  leaving : Nat → Bool
  sendListClosed : Nat → Bool
  /-- A thread waits for the agent's lock that it holds. -/
  stuck : Nat → Bool
  queues : Queues
  /-- `smp_mad_done` calls that go back to their label `retry`. -/
  smpRetries : List Qp
  /-- `cancel_mads` calls that still have to go through the waiting SMPs. -/
  sweeps : List Nat
  ccOutstanding : Nat
  /-- Iterations of `sa_cc_mad_done` that are still to run. -/
  ccDone : Nat
  fifo : List Nat
  toList : List Nat
  numItems : Nat
  /-- The timer of the queue is pending, or its work is. -/
  tfArmed : Bool
  jiffies : Nat
  /-- A list head was used as if it were an entry. -/
  corrupted : Bool

def Port.init : Port where
  next := 0
  wr := fun _ => {}
  agentLists := fun _ => []
  timedWork := fun _ => false
  leaving := fun _ => false
  sendListClosed := fun _ => false
  stuck := fun _ => false
  queues := .init
  smpRetries := []
  sweeps := []
  ccOutstanding := 0
  ccDone := 0
  fifo := []
  toList := []
  numItems := 0
  tfArmed := false
  jiffies := 1
  corrupted := false

def Port.setWr (port : Port) (x : Nat) (w : Wr) : Port :=
  { port with wr := update port.wr x w }

def Wr.addTask (w : Wr) (task : Task) : Wr := { w with tasks := w.tasks ++ [task] }

variable (config : Config)

/-- `msecs_to_jiffies`: rounds up; negative as an `int` means no timeout. -/
def msecsToJiffies (ms : Nat) : Nat :=
  if ms < 2 ^ 31 then (ms * config.hz + 999) / 1000 else 2 ^ 62 - 2

def jiffiesToMsecs (jiffies : Nat) : Nat :=
  (jiffies * 1000 + config.hz - 1) / config.hz % 2 ^ 32

/-- The walk from the tail of a list ordered by time: the element is linked behind the last one before it.
-/
def insertPrev (before : Nat → Bool) (x : Nat) (list : List Nat) : List Nat :=
  list.rdropWhile (fun y => !before y) ++ x :: list.rtakeWhile fun y => !before y

def classSubnLidRouted : Nat := 0x01
def classSubnDirectedRoute : Nat := 0x81
def classSubnAdm : Nat := 0x03
def methodGet : Nat := 0x01
def methodSet : Nat := 0x02

def isSmpMad (w : Wr) : Bool :=
  w.timeoutMs != 0 && (w.mgmtClass == classSubnLidRouted || w.mgmtClass == classSubnDirectedRoute) &&
    (w.method == methodGet || w.method == methodSet)

def isSaCcMad (w : Wr) : Bool :=
  w.timeoutMs != 0 && w.mgmtClass == classSubnAdm && (w.method == methodGet || w.method == methodSet)

variable (port : Port)

/-- `ib_send_mad`; the second component is the error. `mapped`, `posts`: the outcomes of DMA mappings and
`ib_post_send`. -/
def ibSendMad (x : Nat) (mapped posts : Bool) : Port × Option WcStatus :=
  if mapped = false then
    (port, some .generalErr)
  else
    let w := port.wr x
    let result :=
      port.queues.sendMad config.toParams (config.qpOf w.agent) x (isSmpMad w) posts
    ({ port with
        wr := update port.wr x { w with isSmpMad := w.isSmpMad || isSmpMad w }
        queues := result.1 },
      if result.2 then none else some .locQpOpErr)

/-- What `smp_mad_done` leaves: a request not posted is to be completed, then the next tried. -/
def Port.smpResult (qp : Qp) (result : Queues × Option Nat) : Port :=
  match result.2 with
  | none => { port with queues := result.1 }
  | some y =>
    { port with
      queues := result.1
      wr := update port.wr y ((port.wr y).addTask .failed)
      smpRetries := port.smpRetries ++ [qp] }

def sendTask (x : Nat) (caller : Caller) (mapped posts : Bool) : Port :=
  let result := ibSendMad config port x mapped posts
  let w := result.1.wr x
  match result.2 with
  | none => result.1.setWr x { w with accepted := true }
  | some error => result.1.setWr x (w.addTask (.unpost caller error))

/-- The request leaves the send list. One from the queue is reported; a post fails with an error to its
client. The slot of a congestion controlled one is free. -/
def unpostTask (x : Nat) (caller : Caller) (error : WcStatus) : Port :=
  let w := port.wr x
  { port with
    agentLists := unfile port.agentLists x
    wr := update port.wr x
      (match caller with
      | .post => w
      | .queue => w.addTask (.notify error))
    ccDone := port.ccDone + if w.isSaCcMad then 1 else 0 }

/-- `send_sa_cc_mad` up to its call of `ib_send_mad`. -/
def sendSaCcMad (x : Nat) (timeoutMs retries : Nat) (caller : Caller) : Port :=
  let timeout := msecsToJiffies config timeoutMs
  let w := { port.wr x with
    timeout := timeout
    retriesLeft := retries
    refcount := 1 + if timeout = 0 then 0 else 1 }
  if port.sendListClosed w.agent then
    { port with
      wr := update port.wr x
        (match caller with
        | .post => w
        | .queue => w.addTask (.notify .locQpOpErr))
      ccDone := port.ccDone + 1 }
  else
    { port with
      wr := update port.wr x (w.addTask (.send caller))
      agentLists := fileLast port.agentLists (w.agent, .send) x }

def waitForResponse (x : Nat) : Port :=
  let w := port.wr x
  let gone := unfile port.agentLists x
  let expires := w.timeout + port.jiffies
  let list :=
    if w.timeout = 0 then x :: gone (w.agent, .wait)
    else insertPrev (fun y => decide ((port.wr y).timeout < expires)) x (gone (w.agent, .wait))
  { port with
    wr := update port.wr x { w with timeout := expires }
    agentLists := update gone (w.agent, .wait) list
    timedWork := update port.timedWork w.agent (port.timedWork w.agent || list.head? == some x) }

/-- `ib_mad_complete_send_wr` has dropped a reference, and with an error also that for the response. -/
def Wr.less (w : Wr) (status : WcStatus) : Wr :=
  let failed :=
    if status ≠ .success ∧ w.status = .success then
      { w with status := status, refcount := w.refcount - if w.timeout = 0 then 0 else 1 }
    else w
  { failed with refcount := failed.refcount - 1 }

/-- `ib_mad_complete_send_wr` under the agent's lock, the request being through with a reference. -/
def completeSendWr (x : Nat) (status : WcStatus) : Port :=
  let w := port.wr x
  let less := w.less status
  if 0 < less.refcount then
    if less.refcount = 1 ∧ less.timeout ≠ 0 ∧ less.status = .success then
      waitForResponse (port.setWr x less) x
    else
      port.setWr x less
  else
    -- `adjust_timeout`: the agent's own `timeout` is 0 and never after that of a request.
    let gone := unfile port.agentLists x
    { port with
      wr := update port.wr x (less.addTask (.done (if less.status = .success then status else less.status)))
      agentLists := gone
      timedWork := update port.timedWork w.agent (port.timedWork w.agent && !(gone (w.agent, .wait)).isEmpty) }

def doneTask (x : Nat) (status : WcStatus) (posts : Bool) : Port :=
  let w := port.wr x
  let told := port.setWr x (w.addTask (.notify status))
  if w.isSmpMad then
    let qp := config.qpOf w.agent
    told.smpResult qp (port.queues.smpMadDone config.toParams qp posts)
  else if w.isSaCcMad then
    { told with ccDone := port.ccDone + 1 }
  else
    told

/-- The task `cancelled`; the window is lowered without its lock. -/
def cancelTask (x : Nat) : Port :=
  let w := port.wr x
  let told := port.setWr x (w.addTask (.notify .wrFlushErr))
  if w.isSmpMad then
    { told with
      queues := { port.queues with
        outstanding := (port.queues.outstanding + (2 ^ 64 - 1)) % 2 ^ 64 } }
  else if w.isSaCcMad then
    { told with ccDone := port.ccDone + 1 }
  else
    told

/-- `ib_mad_send_done` up to its calls of `ib_mad_complete_send_wr` and `ib_post_send`. -/
def sendDone (config : Config) (port : Port) (x : Nat) (status : WcStatus) : Port :=
  match port.queues.sendDone config.toParams (config.qpOf (port.wr x).agent) x with
  | none => { port with corrupted := true }
  | some (queues, promoted) =>
    let told := { port with queues := queues }.setWr x ((port.wr x).addTask (.sent status))
    match promoted with
    | none => told
    | some y => told.setWr y ((told.wr y).addTask .repost)

def Wr.handled (w : Wr) (status : WcStatus) : Wr := { w with log := w.log ++ [.send status] }

/-- A received response: what `ib_find_send_mad` compares. -/
structure Response where
  tid : Nat
  mgmtClass : Nat
  sameGid : Nat → Bool

def Response.fits (response : Response) (port : Port) (y : Nat) : Bool :=
  (port.wr y).tid == response.tid && (port.wr y).mgmtClass == response.mgmtClass &&
    (response.mgmtClass == classSubnDirectedRoute || response.sameGid y)

def findSendMad (a : Nat) (response : Response) : Option Nat :=
  match (port.agentLists (a, .wait)).find? (response.fits port) with
  | some y => if (port.wr y).status = .success then some y else none
  | none =>
    match (port.agentLists (a, .send)).find?
        (fun y => (port.wr y).timeout != 0 && response.fits port y) with
    | some y => if (port.wr y).status = .success then some y else none
    | none => none

/-- `ib_mark_mad_done`; the delivery of the response follows. -/
def markMadDone (x : Nat) : Port :=
  let w := port.wr x
  let marked := port.setWr x { w with timeout := 0, resps := w.resps ++ [.deliver] }
  if w.refcount = 1 then
    { marked with agentLists := fileLast (unfile port.agentLists x) (w.agent, .done) x }
  else
    marked

/-- `retry_send` of a request off the wait list; the second component: it was sent again. -/
def retrySend (x : Nat) (mapped posts postsNext : Bool) : Port × Bool :=
  let w := port.wr x
  if w.retriesLeft = 0 then
    (port, false)
  else
    let again := { w with
      retriesLeft := w.retriesLeft - 1
      timeout := msecsToJiffies config w.timeoutMs }
    let result := ibSendMad config (port.setWr x again) x mapped posts
    match result.2 with
    | some _ => (result.1, false)
    | none =>
      let sent := result.1
      let qp := config.qpOf w.agent
      let served := sent.queues.smpMadDone config.toParams qp postsNext
      let next := if (sent.wr x).isSmpMad then sent.smpResult qp served else sent
      -- The agent's lock is held: completing a request of the same agent never gets it.
      let blocked :=
        (sent.wr x).isSmpMad && served.2.any fun y => (sent.wr y).agent == w.agent
      ({ next with
          wr := update next.wr x
            { next.wr x with refcount := (next.wr x).refcount + 1 }
          agentLists := fileLast next.agentLists (w.agent, .send) x
          stuck := update port.stuck w.agent (port.stuck w.agent || blocked) },
        true)

/-- One round of the loop in `timeout_sends`. -/
def timeoutSends (a : Nat) (mapped posts postsNext : Bool) : Port :=
  match port.agentLists (a, .wait) with
  | [] => { port with timedWork := update port.timedWork a false }
  | x :: _ =>
    if port.jiffies < (port.wr x).timeout then
      port
    else
      let gone := { port with agentLists := unfile port.agentLists x }
      let finish (left : Port) : Port :=
        let w := left.wr x
        left.setWr x (w.addTask (.done (if w.status = .success then .respTimeoutErr else w.status)))
      if (port.wr x).status = .success then
        let retried := retrySend config gone x mapped posts postsNext
        if retried.2 then retried.1 else finish retried.1
      else
        finish gone

/-- `tf_modify_item`, as called by `modify_sa_cc_mad`. -/
def modifySaCcMad (a x : Nat) (timeoutMs : Nat) : Port :=
  if x ∈ port.fifo ∧ (port.wr x).agent = a then
    let qtime := timeoutMs - config.timeSaMad
    let expTime := port.jiffies + msecsToJiffies config qtime
    if qtime ≠ 0 then
      let list := insertPrev (fun y => decide ((port.wr y).expTime < expTime)) x
        (port.toList.erase x)
      { port with
        wr := update port.wr x { port.wr x with expTime := expTime }
        toList := list
        tfArmed := port.tfArmed || list.head? == some x }
    else
      { port with
        wr := update port.wr x { port.wr x with expTime := expTime, canceled := true }
        toList := x :: port.toList.erase x
        fifo := port.fifo.erase x ++ [x]
        tfArmed := true }
  else
    port

/-- `ib_modify_mad`; `ib_cancel_mad` is the call with 0. -/
def modifyMad (a x : Nat) (timeoutMs : Nat) : Port :=
  if x ∈ port.agentLists (a, .wait) ∨ x ∈ port.agentLists (a, .send) then
    let w := port.wr x
    if w.status ≠ .success then
      port
    else
      let canceled :=
        if timeoutMs = 0 then
          { w with
            status := .wrFlushErr
            refcount := w.refcount - if w.timeout = 0 then 0 else 1 }
        else w
      let modified := { canceled with
        timeoutMs := timeoutMs
        timeout := msecsToJiffies config timeoutMs }
      if w.timeout = 0 ∨ 1 < w.refcount then
        port.setWr x modified
      else
        waitForResponse (port.setWr x modified) x
  else
    modifySaCcMad config port a x timeoutMs

/-- An `int` from a value that is too large or negative. -/
def asInt (value : Int) : Int := Int.bmod value (2 ^ 32)

/-- `tf_enqueue`; there is no result when the queue is full. -/
def tfEnqueue (x : Nat) (timeoutMs : Nat) : Option Port :=
  if config.queueSize ≤ port.numItems then
    none
  else
    let expTime := port.jiffies + msecsToJiffies config timeoutMs
    let list := insertPrev (fun y => decide ((port.wr y).expTime < expTime)) x port.toList
    some { port with
      wr := update port.wr x { port.wr x with expTime := expTime }
      toList := list
      fifo := port.fifo ++ [x]
      numItems := port.numItems + 1
      tfArmed := port.tfArmed || list.head? == some x }

/-- `sa_cc_mad_send` up to its call of `send_sa_cc_mad`. -/
def saCcMadSend (x : Nat) : Port :=
  let w := port.wr x
  if port.ccOutstanding < config.ccMaxOutstanding then
    { port with
      ccOutstanding := port.ccOutstanding + 1
      wr := update port.wr x (w.addTask (.ccSend w.timeoutMs w.retriesLeft .post)) }
  else
    let qtime := asInt (w.timeoutMs * (w.retriesLeft + 1) - config.timeSaMad)
    match tfEnqueue config port x qtime.toNat with
    | none => port
    | some queued => queued.setWr x { queued.wr x with accepted := true }

/-- A round of the loop in `sa_cc_mad_done`. When all queued requests are cancelled `tf_dequeue` reads a
flag behind the list's head; `wild` is what it finds. -/
def saCcMadDone (wild : Bool) : Port :=
  let counted := { port with ccDone := port.ccDone - 1 }
  match port.fifo.find? (fun y => !(port.wr y).canceled) with
  | none =>
    if port.fifo ≠ [] ∧ wild = false then
      { counted with corrupted := true }
    else
      { counted with ccOutstanding := port.ccOutstanding - 1 }
  | some y =>
    let w := port.wr y
    let timeLeft :=
      (jiffiesToMsecs config (w.expTime - port.jiffies) + config.timeSaMad) % 2 ^ 32
    let task :=
      if w.timeoutMs < timeLeft then
        Task.ccSend w.timeoutMs (timeLeft / w.timeoutMs - 1) .queue
      else
        Task.ccSend timeLeft 0 .queue
    { counted with
      wr := update port.wr y (w.addTask task)
      fifo := port.fifo.erase y
      toList := port.toList.erase y
      numItems := port.numItems - 1
      tfArmed :=
        if port.toList.head? = some y then !(port.toList.erase y).isEmpty else port.tfArmed }

/-- `timeout_handler_task`: a round of its loop; the last one sets the timer again. -/
def timeoutHandlerTask : Port :=
  let expired := port.toList.takeWhile fun y => decide ((port.wr y).expTime ≤ port.jiffies)
  let rest := port.toList.dropWhile fun y => decide ((port.wr y).expTime ≤ port.jiffies)
  { port with
    wr := fun y =>
      if y ∈ expired then
        { (port.wr y).addTask
            (.notify (if (port.wr y).canceled then .wrFlushErr else .respTimeoutErr)) with
          canceled := false }
      else port.wr y
    toList := rest
    fifo := port.fifo.filter fun y => decide (y ∉ expired)
    numItems := port.numItems - expired.length
    tfArmed := !expired.isEmpty || !rest.isEmpty }

def freeAgent (a : Nat) : Port :=
  let own (y : Nat) : Bool := (port.wr y).agent == a
  { port with
    leaving := update port.leaving a true
    wr := fun y =>
      if y ∈ port.fifo ∧ own y = true then (port.wr y).addTask (.notify .wrFlushErr)
      else port.wr y
    fifo := port.fifo.filter fun y => !own y
    toList := port.toList.filter fun y => !own y
    numItems := port.numItems - (port.fifo.filter own).length }

def Wr.flushed (w : Wr) : Wr :=
  if w.status = .success then
    { w with status := .wrFlushErr, refcount := w.refcount - if w.timeout = 0 then 0 else 1 }
  else w

/-- `cancel_mads` under the agent's lock. -/
def cancelMads (a : Nat) : Port :=
  { port with
    sendListClosed := update port.sendListClosed a true
    wr := fun y =>
      if y ∈ port.agentLists (a, .send) then (port.wr y).flushed
      else if y ∈ port.agentLists (a, .wait) then (port.wr y).addTask .cancelled
      else port.wr y
    agentLists := update port.agentLists (a, .wait) []
    sweeps := port.sweeps ++ [a] }

/-- The end of `cancel_mads`: the agent's waiting SMPs are reported under the send queue's lock and stay on
its send list. `timed_work` is cancelled after it. -/
def sweepSmps (a : Nat) : Port :=
  let own (y : Nat) : Bool := (port.wr y).agent == a
  { port with
    sweeps := port.sweeps.erase a
    wr := fun y =>
      if y ∈ port.queues.lists .smpOverflow ∧ own y = true then (port.wr y).handled .wrFlushErr
      else port.wr y
    queues := { port.queues with
      lists := update port.queues.lists .smpOverflow ((port.queues.lists .smpOverflow).filter fun y => !own y) }
    timedWork := update port.timedWork a false }

/-! ### The steps of a port -/

/-- A call of `ib_post_send_mad` for one MAD. `refused`: a check before the set-up fails; `consumed`:
`handle_outgoing_dr_smp` processed it. -/
structure PostArgs where
  agent : Nat
  mgmtClass : Nat
  method : Nat
  tid : Nat
  timeoutMs : Nat
  retries : Nat
  refused : Bool := false
  consumed : Option Bool := none

def PostArgs.request (args : PostArgs) : Wr where
  agent := args.agent
  mgmtClass := args.mgmtClass
  method := args.method
  tid := args.tid
  timeoutMs := args.timeoutMs
  timeout := msecsToJiffies config args.timeoutMs
  retriesLeft := args.retries
  refcount := 1 + if msecsToJiffies config args.timeoutMs = 0 then 0 else 1

/-- `ib_post_send_mad` for one MAD, up to `ib_send_mad`. -/
def postSendMad (args : PostArgs) : Port :=
  let x := port.next
  let w := args.request config
  let begun := { port with next := port.next + 1, wr := update port.wr x w }
  if args.refused then
    begun
  else
    match if args.mgmtClass = classSubnDirectedRoute then args.consumed else none with
    | some response =>
      begun.setWr x { w with accepted := true, tasks := [.localDone response] }
    | none =>
      if isSaCcMad w then
        saCcMadSend config (begun.setWr x { w with isSaCcMad := true }) x
      else
        { begun.setWr x (w.addTask (.send .post)) with
          agentLists := fileLast port.agentLists (w.agent, .send) x }

structure Outcome where
  mapped : Bool := true
  posts : Bool := true

/-- A task that is pending no more runs. -/
def performTask (x : Nat) (task : Task) (outcome : Outcome) : Port :=
  match task with
  | .send caller => sendTask config port x caller outcome.mapped outcome.posts
  | .unpost caller error => unpostTask port x caller error
  | .repost => if outcome.posts then port else sendDone config port x .locQpOpErr
  | .sent status => completeSendWr port x status
  | .failed => completeSendWr port x .locQpOpErr
  | .done status => doneTask config port x status outcome.posts
  | .cancelled => cancelTask port x
  | .notify status => port.setWr x ((port.wr x).handled status)
  | .ccSend timeoutMs retries caller => sendSaCcMad config port x timeoutMs retries caller
  | .localDone response =>
    port.setWr x
      { port.wr x with
        log := (port.wr x).log ++ (if response then [.recv] else []) ++ [.send .success] }

def runTask (x : Nat) (task : Task) (outcome : Outcome) : Port :=
  performTask config (port.setWr x { port.wr x with tasks := (port.wr x).tasks.erase task }) x task outcome

def runResp (x : Nat) (resp : RespTask) : Port :=
  let w := port.wr x
  let taken := { w with resps := w.resps.erase resp }
  match resp with
  | .deliver =>
    port.setWr x { taken with resps := taken.resps ++ [.complete], log := w.log ++ [.recv] }
  | .complete => completeSendWr (port.setWr x taken) x .success

def Task.locks : Task → Bool
  | .unpost _ _ | .sent _ | .failed | .ccSend _ _ _ => true
  | _ => false

/-- A call of `ib_post_send_mad` that has not returned yet. -/
def Task.posting : Task → Bool
  | .send .post | .unpost .post _ | .ccSend _ _ .post => true
  | _ => false

inductive Step
  | post (args : PostArgs)
  | run (x : Nat) (task : Task) (outcome : Outcome)
  | resp (x : Nat) (resp : RespTask)
  /-- The device completes the work request of `x`. -/
  | wrDone (x : Nat) (status : WcStatus)
  | receive (a : Nat) (response : Response)
  | timeout (a : Nat) (mapped posts postsNext : Bool)
  | modify (a x : Nat) (timeoutMs : Nat)
  | smpRetry (qp : Qp) (posts : Bool)
  | ccDone (wild : Bool)
  | expire
  | leave (a : Nat)
  | cancel (a : Nat)
  | sweep (a : Nat)
  | tick (jiffies : Nat)

/-- A step that can happen: no post on an agent the client unregisters, and sections run with their thread
there and their lock. -/
def step : Step → Option Port
  | .post args =>
    if port.leaving args.agent = false ∧ port.stuck args.agent = false then
      some (postSendMad config port args)
    else none
  | .run x task outcome =>
    if task ∈ (port.wr x).tasks ∧
        (task.locks = true → port.stuck (port.wr x).agent = false) then
      some (runTask config port x task outcome)
    else none
  | .resp x resp =>
    if resp ∈ (port.wr x).resps ∧
        (resp = .complete → port.stuck (port.wr x).agent = false) then
      some (runResp port x resp)
    else none
  | .wrDone x status =>
    if x ∈ port.queues.lists (.queue (config.qpOf (port.wr x).agent)) ∧
        Task.repost ∉ (port.wr x).tasks then
      some (sendDone config port x status)
    else none
  | .receive a response =>
    if port.stuck a = false then
      match findSendMad port a response with
      | some x => some (markMadDone port x)
      | none => some port
    else none
  | .timeout a mapped posts postsNext =>
    if port.timedWork a = true ∧ port.stuck a = false then
      some (timeoutSends config port a mapped posts postsNext)
    else none
  | .modify a x timeoutMs =>
    if port.stuck a = false then some (modifyMad config port a x timeoutMs) else none
  | .smpRetry qp posts =>
    if qp ∈ port.smpRetries then
      some ({ port with smpRetries := port.smpRetries.erase qp }.smpResult qp
        (port.queues.smpNext config.toParams qp posts))
    else none
  | .ccDone wild => if 0 < port.ccDone then some (saCcMadDone config port wild) else none
  | .expire => if port.tfArmed then some (timeoutHandlerTask port) else none
  | .leave a =>
    if port.leaving a = false ∧
        ∀ x ∈ List.range port.next, (port.wr x).agent = a →
          ∀ task ∈ (port.wr x).tasks, task.posting = false then
      some (freeAgent port a)
    else none
  | .cancel a =>
    if port.leaving a = true ∧ port.sendListClosed a = false ∧ port.stuck a = false then
      some (cancelMads port a)
    else none
  | .sweep a => if a ∈ port.sweeps then some (sweepSmps port a) else none
  | .tick jiffies => some { port with jiffies := port.jiffies + jiffies }

inductive Reachable (config : Config) (allowed : Port → Step → Prop) : Port → Prop
  | init : Reachable config allowed Port.init
  | step {port after : Port} (move : Step) (before : Reachable config allowed port)
      (legal : allowed port move) (moved : Mad.step config port move = some after) :
      Reachable config allowed after

end MlnxOfed.Mad
