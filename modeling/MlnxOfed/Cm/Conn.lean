/-
The connection state of an `ib_cm_id`: what user calls and received messages do to the id under its lock.
Whether a message could be allocated and posted, whether the device is still there and what the lookup
tables answer are arguments.
-/

import Mathlib.Algebra.Order.Ring.Int

namespace MlnxOfed.Cm

open List

inductive IbCmState where
  | idle
  | listen
  | reqSent
  | reqRcvd
  | mraReqSent
  | mraReqRcvd
  | repSent
  | repRcvd
  | mraRepSent
  | mraRepRcvd
  | established
  | dreqSent
  | dreqRcvd
  | timewait
  | sidrReqSent
  | sidrReqRcvd
  deriving DecidableEq

inductive IbCmLapState where
  | uninit
  | idle
  | sent
  | rcvd
  | mraSent
  | mraRcvd
  deriving DecidableEq

inductive IbCmEvent where
  | reqError
  | reqReceived
  | repError
  | repReceived
  | rtuReceived
  | userEstablished
  | dreqError
  | dreqReceived
  | drepReceived
  | timewaitExit
  | mraReceived
  | rejReceived
  | lapReceived
  | aprReceived
  | sidrReqError
  | sidrReqReceived
  | sidrRepReceived
  deriving DecidableEq

/-- The client data of the device: gone, there with `going_down` set, or there. -/
inductive CmDevice where
  | gone
  | goingDown
  | up
  deriving DecidableEq

/-- A posted MAD. `context` is `context[1]`, the state in which its failure matters. -/
structure Send where
  serial : Nat
  context : Option IbCmState

/-- `IB_CM_USER_ESTABLISHED` work of `cm_establish`: the remote id to look up, the number of its state
change. -/
structure EstablishWork where
  remoteId : Nat
  stamp : Nat

/-- `msg` is the number of the MAD in the field of that name, `sends` the MADs posted and not completed,
each with a reference; `timewaits` counts queued timewait work; `visible`: `local_id_table` has the id. -/
structure Conn where
  state : IbCmState
  lapState : IbCmLapState
  remoteId : Nat
  visible : Bool
  refcount : Nat
  msg : Option Nat
  sends : List Send
  nextSend : Nat
  timewaits : Nat
  establishes : List EstablishWork

variable (conn : Conn)

/-- `cm_alloc_msg` and `ib_post_send_mad`, both successful. -/
def Conn.post (context : Option IbCmState) : Conn :=
  { conn with
    refcount := conn.refcount + 1
    sends := conn.sends ++ [⟨conn.nextSend, context⟩]
    nextSend := conn.nextSend + 1 }

def Conn.postIf (posted : Bool) : Conn := if posted then conn.post none else conn

def cmEnterTimewait (device : CmDevice) : Conn :=
  match device with
  | .gone => conn
  | .goingDown => { conn with state := .timewait }
  | .up => { conn with state := .timewait, timewaits := conn.timewaits + 1 }

def cmResetToIdle : Conn := { conn with state := .idle }

inductive Call where
  | listen
  | sendReq (posted : Bool)
  | sendRep (posted : Bool)
  | sendRtu (posted : Bool)
  | sendMra (delay posted : Bool)
  | sendRej (device : CmDevice) (posted : Bool)
  | sendDreq (device : CmDevice) (posted : Bool)
  | sendDrep (device : CmDevice) (posted : Bool)
  | sendSidrReq (posted : Bool)
  | sendSidrRep (posted : Bool)
  | establish (device : CmDevice)
  | migrate

def ibCmListen : Conn := if conn.state = .idle then { conn with state := .listen } else conn

/-- `msg` is stored before it is known whether it can be posted. -/
def ibSendCmReq (posted : Bool) : Conn :=
  if conn.state ≠ .idle then conn
  else if posted then
    { conn.post (some .reqSent) with state := .reqSent, msg := some conn.nextSend }
  else { conn with msg := some conn.nextSend, nextSend := conn.nextSend + 1 }

def ibSendCmRep (posted : Bool) : Conn :=
  if conn.state ≠ .reqRcvd ∧ conn.state ≠ .mraReqSent then conn
  else if posted then
    { conn.post (some .repSent) with state := .repSent, msg := some conn.nextSend }
  else conn

def ibSendCmRtu (posted : Bool) : Conn :=
  if conn.state ≠ .repRcvd ∧ conn.state ≠ .mraRepSent then conn
  else if posted then { conn.post none with state := .established }
  else conn

def ibSendCmMra (delay posted : Bool) : Conn :=
  match conn.state with
  | .reqRcvd =>
    if delay then { conn with state := .mraReqSent }
    else if posted then { conn.post none with state := .mraReqSent }
    else conn
  | .repRcvd =>
    if delay then { conn with state := .mraRepSent }
    else if posted then { conn.post none with state := .mraRepSent }
    else conn
  | .established =>
    if conn.lapState = .rcvd then
      if delay then { conn with lapState := .mraSent }
      else if posted then { conn.post none with lapState := .mraSent }
      else conn
    else conn
  | _ => conn

def cmSendRejLocked (device : CmDevice) (posted : Bool) : Conn :=
  match conn.state with
  | .reqSent | .mraReqRcvd | .reqRcvd | .mraReqSent | .repRcvd | .mraRepSent =>
    (cmResetToIdle conn).postIf posted
  | .repSent | .mraRepRcvd => (cmEnterTimewait conn device).postIf posted
  | _ => conn

def cmSendDreqLocked (device : CmDevice) (posted : Bool) : Conn :=
  if conn.state ≠ .established then conn
  else if posted then
    { conn.post (some .dreqSent) with state := .dreqSent, msg := some conn.nextSend }
  else cmEnterTimewait conn device

def cmSendDrepLocked (device : CmDevice) (posted : Bool) : Conn :=
  if conn.state ≠ .dreqRcvd then conn else (cmEnterTimewait conn device).postIf posted

def ibSendCmSidrReq (posted : Bool) : Conn :=
  if conn.state ≠ .idle then conn
  else if posted then
    { conn.post (some .sidrReqSent) with state := .sidrReqSent, msg := some conn.nextSend }
  else conn

def cmSendSidrRepLocked (posted : Bool) : Conn :=
  if conn.state ≠ .sidrReqRcvd then conn
  else if posted then { conn.post none with state := .idle }
  else conn

/-- `cm_establish`; `stamp` numbers the state change. -/
def cmEstablish (device : CmDevice) (stamp : Nat) : Conn :=
  if device = .gone then conn
  else if conn.state = .repSent ∨ conn.state = .mraRepRcvd then
    if device = .goingDown then { conn with state := .established }
    else
      { conn with
        state := .established
        establishes := conn.establishes ++ [⟨conn.remoteId, stamp⟩] }
  else conn

def cmMigrate : Conn :=
  if conn.state = .established ∧ (conn.lapState = .uninit ∨ conn.lapState = .idle) then
    { conn with lapState := .idle }
  else conn

def Conn.call (stamp : Nat) : Call → Conn
  | .listen => ibCmListen conn
  | .sendReq posted => ibSendCmReq conn posted
  | .sendRep posted => ibSendCmRep conn posted
  | .sendRtu posted => ibSendCmRtu conn posted
  | .sendMra delay posted => ibSendCmMra conn delay posted
  | .sendRej device posted => cmSendRejLocked conn device posted
  | .sendDreq device posted => cmSendDreqLocked conn device posted
  | .sendDrep device posted => cmSendDrepLocked conn device posted
  | .sendSidrReq posted => ibSendCmSidrReq conn posted
  | .sendSidrRep posted => cmSendSidrRepLocked conn posted
  | .establish device => cmEstablish conn device stamp
  | .migrate => cmMigrate conn

/-- `CM_MSG_RESPONSE_*`, what an MRA delays. -/
inductive MsgResponse where
  | req
  | rep
  | other
  deriving DecidableEq

/-- Handled under the lock of the id it was looked up for. `modified`: `ib_modify_mad` found the MAD;
`fresh`: no table had the ids of the REP; `ours`: it names the QP of the connection; `usable`: the LAP gave
address vectors. -/
inductive Message where
  | mra (mraed : MsgResponse) (modified : Bool)
  | rej (stale : Bool) (device : CmDevice)
  | rep (localId : Nat) (fresh : Bool)
  | rtu
  | userEstablished (stamp : Nat)
  | dreq (ours : Bool)
  | drep (device : CmDevice)
  | lap (usable : Bool)
  | apr
  | timewait (ours : Bool)
  | sidrRep
  deriving DecidableEq

def Message.event : Message → IbCmEvent
  | .mra .. => .mraReceived
  | .rej .. => .rejReceived
  | .rep .. => .repReceived
  | .rtu => .rtuReceived
  | .userEstablished _ => .userEstablished
  | .dreq _ => .dreqReceived
  | .drep _ => .drepReceived
  | .lap _ => .lapReceived
  | .apr => .aprReceived
  | .timewait _ => .timewaitExit
  | .sidrRep => .sidrRepReceived

def Message.unpaired : Message → Bool
  | .mra .req _ => true
  | .rep .. => true
  | .sidrRep => true
  | _ => false

/-- `msg->context[1] = id.state`, in the MAD that `msg` points to. -/
def Conn.retarget : Conn :=
  { conn with
    sends := conn.sends.map fun send =>
      if conn.msg = some send.serial then { send with context := some conn.state } else send }

def cmMraHandler (mraed : MsgResponse) (modified : Bool) : Option Conn :=
  match conn.state with
  | .reqSent =>
    if mraed ≠ .req ∨ modified = false then none
    else some { conn with state := .mraReqRcvd }.retarget
  | .repSent =>
    if mraed ≠ .rep ∨ modified = false then none
    else some { conn with state := .mraRepRcvd }.retarget
  | .established =>
    if mraed ≠ .other ∨ conn.lapState ≠ .sent ∨ modified = false then none
    else some { conn with lapState := .mraRcvd }.retarget
  | _ => none

def cmRejHandler (stale : Bool) (device : CmDevice) : Option Conn :=
  match conn.state with
  | .reqSent | .mraReqRcvd | .repSent | .mraRepRcvd | .reqRcvd | .mraReqSent =>
    some (if stale then cmEnterTimewait conn device else cmResetToIdle conn)
  | .dreqSent | .repRcvd | .mraRepSent => some (cmEnterTimewait conn device)
  | .established =>
    if conn.lapState = .uninit ∨ conn.lapState = .sent then some (cmEnterTimewait conn device)
    else none
  | _ => none

def cmRepHandler (localId : Nat) (fresh : Bool) : Option Conn :=
  if (conn.state = .reqSent ∨ conn.state = .mraReqRcvd) ∧ fresh = true then
    some { conn with state := .repRcvd, remoteId := localId }
  else none

def cmRtuHandler : Option Conn :=
  if conn.state = .repSent ∨ conn.state = .mraRepRcvd then some { conn with state := .established }
  else none

def cmEstablishHandler : Option Conn := if conn.state = .established then some conn else none

def cmDreqHandler (ours : Bool) : Option Conn :=
  if ours = false then none
  else
    match conn.state with
    | .repSent | .dreqSent | .established | .mraRepRcvd => some { conn with state := .dreqRcvd }
    | _ => none

def cmDrepHandler (device : CmDevice) : Option Conn :=
  if conn.state = .dreqSent ∨ conn.state = .dreqRcvd then some (cmEnterTimewait conn device) else none

def cmLapHandler (usable : Bool) : Option Conn :=
  if conn.state = .established ∧ (conn.lapState = .uninit ∨ conn.lapState = .idle) ∧ usable = true then
    some { conn with lapState := .rcvd }
  else none

def cmAprHandler : Option Conn :=
  if conn.state = .established ∧ (conn.lapState = .sent ∨ conn.lapState = .mraRcvd) then
    some { conn with lapState := .idle, msg := none }
  else none

def cmTimewaitHandler (ours : Bool) : Option Conn :=
  if conn.state = .timewait ∧ ours = true then some { conn with state := .idle } else none

def cmSidrRepHandler : Option Conn :=
  if conn.state = .sidrReqSent then some { conn with state := .idle } else none

/-- The part of a handler under the lock, `none` where it returns an error. -/
def Conn.receive : Message → Option Conn
  | .mra mraed modified => cmMraHandler conn mraed modified
  | .rej stale device => cmRejHandler conn stale device
  | .rep localId fresh => cmRepHandler conn localId fresh
  | .rtu => cmRtuHandler conn
  | .userEstablished _ => cmEstablishHandler conn
  | .dreq ours => cmDreqHandler conn ours
  | .drep device => cmDrepHandler conn device
  | .lap usable => cmLapHandler conn usable
  | .apr => cmAprHandler conn
  | .timewait ours => cmTimewaitHandler conn ours
  | .sidrRep => cmSidrRepHandler conn

/-- `cm_process_send_error` under the lock: `none` where the failure is discarded. -/
def cmProcessSendError (device : CmDevice) (send : Send) : Option (Conn × IbCmEvent) :=
  if conn.msg ≠ some send.serial ∨ send.context ≠ some conn.state then none
  else
    match conn.state with
    | .reqSent | .mraReqRcvd => some (cmResetToIdle conn, .reqError)
    | .repSent | .mraRepRcvd => some (cmResetToIdle conn, .repError)
    | .dreqSent => some (cmEnterTimewait conn device, .dreqError)
    | .sidrReqSent => some ({ conn with state := .idle }, .sidrReqError)
    | _ => none

/-- One pass of the switch of `cm_destroy_id`, with whether it goes back to `retest`. -/
def cmDestroyPass (device : CmDevice) (posted xrcTgt : Bool) : Conn × Bool :=
  match conn.state with
  | .listen => ({ conn with state := .idle }, false)
  | .sidrReqSent => ({ conn with state := .idle }, false)
  | .sidrReqRcvd => ({ cmSendSidrRepLocked conn posted with state := .idle }, false)
  | .reqSent | .mraReqRcvd | .mraReqSent | .repRcvd | .mraRepSent | .reqRcvd =>
    (cmSendRejLocked conn device posted, false)
  | .repSent | .mraRepRcvd => (cmSendRejLocked conn device posted, true)
  | .established =>
    if xrcTgt then ({ conn with state := .idle }, false)
    else (cmSendDreqLocked conn device posted, true)
  | .dreqSent => (cmEnterTimewait conn device, true)
  | .dreqRcvd => (cmSendDrepLocked conn device posted, true)
  | .timewait => ({ conn with state := .idle }, false)
  | .idle => (conn, false)

/-- The passes until one falls out of the switch; `none` for more than `fuel`. -/
def cmDestroyLocked (device : CmDevice) (posted xrcTgt : Bool) : Nat → Conn → Option Conn
  | 0, _ => none
  | fuel + 1, conn =>
    match cmDestroyPass conn device posted xrcTgt with
    | (conn, false) => some conn
    | (conn, true) => cmDestroyLocked device posted xrcTgt fuel conn

/-! ### Every reference taken here belongs to a posted MAD -/

/-- No reference is dropped, and those beyond the posted MADs stay; a locked section leaves the id in or out
of the table, and work that it queues has the number of its state change. -/
def Conn.Keeps (before : Conn) (clock : Nat) (after : Conn) : Prop :=
  after.refcount + before.sends.length = before.refcount + after.sends.length ∧
    before.sends.length ≤ after.sends.length ∧ after.visible = before.visible ∧
    ∀ work ∈ after.establishes, work ∈ before.establishes ∨ work.stamp = clock

variable {conn first second third after : Conn} {clock : Nat}

theorem Conn.Keeps.refl (conn : Conn) : conn.Keeps clock conn :=
  ⟨rfl, le_rfl, rfl, fun _ here => .inl here⟩

theorem Conn.Keeps.trans (left : first.Keeps clock second) (right : second.Keeps clock third) :
    first.Keeps clock third := by
  obtain ⟨refs, more, seen, owed⟩ := left
  obtain ⟨laterRefs, laterMore, laterSeen, laterOwed⟩ := right
  refine ⟨by omega, by omega, laterSeen.trans seen, ?_⟩
  intro work here
  exact (laterOwed work here).elim (owed work) .inr

theorem Conn.Keeps.of_same (refs : after.refcount = conn.refcount)
    (sends : after.sends.length = conn.sends.length) (seen : after.visible = conn.visible)
    (owed : after.establishes = conn.establishes) : conn.Keeps clock after :=
  ⟨by omega, by omega, seen, fun _ here => .inl (owed ▸ here)⟩

theorem Conn.Keeps.of_post {context} (refs : after.refcount = (conn.post context).refcount)
    (sends : after.sends = (conn.post context).sends) (seen : after.visible = conn.visible)
    (owed : after.establishes = conn.establishes) : conn.Keeps clock after := by
  have length : after.sends.length = conn.sends.length + 1 := by
    rw [sends]
    exact length_append
  change after.refcount = conn.refcount + 1 at refs
  exact ⟨by omega, by omega, seen, fun _ here => .inl (owed ▸ here)⟩

theorem Conn.postIf_keeps (conn : Conn) (posted) : conn.Keeps clock (conn.postIf posted) := by
  cases posted with
  | true => exact .of_post rfl rfl rfl rfl
  | false => exact .refl conn

theorem cmEnterTimewait_keeps (conn : Conn) (device) : conn.Keeps clock (cmEnterTimewait conn device) := by
  cases device with
  | gone => exact .refl conn
  | goingDown => exact .of_same rfl rfl rfl rfl
  | up => exact .of_same rfl rfl rfl rfl

theorem cmSendRejLocked_keeps (conn : Conn) (device posted) :
    conn.Keeps clock (cmSendRejLocked conn device posted) := by
  have reset : conn.Keeps clock (cmResetToIdle conn) := .of_same rfl rfl rfl rfl
  unfold cmSendRejLocked
  split
  all_goals
    first
    | exact .refl conn
    | exact reset.trans (Conn.postIf_keeps _ posted)
    | exact (cmEnterTimewait_keeps conn device).trans (Conn.postIf_keeps _ posted)

theorem cmSendDreqLocked_keeps (conn : Conn) (device posted) :
    conn.Keeps clock (cmSendDreqLocked conn device posted) := by
  unfold cmSendDreqLocked
  split_ifs
  · exact .refl conn
  · exact .of_post rfl rfl rfl rfl
  · exact cmEnterTimewait_keeps conn device

theorem cmSendDrepLocked_keeps (conn : Conn) (device posted) :
    conn.Keeps clock (cmSendDrepLocked conn device posted) := by
  unfold cmSendDrepLocked
  split_ifs
  · exact .refl conn
  · exact (cmEnterTimewait_keeps conn device).trans (Conn.postIf_keeps _ posted)

theorem cmSendSidrRepLocked_keeps (conn : Conn) (posted) :
    conn.Keeps clock (cmSendSidrRepLocked conn posted) := by
  unfold cmSendSidrRepLocked
  split_ifs
  · exact .refl conn
  · exact .of_post rfl rfl rfl rfl
  · exact .refl conn

private theorem ibSendCmMra_keeps (conn : Conn) (delay posted) :
    conn.Keeps clock (ibSendCmMra conn delay posted) := by
  unfold ibSendCmMra
  split
  all_goals
    try split_ifs
    all_goals
      first
      | exact .refl conn
      | exact .of_same rfl rfl rfl rfl
      | exact .of_post rfl rfl rfl rfl

theorem Conn.call_keeps (conn : Conn) (stamp call) : conn.Keeps stamp (conn.call stamp call) := by
  cases call with
  | sendMra delay posted => exact ibSendCmMra_keeps conn delay posted
  | sendRej device posted => exact cmSendRejLocked_keeps conn device posted
  | sendDreq device posted => exact cmSendDreqLocked_keeps conn device posted
  | sendDrep device posted => exact cmSendDrepLocked_keeps conn device posted
  | sendSidrRep posted => exact cmSendSidrRepLocked_keeps conn posted
  | listen =>
    dsimp only [Conn.call, ibCmListen]
    split_ifs
    · exact .of_same rfl rfl rfl rfl
    · exact .refl conn
  | sendReq posted =>
    dsimp only [Conn.call, ibSendCmReq]
    split_ifs
    · exact .refl conn
    · exact .of_post rfl rfl rfl rfl
    · exact .of_same rfl rfl rfl rfl
  | sendRep posted =>
    dsimp only [Conn.call, ibSendCmRep]
    split_ifs
    · exact .refl conn
    · exact .of_post rfl rfl rfl rfl
    · exact .refl conn
  | sendRtu posted =>
    dsimp only [Conn.call, ibSendCmRtu]
    split_ifs
    · exact .refl conn
    · exact .of_post rfl rfl rfl rfl
    · exact .refl conn
  | sendSidrReq posted =>
    dsimp only [Conn.call, ibSendCmSidrReq]
    split_ifs
    · exact .refl conn
    · exact .of_post rfl rfl rfl rfl
    · exact .refl conn
  | establish device =>
    dsimp only [Conn.call, cmEstablish]
    split_ifs
    · exact .refl conn
    · exact .of_same rfl rfl rfl rfl
    · refine ⟨rfl, le_rfl, rfl, ?_⟩
      intro work here
      rcases mem_append.1 here with old | own
      · exact .inl old
      · rw [mem_singleton.1 own]
        exact .inr rfl
    · exact .refl conn
  | migrate =>
    dsimp only [Conn.call, cmMigrate]
    split_ifs
    · exact .of_same rfl rfl rfl rfl
    · exact .refl conn

theorem Conn.retarget_keeps (conn : Conn) : conn.Keeps clock conn.retarget :=
  .of_same rfl (length_map _) rfl rfl

private theorem cmMraHandler_keeps {mraed modified}
    (taken : cmMraHandler conn mraed modified = some after) : conn.Keeps clock after := by
  unfold cmMraHandler at taken
  split at taken
  all_goals
    first
    | cases taken
    | split_ifs at taken
      cases taken
      exact Conn.Keeps.trans (.of_same rfl rfl rfl rfl) (Conn.retarget_keeps _)

variable {device : CmDevice}

private theorem cmRejHandler_keeps {stale}
    (taken : cmRejHandler conn stale device = some after) : conn.Keeps clock after := by
  have timewait : conn.Keeps clock (cmEnterTimewait conn device) := cmEnterTimewait_keeps conn device
  have reset : conn.Keeps clock (cmResetToIdle conn) := .of_same rfl rfl rfl rfl
  unfold cmRejHandler at taken
  split at taken
  all_goals
    first
    | cases taken
      done
    | split_ifs at taken
      all_goals
        cases taken
        assumption
    | cases taken
      assumption

theorem Conn.receive_keeps {message} (taken : conn.receive message = some after) :
    conn.Keeps clock after := by
  cases message with
  | mra mraed modified => exact cmMraHandler_keeps taken
  | rej stale device => exact cmRejHandler_keeps taken
  | drep device =>
    dsimp only [Conn.receive, cmDrepHandler] at taken
    split_ifs at taken
    cases taken
    exact cmEnterTimewait_keeps conn device
  | userEstablished stamp =>
    dsimp only [Conn.receive, cmEstablishHandler] at taken
    split_ifs at taken
    cases taken
    exact .refl conn
  | dreq ours =>
    dsimp only [Conn.receive, cmDreqHandler] at taken
    split_ifs at taken
    split at taken
    all_goals cases taken
    all_goals exact .of_same rfl rfl rfl rfl
  | rep localId fresh =>
    dsimp only [Conn.receive, cmRepHandler] at taken
    split_ifs at taken
    cases taken
    exact .of_same rfl rfl rfl rfl
  | rtu =>
    dsimp only [Conn.receive, cmRtuHandler] at taken
    split_ifs at taken
    cases taken
    exact .of_same rfl rfl rfl rfl
  | lap usable =>
    dsimp only [Conn.receive, cmLapHandler] at taken
    split_ifs at taken
    cases taken
    exact .of_same rfl rfl rfl rfl
  | apr =>
    dsimp only [Conn.receive, cmAprHandler] at taken
    split_ifs at taken
    cases taken
    exact .of_same rfl rfl rfl rfl
  | timewait ours =>
    dsimp only [Conn.receive, cmTimewaitHandler] at taken
    split_ifs at taken
    cases taken
    exact .of_same rfl rfl rfl rfl
  | sidrRep =>
    dsimp only [Conn.receive, cmSidrRepHandler] at taken
    split_ifs at taken
    cases taken
    exact .of_same rfl rfl rfl rfl

theorem cmProcessSendError_keeps {send event}
    (taken : cmProcessSendError conn device send = some (after, event)) : conn.Keeps clock after := by
  unfold cmProcessSendError at taken
  split_ifs at taken
  split at taken
  all_goals cases taken
  all_goals
    first
    | exact .of_same rfl rfl rfl rfl
    | exact cmEnterTimewait_keeps conn device

private theorem cmDestroyPass_keeps (conn : Conn) (device posted xrcTgt) :
    conn.Keeps clock (cmDestroyPass conn device posted xrcTgt).1 := by
  have refused : conn.Keeps clock (cmSendRejLocked conn device posted) :=
    cmSendRejLocked_keeps conn device posted
  have reply : conn.Keeps clock { cmSendSidrRepLocked conn posted with state := .idle } :=
    (cmSendSidrRepLocked_keeps conn posted).trans (.of_same rfl rfl rfl rfl)
  unfold cmDestroyPass
  split
  all_goals try split_ifs
  all_goals
    first
    | exact refused
    | exact reply
    | exact .refl conn
    | exact .of_same rfl rfl rfl rfl
    | exact cmSendDreqLocked_keeps conn device posted
    | exact cmEnterTimewait_keeps conn device
    | exact cmSendDrepLocked_keeps conn device posted

theorem cmDestroyLocked_keeps {posted xrcTgt fuel} :
    ∀ {conn}, cmDestroyLocked device posted xrcTgt fuel conn = some after → conn.Keeps clock after := by
  induction fuel with
  | zero =>
    intro conn ended
    cases ended
  | succ fuel ih =>
    intro conn ended
    have pass : conn.Keeps clock (cmDestroyPass conn device posted xrcTgt).1 :=
      cmDestroyPass_keeps conn device posted xrcTgt
    unfold cmDestroyLocked at ended
    split at ended
    · rename_i res
      cases ended
      rw [res] at pass
      exact pass
    · rename_i res
      rw [res] at pass
      exact pass.trans (ih ended)

theorem Conn.Keeps.establishes (keeps : ∀ clock, conn.Keeps clock after) {work}
    (here : work ∈ after.establishes) : work ∈ conn.establishes := by
  rcases (keeps (work.stamp + 1)).2.2.2 work here with old | own
  · exact old
  · exact absurd own (by omega)

end MlnxOfed.Cm
