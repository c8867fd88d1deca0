/-
The delivery of events to the handler of one `ib_cm_id`: the work list with its counter, the references, and
the threads in a handler function, in `cm_process_work`, `cm_process_send_error` or `cm_destroy_id`. A step
is a section under the id's lock, an atomic operation, or the return of a handler call.
-/

import MlnxOfed.Cm.Conn
import MlnxOfed.Lib.Pool

namespace MlnxOfed.Cm

open Bool Option Lib

structure Work where
  event : IbCmEvent
  stamp : Nat
  deriving DecidableEq

/-- Where a thread is: the last three are inside the handler calls of `cm_process_work`,
`cm_process_send_error` and `cm_sidr_req_handler`. -/
inductive Thread where
  /-- the id has been looked up for a message -/
  | acquired (message : Message)
  /-- the id has been looked up because a request named its remote QP again -/
  | stale
  | handling (work : Work)
  /-- the handler returned 0, its work is freed -/
  | returned
  /-- `work_count` was not negative after it was decremented -/
  | fetching
  /-- `cm_process_work` found no work and returned -/
  | parked
  | leaving
  | erring (work : Work)
  | requested (work : Work)
  /-- the handler returned an error -/
  | refusing
  | destroying
  | erasing
  | dropping
  | waiting
  | finished

/-- `doomed` once the user has called `ib_destroy_cm_id` or the handler returned an error: only one of the
two, and no use of the id after. What comes after `freed` is a record: the events taken, in order, those
given to the handler, those whose work was freed, those that the destruction freed, and the calls of
`cm_destroy_id`. -/
structure CmId where
  conn : Conn
  workCount : Int
  workList : List Work
  threads : List Thread
  doomed : Bool
  freed : Bool
  clock : Nat
  accepted : List Work
  delivered : List Work
  released : List Work
  discarded : List Work
  destroys : Nat

variable (id : CmId)

def CmId.deref : CmId := { id with conn := { id.conn with refcount := id.conn.refcount - 1 } }

def CmId.withThreads (threads : List Thread) : CmId := { id with threads := threads }

/-- `cm_acquire_id`. -/
def CmId.acquirable (remoteId : Nat) : Bool :=
  id.conn.visible && id.conn.remoteId == remoteId && id.conn.refcount != 0

def CmId.acquire (thread : Thread) : CmId :=
  { id with
    conn := { id.conn with refcount := id.conn.refcount + 1 }
    threads := thread :: id.threads }

def CmId.take (work : Work) : CmId :=
  { id with accepted := id.accepted ++ [work], clock := id.clock + 1 }

/-- The handler is called with `work`, by a thread that is then `thread`. -/
def CmId.deliver (work : Work) (thread : Thread) : CmId :=
  { id with delivered := id.delivered ++ [work], threads := thread :: id.threads }

/-- `atomic_inc_and_test` is true when the new count is 0. -/
def cmQueueWorkUnlock (work : Work) : CmId :=
  let id := { id with workCount := id.workCount + 1 }
  if id.workCount = 0 then id.deliver work (.handling work)
  else { id with workList := id.workList ++ [work] }.deref

def Message.stamp (clock : Nat) : Message → Nat
  | .userEstablished stamp => stamp
  | _ => clock

/-- The locked section for `message`, and the start of `cm_process_work`. -/
def CmId.enter (message : Message) : CmId :=
  match id.conn.receive message with
  | none => id.withThreads (.leaving :: id.threads)
  | some conn =>
    let work : Work := ⟨message.event, message.stamp id.clock⟩
    let id := { id with conn := conn }.take work
    if message = .sidrRep then id.deliver work (.handling work) else cmQueueWorkUnlock id work

/-- `cm_send_handler` for a failed MAD; without a response `context[1]` is not set. -/
def CmId.sendFailed (device : CmDevice) (send : Send) : CmId :=
  if send.context = none then id.deref
  else
    match cmProcessSendError id.conn device send with
    | none => id.deref
    | some (conn, event) =>
      let work : Work := ⟨event, id.clock⟩
      ({ id with conn := conn }.take work).deliver work (.erring work)

/-! ### The threads -/

inductive Move where
  | call (call : Call)
  | acquire (remoteId : Nat) (message : Message)
  | acquireStale (remoteId : Nat)
  | establishWork (index : Nat)
  | timewaitWork (found ours : Bool)
  | enter (thread : Nat)
  | sendStale (thread : Nat) (device : CmDevice) (posted : Bool)
  | answer (thread : Nat) (success : Bool)
  | count (thread : Nat)
  | fetch (thread : Nat)
  | leave (thread : Nat)
  | sendDone (index : Nat)
  | sendError (index : Nat) (device : CmDevice)
  | destroy
  | destroyLocked (thread : Nat) (device : CmDevice) (posted xrcTgt : Bool)
  | destroyErase (thread : Nat)
  | destroyDrop (thread : Nat)
  | destroyFinish (thread : Nat)

def Message.received : Message → Bool
  | .userEstablished _ => false
  | .timewait _ => false
  | _ => true

def CmId.release (work : Work) : CmId := { id with released := id.released ++ [work] }

def CmId.refuse (thread : Thread) : CmId :=
  { id with doomed := true, threads := thread :: id.threads }

/-- The handler call of a thread returns; a thread that is in none does nothing. -/
def CmId.answer (success : Bool) : Thread → Option CmId
  | .handling work =>
    if success then some ((id.release work).withThreads (.returned :: id.threads))
    else if id.doomed then none
    else some ((id.release work).refuse .refusing)
  | .erring work =>
    if success then some ((id.release work).withThreads (.leaving :: id.threads))
    else if id.doomed then none
    else some ((id.release work).refuse .refusing)
  | .requested work =>
    if success then some (id.release work)
    else if id.doomed then none
    else some { (id.release work).refuse .destroying with destroys := id.destroys + 1 }
  | _ => none

/-- `atomic_add_negative` is true when the new count is negative. -/
def CmId.count : Thread → Option CmId
  | .returned =>
    let id := { id with workCount := id.workCount - 1 }
    some (id.withThreads ((if id.workCount < 0 then .leaving else .fetching) :: id.threads))
  | _ => none

def CmId.fetch : Thread → Option CmId
  | .fetching =>
    match id.workList with
    | [] => some (id.withThreads (.parked :: id.threads))
    | work :: rest => some ({ id with workList := rest }.deliver work (.handling work))
  | _ => none

def CmId.leave : Thread → Option CmId
  | .leaving => some id.deref
  | .refusing =>
    some { (id.deref.withThreads (.destroying :: id.threads)) with destroys := id.destroys + 1 }
  | _ => none

/-- From a state on, `cm_destroy_id` makes four passes at most, or does not end. -/
def CmId.destroyLocked (device : CmDevice) (posted xrcTgt : Bool) : Thread → Option CmId
  | .destroying =>
    (cmDestroyLocked device posted xrcTgt 4 id.conn).map fun conn =>
      { id with conn := conn, threads := .erasing :: id.threads }
  | _ => none

def CmId.destroyErase : Thread → Option CmId
  | .erasing =>
    some { id with conn := { id.conn with visible := false }, threads := .dropping :: id.threads }
  | _ => none

def CmId.destroyDrop : Thread → Option CmId
  | .dropping => some (id.deref.withThreads (.waiting :: id.threads))
  | _ => none

def CmId.destroyFinish : Thread → Option CmId
  | .waiting =>
    if id.conn.refcount ≠ 0 then none
    else
      some
        { id with
          freed := true
          released := id.released ++ id.workList
          discarded := id.discarded ++ id.workList
          workList := []
          threads := .finished :: id.threads }
  | _ => none

def CmId.thread (index : Nat) (act : CmId → Thread → Option CmId) : Option CmId :=
  (pull index id.threads).bind fun (thread, rest) => act (id.withThreads rest) thread

def step : Move → Option CmId
  | .call call =>
    if id.doomed then none
    else some { id with conn := id.conn.call id.clock call, clock := id.clock + 1 }
  | .acquire remoteId message =>
    if message.received = true ∧ (message.unpaired = true → remoteId = 0) ∧
        id.acquirable remoteId = true then
      some (id.acquire (.acquired message))
    else none
  | .acquireStale remoteId => if id.acquirable remoteId then some (id.acquire .stale) else none
  | .establishWork index =>
    (pull index id.conn.establishes).map fun (work, rest) =>
      let id := { id with conn := { id.conn with establishes := rest } }
      if id.acquirable work.remoteId then id.acquire (.acquired (.userEstablished work.stamp)) else id
  | .timewaitWork found ours =>
    if id.conn.timewaits = 0 then none
    else
      let id := { id with conn := { id.conn with timewaits := id.conn.timewaits - 1 } }
      some (if found && id.acquirable id.conn.remoteId then id.acquire (.acquired (.timewait ours))
        else id)
  | .enter index =>
    id.thread index fun id thread =>
      match thread with
      | .acquired message => some (id.enter message)
      | _ => none
  | .sendStale index device posted =>
    id.thread index fun id thread =>
      match thread with
      | .stale =>
        some { id with
          conn := cmSendDreqLocked id.conn device posted
          threads := .leaving :: id.threads }
      | _ => none
  | .answer index success => id.thread index fun id thread => id.answer success thread
  | .count index => id.thread index fun id thread => id.count thread
  | .fetch index => id.thread index fun id thread => id.fetch thread
  | .leave index => id.thread index fun id thread => id.leave thread
  | .sendDone index =>
    (pull index id.conn.sends).map fun (_, rest) =>
      { id with conn := { id.conn with sends := rest } }.deref
  | .sendError index device =>
    (pull index id.conn.sends).map fun (send, rest) =>
      { id with conn := { id.conn with sends := rest } }.sendFailed device send
  | .destroy =>
    if id.doomed then none
    else some { id.refuse .destroying with destroys := id.destroys + 1 }
  | .destroyLocked index device posted xrcTgt =>
    id.thread index fun id thread => id.destroyLocked device posted xrcTgt thread
  | .destroyErase index => id.thread index fun id thread => id.destroyErase thread
  | .destroyDrop index => id.thread index fun id thread => id.destroyDrop thread
  | .destroyFinish index => id.thread index fun id thread => id.destroyFinish thread

def newConn (state : IbCmState) (remoteId refcount : Nat) (visible : Bool) : Conn where
  state := state
  lapState := .uninit
  remoteId := remoteId
  visible := visible
  refcount := refcount
  msg := none
  sends := []
  nextSend := 0
  timewaits := 0
  establishes := []

def ibCreateCmId : CmId where
  conn := newConn .idle 0 1 true
  workCount := -1
  workList := []
  threads := []
  doomed := false
  freed := false
  clock := 0
  accepted := []
  delivered := []
  released := []
  discarded := []
  destroys := 0

/-- The id that `cm_req_handler` makes, its first event on its way to the listener's handler. -/
def cmReqHandler (remoteId : Nat) : CmId :=
  cmQueueWorkUnlock ({ ibCreateCmId with conn := newConn .reqRcvd remoteId 2 true }.take ⟨.reqReceived, 0⟩)
    ⟨.reqReceived, 0⟩

/-- The id of `cm_sidr_req_handler`: in no table, and without a reference for the event. -/
def cmSidrReqHandler (remoteId : Nat) : CmId :=
  ({ ibCreateCmId with conn := newConn .sidrReqRcvd remoteId 1 false }.take
    ⟨.sidrReqReceived, 0⟩).deliver ⟨.sidrReqReceived, 0⟩ (.requested ⟨.sidrReqReceived, 0⟩)

inductive Start : CmId → Prop where
  | created : Start ibCreateCmId
  | req (remoteId : Nat) : Start (cmReqHandler remoteId)
  | sidr (remoteId : Nat) : Start (cmSidrReqHandler remoteId)

inductive Reachable (allowed : CmId → Move → Prop) : CmId → Prop where
  | start {id : CmId} (start : Start id) : Reachable allowed id
  | step {id after : CmId} {move : Move} (reach : Reachable allowed id) (meets : allowed id move)
      (moved : step id move = some after) : Reachable allowed after

/-! ### What a step can do -/

variable {id}

inductive Changed (id : CmId) : Move → CmId → Prop where
  | call (call : Call) (clear : id.doomed = false) :
      Changed id (.call call) { id with conn := id.conn.call id.clock call, clock := id.clock + 1 }
  | acquire {remoteId : Nat} {message : Message} (received : message.received = true)
      (live : id.conn.refcount ≠ 0) :
      Changed id (.acquire remoteId message) (id.acquire (.acquired message))
  | acquireStale {remoteId : Nat} (live : id.conn.refcount ≠ 0) :
      Changed id (.acquireStale remoteId) (id.acquire .stale)
  | establishFound {index : Nat} {work : EstablishWork} {rest : List EstablishWork}
      (found : pull index id.conn.establishes = some (work, rest)) (live : id.conn.refcount ≠ 0) :
      Changed id (.establishWork index) ({ id with conn := { id.conn with establishes := rest } }.acquire
          (.acquired (.userEstablished work.stamp)))
  | establishLost {index : Nat} {work : EstablishWork} {rest : List EstablishWork}
      (found : pull index id.conn.establishes = some (work, rest)) :
      Changed id (.establishWork index) { id with conn := { id.conn with establishes := rest } }
  | timewaitFound {known ours : Bool} (live : id.conn.refcount ≠ 0) : Changed id (.timewaitWork known ours)
        ({ id with conn := { id.conn with timewaits := id.conn.timewaits - 1 } }.acquire
          (.acquired (.timewait ours)))
  | timewaitLost {known ours : Bool} : Changed id (.timewaitWork known ours)
        { id with conn := { id.conn with timewaits := id.conn.timewaits - 1 } }
  | entered {index : Nat} {message : Message} {rest : List Thread}
      (found : pull index id.threads = some (.acquired message, rest)) :
      Changed id (.enter index) ((id.withThreads rest).enter message)
  | disconnected {index : Nat} {device : CmDevice} {posted : Bool} {rest : List Thread}
      (found : pull index id.threads = some (.stale, rest)) :
      Changed id (.sendStale index device posted)
        { id with conn := cmSendDreqLocked id.conn device posted, threads := .leaving :: rest }
  | answered {index : Nat} {success : Bool} {t : Thread} {rest : List Thread} {after : CmId}
      (found : pull index id.threads = some (t, rest))
      (acted : (id.withThreads rest).answer success t = some after) :
      Changed id (.answer index success) after
  | counted {index : Nat} {rest : List Thread} (found : pull index id.threads = some (.returned, rest)) :
      Changed id (.count index)
        { id with
          workCount := id.workCount - 1
          threads := (if id.workCount - 1 < 0 then .leaving else .fetching) :: rest }
  | parked {index : Nat} {rest : List Thread}
      (found : pull index id.threads = some (.fetching, rest)) (empty : id.workList = []) :
      Changed id (.fetch index) { id with threads := .parked :: rest }
  | fetched {index : Nat} {rest : List Thread} {work : Work} {works : List Work}
      (found : pull index id.threads = some (.fetching, rest)) (queued : id.workList = work :: works) :
      Changed id (.fetch index)
        { id with
          workList := works
          delivered := id.delivered ++ [work]
          threads := .handling work :: rest }
  | left {index : Nat} {rest : List Thread} (found : pull index id.threads = some (.leaving, rest)) :
      Changed id (.leave index) (id.withThreads rest).deref
  | refused {index : Nat} {rest : List Thread} (found : pull index id.threads = some (.refusing, rest)) :
      Changed id (.leave index)
        { (id.withThreads (.destroying :: rest)).deref with destroys := id.destroys + 1 }
  | sendDone {index : Nat} {send : Send} {rest : List Send}
      (found : pull index id.conn.sends = some (send, rest)) :
      Changed id (.sendDone index) { id with conn := { id.conn with sends := rest } }.deref
  | sendError {index : Nat} {device : CmDevice} {send : Send} {rest : List Send}
      (found : pull index id.conn.sends = some (send, rest)) :
      Changed id (.sendError index device)
        ({ id with conn := { id.conn with sends := rest } }.sendFailed device send)
  | destroy (clear : id.doomed = false) :
      Changed id .destroy { id.refuse .destroying with destroys := id.destroys + 1 }
  | unlocked {index : Nat} {device : CmDevice} {posted xrcTgt : Bool} {rest : List Thread} {conn : Conn}
      (found : pull index id.threads = some (.destroying, rest))
      (ended : cmDestroyLocked device posted xrcTgt 4 id.conn = some conn) :
      Changed id (.destroyLocked index device posted xrcTgt)
        { id with conn := conn, threads := .erasing :: rest }
  | erased {index : Nat} {rest : List Thread} (found : pull index id.threads = some (.erasing, rest)) :
      Changed id (.destroyErase index)
        { id with conn := { id.conn with visible := false }, threads := .dropping :: rest }
  | dropped {index : Nat} {rest : List Thread} (found : pull index id.threads = some (.dropping, rest)) :
      Changed id (.destroyDrop index) (id.withThreads (.waiting :: rest)).deref
  | finished {index : Nat} {rest : List Thread} (found : pull index id.threads = some (.waiting, rest))
      (unused : id.conn.refcount = 0) :
      Changed id (.destroyFinish index)
        { id with
          freed := true
          released := id.released ++ id.workList
          discarded := id.discarded ++ id.workList
          workList := []
          threads := .finished :: rest }

private theorem acquirable_live {remoteId} (found : id.acquirable remoteId = true) : id.conn.refcount ≠ 0 := by
  exact bne_iff_ne.1 (and_eq_true_iff.1 found).2

theorem thread_inv {index act after} (moved : id.thread index act = some after) :
    ∃ t rest, pull index id.threads = some (t, rest) ∧ act (id.withThreads rest) t = some after := by
  obtain ⟨⟨t, rest⟩, found, acted⟩ := bind_eq_some_iff.1 moved
  exact ⟨t, rest, found, acted⟩

theorem step_changed {move after} (moved : step id move = some after) : Changed id move after := by
  cases move with
  | call call =>
    dsimp only [step] at moved
    split_ifs at moved with doomed
    cases moved
    exact .call call (not_eq_true _ ▸ doomed)
  | acquire remoteId message =>
    dsimp only [step] at moved
    split_ifs at moved with known
    cases moved
    exact .acquire known.1 (acquirable_live known.2.2)
  | acquireStale remoteId =>
    dsimp only [step] at moved
    split_ifs at moved with known
    cases moved
    exact .acquireStale (acquirable_live known)
  | establishWork index =>
    obtain ⟨⟨work, rest⟩, found, same⟩ := map_eq_some_iff.1 moved
    dsimp only at same
    split_ifs at same with known
    · subst same
      exact .establishFound found (acquirable_live known)
    · subst same
      exact .establishLost found
  | timewaitWork found ours =>
    dsimp only [step] at moved
    split_ifs at moved with none known
    · cases moved
      exact .timewaitFound (acquirable_live (and_eq_true_iff.1 known).2)
    · cases moved
      exact .timewaitLost
  | enter index =>
    dsimp only [step] at moved
    obtain ⟨t, rest, found, acted⟩ := thread_inv moved
    cases t with
    | acquired message =>
      cases acted
      exact .entered found
    | _ => cases acted
  | sendStale index device posted =>
    dsimp only [step] at moved
    obtain ⟨t, rest, found, acted⟩ := thread_inv moved
    cases t with
    | stale =>
      cases acted
      exact .disconnected found
    | _ => cases acted
  | answer index success =>
    dsimp only [step] at moved
    obtain ⟨t, rest, found, acted⟩ := thread_inv moved
    exact .answered found acted
  | count index =>
    obtain ⟨t, rest, found, acted⟩ := thread_inv moved
    cases t with
    | returned =>
      cases acted
      exact .counted found
    | _ => cases acted
  | fetch index =>
    obtain ⟨t, rest, found, acted⟩ := thread_inv moved
    cases t with
    | fetching =>
      dsimp only [CmId.fetch] at acted
      split at acted
      · rename_i empty
        cases acted
        exact .parked found empty
      · rename_i queued
        cases acted
        exact .fetched found queued
    | _ => cases acted
  | leave index =>
    obtain ⟨t, rest, found, acted⟩ := thread_inv moved
    cases t with
    | leaving =>
      cases acted
      exact .left found
    | refusing =>
      cases acted
      exact .refused found
    | _ => cases acted
  | sendDone index =>
    obtain ⟨⟨send, rest⟩, found, same⟩ := map_eq_some_iff.1 moved
    subst same
    exact .sendDone found
  | sendError index device =>
    obtain ⟨⟨send, rest⟩, found, same⟩ := map_eq_some_iff.1 moved
    subst same
    exact .sendError found
  | destroy =>
    dsimp only [step] at moved
    split_ifs at moved with doomed
    cases moved
    exact .destroy (not_eq_true _ ▸ doomed)
  | destroyLocked index device posted xrcTgt =>
    dsimp only [step] at moved
    obtain ⟨t, rest, found, acted⟩ := thread_inv moved
    cases t with
    | destroying =>
      obtain ⟨conn, ended, same⟩ := map_eq_some_iff.1 acted
      subst same
      exact .unlocked found ended
    | _ => cases acted
  | destroyErase index =>
    obtain ⟨t, rest, found, acted⟩ := thread_inv moved
    cases t with
    | erasing =>
      cases acted
      exact .erased found
    | _ => cases acted
  | destroyDrop index =>
    obtain ⟨t, rest, found, acted⟩ := thread_inv moved
    cases t with
    | dropping =>
      cases acted
      exact .dropped found
    | _ => cases acted
  | destroyFinish index =>
    obtain ⟨t, rest, found, acted⟩ := thread_inv moved
    cases t with
    | waiting =>
      dsimp only [CmId.destroyFinish] at acted
      split_ifs at acted with used
      cases acted
      exact .finished found (not_not.1 used)
    | _ => cases acted

end MlnxOfed.Cm
