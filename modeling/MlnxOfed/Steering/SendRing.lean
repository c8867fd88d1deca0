/-
The send ring (dr_send.c): work requests that write steering memory, posted to a cyclic send queue, with one
completion entry for every signal_th of them.

Driver and device run side by side. A driver call is cut where the device may move: every poll, the filling
of the segments and the post are steps of their own.
-/

import MlnxOfed.Steering.IcmPool

namespace MlnxOfed.Steering

def queueSize : Nat := 128

def signalPerDivQueue : Nat := 16

def thNumsToDrain : Nat := 2

def drChunkSize1K : Nat := 10

def mlx5SendWqeBb : Nat := 64

def roundupPowOfTwo (n : Nat) : Nat :=
  if n ≤ 1 then 1 else 1 <<< (Nat.log2 (n - 1) + 1)

def divRoundUp (n d : Nat) : Nat := (n + d - 1) / d

def wrapSubU32 (left right : Nat) : Nat := (left + 2 ^ 32 - right) % 2 ^ 32

inductive SendInfoType where
  | writeIcm
  | gtaArg
  deriving DecidableEq

/-- A segment's data lies in the caller's memory, the ring's buffer, or the buffer reads go to. -/
inductive DmaAddr where
  | caller (addr : Nat)
  | ringMr (offset : Nat)
  | syncMr

/-- `struct dr_data_seg`; of the flags only `IB_SEND_SIGNALED` is used. -/
structure DataSeg where
  addr : DmaAddr
  length : Nat
  signaled : Bool

structure PostsendInfo where
  type : SendInfoType
  write : DataSeg
  read : DataSeg

/-- A request as the callers of `dr_postsend_icm_data` prepare it. -/
def postsendInfo (type : SendInfoType) (addr length : Nat) : PostsendInfo :=
  { type := type
    write := ⟨.caller addr, length, false⟩
    read := ⟨.caller 0, 0, false⟩ }

inductive WqeOpcode where
  | rdmaWrite
  | rdmaRead
  | flowTblAccess
  deriving DecidableEq

/-- A work request in the send queue, at building block `idx`. -/
structure Wqe where
  opcode : WqeOpcode
  idx : Nat
  blocks : Nat
  data : DataSeg

structure SendRing where
  pendingWqe : Nat
  signalTh : Nat
  maxPostSendSize : Nat
  txHead : Nat
  errState : Bool
  sqPc : Nat
  sqWqeCnt : Nat

def mlx5drSendRingAlloc : SendRing :=
  { pendingWqe := 0
    signalTh := queueSize / signalPerDivQueue
    maxPostSendSize := mlx5drIcmPoolChunkSizeToByte drChunkSize1K .ste
    txHead := 0
    errState := false
    sqPc := 0
    sqWqeCnt := roundupPowOfTwo queueSize }

variable (ring : SendRing)

def SendRing.signals : Bool := ring.pendingWqe % ring.signalTh = 0

def SendRing.countWqe : SendRing :=
  { ring with pendingWqe := addU32 ring.pendingWqe 1 }

def drFillWriteArgsSegs (info : PostsendInfo) : SendRing × PostsendInfo :=
  let ring := ring.countWqe
  (ring, { info with write := { info.write with signaled := ring.signals } })

def SendRing.buffOffset : Nat :=
  (ring.txHead &&& (ring.signalTh - 1)) * ring.maxPostSendSize

def drFillWriteIcmSegs (maxInlineSize : Nat) (ring : SendRing) (info : PostsendInfo) :
    SendRing × PostsendInfo :=
  let staged := info.write.length > maxInlineSize
  let addr := if staged then .ringMr ring.buffOffset else info.write.addr
  let ring := if staged then { ring with txHead := addU32 ring.txHead 1 } else ring
  let ring := ring.countWqe
  let write := { info.write with addr := addr, signaled := ring.signals }
  let ring := ring.countWqe
  (ring, { info with
    write := write
    read := ⟨.syncMr, info.write.length, ring.signals⟩ })

def drFillDataSegs (maxInlineSize : Nat) (ring : SendRing) (info : PostsendInfo) : SendRing × PostsendInfo :=
  if info.type = .writeIcm then drFillWriteIcmSegs maxInlineSize ring info
  else drFillWriteArgsSegs ring info

/-- A work request in 16-byte units: control, remote address and data segments, or control, flow update and
argument segments. -/
def WqeOpcode.size : WqeOpcode → Nat
  | .rdmaWrite => 16 / 16 + 16 / 16 + 16 / 16
  | .rdmaRead => 16 / 16 + 16 / 16 + 16 / 16
  | .flowTblAccess => 16 / 16 + 48 / 16 + 64 / 16

def WqeOpcode.blocks (opcode : WqeOpcode) : Nat := divRoundUp (opcode.size * 16) mlx5SendWqeBb

def drRdmaSegments (data : DataSeg) (opcode : WqeOpcode) : SendRing × Wqe :=
  let idx := ring.sqPc &&& (ring.sqWqeCnt - 1)
  ({ ring with sqPc := addU32 ring.sqPc opcode.blocks }, ⟨opcode, idx, opcode.blocks, data⟩)

def drPostSend (info : PostsendInfo) : SendRing × List Wqe :=
  if info.type = .writeIcm then
    let write := drRdmaSegments ring info.write .rdmaWrite
    let read := drRdmaSegments write.1 info.read .rdmaRead
    (read.1, [write.2, read.2])
  else
    let arg := drRdmaSegments ring info.write .flowTblAccess
    (arg.1, [arg.2])

inductive CqeOpcode where
  | ok
  | reqErr
  | respErr

/-- Where the driver stands: outside, atop the polling loop, about to fill the segments or to post them. A
drain polls with nothing to post. -/
inductive RingPhase where
  | idle
  | polling (isDrain : Bool) (next : Option PostsendInfo)
  | fill (info : PostsendInfo)
  | post (info : PostsendInfo)

/-- The ring, all work requests posted, how many the device completed, all completion entries written, and
how many were polled. -/
structure RingSystem where
  ring : SendRing
  phase : RingPhase
  posted : List Wqe
  completed : Nat
  cqes : List CqeOpcode
  polled : Nat
  internalError : Bool

def RingSystem.start : RingSystem :=
  ⟨mlx5drSendRingAlloc, .idle, [], 0, [], 0, false⟩

def RingSystem.inFlight (system : RingSystem) : List Wqe := system.posted.drop system.completed

inductive CqPoll where
  | ok
  | empty
  | pollErr

def drCqPollOne (system : RingSystem) : RingSystem × CqPoll :=
  match system.cqes[system.polled]? with
  | none => (system, if system.internalError then .pollErr else .empty)
  | some .ok => ({ system with polled := system.polled + 1 }, .ok)
  | some _ => ({ system with polled := system.polled + 1 }, .pollErr)

def afterPolling : Option PostsendInfo → RingPhase
  | none => .idle
  | some info => .fill info

/-- The head of `dr_handle_pending_wc`. -/
def drHandlePendingWc (next : Option PostsendInfo) : RingPhase :=
  if ring.pendingWqe < ring.signalTh then afterPolling next
  else .polling (ring.pendingWqe ≥ ring.signalTh * thNumsToDrain) next

/-- One turn of its loop. -/
def drHandlePendingWcTurn (system : RingSystem) (isDrain : Bool) (next : Option PostsendInfo) : RingSystem :=
  match drCqPollOne system with
  | (system, .pollErr) =>
    { system with ring := { system.ring with errState := true }, phase := .idle }
  | (system, .ok) =>
    { system with
      ring := { system.ring with
        pendingWqe := wrapSubU32 system.ring.pendingWqe system.ring.signalTh }
      phase := .polling isDrain next }
  | (system, .empty) =>
    if isDrain ∧ system.ring.pendingWqe ≥ system.ring.signalTh then
      { system with phase := .polling isDrain next }
    else { system with phase := afterPolling next }

def drPostsendIcmData (system : RingSystem) (info : PostsendInfo) : RingSystem :=
  if system.internalError ∨ system.ring.errState then system
  else { system with phase := drHandlePendingWc system.ring (some info) }

/-- Driver calls, and the device completing requests in order, with an entry for each signalled one. -/
inductive RingStep (maxInlineSize : Nat) : RingSystem → RingSystem → Prop where
  | call (system : RingSystem) (type : SendInfoType) (addr length : Nat) (outside : system.phase = .idle) :
      RingStep maxInlineSize system (drPostsendIcmData system (postsendInfo type addr length))
  | drain (system : RingSystem) (outside : system.phase = .idle) :
      RingStep maxInlineSize system { system with phase := drHandlePendingWc system.ring none }
  | poll (system : RingSystem) (isDrain : Bool) (next : Option PostsendInfo)
      (polling : system.phase = .polling isDrain next) :
      RingStep maxInlineSize system (drHandlePendingWcTurn system isDrain next)
  | fill (system : RingSystem) (info : PostsendInfo) (filling : system.phase = .fill info) :
      RingStep maxInlineSize system { system with
        ring := (drFillDataSegs maxInlineSize system.ring info).1
        phase := .post (drFillDataSegs maxInlineSize system.ring info).2 }
  | post (system : RingSystem) (info : PostsendInfo) (posting : system.phase = .post info) :
      RingStep maxInlineSize system { system with
        ring := (drPostSend system.ring info).1
        phase := .idle
        posted := system.posted ++ (drPostSend system.ring info).2 }
  | complete (system : RingSystem) (waiting : system.completed < system.posted.length) :
      RingStep maxInlineSize system { system with completed := system.completed + 1 }
  | report (system : RingSystem) (opcode : CqeOpcode) (owed : system.cqes.length <
        (system.posted.take system.completed).countP fun wqe => wqe.data.signaled) :
      RingStep maxInlineSize system { system with cqes := system.cqes ++ [opcode] }
  | fail (system : RingSystem) : RingStep maxInlineSize system { system with internalError := true }

def RingReachable (maxInlineSize : Nat) : RingSystem → Prop :=
  Relation.ReflTransGen (RingStep maxInlineSize) RingSystem.start

end MlnxOfed.Steering
