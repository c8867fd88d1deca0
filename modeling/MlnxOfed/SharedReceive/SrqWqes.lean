/-
Kernel shared receive queues (`srq.c`): size, posting, and the completions that give a WQE back (`cq.c`).
The free WQEs are linked through their own `next_wqe_index`, from `head` to `tail`.
-/

import MlnxOfed.Lib.LinkedPath
import MlnxOfed.Qp.SqSize

namespace MlnxOfed.SharedReceive

open Function Option
open Qp (toInt toSizeT)

def wqeSrqNextSeg : Nat := 16
def wqeDataSeg : Nat := 16

structure SrqSize where
  max : Nat
  maxGs : Nat
  maxAvailGather : Nat
  wqeShift : Nat
  deriving DecidableEq

structure DataSeg where
  byteCount : Nat
  lkey : Nat
  addr : Nat

def mlx5InvalidLkey : Nat := 0x100

/-- `sgList` is an array of `numSge` entries. -/
structure RecvWr where
  wrId : Nat
  numSge : Int32
  sgList : Nat → DataSeg

def RecvWr.count (wr : RecvWr) : Nat := wr.numSge.toInt.toNat

/-- `scat` holds the data segments written into each WQE. The last two are a record: the WQEs at the device
with their `wr_id`, and the requests accepted. -/
structure Srq where
  size : SrqSize
  head : Nat
  tail : Nat
  wqeCtr : Nat
  wrid : Nat → Nat
  nextWqeIndex : Nat → Nat
  scat : Nat → Nat → Option DataSeg
  outstanding : List (Nat × Nat)
  accepted : Nat

/-- The links are `__be16`. -/
def createSrqKernel (size : SrqSize) : Srq :=
  { size := size
    head := 0
    tail := size.max - 1
    wqeCtr := 0
    wrid := fun _ => 0
    nextWqeIndex := fun i => ((i + 1) &&& (size.max - 1)) % 2 ^ 16
    scat := fun _ _ => none
    outstanding := []
    accepted := 0 }

inductive Errno where
  | einval | enomem | eio

variable (srq : Srq)

def writeScat (wr : RecvWr) (old : Nat → Option DataSeg) : Nat → Option DataSeg := fun i =>
  if i < wr.count then some (wr.sgList i)
  else if i = wr.count ∧ i < srq.size.maxAvailGather then some ⟨0, mlx5InvalidLkey, 0⟩
  else old i

/-- One turn of the loop. The comparison with `max_gs` is one of `size_t`. -/
def postOne (wr : RecvWr) : Except Errno Srq :=
  if srq.size.maxGs < toSizeT wr.numSge.toInt then .error .einval
  else if srq.head = srq.tail then .error .enomem
  else
    .ok { srq with
      wrid := update srq.wrid srq.head wr.wrId
      head := srq.nextWqeIndex srq.head
      scat := update srq.scat srq.head (writeScat srq wr (srq.scat srq.head))
      outstanding := (srq.head, wr.wrId) :: srq.outstanding
      accepted := srq.accepted + 1 }

/-- The loop, with `nreq`. -/
def postLoop : Srq → List RecvWr → Nat → Srq × Nat × Option Errno
  | srq, [], nreq => (srq, nreq, none)
  | srq, wr :: wrs, nreq =>
    match postOne srq wr with
    | .error err => (srq, nreq, some err)
    | .ok next => postLoop next wrs (nreq + 1)

/-- `down` is `MLX5_DEVICE_STATE_INTERNAL_ERROR`. -/
def postSrqRecv (down : Bool) (wrs : List RecvWr) : Srq × Option Errno :=
  if down then (srq, some .eio)
  else
    let (next, nreq, err) := postLoop srq wrs 0
    (if nreq = 0 then next else { next with wqeCtr := (next.wqeCtr + nreq) % 2 ^ 16 }, err)

def freeSrqWqe (wqeIndex : Nat) : Srq :=
  { srq with
    nextWqeIndex := update srq.nextWqeIndex srq.tail (wqeIndex % 2 ^ 16)
    tail := wqeIndex }

/-- Whether the completion is of an XRC target QP, without `ibqp.srq`, and is an error. -/
structure Cqe where
  xrc : Bool
  isError : Bool
  wqeCounter : Nat

/-- What `mlx5_poll_one` does to the SRQ and the `wr_id` it returns. The error of an XRC target QP goes to
its receive queue, which it has not. -/
def pollOne (cqe : Cqe) : Srq × Option Nat :=
  if cqe.isError && cqe.xrc then (srq, none)
  else (freeSrqWqe srq cqe.wqeCounter, some (srq.wrid cqe.wqeCounter))

def Srq.complete (wqeIndex : Nat) : Srq :=
  { srq with outstanding := srq.outstanding.filter fun wqe => wqe.1 ≠ wqeIndex }

inductive Move where
  | post (down : Bool) (wrs : List RecvWr)
  | poll (cqe : Cqe)
  | clean (wqeIndex : Nat)

def step : Move → Option Srq
  | .post down wrs => some (postSrqRecv srq down wrs).1
  | .poll cqe =>
    if cqe.wqeCounter ∈ srq.outstanding.map Prod.fst then
      some (pollOne (srq.complete cqe.wqeCounter) cqe).1
    else none
  | .clean wqeIndex =>
    if wqeIndex ∈ srq.outstanding.map Prod.fst then
      some (freeSrqWqe (srq.complete wqeIndex) wqeIndex)
    else none

inductive Reachable (allowed : Move → Prop) (size : SrqSize) : Srq → Prop where
  | create : Reachable allowed size (createSrqKernel size)
  | step {srq next : Srq} {move : Move} (before : Reachable allowed size srq) (kind : allowed move)
      (moved : step srq move = some next) : Reachable allowed size next

def run : Srq → List Move → Option Srq
  | srq, [] => some srq
  | srq, move :: moves => (step srq move).bind fun next => run next moves

theorem Reachable.run {ok size srq last} (old : Reachable ok size srq)
    {moves} (kind : ∀ move ∈ moves, ok move) (ran : run srq moves = some last) :
    Reachable ok size last := by
  induction moves generalizing srq with
  | nil => exact some.inj ran ▸ old
  | cons move moves ih =>
    obtain ⟨next, moved, rest⟩ := bind_eq_some_iff.mp ran
    refine ih (old.step (kind move List.mem_cons_self) moved) ?_ rest
    intro other later
    exact kind other (List.mem_cons_of_mem _ later)

end MlnxOfed.SharedReceive
