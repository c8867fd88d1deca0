/-
Completion entry decompression (en_rx.c, en_tx.c). The receive side keeps a session open across polls: it
copies title and mini array, rewrites the title for each completion and sweeps the owner bits of the slots
used. The transmit side expands a session into the ring at once and then meets plain entries.
-/

import MlnxOfed.Ethernet.CompletionQueue

namespace MlnxOfed.Ethernet

open Function Lib

/-- `struct mlx5e_cq_decomp`; `left` and `wqe_counter` are 16 bit, `mini_arr_idx` 8 bit. -/
structure CqDecomp where
  title : CqeBytes
  miniArr : CqeBytes
  miniArrIdx : Nat
  left : Nat
  wqeCounter : Nat

def miniCqeArraySize : Nat := 8

def readCqeSlot (wq : Cqwq) (cqcc : Nat) : CqeBytes :=
  wq.slots (wq.ctr2ix cqcc)

/-! ### Receive side -/

/-- What decompression reads of a receive queue: stride indices in mini entries, the work queue type, the
size of a cyclic one. -/
structure RqParams where
  miniCqeHwStridx : Bool
  stridingRq : Bool
  wqLogSz : Nat

/-- A receive queue with its completion queue, and the calls of `handle_rx_cqe`: entry and `xmit_more` hint.
-/
structure RxCq where
  ring : CqRing
  cqd : CqDecomp
  handled : List (CqeBytes × Bool)

namespace RxCq

def readTitleSlot (wq : Cqwq) (cqcc : Nat) (cqd : CqDecomp) : CqDecomp :=
  let title := readCqeSlot wq cqcc
  { cqd with
    title := title
    left := be32 title 44 % 2 ^ 16
    wqeCounter := be16 title 60 }

def readMiniArrSlot (wq : Cqwq) (cqcc : Nat) (cqd : CqDecomp) : CqDecomp :=
  { cqd with miniArr := readCqeSlot wq cqcc, miniArrIdx := 0 }

/-- One of the loops of `mlx5e_cqes_update_owner`: `count` slots from `ci` on. -/
def updateOwner (slots : Nat → CqeBytes) (ci : Nat) (own : UInt8) : Nat → Nat → CqeBytes
  | 0 => slots
  | count + 1 =>
    updateOwner (update slots ci (setOpOwn (slots ci) own)) (ci + 1) own count

def cqesUpdateOwner (wq : Cqwq) (n : Nat) : Cqwq :=
  let own := wq.getCtrWrapCnt wq.cc &&& 1
  let ci := wq.ctr2ix wq.cc
  let ciTop := min wq.getSize ((ci + n) % 2 ^ 32)
  let slots := updateOwner wq.slots ci (UInt8.ofNat own) (ciTop - ci)
  if max ci ciTop = wq.getSize then
    { wq with slots := updateOwner slots 0 (UInt8.ofNat (1 - own)) (n - (ciTop - ci)) }
  else { wq with slots := slots }

def consumedStrides (cqe : CqeBytes) : Nat :=
  0x7fff &&& be16 cqe 44

variable (rq : RqParams)

def decompressCqe (wq : Cqwq) (cqcc : Nat) (cqd : CqDecomp) : CqDecomp :=
  let mini := 8 * cqd.miniArrIdx
  let title := copyBytes cqd.title 44 cqd.miniArr (mini + 4) 4
  let title := copyBytes title 20 cqd.miniArr mini 2
  let title := setOpOwn title (opOwn title &&& 0xf0)
  let title := setOpOwn title (opOwn title ||| UInt8.ofNat (0x01 &&& wq.getCtrWrapCnt cqcc))
  if rq.miniCqeHwStridx then
    { cqd with title := copyBytes title 60 cqd.miniArr (mini + 2) 2 }
  else
    let title := putBe16 title 60 cqd.wqeCounter
    { cqd with
      title := title
      wqeCounter :=
        if rq.stridingRq then (cqd.wqeCounter + consumedStrides title) % 2 ^ 16
        else (cqd.wqeCounter + 1) % 2 ^ 16 &&& (2 ^ rq.wqLogSz - 1) }

def decompressCqeNoHash (wq : Cqwq) (cqcc : Nat) (cqd : CqDecomp) : CqDecomp :=
  let cqd := decompressCqe rq wq cqcc cqd
  let title := update cqd.title 16 0
  { cqd with title := putBe32 title 12 0 }

/-- The loop of `mlx5e_decompress_cqes_cont` with `steps` completions to go. -/
def decompressLoop (rq : RqParams) : Nat → Nat → RxCq → Nat × RxCq
  | 0, cqcc, rx => (cqcc, rx)
  | steps + 1, cqcc, rx =>
    let cqd :=
      if rx.cqd.miniArrIdx = miniCqeArraySize then readMiniArrSlot rx.ring.wq cqcc rx.cqd
      else rx.cqd
    let cqd := decompressCqeNoHash rq rx.ring.wq cqcc cqd
    decompressLoop rq steps ((cqcc + 1) % 2 ^ 32)
      { rx with
        cqd := { cqd with miniArrIdx := (cqd.miniArrIdx + 1) % 2 ^ 8 }
        handled := rx.handled ++ [(cqd.title, decide (steps ≠ 0))] }

def decompressCqesCont (updateOwnerOnly : Nat) (budgetRem : Int) (rx : RxCq) : Nat × RxCq :=
  let cqeCount := min rx.cqd.left (budgetRem % 2 ^ 32).toNat
  let cqcc := (rx.ring.wq.cc + updateOwnerOnly) % 2 ^ 32
  let (cqcc, rx) := decompressLoop rq (cqeCount - updateOwnerOnly) cqcc rx
  let wq := cqesUpdateOwner rx.ring.wq ((cqcc + 2 ^ 32 - rx.ring.wq.cc) % 2 ^ 32)
  (cqeCount,
    { rx with
      ring := { rx.ring with wq := { wq with cc := cqcc } }
      cqd := { rx.cqd with left := rx.cqd.left - cqeCount } })

/-- `mlx5e_decompress_cqes_start`. The result is one less than the count, as an `int`. -/
def decompressCqesStart (budgetRem : Int) (rx : RxCq) : Int × RxCq :=
  let wq := rx.ring.wq
  let cqd := readTitleSlot wq wq.cc rx.cqd
  let cqd := readMiniArrSlot wq ((wq.cc + 1) % 2 ^ 32) cqd
  let cqd := decompressCqe rq wq wq.cc cqd
  let (count, rx) := decompressCqesCont rq 1 budgetRem
    { rx with
      cqd := { cqd with miniArrIdx := (cqd.miniArrIdx + 1) % 2 ^ 8 }
      handled := rx.handled ++ [(cqd.title, true)] }
  ((count : Int) - 1, rx)

/-- The loop condition of `mlx5e_poll_rx_cq`: a next entry and budget for it. -/
def pollWhile (budget workDone : Int) (cqe : Option Nat) (rx : RxCq)
    (again : Nat → Option (Int × RxCq)) : Option (Int × RxCq) :=
  if workDone < budget then
    match cqe with
    | some ci => again ci
    | none => some (workDone, rx)
  else some (workDone, rx)

/-- The loop of `mlx5e_poll_rx_cq` at the entry in slot `ci`. -/
def pollLoop (rq : RqParams) (budget : Int) : Nat → Int → Nat → RxCq → Option (Int × RxCq)
  | 0, _, _, _ => none
  | fuel + 1, workDone, ci, rx =>
    if mlx5GetCqeFormat (rx.ring.wq.slots ci) = mlx5Compressed then
      let (more, rx) := decompressCqesStart rq (budget - workDone) rx
      let workDone := workDone + more
      if workDone = budget then some (workDone, rx)
      else
        let (cqe, ring) := rx.ring.getCqe
        let rx := { rx with ring := ring }
        pollWhile budget (workDone + 1) cqe rx
          fun ci => pollLoop rq budget fuel (workDone + 1) ci rx
    else
      let (next, ring) := rx.ring.pop.getCqe
      let hint := next.isSome && decide (workDone % 16 ≠ 0)
      let rx := { rx with ring := ring, handled := rx.handled ++ [(ring.wq.slots ci, hint)] }
      pollWhile budget (workDone + 1) next rx
        fun ci => pollLoop rq budget fuel (workDone + 1) ci rx

def out (result : Int × RxCq) : Int × RxCq :=
  (result.1, { result.2 with ring := result.2.ring.updateDbRecord })

/-- `mlx5e_poll_rx_cq` from its first look at the ring on. -/
def pollFresh (fuel : Nat) (budget workDone : Int) (rx : RxCq) : Option (Int × RxCq) :=
  match rx.ring.getCqe with
  | (none, ring) =>
    if workDone ≠ 0 then some (out (workDone, { rx with ring := ring }))
    else some (0, { rx with ring := ring })
  | (some ci, ring) => (pollLoop rq budget fuel workDone ci { rx with ring := ring }).map out

/-- `mlx5e_poll_rx_cq`; nothing when the loop outlasts its fuel. -/
def pollRxCq (enabled : Bool) (fuel : Nat) (budget : Int) (rx : RxCq) : Option (Int × RxCq) :=
  if !enabled then some (0, rx)
  else if rx.cqd.left ≠ 0 then
    let (workDone, rx) := decompressCqesCont rq 0 budget rx
    if rx.cqd.left ≠ 0 ∨ (workDone : Int) ≥ budget then some (out (workDone, rx))
    else pollFresh rq fuel budget workDone rx
  else pollFresh rq fuel budget 0 rx

end RxCq

/-- The completion queue of a transmit queue, and the entries `mlx5e_poll_tx_cq` has acted on. -/
structure TxCq where
  ring : CqRing
  acted : List CqeBytes

namespace TxCq

/-- The inner loop of `mlx5e_decompress_cqes`: `steps` completions over the slots from `cc` on, from the
mini entry `idx` of the array copied before. -/
def expandMinis (title miniArr : CqeBytes) : Nat → Nat → Nat → Cqwq → Cqwq
  | 0, _, _, wq => wq
  | steps + 1, idx, cc, wq =>
    let tmp := copyBytes title 44 miniArr (8 * idx + 4) 4
    let tmp := setOpOwn tmp (opOwn tmp &&& 0xf0)
    let tmp := setOpOwn tmp (opOwn tmp ||| UInt8.ofNat (0x01 &&& wq.getCtrWrapCnt cc))
    let tmp := copyBytes tmp 60 miniArr (8 * idx) 2
    expandMinis title miniArr steps (idx + 1) ((cc + 1) % 2 ^ 32)
      { wq with slots := update wq.slots (wq.ctr2ix cc) tmp }

/-- The outer loop. The inner one is a `do` loop, so it writes at least one entry. -/
def expandArrays (title miniArr : CqeBytes) (left cc : Nat) (wq : Cqwq) : Cqwq :=
  let iterationSz := min left 8
  let wq := expandMinis title miniArr (max 1 iterationSz) 0 cc wq
  if left - iterationSz = 0 then wq
  else
    let cc := (cc + iterationSz) % 2 ^ 32
    expandArrays title (readCqeSlot wq cc) (left - iterationSz) cc wq
termination_by left

def decompressCqes (wq : Cqwq) : Cqwq :=
  let title := readCqeSlot wq wq.cc
  expandArrays title (readCqeSlot wq ((wq.cc + 1) % 2 ^ 32)) (be32 title 44 % 2 ^ 16) wq.cc wq

def txCqPollBudget : Nat := 128

/-- The loop of `mlx5e_poll_tx_cq` with `steps` rounds left, at slot `ci`; what is done for an entry is kept
as the entry. -/
def pollLoop : Nat → Nat → TxCq → TxCq
  | 0, _, tx => tx
  | steps + 1, ci, tx =>
    let wq :=
      if mlx5GetCqeFormat (tx.ring.wq.slots ci) = mlx5Compressed then
        decompressCqes tx.ring.wq
      else tx.ring.wq
    let ring := { tx.ring with wq := wq }.pop
    let tx := { ring := ring, acted := tx.acted ++ [ring.wq.slots ci] }
    if steps = 0 then tx
    else
      match tx.ring.getCqe with
      | (none, ring) => { tx with ring := ring }
      | (some ci, ring) => pollLoop steps ci { tx with ring := ring }

/-- `mlx5e_poll_tx_cq` as far as its completion queue goes. -/
def pollTxCq (enabled : Bool) (tx : TxCq) : TxCq :=
  if !enabled then tx
  else
    match tx.ring.getCqe with
    | (none, ring) => { tx with ring := ring }
    | (some ci, ring) =>
      let tx := pollLoop txCqPollBudget ci { tx with ring := ring }
      { tx with ring := tx.ring.updateDbRecord }

end TxCq

end MlnxOfed.Ethernet
