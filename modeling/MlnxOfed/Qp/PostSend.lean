/-
Posting to a kernel send queue (`wr.c`) and consuming its completions (`mlx5_poll_one` in `cq.c`). The size
of a WQE is in units of 16 bytes, as in the source.

A step is one turn of the loop of `mlx5_ib_post_send`, the end of a call, a move of the device, or one
completion taken. The buffer is one piece here: the move to its next fragment (`handle_post_send_edge`) is
left out, and `SendWr.writesUmr` names the requests that miss it.
-/

import MlnxOfed.Qp.SqSize

namespace MlnxOfed.Qp

open Option

/-- `other` is another entry of `mlx5_ib_opcode`, `beyond` a value after its end. -/
inductive Opcode where
  | send | lso | sendWithImm | rdmaWrite | rdmaWriteWithImm | rdmaRead
  | atomicCmpAndSwp | atomicFetchAndAdd | maskedAtomicCmpAndSwp | maskedAtomicFetchAndAdd
  | sendWithInv | localInv | regMr | regMrIntegrity | umr | other | beyond
  deriving DecidableEq

inductive SigType where
  | none | t10Dif | other
  deriving DecidableEq

structure Mr where
  ndescs : Nat
  metaNdescs : Nat
  descSize : Nat

def Mr.listSize (mr : Mr) : Nat := (mr.ndescs + mr.metaNdescs) * mr.descSize

/-- `sgList` holds the lengths. `strided`: the PI MR has protection information apart from the data. -/
structure SendWr where
  wrId : Nat
  opcode : Opcode
  sgList : List Nat
  isInline : Bool
  signaled : Bool
  sigPipelined : Bool
  hlen : Nat
  mr : Mr
  canUseUmr : Bool
  accessAtomic : Bool
  piMr : Option Mr
  hasSig : Bool
  sigStatusChecked : Bool
  strided : Bool
  memType : SigType
  wireType : SigType
  mkeyMaskAllowed : Bool

/-- What `mlx5_ib_post_send` reads of the QP and its device besides the queue. -/
structure Qp where
  attr : QpInitAttr
  size : SqSize
  signaturePipeline : Bool
  hasSmi : Bool

def units (bytes : Nat) : Nat := (bytes + 15) / 16

def ctrlUnits : Nat := wqeCtrlSeg / 16

/-- `none` is `-EINVAL`, before anything is written after the control segment. -/
def setRegWr (mr : Mr) (canUseUmr isInline : Bool) (size : Nat) : Option Nat :=
  if !canUseUmr then none
  else if isInline then none
  else
    let size := size + wqeUmrCtrlSeg / 16 + mkeySeg / 16
    if mr.listSize ≤ mlx5IbSqUmrInlineThreshold then
      some ((size + units mr.listSize + 3) / 4 * 4)
    else some (size + wqeDataSeg / 16)

def bsfUnits : Nat := 4

/-- The first test of `set_pi_umr_wr`. -/
def SendWr.piUmrAllowed (wr : SendWr) (integrityEn : Bool) : Bool :=
  wr.sgList.isEmpty && !wr.accessAtomic && wr.hasSig && integrityEn && wr.sigStatusChecked

/-- `prot_field_size` of the memory domain, where it is needed. -/
def SendWr.protSized (wr : SendWr) : Bool := !wr.strided || wr.memType == .t10Dif

/-- `mlx5_set_bsf` and `set_psv_wr` know the signature types. -/
def SendWr.typesKnown (wr : SendWr) : Bool := wr.memType != .other && wr.wireType != .other

def setPiUmrWr (wr : SendWr) (integrityEn : Bool) (size : Nat) : Except Nat Nat :=
  if !wr.piUmrAllowed integrityEn then .error size
  else
    let size := size + wqeUmrCtrlSeg / 16 + mkeySeg / 16
    if !wr.protSized then .error size
    else
      let size := size + mlx5SendWqeBb / 16 + bsfUnits
      if !wr.typesKnown then .error size else .ok size

/-- The sum of the lengths is an `int`; an error comes with the bytes copied by then. -/
def copyInline (maxInlineData : Int) : Int → Nat → List Nat → Except Nat (Int × Nat)
  | inl, copied, [] => .ok (inl, copied)
  | inl, copied, length :: rest =>
    let inl := toInt (inl + length)
    if maxInlineData < inl then .error copied else copyInline maxInlineData inl (copied + length) rest

/-- A WQE given to `finish_wqe`: its size, how far it was written, and `send_signaled`. -/
structure Draft where
  size : Int
  touched : Nat
  signaled : Bool

/-- The WQEs a request finished, and how far one not finished was written. -/
structure Built where
  wqes : List Draft
  rest : Nat
  accepted : Bool

def SendWr.draft (wr : SendWr) (size : Nat) : Draft := ⟨size, size, wr.signaled⟩

def psvUnits : Nat := ctrlUnits + 1

/-- The overflow test before each WQE reads the same `head` and `nreq`, and no older `tail`: only the first
can fail. -/
def handleRegMrIntegrity (wr : SendWr) (integrityEn : Bool) (size : Nat) : Built :=
  let pi : Except Nat (List Draft × Nat) :=
    match wr.piMr with
    | none => .ok ([], size)
    | some mr =>
      match setRegWr mr wr.canUseUmr false size with
      | none => .error size
      | some size => .ok ([wr.draft size], ctrlUnits)
  match pi with
  | .error touched => ⟨[], touched, false⟩
  | .ok (wqes, size) =>
    match setPiUmrWr wr integrityEn size with
    | .error touched => ⟨wqes, touched, false⟩
    | .ok size =>
      let wqes := wqes ++ [wr.draft size]
      let psv : Draft := ⟨psvUnits, psvUnits, false⟩
      if wr.memType = .other then ⟨wqes, ctrlUnits, false⟩
      else if wr.wireType = .other then ⟨wqes ++ [psv], ctrlUnits, false⟩
      else ⟨wqes ++ [psv, psv], 0, true⟩

/-- The data segments and `finish_wqe`. -/
def buildData (maxInlineData : Int) (wr : SendWr) (sgList : List Nat) (size : Nat) : Built :=
  if wr.isInline ∧ sgList ≠ [] then
    match copyInline maxInlineData 0 0 sgList with
    | .error copied => ⟨[], size + units (wqeInlineSeg + copied), false⟩
    | .ok (inl, copied) =>
      let added := toSizeT (inl + wqeInlineSeg + 15) / 16
      ⟨[⟨toInt (size + added), size + units (wqeInlineSeg + copied), wr.signaled⟩], 0, true⟩
  else ⟨[wr.draft (size + (sgList.filter (· ≠ 0)).length)], 0, true⟩

/-- The switch on the QP type and what follows. -/
def buildWqe (qp : Qp) (wr : SendWr) : Built :=
  let data := buildData qp.size.maxInlineData wr
  match qp.attr.qpType with
  | .xrcIni | .rc =>
    let size := ctrlUnits + if qp.attr.qpType = .xrcIni then wqeXrcSeg / 16 else 0
    match wr.opcode with
    | .rdmaRead | .rdmaWrite | .rdmaWriteWithImm => data wr.sgList (size + wqeRaddrSeg / 16)
    | .atomicCmpAndSwp | .atomicFetchAndAdd | .maskedAtomicCmpAndSwp => ⟨[], size, false⟩
    | .localInv => data [] (size + wqeUmrCtrlSeg / 16 + mkeySeg / 16)
    | .regMr =>
      match setRegWr wr.mr wr.canUseUmr wr.isInline size with
      | none => ⟨[], size, false⟩
      | some size => data [] size
    | .regMrIntegrity => handleRegMrIntegrity wr qp.attr.integrityEn size
    | _ => data wr.sgList size
  | .uc =>
    match wr.opcode with
    | .rdmaWrite | .rdmaWriteWithImm => data wr.sgList (ctrlUnits + wqeRaddrSeg / 16)
    | _ => data wr.sgList ctrlUnits
  | .smi =>
    if qp.hasSmi then data wr.sgList (ctrlUnits + wqeDatagramSeg / 16) else ⟨[], ctrlUnits, false⟩
  | .hwGsi => data wr.sgList (ctrlUnits + wqeDatagramSeg / 16)
  | .ud =>
    let size := ctrlUnits + wqeDatagramSeg / 16
    if qp.attr.ipoibUdLso then
      let eth := if wr.opcode = .lso then units (wqeEthSeg - 2 + wr.hlen) else wqeEthSeg / 16
      data wr.sgList (size + wqeEthPad / 16 + eth)
    else data wr.sgList size
  | .regUmr =>
    if wr.opcode ≠ .umr then ⟨[], ctrlUnits, false⟩
    else if !wr.mkeyMaskAllowed then ⟨[], ctrlUnits + wqeUmrCtrlSeg / 16, false⟩
    else data wr.sgList (ctrlUnits + wqeUmrCtrlSeg / 16 + mkeySeg / 16)
  | _ => data wr.sgList ctrlUnits

def wrListed (qp : Qp) (wr : SendWr) : Bool :=
  wr.opcode != .beyond && decide ((wr.sgList.length : Int) ≤ qp.size.maxGs)

def sendOpcode (opcode : Opcode) : Bool :=
  opcode == .send || opcode == .sendWithImm || opcode == .sendWithInv

/-- From `begin_wqe` on. -/
def buildWr (qp : Qp) (wr : SendWr) : Built :=
  if sendOpcode wr.opcode && wr.sigPipelined && !qp.signaturePipeline then ⟨[], ctrlUnits, false⟩
  else buildWqe qp wr

/-! ### The queue -/

/-- A finished WQE: its request's number, and its blocks from `start`. A position is not wrapped; `cur_post`
is the low 16 bits of that after the last WQE. -/
structure Wqe where
  wr : Nat
  wrId : Nat
  start : Nat
  blocks : Nat
  touched : Nat
  signaled : Bool

structure Cqe where
  wqe : Nat
  isError : Bool

/-- The fields up to `nreq` are the driver's; `nreq` counts the requests of the current call. The others are
a record: WQEs finished, blocks written by a rejected request, requests accepted and those `tail` has
passed. The device knows the first `rung` WQEs, has executed `executed`, and gives completions to the CQ. A
failed QP answers further requests with an error; `answered` is after the last one. -/
structure Sq where
  head : Nat
  tail : Nat
  curPost : Nat
  lastPoll : Nat
  wrid : Nat → Nat
  wListNext : Nat → Nat
  wqeHead : Nat → Nat
  nreq : Nat
  wqes : List Wqe
  scratch : Nat
  accepted : Nat
  completed : Nat
  rung : Nat
  executed : Nat
  failed : Bool
  answered : Nat
  cqes : List Cqe

def Sq.initial : Sq :=
  { head := 0, tail := 0, curPost := 0, lastPoll := 0, wrid := fun _ => 0, wListNext := fun _ => 0
    wqeHead := fun _ => 0, nreq := 0, wqes := [], scratch := 0, accepted := 0, completed := 0, rung := 0
    executed := 0, failed := false, answered := 0, cqes := [] }

def setAt (slots : Nat → Nat) (index value : Nat) : Nat → Nat :=
  fun other => if other = index then value else slots other

variable (qp : Qp) (sq : Sq)

def Sq.slot (position : Nat) : Nat := position &&& (qp.size.wqeCnt - 1)

def wqOverflow : Bool :=
  decide (qp.size.maxPost ≤ (sq.head + 2 ^ 32 - sq.tail) % 2 ^ 32 + sq.nreq)

def Sq.finish : Nat := ((sq.wqes.getLast?).map fun wqe => wqe.start + wqe.blocks).getD 0

/-- `size` is a `u8` in `finish_wqe`. -/
def Draft.blocks (draft : Draft) : Nat := ((draft.size % 256).toNat * 16 + 63) / mlx5SendWqeBb

def blocksOf (size : Nat) : Nat := (size * 16 + 63) / mlx5SendWqeBb

def finishWqe (wr : SendWr) (draft : Draft) : Sq :=
  let idx := Sq.slot qp sq.curPost
  let curPost := (sq.curPost + draft.blocks) % 2 ^ 16
  { sq with
    wrid := setAt sq.wrid idx wr.wrId
    wqeHead := setAt sq.wqeHead idx ((sq.head + sq.nreq) % 2 ^ 32)
    curPost := curPost
    wListNext := setAt sq.wListNext idx curPost
    wqes := sq.wqes ++
      [{ wr := sq.accepted, wrId := wr.wrId, start := sq.finish, blocks := draft.blocks
         touched := blocksOf draft.touched, signaled := draft.signaled || qp.attr.signalAll }] }

/-- The `out` label: the doorbell is rung if a request was accepted. -/
def postSendOut : Sq :=
  if sq.nreq = 0 then sq
  else { sq with head := (sq.head + sq.nreq) % 2 ^ 32, nreq := 0, rung := sq.wqes.length }

def postSendOne (wr : SendWr) : Sq :=
  let sq := { sq with scratch := 0 }
  if !wrListed qp wr || wqOverflow qp sq then postSendOut sq
  else
    let built := buildWr qp wr
    let sq := built.wqes.foldl (fun sq draft => finishWqe qp sq wr draft) sq
    if built.accepted then { sq with nreq := sq.nreq + 1, accepted := sq.accepted + 1 }
    else postSendOut { sq with scratch := blocksOf built.rest }

/-- The walk of `handle_atomics`: `none`, for ever, once it has seen every slot. -/
def handleAtomics (idx : Nat) : Nat → Nat → Option Nat
  | 0, _ => none
  | turns + 1, tail =>
    if Sq.slot qp tail = idx then some (sq.wListNext (Sq.slot qp tail))
    else handleAtomics idx turns (sq.wListNext (Sq.slot qp tail))

/-- `mlx5_poll_one` for a completion of this queue. -/
def pollOne (cqe : Cqe) (wqe : Wqe) (rest : List Cqe) : Option Sq :=
  let idx := Sq.slot qp (wqe.start % 2 ^ 16)
  let sq' := { sq with
    tail := (sq.wqeHead idx + 1) % 2 ^ 32
    completed := wqe.wr + 1
    cqes := rest }
  if cqe.isError then some sq'
  else (handleAtomics qp sq idx qp.size.wqeCnt sq.lastPoll).map fun lastPoll => { sq' with lastPoll := lastPoll }

inductive Move where
  | post (wr : SendWr)
  | out
  | execute (fails : Bool)
  | flush (wqe : Nat)
  | poll

def step (move : Move) : Option Sq :=
  match move with
  | .post wr => some (postSendOne qp sq wr)
  | .out => some (postSendOut sq)
  | .execute fails =>
    match sq.wqes[sq.executed]? with
    | some wqe =>
      if sq.executed < sq.rung ∧ !sq.failed then
        let cqes := if fails ∨ wqe.signaled then sq.cqes ++ [⟨sq.executed, fails⟩] else sq.cqes
        some { sq with
          executed := sq.executed + 1
          cqes := cqes
          failed := fails
          answered := if fails then wqe.wr + 1 else sq.answered }
      else none
    | none => none
  | .flush index =>
    match sq.wqes[index]? with
    | some wqe =>
      if index < sq.rung ∧ sq.failed ∧ sq.answered ≤ wqe.wr then
        some { sq with cqes := sq.cqes ++ [⟨index, true⟩], answered := wqe.wr + 1 }
      else none
    | none => none
  | .poll =>
    match sq.cqes with
    | [] => none
    | cqe :: rest =>
      match sq.wqes[cqe.wqe]? with
      | some wqe => pollOne qp sq cqe wqe rest
      | none => none

inductive Reachable (allowed : Move → Prop) : Sq → Prop where
  | initial : Reachable allowed Sq.initial
  | step {sq next : Sq} {move : Move} (before : Reachable allowed sq) (kind : allowed move)
      (moved : step qp sq move = some next) : Reachable allowed next

def run : Sq → List Move → Option Sq
  | sq, [] => some sq
  | sq, move :: moves => (step qp sq move).bind fun next => run next moves

theorem Reachable.run {qp ok sq last} (old : Reachable qp ok sq)
    {moves} (kind : ∀ move ∈ moves, ok move) (ran : run qp sq moves = some last) :
    Reachable qp ok last := by
  induction moves generalizing sq with
  | nil => exact some.inj ran ▸ old
  | cons move moves ih =>
    obtain ⟨next, moved, rest⟩ := bind_eq_some_iff.mp ran
    refine ih (old.step (kind move List.mem_cons_self) moved) ?_ rest
    intro other later
    exact kind other (List.mem_cons_of_mem _ later)

end MlnxOfed.Qp
