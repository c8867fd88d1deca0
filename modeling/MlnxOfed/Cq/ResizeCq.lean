/-
Resizing a kernel completion queue (mlx5/cq.c): the buffer the device writes, the second buffer of
`mlx5_ib_resize_cq`, and `mlx5_poll_one` while the two are exchanged.

Indices are counted without a bound: only their bits below and at the size of a queue are read, and a queue
is smaller than 2^24. An access beyond the entries of a buffer is recorded in `inBounds`. The locked
sections are steps, and a poll is one pass of `mlx5_poll_one`. `polled` are the completions taken.
-/

import MlnxOfed.Lib.LapRing

namespace MlnxOfed.Cq

open Function Lib

/-- The opcodes other than `MLX5_CQE_INVALID`, which is an entry without content. -/
inductive CqeKind (Wc : Type) where
  | completion (wc : Wc)
  | resizeCq

abbrev Cqe (Wc : Type) := LapSlot (CqeKind Wc)

structure CqBuf (Wc : Type) where
  mem : Nat → Cqe Wc
  nent : Nat
  cqeSize : Nat

/-- `cq->resize_buf`. -/
inductive ResizeBuf (Wc : Type) where
  | null
  | live (buf : CqBuf Wc)
  | dangling

/-- How far `mlx5_ib_resize_cq` is: not called, with its buffer, or after the command. -/
inductive Phase where
  | idle
  | prepared (entries : Nat)
  | commanded (entries : Nat)
  deriving DecidableEq

/-- `struct mlx5_ib_cq`, the device's index and buffer, and the queue's memory. `resizedFrom` is the first
index the device uses the new buffer for; from `unwrittenBelow` on every slot of the buffer was written
before. -/
structure KernelCq (Wc : Type) where
  buf : CqBuf Wc
  resizeBuf : ResizeBuf Wc
  cqe : Nat
  consIndex : Nat
  phase : Phase
  prodIndex : Nat
  deviceOnResized : Bool
  structs : Nat
  frags : Nat
  inBounds : Bool
  resizedFrom : Nat
  unwrittenBelow : Nat
  produced : List Wc
  polled : List Wc

variable {Wc : Type}

def invalidCqe : Cqe Wc :=
  ⟨none, 0⟩

def zeroCqe [Inhabited Wc] : Cqe Wc :=
  ⟨some (.completion default), 0⟩

/-- A queue that `mlx5_ib_create_cq` made. -/
def KernelCq.create (log cqeSize index : Nat) : KernelCq Wc where
  buf := ⟨fun _ => invalidCqe, 2 ^ log, cqeSize⟩
  resizeBuf := .null
  cqe := 2 ^ log - 1
  consIndex := index
  phase := .idle
  prodIndex := index
  deviceOnResized := false
  structs := 0
  frags := 1
  inBounds := true
  resizedFrom := 0
  unwrittenBelow := 0
  produced := []
  polled := []

def swOwnershipBit (n nent : Nat) : Nat :=
  if n &&& nent = 0 then 0 else 1

def roundupPowOfTwo (n : Nat) : Nat :=
  if n ≤ 1 then 1 else 2 ^ (Nat.log2 (n - 1) + 1)

def CqBuf.write (buf : CqBuf Wc) (n : Nat) (kind : CqeKind Wc) : CqBuf Wc :=
  { buf with mem := update buf.mem (n % buf.nent) ⟨some kind, n / buf.nent % 2⟩ }

namespace KernelCq

variable [Inhabited Wc]

variable (cq : KernelCq Wc)

def getSwCqe (n : Nat) : Option (CqeKind Wc) :=
  let cqe64 := cq.buf.mem (n &&& cq.cqe)
  if cqe64.lap = swOwnershipBit n (cq.cqe + 1) then cqe64.content else none

/-- The entry of the consumer's index is taken, if any; one of an unexpected resize is reported with nothing
written. -/
def takeCqe : KernelCq Wc :=
  match cq.getSwCqe cq.consIndex with
  | none => cq
  | some (.completion wc) =>
    { cq with consIndex := cq.consIndex + 1, polled := cq.polled ++ [wc] }
  | some .resizeCq =>
    match cq.resizeBuf with
    | .live buf =>
      { cq with
        consIndex := cq.consIndex + 1
        buf := buf
        resizeBuf := .null
        structs := cq.structs - 1
        frags := cq.frags - 1
        deviceOnResized := false
        unwrittenBelow := cq.consIndex + 1 + buf.nent }
    | .null => { cq with consIndex := cq.consIndex + 1, polled := cq.polled ++ [default] }
    | .dangling => { cq with consIndex := cq.consIndex + 1, inBounds := false }

def pollPass : KernelCq Wc :=
  takeCqe { cq with inBounds := cq.inBounds && (cq.consIndex &&& cq.cqe) < cq.buf.nent }

def unpolled : Nat :=
  cq.produced.length - cq.polled.length

def complete (wc : Wc) : Option (KernelCq Wc) :=
  let logged := { cq with prodIndex := cq.prodIndex + 1, produced := cq.produced ++ [wc] }
  match cq.deviceOnResized, cq.resizeBuf with
  | true, .live buf =>
    if cq.unpolled < buf.nent then
      some { logged with resizeBuf := .live (buf.write cq.prodIndex (.completion wc)) }
    else none
  | true, _ => none
  | false, _ =>
    if cq.unpolled < cq.buf.nent then
      some { logged with buf := cq.buf.write cq.prodIndex (.completion wc) }
    else none

def deviceResize (entries : Nat) : Option (KernelCq Wc) :=
  if cq.unpolled < cq.buf.nent && cq.unpolled ≤ entries then
    some { cq with
      buf := cq.buf.write cq.prodIndex .resizeCq
      prodIndex := cq.prodIndex + 1
      deviceOnResized := true
      resizedFrom := cq.prodIndex + 1
      phase := .commanded entries }
  else none

/-- The size `mlx5_ib_resize_cq` makes a buffer for; none where it returns before. -/
def resizeEntries (supported : Bool) (logMaxCqSz entries : Nat) : Option Nat :=
  if supported = false then none
  else if entries < 1 || 2 ^ logMaxCqSz < entries then none
  else if 2 ^ logMaxCqSz + 1 < roundupPowOfTwo (entries + 1) then none
  else if roundupPowOfTwo (entries + 1) = cq.cqe + 1 then none
  else some (roundupPowOfTwo (entries + 1))

/-- `init_cq_frag_buf` for a number of entries, which takes the entries from `cq->buf`. In 128-byte entries
of that buffer the source writes to the first halves only. -/
def initCqFragBuf (nent : Nat) : KernelCq Wc :=
  { cq with
    buf := { cq.buf with mem := fun i => if i < nent then invalidCqe else cq.buf.mem i }
    inBounds := cq.inBounds && nent ≤ cq.buf.nent }

/-- `resize_kernel`. The allocation of the structure or of the buffer may fail. -/
def resizeKernel (entries : Nat) (structOk bufOk : Bool) : KernelCq Wc :=
  if structOk = false then { cq with resizeBuf := .null }
  else if bufOk = false then { cq with resizeBuf := .dangling }
  else
    ({ cq with
      resizeBuf := .live ⟨fun _ => zeroCqe, entries, 64⟩
      structs := cq.structs + 1
      frags := cq.frags + 1
      phase := .prepared entries } : KernelCq Wc).initCqFragBuf entries

/-- The loop of `copy_resize_cqes` from an index on, for at most `fuel` entries: as many as the buffer has
when back at its first one. -/
def copyLoop (cq : KernelCq Wc) (nent : Nat) : Nat → Nat → (Nat → Cqe Wc) → Bool →
    Option ((Nat → Cqe Wc) × Bool)
  | 0, _, _, _ => none
  | fuel + 1, i, mem, inBounds =>
    match cq.getSwCqe i with
    | none => none
    | some .resizeCq => some (mem, inBounds)
    | some (.completion wc) =>
      cq.copyLoop nent fuel (i + 1) (update mem ((i + 1) &&& nent)
          ⟨some (.completion wc), swOwnershipBit (i + 1) nent⟩)
        (inBounds && ((i + 1) &&& nent) < nent)

def copyResizeCqes (resizeBuf : CqBuf Wc) : Option ((Nat → Cqe Wc) × Bool) :=
  if cq.buf.cqeSize ≠ resizeBuf.cqeSize then none
  else cq.copyLoop resizeBuf.nent (cq.cqe + 1) cq.consIndex resizeBuf.mem cq.inBounds

/-- The last locked section of `mlx5_ib_resize_cq`; a copy error is not returned. What was copied before
it is kept by the source and dropped here. -/
def resizeFinish (entries : Nat) : KernelCq Wc :=
  let copied :=
    match cq.resizeBuf with
    | .null => cq
    | .dangling => { cq with inBounds := false }
    | .live buf =>
      match cq.copyResizeCqes buf with
      | none => cq
      | some (mem, inBounds) =>
        { cq with
          buf := { buf with mem := mem }
          resizeBuf := .null
          consIndex := cq.consIndex + 1
          structs := cq.structs - 1
          frags := cq.frags - 1
          deviceOnResized := false
          inBounds := inBounds
          unwrittenBelow := cq.consIndex + 1 + buf.nent }
  { copied with cqe := entries - 1, phase := .idle }

end KernelCq

inductive Move (Wc : Type) where
  | complete (wc : Wc)
  | poll
  | resizeBegin (supported : Bool) (logMaxCqSz entries : Nat) (structOk bufOk : Bool)
  | resizeCommand (mailboxOk commandOk : Bool)
  | resizeFinish

/-- A step of the device, a poll or the one resize. Where mailbox or command fails, the new buffer is freed,
but not its structure. -/
def step [Inhabited Wc] (cq : KernelCq Wc) : Move Wc → Option (KernelCq Wc)
  | .complete wc => cq.complete wc
  | .poll => some cq.pollPass
  | .resizeBegin supported logMaxCqSz entries structOk bufOk =>
    if cq.phase ≠ .idle then none
    else
      match cq.resizeEntries supported logMaxCqSz entries with
      | none => some cq
      | some entries => some (cq.resizeKernel entries structOk bufOk)
  | .resizeCommand mailboxOk commandOk =>
    match cq.phase with
    | .prepared entries =>
      if mailboxOk && commandOk then cq.deviceResize entries
      else some { cq with resizeBuf := .null, frags := cq.frags - 1, phase := .idle }
    | _ => none
  | .resizeFinish =>
    match cq.phase with
    | .commanded entries => some (cq.resizeFinish entries)
    | _ => none

def run [Inhabited Wc] (kind : KernelCq Wc → Move Wc → Bool) :
    KernelCq Wc → List (Move Wc) → Option (KernelCq Wc)
  | cq, [] => some cq
  | cq, move :: rest =>
    if kind cq move then (step cq move).bind fun next => run kind next rest else none

end MlnxOfed.Cq
