/-
Completion queues of the Ethernet driver (wq.h, device.h): the ring of 64 byte slots, its 32 bit consumer
counter and ownership bit, and the device that writes plain entries and compressed sessions. A slot is its
bytes, since the driver reads it as a `mlx5_cqe64` and as eight `mlx5_mini_cqe8`.
-/

import MlnxOfed.Lib.CyclicRing

namespace MlnxOfed.Ethernet

open Lib

abbrev CqeBytes := Nat → UInt8

def be16 (bytes : CqeBytes) (offset : Nat) : Nat :=
  (bytes offset).toNat * 256 + (bytes (offset + 1)).toNat

def be32 (bytes : CqeBytes) (offset : Nat) : Nat :=
  be16 bytes offset * 65536 + be16 bytes (offset + 2)

def putBe16 (bytes : CqeBytes) (offset value : Nat) : CqeBytes := fun b =>
  if b = offset then UInt8.ofNat (value / 256)
  else if b = offset + 1 then UInt8.ofNat value
  else bytes b

def putBe32 (bytes : CqeBytes) (offset value : Nat) : CqeBytes :=
  putBe16 (putBe16 bytes offset (value / 65536)) (offset + 2) value

/-- Assignment of a `len` byte field from another slot, byte order kept. -/
def copyBytes (target : CqeBytes) (offset : Nat) (source : CqeBytes) (start len : Nat) : CqeBytes := fun b =>
  if offset ≤ b ∧ b < offset + len then source (start + (b - offset)) else target b

/-! Field offsets of `struct mlx5_cqe64`: `rss_hash_result` 12, `rss_hash_type` 16, `check_sum` 20,
`byte_cnt` 44, `wqe_counter` 60, `op_own` 63. Within the eight bytes of a `struct mlx5_mini_cqe8`:
`checksum` 0 and `stridx` 2, or `s_wqe_info.wqe_counter` 0, then `byte_cnt` 4. -/

def opOwn (cqe : CqeBytes) : UInt8 :=
  cqe 63

def setOpOwn (cqe : CqeBytes) (value : UInt8) : CqeBytes :=
  Function.update cqe 63 value

def mlx5Compressed : UInt8 := 3

def mlx5GetCqeFormat (cqe : CqeBytes) : UInt8 :=
  (opOwn cqe >>> 2) &&& 3

/-- `cqe->op_own & MLX5_CQE_OWNER_MASK`. -/
def cqeOwner (cqe : CqeBytes) : Nat :=
  (opOwn cqe).toNat &&& 1

structure Cqwq where
  logSz : Nat
  slots : Nat → CqeBytes
  cc : Nat
  db : Nat

namespace Cqwq

def getSize (wq : Cqwq) : Nat :=
  2 ^ wq.logSz - 1 + 1

def ctr2ix (wq : Cqwq) (ctr : Nat) : Nat :=
  ctr &&& (2 ^ wq.logSz - 1)

def getCtrWrapCnt (wq : Cqwq) (ctr : Nat) : Nat :=
  ctr >>> wq.logSz

def pop (wq : Cqwq) : Cqwq :=
  { wq with cc := (wq.cc + 1) % 2 ^ 32 }

def updateDbRecord (wq : Cqwq) : Cqwq :=
  { wq with db := wq.cc &&& 0xffffff }

/-- `mlx5_cqwq_get_cqe`: the index of the next slot if the device has handed it over. -/
def getCqe (wq : Cqwq) : Option Nat :=
  let ci := wq.ctr2ix wq.cc
  if cqeOwner (wq.slots ci) = wq.getCtrWrapCnt wq.cc &&& 1 then some ci else none

end Cqwq

/-- A compressed session: a title entry, the number of completions, and their mini entries of eight bytes,
with those that fill up the last array. -/
structure Session where
  title : CqeBytes
  count : Nat
  mini : Nat → Nat → UInt8

inductive CqItem where
  | plain (cqe : CqeBytes)
  | session (session : Session)

namespace Session

def array (session : Session) (index : Nat) : CqeBytes := fun b =>
  session.mini (8 * index + b / 8) (b % 8)

def titleSlot (session : Session) (log position : Nat) : CqeBytes :=
  setOpOwn (putBe32 session.title 44 session.count)
    ((opOwn session.title &&& 0xf0) ||| 0x0c ||| UInt8.ofNat (ringLap log position))

/-- Slot 0 of a session gets the title and slots 1, 8, 16, ... arrays; the others keep what they held. -/
def slotAt (session : Session) (log position offset : Nat) (old : CqeBytes) : CqeBytes :=
  if offset = 0 then session.titleSlot log position
  else if offset = 1 ∨ offset % 8 = 0 then session.array (offset / 8)
  else old

end Session

def stampOwner (log position : Nat) (cqe : CqeBytes) : CqeBytes :=
  setOpOwn cqe ((opOwn cqe &&& 0xfe) ||| UInt8.ofNat (ringLap log position))

namespace CqItem

def slots : CqItem → Nat
  | plain _ => 1
  | session s => s.count

def slotAt (log position : Nat) : CqItem → Nat → CqeBytes → CqeBytes
  | plain cqe => fun _ _ => stampOwner log position cqe
  | session s => s.slotAt log position

/-- What may be written into a queue of `2 ^ log` slots when sessions have at most `limit` entries. -/
def Allowed (log limit : Nat) : CqItem → Prop
  | plain cqe => mlx5GetCqeFormat cqe ≠ mlx5Compressed
  | session s => 2 ≤ s.count ∧ s.count ≤ 2 ^ log ∧ s.count ≤ limit

end CqItem

/-- Queue and device: the positions written up to and allowed below, the items written with their positions,
and the batches to be written before the driver's next looks. -/
structure CqRing where
  wq : Cqwq
  produced : Nat
  released : Nat
  written : List (Nat × CqItem)
  arrivals : List (List CqItem)

namespace CqRing

def write (ring : CqRing) (item : CqItem) : CqRing :=
  if ring.produced + item.slots ≤ ring.released + 2 ^ ring.wq.logSz then
    { ring with
      wq := { ring.wq with
        slots := writeRing ring.wq.logSz ring.wq.slots ring.produced item.slots
          (item.slotAt ring.wq.logSz ring.produced) }
      produced := ring.produced + item.slots
      written := ring.written ++ [(ring.produced, item)] }
  else ring

def writeAll (ring : CqRing) (items : List CqItem) : CqRing :=
  items.foldl write ring

def getCqe (ring : CqRing) : Option Nat × CqRing :=
  let ring := { ring.writeAll (ring.arrivals.headD []) with arrivals := ring.arrivals.tail }
  (ring.wq.getCqe, ring)

def pop (ring : CqRing) : CqRing :=
  { ring with wq := ring.wq.pop }

def updateDbRecord (ring : CqRing) : CqRing :=
  { ring with
    wq := ring.wq.updateDbRecord
    released := ring.released + (ring.wq.cc + 2 ^ 32 - ring.released % 2 ^ 32) % 2 ^ 32 }

end CqRing

end MlnxOfed.Ethernet
