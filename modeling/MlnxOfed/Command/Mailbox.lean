/-
Command messages (cmd.c): the first 16 bytes travel in the command layout, the rest in a chain of blocks of
512 data bytes, each followed by a control section. Input messages come from caches of ready made chains, as
long as the largest message of the cache, which keep what earlier commands left in them.
-/

import MlnxOfed.Lib.BitMemory

namespace MlnxOfed.Command

open Lib

/-- `struct mlx5_cmd_mailbox` with its `struct mlx5_cmd_prot_block`: 512 data bytes, 48 reserved ones,
`next` (8), `block_num` (4), a reserved byte, `token`, `ctrl_sig` and `sig`. -/
structure CmdMailbox where
  buf : Bytes
  dma : UInt64

namespace CmdMailbox

def data (box : CmdMailbox) (count : Nat) : List UInt8 := loadBytes box.buf 0 count

def next (box : CmdMailbox) : Nat := readBe box.buf 560 8

def blockNum (box : CmdMailbox) : Nat := readBe box.buf 568 4

def token (box : CmdMailbox) : UInt8 := box.buf 573

end CmdMailbox

/-- `struct mlx5_cmd_msg`; the mailboxes from `next` on are a list, `parent` is the index of a cache. -/
structure CmdMsg where
  parent : Option Nat
  len : Nat
  first : Bytes
  next : List CmdMailbox

/-- The value of a 32 bit `int` after an arithmetic operation. -/
def wrapInt (value : Int) : Int := Int.bmod value (2 ^ 32)

def calcCmdBlocks (len : Nat) : Int :=
  let size := wrapInt len
  let blen := size - min 16 size
  (wrapInt (blen + (512 - 1))).tdiv 512

def xor8Buf (buf : Bytes) (offset : Nat) : Nat → UInt8
  | 0 => 0
  | len + 1 => xor8Buf buf offset len ^^^ buf (offset + len)

/-- `verify_block_sig`: zero, or `-EINVAL`. -/
def verifyBlockSig (block : Bytes) : Int :=
  if xor8Buf block 512 (576 - 512 - 1) ≠ 0xff then -22
  else if xor8Buf block 0 576 ≠ 0xff then -22
  else 0

def setByte (block : Bytes) (index : Nat) (value : UInt8) : Bytes :=
  Function.update block index value

def calcBlockSig (block : Bytes) : Bytes :=
  let block := setByte block 574 (~~~ xor8Buf block 512 (576 - 512 - 2))
  setByte block 575 (~~~ xor8Buf block 0 (576 - 1))

/-- The loop of `calc_chain_sig`. -/
def signBlocks : Nat → List CmdMailbox → List CmdMailbox
  | 0, chain => chain
  | _ + 1, [] => []
  | n + 1, box :: rest => { box with buf := calcBlockSig box.buf } :: signBlocks n rest

def calcChainSig (msg : CmdMsg) : CmdMsg :=
  { msg with next := signBlocks (calcCmdBlocks msg.len).toNat msg.next }

/-- What `mlx5_copy_to_msg` writes into one block. -/
def fillBox (token : UInt8) (bytes : List UInt8) (box : CmdMailbox) : CmdMailbox :=
  { box with buf := setByte (storeBytes box.buf 0 bytes) 573 token }

/-- The loop of `mlx5_copy_to_msg`; `none` where the chain is too short (`-ENOMEM`). -/
def copyToBlocks (token : UInt8) : List CmdMailbox → List UInt8 → Option (List CmdMailbox)
  | chain, [] => some chain
  | [], _ :: _ => none
  | box :: rest, byte :: bytes =>
    (copyToBlocks token rest ((byte :: bytes).drop 512)).map (fillBox token ((byte :: bytes).take 512) box :: ·)

def copyToMsg (dst : CmdMsg) (bytes : List UInt8) (token : UInt8) : Option CmdMsg :=
  let first := storeBytes dst.first 0 (bytes.take 16)
  (copyToBlocks token dst.next (bytes.drop 16)).map fun next =>
    { dst with first := first, next := next }

/-- The loop of `mlx5_copy_from_msg`. -/
def copyFromBlocks : List CmdMailbox → Nat → Option (List UInt8)
  | _, 0 => some []
  | [], _ + 1 => none
  | box :: rest, size + 1 =>
    (copyFromBlocks rest (size + 1 - 512)).map (box.data (min (size + 1) 512) ++ ·)

def copyFromMsg (msg : CmdMsg) (size : Nat) : Option (List UInt8) :=
  (copyFromBlocks msg.next (size - 16)).map (loadBytes msg.first 0 (min size 16) ++ ·)

/-- How the allocations of a message end: its structure, and the box of each round with its DMA address. -/
structure MsgMemory where
  msg : Bool
  box : Nat → Option UInt64

def newBox (dma : UInt64) (head : List CmdMailbox) (number : Nat) (token : UInt8) : CmdMailbox :=
  let next := ((head.head?.map CmdMailbox.dma).getD 0).toNat
  let buf := writeBe (writeBe (fun _ => 0) 560 8 next) 568 4 number
  { buf := setByte buf 573 token, dma := dma }

/-- The head of the chain after `i` rounds of the loop of `mlx5_alloc_cmd_msg`. -/
def allocBoxes (memory : MsgMemory) (n : Nat) (token : UInt8) : Nat → Option (List CmdMailbox)
  | 0 => some []
  | i + 1 =>
    (allocBoxes memory n token i).bind fun head =>
      (memory.box i).map fun dma => newBox dma head (n - i - 1) token :: head

def allocCmdMsg (memory : MsgMemory) (size : Nat) (token : UInt8) : Option CmdMsg :=
  if memory.msg then
    let n := (calcCmdBlocks size).toNat
    (allocBoxes memory n token n).map fun head =>
      { parent := none, len := size, first := fun _ => 0, next := head }
  else none

/-- `struct cmd_msg_cache` without lock and names. -/
structure CmdMsgCache where
  head : List CmdMsg
  maxInboxSize : Nat
  numEnt : Nat
  miss : Nat
  totalCommands : Nat
  free : Nat

/-- The loop of `alloc_msg` over the caches. -/
def takeCached (inSize : Nat) : List CmdMsgCache → Bool → Bool → List CmdMsgCache × Option CmdMsg
  | [], _, _ => ([], none)
  | ch :: rest, totalAccounted, missAccounted =>
    if ch.maxInboxSize < inSize then
      let (rest, found) := takeCached inSize rest totalAccounted missAccounted
      (ch :: rest, found)
    else
      let ch := if totalAccounted then ch else { ch with totalCommands := ch.totalCommands + 1 }
      match ch.head with
      | [] =>
        let ch := if missAccounted then ch else { ch with miss := ch.miss + 1 }
        let (rest, found) := takeCached inSize rest true true
        (ch :: rest, found)
      | msg :: others =>
        ({ ch with head := others, free := ch.free - 1 } :: rest, some { msg with len := inSize })

/-- The caches, and the messages that commands have taken and not given back. -/
structure MsgCaches where
  cache : List CmdMsgCache
  realMiss : Nat
  taken : List CmdMsg

def allocMsg (caches : MsgCaches) (memory : MsgMemory) (inSize : Nat) : MsgCaches × Option CmdMsg :=
  if inSize ≤ 16 then (caches, allocCmdMsg memory inSize 0)
  else
    match takeCached inSize caches.cache false false with
    | (cache, some msg) => ({ caches with cache := cache }, some msg)
    | (cache, none) =>
      ({ caches with cache := cache, realMiss := caches.realMiss + 1 }, allocCmdMsg memory inSize 0)

def putBack (msg : CmdMsg) (ch : CmdMsgCache) : CmdMsgCache :=
  { ch with head := ch.head ++ [msg], free := ch.free + 1 }

/-- `free_msg`: a message without parent is released with its boxes. -/
def freeMsg (cache : List CmdMsgCache) (msg : CmdMsg) : List CmdMsgCache :=
  match msg.parent with
  | some parent => cache.modify parent (putBack msg)
  | none => cache

def allocCacheMsgs (memory : Nat → MsgMemory) (size : Nat) : Nat → Nat → List CmdMsg
  | _, 0 => []
  | i, count + 1 =>
    match allocCmdMsg (memory i) size 0 with
    | none => []
    | some msg => msg :: allocCacheMsgs memory size (i + 1) count

/-- Writing `num_ent` of a cache: new messages are linked at the head of their own list and moved to the
tail from there. -/
def numEntStore (index : Nat) (ch : CmdMsgCache) (var : Nat) (memory : Nat → MsgMemory) : CmdMsgCache :=
  if var < ch.numEnt then
    let removed := min (ch.numEnt - var) ch.head.length
    { ch with
      head := ch.head.drop removed, free := ch.free - removed, numEnt := ch.numEnt - removed }
  else
    let added := (allocCacheMsgs memory ch.maxInboxSize 0 (var - ch.numEnt)).reverse
    { ch with
      head := ch.head ++ added.map fun msg => { msg with parent := some index }
      free := ch.free + added.length
      numEnt := ch.numEnt + added.length }

def cmdCacheNumEnt : List Nat := [512, 32, 16, 8, 2]

def cmdCacheEntSize : List Nat :=
  [16 + 512, 16 + 512 * 2, 16 + 512 * 16, 16 + 512 * 256, 16 + 512 * 512]

/-- One cache of `create_msg_cache`. -/
def createCache (memory : Nat → MsgMemory) (index numEnt maxInboxSize : Nat) : CmdMsgCache :=
  let added := allocCacheMsgs memory maxInboxSize 0 numEnt
  { head := added.map fun msg => { msg with parent := some index }
    maxInboxSize := maxInboxSize
    numEnt := numEnt
    miss := 0
    totalCommands := 0
    free := added.length }

/-- `create_msg_cache`; a sub-function leaves its caches zeroed. -/
def createMsgCache (isSf : Bool) (memory : Nat → Nat → MsgMemory) : MsgCaches :=
  let cache :=
    if isSf then cmdCacheNumEnt.map fun _ => ⟨[], 0, 0, 0, 0, 0⟩
    else
      (cmdCacheNumEnt.zip cmdCacheEntSize).mapIdx fun k entry =>
        createCache (memory k) k entry.1 entry.2
  { cache := cache, realMiss := 0, taken := [] }

end MlnxOfed.Command
