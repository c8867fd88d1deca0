/-
Pages given to firmware (pagealloc.c): system pages cut into chunks of 4K, a tree by DMA address for each
function, and one list of the pages with a free chunk for all.
-/

import MlnxOfed.Lib.SearchTree
import MlnxOfed.Lib.WordBitmap

namespace MlnxOfed.PageAlloc

open List Function Lib

/-- `struct fw_page`; its place in tree and free list is known by its pointer. -/
structure FwPage where
  addr : Nat
  function : Nat
  bitmask : Words
  freeCount : Nat

inductive Errno where
  | noMem
  | noEnt
  | exist
  | inval
  | command
deriving DecidableEq

/-- What is fixed: the system's page size, running on the embedded CPU, and the balancing of trees. -/
structure PageConfig where
  pageShift : Nat
  isEcpf : Bool
  balance : SearchTree.Balance Nat
  atLeast4k : 12 ≤ pageShift
  atMost64Chunks : pageShift ≤ 18

def PageConfig.num4kInPage (config : PageConfig) : Nat := 2 ^ (config.pageShift - 12)

structure PageDev where
  pageRoot : Nat → Option (SearchTree Nat)
  page : Nat → FwPage
  freeList : List Nat
  fwPages : Int
  vfsPages : Int
  hostPfPages : Int

def PageDev.empty : PageDev where
  pageRoot _ := none
  page _ := ⟨0, 0, Words.zero, 0⟩
  freeList := []
  fwPages := 0
  vfsPages := 0
  hostPfPages := 0

def PageDev.addr (dev : PageDev) (fp : Nat) : Nat := (dev.page fp).addr

def getFunction (funcId : UInt16) (ecFunction : Bool) : Nat :=
  funcId.toNat ||| (ecFunction.toNat <<< 16)

def getFuncId (function : Nat) : Nat := function % 2 ^ 16

def pageRootPerFunction (dev : PageDev) (memory : Bool) (function : Nat) : PageDev × Option (SearchTree Nat) :=
  match dev.pageRoot function with
  | some root => (dev, some root)
  | none =>
    if memory then
      ({ dev with pageRoot := update dev.pageRoot function (some .leaf) }, some .leaf)
    else (dev, none)

def findFwPage (dev : PageDev) (addr function : Nat) : Option Nat :=
  (dev.pageRoot function).bind (SearchTree.search dev.addr addr)

/-- The allocations and mappings for a system page: the page, each try to map it, the root of a new tree,
the `struct fw_page`. -/
structure SystemPage where
  page : Bool
  maps : List (Option Nat)
  root : Bool
  node : Option Nat

variable (config : PageConfig)

def newFwPage (addr function : Nat) : FwPage where
  addr := addr
  function := function
  bitmask := (range config.num4kInPage).foldl Words.setBit Words.zero
  freeCount := config.num4kInPage

variable (dev : PageDev)

def insertPage (memory : SystemPage) (addr function : Nat) : PageDev × Option Errno :=
  match pageRootPerFunction dev memory.root function with
  | (dev, none) => (dev, some .noMem)
  | (dev, some root) =>
    match root.search dev.addr addr with
    | some _ => (dev, some .exist)
    | none =>
      match memory.node with
      | none => (dev, some .noMem)
      | some nfp =>
        let root := config.balance.insertColor (root.link dev.addr addr nfp)
        ({ dev with
            page := update dev.page nfp (newFwPage config addr function)
            pageRoot := update dev.pageRoot function (some root)
            freeList := nfp :: dev.freeList }, none)

def mapPage : List (Option Nat) → Option Nat
  | [] => none
  | none :: _ => none
  | some addr :: later => if addr = 0 then mapPage later else some addr

def allocSystemPage (memory : SystemPage) (function : Nat) : PageDev × Option Errno :=
  if memory.page then
    match mapPage memory.maps with
    | none => (dev, some .noMem)
    | some addr => insertPage config dev memory addr function
  else (dev, some .noMem)

def findFirstBit (bitmask : Words) (size : Nat) : Nat :=
  ((range size).find? bitmask.testBit).getD size

def lastFree (function : Nat) : Option Nat :=
  (dev.freeList.filter fun iter => (dev.page iter).function = function).getLast?

def alloc4k (function : Nat) : Except Errno (PageDev × Nat) :=
  match lastFree dev function with
  | none => .error .noMem
  | some fp =>
    let page := dev.page fp
    let n := findFirstBit page.bitmask 64
    if config.num4kInPage ≤ n then .error .noEnt
    else
      let page :=
        { page with bitmask := page.bitmask.clearBit n, freeCount := page.freeCount - 1 }
      .ok ({ dev with
          page := update dev.page fp page
          freeList := if page.freeCount = 0 then dev.freeList.erase fp else dev.freeList },
        page.addr + n * 4096)

def freeFwp (fwp : Nat) (inFreeList : Bool) : PageDev :=
  let function := (dev.page fwp).function
  match dev.pageRoot function with
  | none => dev
  | some root =>
    { dev with
      pageRoot := update dev.pageRoot function (some (config.balance.erase fwp root))
      freeList := if inFreeList then dev.freeList.erase fwp else dev.freeList }

/-- `addr & MLX5_U64_4K_PAGE_MASK` -/
def pageBase (addr : Nat) : Nat := addr / 2 ^ config.pageShift * 2 ^ config.pageShift

def chunkOf (addr : Nat) : Nat := addr % 2 ^ config.pageShift / 4096

def free4k (addr function : Nat) : PageDev × Option Errno :=
  match findFwPage dev (pageBase config addr) function with
  | none => (dev, some .noMem)
  | some fwp =>
    let page := dev.page fwp
    let n := chunkOf config addr
    if page.bitmask.testBit n then (dev, some .inval)
    else
      let page := { page with freeCount := page.freeCount + 1, bitmask := page.bitmask.setBit n }
      let dev := { dev with page := update dev.page fwp page }
      if page.freeCount = config.num4kInPage then
        (freeFwp config dev fwp (page.freeCount != 1), none)
      else if page.freeCount = 1 then ({ dev with freeList := fwp :: dev.freeList }, none)
      else (dev, none)

def countPages (funcId : UInt16) (ecFunction : Bool) (npages : Int) : PageDev :=
  let dev := { dev with fwPages := dev.fwPages + npages }
  if funcId ≠ 0 then { dev with vfsPages := dev.vfsPages + npages }
  else if config.isEcpf && !ecFunction then { dev with hostPfPages := dev.hostPfPages + npages }
  else dev

/-- The `retry` loop for one chunk; the system pages left to come are returned. -/
def allocRetry (function : Nat) : List SystemPage → PageDev → PageDev × List SystemPage × Except Errno Nat
  | [], dev =>
    match alloc4k config dev function with
    | .ok (dev, addr) => (dev, [], .ok addr)
    | .error err => (dev, [], .error err)
  | page :: memory, dev =>
    match alloc4k config dev function with
    | .ok (dev, addr) => (dev, page :: memory, .ok addr)
    | .error .noMem =>
      match allocSystemPage config dev page function with
      | (dev, none) => allocRetry function memory dev
      | (dev, some err) => (dev, memory, .error err)
    | .error err => (dev, page :: memory, .error err)

/-- The loop of `give_pages`, with the addresses so far, the last one first. -/
def givePagesLoop (expired : Nat → Bool) (function : Nat) :
    Nat → Nat → PageDev → List SystemPage → List Nat → PageDev × List Nat × Option Errno
  | 0, _, dev, _, pas => (dev, pas, none)
  | npages + 1, i, dev, memory, pas =>
    if expired i then (dev, pas, some .noMem)
    else
      match allocRetry config function memory dev with
      | (dev, memory, .ok addr) =>
        givePagesLoop expired function npages (i + 1) dev memory (addr :: pas)
      | (dev, _, .error err) => (dev, pas, some err)

/-- What `give_pages` meets: its command's allocation, the clock, system pages, and the command. -/
structure GiveEnv where
  command : Bool
  expired : Nat → Bool
  memory : List SystemPage
  executed : Bool

/-- `give_pages`, with the addresses given where it succeeds. -/
def givePages (env : GiveEnv) (funcId : UInt16) (npages : Nat)
    (ecFunction : Bool) : PageDev × Except Errno (List Nat) :=
  let function := getFunction funcId ecFunction
  let undo (dev : PageDev) (pas : List Nat) : PageDev :=
    pas.foldl (fun dev addr => (free4k config dev addr function).1) dev
  if env.command then
    match givePagesLoop config env.expired function npages 0 dev env.memory [] with
    | (dev, pas, some err) => (undo dev pas, .error err)
    | (dev, pas, none) =>
      if env.executed then (countPages config dev funcId ecFunction npages, .ok pas.reverse)
      else (undo dev pas, .error .command)
  else (dev, .error .noMem)

def releaseAllPages (funcId : UInt16) (ecFunction : Bool) : PageDev :=
  match dev.pageRoot (getFunction funcId ecFunction) with
  | none => dev
  | some root =>
    let (dev, npages) := root.toList.foldl
      (fun (state : PageDev × Nat) fwp =>
        let freeCount := (state.1.page fwp).freeCount
        (freeFwp config state.1 fwp (freeCount != 0), state.2 + (config.num4kInPage - freeCount)))
      (dev, 0)
    countPages config dev funcId ecFunction (-npages)

/-- The chunks of a page in use, as `fwp_fill_manage_pages_out` lists them. -/
def usedChunks (page : FwPage) : List Nat :=
  ((range config.num4kInPage).filter fun n => !page.bitmask.testBit n).map
    fun n => page.addr + n * 4096

/-- An answer of `reclaim_pages_cmd`: the error, its number of entries and addresses. -/
inductive ReclaimReply where
  | failed
  | entries (count : UInt32) (pas : Nat → Nat)

/-- `reclaim_pages_cmd`; with the command interface down it answers from the tree. -/
def reclaimPagesCmd (isDown : Bool) (reply : ReclaimReply) (function npages : Nat) :
    ReclaimReply :=
  if isDown then
    match dev.pageRoot function with
    | none => .failed
    | some root =>
      let pas := (root.toList.flatMap fun fwp => usedChunks config (dev.page fwp)).take npages
      .entries (UInt32.ofNat pas.length) (pas.getD · 0)
  else reply

/-- The loop of `reclaim_pages`, with the addresses `free_4k` took, the last one first. -/
def reclaimLoop (function : Nat) (pas : Nat → Nat) : Nat → PageDev → PageDev × List Nat
  | 0, dev => (dev, [])
  | i + 1, dev =>
    let (dev, claimed) := reclaimLoop function pas i dev
    match free4k config dev (pas i) function with
    | (dev, none) => (dev, pas i :: claimed)
    | (dev, some _) => (dev, claimed)

/-- `reclaim_pages`, with the addresses taken. -/
def reclaimPages (memory isDown : Bool) (reply : ReclaimReply)
    (funcId : UInt16) (npages : Nat) (ecFunction : Bool) : PageDev × List Nat :=
  let function := getFunction funcId ecFunction
  if memory then
    match reclaimPagesCmd config dev isDown reply function npages with
    | .failed => (dev, [])
    | .entries count pas =>
      let numClaimed := count.toInt32.toInt
      if (npages : Int) < numClaimed then (dev, [])
      else
        let (dev, claimed) := reclaimLoop config function pas numClaimed.toNat dev
        (countPages config dev funcId ecFunction (-claimed.length), claimed)
  else (dev, [])

end MlnxOfed.PageAlloc
