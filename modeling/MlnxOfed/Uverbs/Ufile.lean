/-
One verbs file with its objects and the threads that use it. The sweep of `uverbs_destroy_ufile_hw` takes
one object a step, so that other threads can move in between.
-/

import MlnxOfed.Uverbs.Uobject

namespace MlnxOfed.Uverbs

/-- Where `__uverbs_cleanup_ufile` is: what is left of the list, and whether `ret` is 0. -/
structure Sweep where
  reason : RemoveReason
  cleaned : Bool
  rest : List Nat

/-- `sweep` is set while `hw_destroy_rwsem` is held for write. -/
structure Ufile where
  objs : Nat → Uobject
  next : Nat
  uobjects : List Nat
  ucontext : Bool
  cleanupRetryable : Bool
  ibDev : Bool
  typeAttrs : Bool
  closed : Bool
  sweep : Option Sweep

def Ufile.initial : Ufile :=
  { objs := fun _ => .blank, next := 0, uobjects := [], ucontext := false, cleanupRetryable := false
    ibDev := true, typeAttrs := true, closed := false, sweep := none }

variable (f : Ufile)

def Ufile.set (i : Nat) (o : Uobject) : Ufile :=
  { f with objs := fun j => if j = i then o else f.objs j }

/-- The object `o` after it was destroyed: its node is off the list. -/
def Ufile.unlist (i : Nat) (o : Uobject) : Ufile :=
  { f.set i o with uobjects := if o.listed then f.uobjects else f.uobjects.erase i }

def Ufile.all (p : Uobject → Bool) : Bool := (List.range f.next).all fun i => p (f.objs i)

/-- `ufile_destroy_ucontext` and the release of the semaphore. -/
def ufileDestroyUcontext : Ufile := { f with ucontext := false, sweep := none }

/-- After the loop of `uverbs_destroy_ufile_hw`. -/
def Ufile.sweepLast (reason : RemoveReason) : Ufile :=
  let f := { f with cleanupRetryable := false }
  if f.uobjects = [] then ufileDestroyUcontext f
  else { f with sweep := some ⟨reason, false, f.uobjects⟩ }

def Ufile.sweepLoop (reason : RemoveReason) : Ufile :=
  if f.uobjects = [] then f.sweepLast reason
  else { f with sweep := some ⟨reason, false, f.uobjects⟩ }

def uverbsDestroyUfileHw (reason : RemoveReason) : Ufile :=
  if f.ucontext then { f with cleanupRetryable := true }.sweepLoop reason else f

/-- One turn of `__uverbs_cleanup_ufile`. A lock that is not free only warns. -/
def Ufile.sweepObject (sweep : Sweep) (i : Nat) (rest : List Nat) (failed : Bool) : Ufile :=
  let o := f.objs i
  let o := (uverbsTryLockObject o .write).getD o
  match uverbsDestroyUobject o f.cleanupRetryable sweep.reason failed with
  | some o => { f.unlist i o with sweep := some ⟨sweep.reason, true, rest⟩ }
  | none => { f.set i { o with usecnt := 0 } with sweep := some { sweep with rest := rest } }

def Ufile.sweepEnd (sweep : Sweep) : Ufile :=
  if f.cleanupRetryable then
    if sweep.cleaned then f.sweepLoop sweep.reason else f.sweepLast sweep.reason
  else ufileDestroyUcontext f

/-! ### The threads -/

/-- No command past the test of `ib_dev` is running, which `synchronize_srcu` waits for; and nobody has
`hw_destroy_rwsem` for read. -/
def Uobject.quiet (o : Uobject) : Bool :=
  !o.creator && o.readers == 0 && !o.writer && !o.destroyer

def Uobject.unused (o : Uobject) : Bool :=
  o.quiet && o.loaded == 0 && o.found == 0 && o.holders == 0

inductive Move where
  | getContext
  /-- `cached`: `attrs->context` is set already, by a lookup of the same command -/
  | allocBegin (typeClass : TypeClass) (cached fails : Bool)
  | setObject (i : Nat)
  | commit (i : Nat)
  | abort (i : Nat) (hwObjValid failed : Bool)
  | load (i : Nat)
  | get (i : Nat)
  | lookup (i : Nat) (sameType : Bool) (mode : LookupMode)
  | put (i : Nat) (mode : LookupMode)
  | destroyLock (i : Nat)
  | destroyUnlock (i : Nat) (failed : Bool)
  | putDestroy (i : Nat)
  | closeFd (i : Nat)
  | fdRelease (i : Nat) (locked failed : Bool)
  | disassociate
  | disassociateApi
  | close
  | sweepStart (reason : RemoveReason)
  | sweepNext (failed : Bool)
  | releaseIdr (i : Nat)
  deriving DecidableEq

/-- `rdma_alloc_begin_uobject`, once `down_read_trylock` succeeded. -/
def Ufile.allocBegin (typeClass : TypeClass) (cached fails : Bool) : Ufile :=
  if f.ucontext && (cached || f.ibDev) then
    { f.set f.next (allocBeginUobject typeClass fails) with next := f.next + 1 }
  else f

def rdmaAllocCommitUobject (i : Nat) : Ufile :=
  let o := uverbsUobjectGet (f.objs i)
  let o := allocCommit { o with listed := true, usecnt := 0, creator := false }
  { f.set i o with uobjects := i :: f.uobjects }

def rdmaAllocAbortUobject (i : Nat) (hwObjValid failed : Bool) : Ufile :=
  let o := f.objs i
  f.unlist i ((uverbsDestroyUobject o f.cleanupRetryable (if hwObjValid then .abortHwobj else .abort)
    failed).getD o)

/-- The end of `uobj_destroy`. -/
def uobjDestroy (i : Nat) (failed : Bool) : Ufile :=
  let o := { f.objs i with destroyer := false }
  match uverbsDestroyUobject o f.cleanupRetryable .destroy failed with
  | some o => f.unlist i { o with userDestroyed := true, finisher := true }
  | none => f.set i { o with usecnt := 0 }

/-- `locked` is the result of `down_read_trylock`. -/
def uverbsUobjectFdRelease (i : Nat) (locked failed : Bool) : Ufile :=
  let o := f.objs i
  let o :=
    if locked then
      let o := (uverbsTryLockObject o .write).getD o
      (uverbsDestroyUobject o f.cleanupRetryable .close failed).getD o
    else o
  f.unlist i (uverbsUobjectPut { o with handle := false })

/-- A file descriptor looked up other than for READ, closed, or of a type gone from the device's table, is
refused before anything is counted. -/
def Ufile.get (i : Nat) : Option Ufile :=
  let o := f.objs i
  match o.typeClass with
  | .idr => if 0 < o.loaded then some (f.set i (lookupGetIdr o)) else none
  | .fd => if o.handle && o.descriptor && f.typeAttrs && !f.closed then some (f.set i (lookupGetFd o)) else none

/-- `none` for moves not possible: the thread is not there, waits for the semaphore, or (a lookup of a file
whose object is gone) the kernel faults. -/
def step (move : Move) : Option Ufile :=
  match move with
  | .getContext =>
    if f.ibDev && !f.closed && !f.ucontext && f.sweep.isNone then some { f with ucontext := true } else none
  | .allocBegin typeClass cached fails =>
    if f.sweep.isNone && !f.closed then some (f.allocBegin typeClass cached fails) else none
  | .setObject i =>
    let o := f.objs i
    if o.creator then some (f.set i { o with object := true }) else none
  | .commit i => if (f.objs i).creator then some (rdmaAllocCommitUobject f i) else none
  | .abort i hwObjValid failed =>
    if (f.objs i).creator && (!hwObjValid || (f.objs i).object) then
      some (rdmaAllocAbortUobject f i hwObjValid failed)
    else none
  | .load i =>
    let o := f.objs i
    if o.typeClass == .idr && o.handle && !f.closed then some (f.set i { o with loaded := o.loaded + 1 })
    else none
  | .get i => f.get i
  | .lookup i sameType mode =>
    let o := f.objs i
    if 0 < o.found && (o.typeClass == .idr || mode == .read) then
      (rdmaLookupGetUobject o f.ibDev sameType mode).map (f.set i)
    else none
  | .put i mode =>
    if (f.objs i).holds mode then (rdmaLookupPutUobject (f.objs i) mode).map (f.set i) else none
  | .destroyLock i =>
    let o := f.objs i
    if f.sweep.isNone && o.holds .destroy then
      match uverbsTryLockObject o .write with
      | some o => some (f.set i { o with destroyer := true })
      | none => some f
    else none
  | .destroyUnlock i failed => if (f.objs i).destroyer then some (uobjDestroy f i failed) else none
  | .putDestroy i =>
    let o := f.objs i
    if o.finisher then (rdmaLookupPutUobject { o with finisher := false } .destroy).map (f.set i) else none
  | .closeFd i =>
    let o := f.objs i
    if o.typeClass == .fd && o.descriptor then
      some (f.set i { o with descriptor := false, fileRefs := o.fileRefs - 1 })
    else none
  | .fdRelease i locked failed =>
    let o := f.objs i
    if o.typeClass == .fd && o.handle && o.fileRefs == 0 && (!locked || f.sweep.isNone) then
      some (uverbsUobjectFdRelease f i locked failed)
    else none
  | .disassociate => some { f with ibDev := false }
  | .disassociateApi => if f.ibDev then none else some { f with typeAttrs := false }
  | .close => if f.all Uobject.unused then some { f with closed := true } else none
  | .sweepStart reason =>
    if f.sweep.isNone && f.all Uobject.quiet &&
        (reason == .close && f.closed || reason == .driverRemove && !f.ibDev) then
      some (uverbsDestroyUfileHw f reason)
    else none
  | .sweepNext failed =>
    match f.sweep with
    | none => none
    | some sweep =>
      match sweep.rest with
      | i :: rest => some (f.sweepObject sweep i rest failed)
      | [] => some (f.sweepEnd sweep)
  | .releaseIdr i =>
    let o := f.objs i
    if o.typeClass == .idr && o.handle && f.closed && f.sweep.isNone && !f.ucontext then
      some (f.set i (uverbsUobjectPut { o with handle := false }))
    else none

def run : Ufile → List Move → Option Ufile
  | f, [] => some f
  | f, move :: moves => (step f move).bind fun f => run f moves

inductive Reachable : Ufile → Prop where
  | initial : Reachable .initial
  | step {f f' : Ufile} (move : Move) (earlier : Reachable f) (moved : step f move = some f') : Reachable f'

end MlnxOfed.Uverbs
