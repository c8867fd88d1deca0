/-
The user objects of one verbs file (`rdma_core.c`): lock counter, references and the three ways by which the
hardware object goes away. A step is one atomic operation, a section under the list's lock, or the part of a
function that `hw_destroy_rwsem` or the object's own lock keeps to one thread.
-/


namespace MlnxOfed.Uverbs

inductive LookupMode where
  | read | write | destroy
  deriving DecidableEq

inductive RemoveReason where
  | destroy | close | driverRemove | abort | abortHwobj
  deriving DecidableEq

/-- `uverbs_idr_class` and `uverbs_fd_class`. -/
inductive TypeClass where
  | idr | fd
  deriving DecidableEq

/-- `handle` is the xarray's entry, or the file's `private_data`; `listed`: `list` is on `ufile->uobjects`.
From `freed` on it is a record of the object and of the threads that have it: those that saw its pointer in
the xarray, those that also took a reference, and the holders after that. A holder in mode DESTROY has the
reference but no lock until it is the destroyer, in `uobj_destroy`, and is the finisher from its success
until `uobj_put_destroy`. -/
structure Uobject where
  allocated : Bool
  typeClass : TypeClass
  object : Bool
  context : Bool
  charged : Bool
  handle : Bool
  listed : Bool
  descriptor : Bool
  fileRefs : Nat
  ref : Nat
  usecnt : Int
  freed : Nat
  hwDestroyed : Nat
  userDestroyed : Bool
  creator : Bool
  loaded : Nat
  found : Nat
  readers : Nat
  writer : Bool
  holders : Nat
  destroyer : Bool
  finisher : Bool

def Uobject.blank : Uobject :=
  { allocated := false, typeClass := .idr, object := false, context := false, charged := false
    handle := false, listed := false, descriptor := false, fileRefs := 0, ref := 0, usecnt := 0
    freed := 0, hwDestroyed := 0, userDestroyed := false, creator := false, loaded := 0, found := 0
    readers := 0, writer := false, holders := 0, destroyer := false, finisher := false }

variable (o : Uobject)

/-- `kref_put` with `uverbs_uobject_free`. -/
def uverbsUobjectPut : Uobject :=
  { o with ref := o.ref - 1, freed := if o.ref - 1 = 0 then o.freed + 1 else o.freed }

def uverbsUobjectGet : Uobject := { o with ref := o.ref + 1 }

variable (mode : LookupMode)

/-- `none` is `-EBUSY`. -/
def uverbsTryLockObject : Option Uobject :=
  match mode with
  | .read => if o.usecnt = -1 then none else some { o with usecnt := o.usecnt + 1 }
  | .write => if o.usecnt = 0 then some { o with usecnt := -1 } else none
  | .destroy => some o

/-- `failed` is the driver's `ret` being nonzero. -/
def ibIsDestroyRetryable (cleanupRetryable failed : Bool) (why : RemoveReason) : Bool :=
  failed && (why == .destroy || cleanupRetryable)

/-- `alloc_uobj`, and for a file what `alloc_begin_fd_uobject` adds. -/
def allocUobj (typeClass : TypeClass) : Uobject :=
  { Uobject.blank with
    allocated := true
    typeClass := typeClass
    context := true
    usecnt := -1
    ref := 1
    creator := true }

/-- `alloc_begin_idr_uobject` and `alloc_begin_fd_uobject`; `fails`: an error after `alloc_uobj`, and the
object is put. -/
def allocBeginUobject (typeClass : TypeClass) (fails : Bool) : Uobject :=
  let o := allocUobj typeClass
  if fails then uverbsUobjectPut { o with creator := false }
  else
    match typeClass with
    | .idr => { o with charged := true }
    | .fd => { o with object := true, fileRefs := 1 }

def allocAbort : Uobject :=
  match o.typeClass with
  | .idr => { o with charged := false, handle := false }
  | .fd => { o with fileRefs := o.fileRefs - 1 }

/-- The reference of the creator goes to the xarray, or to the file that is installed. -/
def allocCommit : Uobject :=
  match o.typeClass with
  | .idr => { o with handle := true }
  | .fd => { o with handle := true, descriptor := true }

/-- `destroy_hw_idr_uobject` and `destroy_hw_fd_uobject`; `none` is an error. A driver's error that may not
be retried counts as a destruction. -/
def destroyHw (cleanupRetryable : Bool) (why : RemoveReason) (failed : Bool) : Option Uobject :=
  if ibIsDestroyRetryable cleanupRetryable failed why then none
  else
    let o := { o with hwDestroyed := o.hwDestroyed + 1 }
    match o.typeClass with
    | .idr => if why = .abort then some o else some { o with charged := false }
    | .fd => some o

def removeHandle : Uobject :=
  match o.typeClass with
  | .idr => uverbsUobjectPut { o with handle := false }
  | .fd => o

/-- `list_del_init`, and the reference of the list. -/
def uobjectUnlist : Uobject :=
  if o.listed then uverbsUobjectPut { o with listed := false } else o

/-- The part of `uverbs_destroy_uobject` after the hardware object is gone. -/
def uobjectRemoved (reason : RemoveReason) : Uobject :=
  let o := { o with context := false }
  let o := if reason ≠ .destroy then { o with usecnt := 0 } else removeHandle o
  let o := uobjectUnlist o
  if reason = .abort then uverbsUobjectPut { o with creator := false } else o

/-- `none` is an error; the object is then as it was. -/
def uverbsDestroyUobject (cleanupRetryable : Bool) (reason : RemoveReason) (failed : Bool) : Option Uobject :=
  match reason with
  | .abortHwobj =>
    let o := (destroyHw o cleanupRetryable .abort failed).getD o
    some (uobjectRemoved (allocAbort o) .abort)
  | .abort => some (uobjectRemoved (allocAbort o) .abort)
  | reason =>
    if o.object then
      match destroyHw o cleanupRetryable reason failed with
      | none => none
      | some o => some (uobjectRemoved { o with object := false } reason)
    else some (uobjectRemoved o reason)

/-- `lookup_put_fd_uobject` puts the file of `object`; once that is NULL the `fput` faults. -/
def lookupPut : Option Uobject :=
  match o.typeClass with
  | .idr => some o
  | .fd => if o.object then some { o with fileRefs := o.fileRefs - 1 } else none

/-- `kref_get_unless_zero` on the pointer of `xa_load`; on 0 the lookup fails with `-ENOENT`. -/
def lookupGetIdr : Uobject :=
  let o := { o with loaded := o.loaded - 1 }
  if o.ref = 0 then o else { uverbsUobjectGet o with found := o.found + 1 }

/-- `fget`, for a descriptor that is still open, and the reference. -/
def lookupGetFd : Uobject :=
  { uverbsUobjectGet o with fileRefs := o.fileRefs + 1, found := o.found + 1 }

/-- The `free` label of `rdma_lookup_get_uobject`. -/
def lookupFree : Option Uobject :=
  (lookupPut o).map fun o => uverbsUobjectPut { o with found := o.found - 1 }

/-- The thread that found the object has it now in `mode`. -/
def Uobject.hold : Uobject :=
  let o := { o with found := o.found - 1 }
  match mode with
  | .read => { o with readers := o.readers + 1 }
  | .write => { o with writer := true }
  | .destroy => { o with holders := o.holders + 1 }

/-- The part of `rdma_lookup_get_uobject` after `lookup_get`. -/
def rdmaLookupGetUobject (ibDev sameType : Bool) (mode : LookupMode) : Option Uobject :=
  if !sameType then lookupFree o
  else if mode ≠ .destroy ∧ !ibDev then lookupFree o
  else
    match uverbsTryLockObject o mode with
    | none => lookupFree o
    | some o => some (o.hold mode)

def Uobject.release : Uobject :=
  match mode with
  | .read => { o with readers := o.readers - 1, usecnt := o.usecnt - 1 }
  | .write => { o with writer := false, usecnt := 0 }
  | .destroy => { o with holders := o.holders - 1 }

def rdmaLookupPutUobject : Option Uobject :=
  (lookupPut (o.release mode)).map uverbsUobjectPut

/-- A thread other than destroyer and finisher is in the mode that may call `rdma_lookup_put_uobject`. -/
def Uobject.holds : Bool :=
  match mode with
  | .read => 0 < o.readers
  | .write => o.writer
  | .destroy => o.destroyer.toNat + o.finisher.toNat < o.holders

end MlnxOfed.Uverbs
