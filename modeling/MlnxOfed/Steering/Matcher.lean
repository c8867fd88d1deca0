/-
Matchers of one steering table (dr_matcher.c, dr_table.c) and the chain of their hash tables: the table's
start anchor, and for each matcher a start table and an end anchor, once for every direction.

A hash table is known by the ICM address of its chunk. Only its first entry is modelled: anchors have no
other, and a start table is linked and grown as a whole. Every device write may fail, and after the first
that does the send ring writes nothing more.
-/

import Mathlib.Data.List.Basic

namespace MlnxOfed.Steering

open Function

inductive NicType where
  | rx
  | tx
  deriving DecidableEq

inductive DomainType where
  | nicRx
  | nicTx
  | fdb
  deriving DecidableEq

def DomainType.nics : DomainType → List NicType
  | .nicRx => [.rx]
  | .nicTx => [.tx]
  | .fdb => [.rx, .tx]

/-- An entry of `mlx5dr_ste_set_formatted_ste`: the tag says whether it always hits, the control part has
both addresses. -/
structure AnchorSte where
  alwaysHit : Bool
  hitAddr : Nat
  missAddr : Nat

def AnchorSte.setHitAddr (ste : AnchorSte) (icmAddr : Nat) : AnchorSte :=
  { ste with hitAddr := icmAddr }

/-- `struct mlx5dr_matcher_rx_tx`. -/
structure NicMatcher where
  sHtbl : Nat
  eAnchor : Nat

structure Matcher where
  id : Nat
  prio : Nat
  nic : NicType → NicMatcher

/-- `struct mlx5dr_table_rx_tx`, with `next_htbl` of the first entry of every hash table, the holder of its
`pointing_ste`, its first entry in the host's copy and on the device, and `err_state` of the send ring, which
both directions share. An internal error of the device has the same effect and is not told from it. -/
structure NicTable where
  errState : Bool
  sAnchor : Nat
  defaultIcmAddr : Nat
  nextHtbl : Nat → Option Nat
  pointingSte : Nat → Option Nat
  hwSte : Nat → AnchorSte
  device : Nat → AnchorSte

structure DrTable where
  dmn : DomainType
  nicTbl : NicType → NicTable
  matcherList : List Matcher

/-- What comes of `mlx5dr_send_postsend_formatted_htbl` on a ring without an error: it fails without memory
for its buffer, or later, when the host's copy is written but the post fails. -/
inductive PostResult where
  | ok
  | noMemory
  | sendFailed
  deriving DecidableEq

inductive ConnectInfo where
  | connectHit (hitNextHtbl : Nat)
  | connectMiss (missIcmAddr : Nat)

def ConnectInfo.formattedSte : ConnectInfo → AnchorSte
  | .connectHit hitNextHtbl => ⟨true, hitNextHtbl, 0⟩
  | .connectMiss missIcmAddr => ⟨false, 0, missIcmAddr⟩

variable (nic : NicTable)

def NicTable.htblInitAndPostsend (htbl : Nat) (info : ConnectInfo)
    (updateHwSte : Bool) (post : PostResult) : NicTable × Bool :=
  let copied := if updateHwSte then
      { nic with hwSte := update nic.hwSte htbl info.formattedSte }
    else nic
  if post = .noMemory then (nic, false)
  -- `dr_postsend_icm_data` returns 0 and posts nothing
  else if nic.errState then (copied, true)
  else if post = .sendFailed then ({ copied with errState := true }, false)
  else ({ copied with device := update nic.device htbl info.formattedSte }, true)

/-- `mlx5dr_ste_htbl_alloc` for a table at a free address. -/
def NicTable.htblAlloc (htbl : Nat) : NicTable :=
  { nic with
    nextHtbl := update nic.nextHtbl htbl none
    pointingSte := update nic.pointingSte htbl none
    hwSte := update nic.hwSte htbl ⟨false, 0, 0⟩ }

/-- `dr_table_init_nic` up to a successful end. -/
def drTableInitNic (sAnchor defaultIcmAddr : Nat) : NicTable :=
  let start : NicTable :=
    { errState := false
      sAnchor := sAnchor
      defaultIcmAddr := defaultIcmAddr
      nextHtbl := fun _ => none
      pointingSte := fun _ => none
      hwSte := fun _ => ⟨false, 0, 0⟩
      device := fun _ => ⟨false, 0, 0⟩ }
  ((start.htblAlloc sAnchor).htblInitAndPostsend sAnchor (.connectMiss defaultIcmAddr) true .ok).1

def drTableInit (dmn : DomainType) (sAnchor defaultIcmAddr : NicType → Nat) : DrTable :=
  { dmn := dmn
    nicTbl := fun type => drTableInitNic (sAnchor type) (defaultIcmAddr type)
    matcherList := [] }

/-- The three writes of `dr_matcher_connect`. -/
structure ConnectPosts where
  eAnchor : PostResult
  sHtbl : PostResult
  prevHtbl : PostResult
  deriving DecidableEq

def drMatcherConnect (curr : NicMatcher) (next prev : Option NicMatcher)
    (posts : ConnectPosts) : NicTable × Bool :=
  let info := match next with
    | some next => ConnectInfo.connectHit next.sHtbl
    | none => ConnectInfo.connectMiss nic.defaultIcmAddr
  let (nic, ok) := nic.htblInitAndPostsend curr.eAnchor info next.isSome posts.eAnchor
  if ok = false then (nic, false)
  else
    let (nic, ok) := nic.htblInitAndPostsend curr.sHtbl (.connectMiss curr.eAnchor) false posts.sHtbl
    if ok = false then (nic, false)
    else
      let prevHtbl := match prev with
        | some prev => prev.eAnchor
        | none => nic.sAnchor
      let (nic, ok) := nic.htblInitAndPostsend prevHtbl (.connectHit curr.sHtbl) true posts.prevHtbl
      if ok = false then (nic, false)
      else
        let nic := { nic with
          pointingSte := update nic.pointingSte curr.sHtbl (some prevHtbl)
          nextHtbl := update nic.nextHtbl prevHtbl (some curr.sHtbl) }
        match next with
        | some next => ({ nic with
            pointingSte := update nic.pointingSte next.sHtbl (some curr.eAnchor)
            nextHtbl := update nic.nextHtbl curr.eAnchor (some next.sHtbl) }, true)
        | none => (nic, true)

variable (tbl : DrTable)

def DrTable.setErrState (errState : Bool) : DrTable :=
  { tbl with nicTbl := fun type => { tbl.nicTbl type with errState := errState } }

def DrTable.setNic (type : NicType) (nic : NicTable) : DrTable :=
  { tbl with nicTbl := update (tbl.setErrState nic.errState).nicTbl type nic }

def connectNics (tbl : DrTable) (matcher : Matcher) (next prev : Option Matcher)
    (posts : NicType → ConnectPosts) : List NicType → DrTable × Bool
  | [] => (tbl, true)
  | type :: rest =>
    let (nic, ok) := drMatcherConnect (tbl.nicTbl type) (matcher.nic type)
      (next.map (·.nic type)) (prev.map (·.nic type)) (posts type)
    if ok = false then (tbl.setNic type nic, false)
    else connectNics (tbl.setNic type nic) matcher next prev posts rest

/-- The first matcher of at least this priority becomes the next one, the last in front of it the previous
one. -/
def drMatcherAddToTbl (matcher : Matcher) (posts : NicType → ConnectPosts) : DrTable × Bool :=
  let before := tbl.matcherList.takeWhile (·.prio < matcher.prio)
  let after := tbl.matcherList.dropWhile (·.prio < matcher.prio)
  let (connected, ok) := connectNics tbl matcher after.head? before.getLast? posts tbl.dmn.nics
  if ok = false then (connected, false)
  else ({ connected with matcherList := before ++ matcher :: after }, true)

def DrTable.matcherInit (matcher : Matcher) : DrTable :=
  { tbl with nicTbl := fun type =>
      ((tbl.nicTbl type).htblAlloc (matcher.nic type).eAnchor).htblAlloc (matcher.nic type).sHtbl }

/-- `initialized`: `dr_matcher_init` succeeds. A matcher that could not be connected is freed. -/
def mlx5drMatcherCreate (matcher : Matcher) (initialized : Bool)
    (posts : NicType → ConnectPosts) : DrTable × Bool :=
  if initialized = false then (tbl, false)
  else drMatcherAddToTbl (tbl.matcherInit matcher) matcher posts

def drMatcherDisconnect (next prev : Option NicMatcher) (post : PostResult) :
    NicTable × Bool :=
  let prevAnchor := match prev with
    | some prev => prev.eAnchor
    | none => nic.sAnchor
  match next with
  | some next =>
    { nic with
      pointingSte := update nic.pointingSte next.sHtbl (some prevAnchor)
      nextHtbl := update nic.nextHtbl prevAnchor (some next.sHtbl) }.htblInitAndPostsend
        prevAnchor (.connectHit next.sHtbl) true post
  | none =>
    { nic with
      nextHtbl := update nic.nextHtbl prevAnchor none }.htblInitAndPostsend
        prevAnchor (.connectMiss nic.defaultIcmAddr) true post

def disconnectNics (tbl : DrTable) (next prev : Option Matcher) (posts : NicType → PostResult) :
    List NicType → DrTable × Bool
  | [] => (tbl, true)
  | type :: rest =>
    let (nic, ok) := drMatcherDisconnect (tbl.nicTbl type) (next.map (·.nic type))
      (prev.map (·.nic type)) (posts type)
    if ok = false then (tbl.setNic type nic, false)
    else disconnectNics (tbl.setNic type nic) next prev posts rest

def drMatcherRemoveFromTbl (before : List Matcher) (after : List Matcher)
    (posts : NicType → PostResult) : DrTable × Bool :=
  let (disconnected, ok) := disconnectNics tbl after.head? before.getLast? posts tbl.dmn.nics
  if ok = false then (disconnected, false)
  else ({ disconnected with matcherList := before ++ after }, true)

/-- The matcher between `before` and `after`, which no rule uses. Its memory is freed even when the removal
fails and leaves it listed. -/
def mlx5drMatcherDestroy (before after : List Matcher)
    (posts : NicType → PostResult) : DrTable :=
  (drMatcherRemoveFromTbl tbl before after posts).1

/-- How far `dr_rule_rehash_htbl` comes: it fails before it touches anything, or while it copies and writes
the new table. -/
inductive RehashResult where
  | ok
  | noMemory
  | copyFailed
  deriving DecidableEq

/-- `dr_rule_rehash_htbl` linking a start table (`ste_location` 1); without a pointing entry it would follow
a null pointer. -/
def drRuleRehashHtbl (nicMatcher : NicMatcher) (newHtbl : Nat)
    (result : RehashResult) : Option (NicTable × NicMatcher) :=
  match result with
  | .noMemory => some (nic, nicMatcher)
  | .copyFailed =>
    (nic.pointingSte nicMatcher.sHtbl).map fun prevHtbl =>
      let nic := nic.htblAlloc newHtbl
      ({ nic with
        pointingSte := update nic.pointingSte newHtbl (some prevHtbl)
        nextHtbl := update nic.nextHtbl prevHtbl (some newHtbl) }, nicMatcher)
  | .ok =>
    (nic.pointingSte nicMatcher.sHtbl).map fun prevHtbl =>
      let nic := nic.htblAlloc newHtbl
      ({ nic with
        pointingSte := update nic.pointingSte newHtbl (some prevHtbl)
        nextHtbl := update nic.nextHtbl prevHtbl (some newHtbl)
        hwSte := update nic.hwSte prevHtbl ((nic.hwSte prevHtbl).setHitAddr newHtbl) },
        { nicMatcher with sHtbl := newHtbl })

def NicTable.postAnchorCtrl (anchor : Nat) : NicTable :=
  let ctrl := nic.hwSte anchor
  if nic.errState then nic
  else
    { nic with
      device := update nic.device anchor ⟨(nic.device anchor).alwaysHit, ctrl.hitAddr, ctrl.missAddr⟩ }

def Matcher.setNic (matcher : Matcher) (type : NicType) (nicMatcher : NicMatcher) : Matcher :=
  { matcher with nic := update matcher.nic type nicMatcher }

/-- What an insertion (`dr_rule_create_rule_nic`) does to the chain when it grows the start table between
`before` and `after`: the update list is sent only when all else succeeded. -/
def drRuleCreateRuleNic (type : NicType) (before : List Matcher) (matcher : Matcher)
    (after : List Matcher) (newHtbl : Nat) (result : RehashResult) (inserted : Bool) : Option DrTable :=
  (drRuleRehashHtbl (tbl.nicTbl type) (matcher.nic type) newHtbl result).map
    fun (nic, nicMatcher) =>
      let nic := match inserted, result, nic.pointingSte newHtbl with
        | true, .ok, some anchor => nic.postAnchorCtrl anchor
        | _, _, _ => nic
      { (tbl.setNic type nic) with
        matcherList := before ++ matcher.setNic type nicMatcher :: after }

end MlnxOfed.Steering
