/-
Flow tables of one root namespace (fs_core.c): managed tables with the patching of the miss chain and the
root table. Device commands succeed.

`rules` are those that forward to the next priority or namespace, which `connect_fwd_rules` moves from table
to table; how they are added and deleted is left out.
-/

import MlnxOfed.FsCore.FlowTree

namespace MlnxOfed.FsCore

open Function

structure FlowTable where
  id : Nat
  prio : Nat
  level : Nat
  deriving DecidableEq

inductive FwdAction where
  | fwdNextPrio
  | fwdNextNs
  deriving DecidableEq

/-- `struct mlx5_flow_rule` of a forward-to-next rule: its table and its destination. -/
structure FlowRule where
  id : Nat
  ft : FlowTable
  swAction : FwdAction
  dest : FlowTable
  deriving DecidableEq

/-- `tables` are the children of leaf priorities, `nextFt` the device's next pointers, `released` the tables
let go by their creator. -/
structure RootNs where
  tables : Nat → List FlowTable
  nextFt : Nat → Option FlowTable
  rootFt : Option FlowTable
  rules : List FlowRule
  fwdRules : Nat → List Nat
  released : List FlowTable

def createRootNs : RootNs :=
  { tables := fun _ => []
    nextFt := fun _ => none
    rootFt := none
    rules := []
    fwdRules := fun _ => []
    released := [] }

/-- The children of `root`, from the first or from the last on. -/
def findClosestFtRecursive (tables : Nat → List FlowTable) (reverse ignoreChainsAttr : Bool) :
    FsNodes → Option FlowTable
  | .nil => none
  | .leaf prio _ rest =>
    let here := if reverse then (tables prio).getLast? else (tables prio).head?
    let others := findClosestFtRecursive tables reverse ignoreChainsAttr rest
    if reverse then others.or here else here.or others
  | .node type _ children rest =>
    let here := if type = .prioChains ∧ ignoreChainsAttr = false then none
      else findClosestFtRecursive tables reverse ignoreChainsAttr children
    let others := findClosestFtRecursive tables reverse ignoreChainsAttr rest
    if reverse then others.or here else here.or others

/-- The siblings on one side, searched from `start`. -/
def Frame.findClosestFt (tables : Nat → List FlowTable) (reverse : Bool) (frame : Frame) : Option FlowTable :=
  let ignoreChainsAttr : Bool := frame.parent ≠ .prioChains
  if frame.parent = .prioChains ∧ ignoreChainsAttr = false then none
  else findClosestFtRecursive tables reverse ignoreChainsAttr
    (if reverse then frame.before else frame.after)

def findClosestFt (tables : Nat → List FlowTable) (reverse : Bool) : List Frame → Option FlowTable
  | [] => none
  | frame :: parents =>
    match frame.findClosestFt tables reverse with
    | some ft => some ft
    | none => findClosestFt tables reverse parents

section Tree

variable (tree : FsTree)

def findNextChainedFt (tables : Nat → List FlowTable) (prio : Nat) : Option FlowTable :=
  findClosestFt tables false (tree.frames prio)

def findPrevChainedFt (tables : Nat → List FlowTable) (prio : Nat) : Option FlowTable :=
  findClosestFt tables true (tree.frames prio)

def FsTree.nsOf (tree : FsTree) (prio : Nat) : List Nat :=
  match tree.frames prio with
  | frame :: _ => frame.before.leaves ++ prio :: frame.after.leaves
  | [] => []

variable (root : RootNs)

def RootNs.connectFtsInPrio (prio : Nat) (ft : Option FlowTable) : RootNs :=
  { root with
    nextFt := fun id => if id ∈ (root.tables prio).map FlowTable.id then ft else root.nextFt id }

def connectPrevFts (ft : Option FlowTable) (prio : Nat) : RootNs :=
  match findPrevChainedFt tree root.tables prio with
  | some prevFt => root.connectFtsInPrio prevFt.prio ft
  | none => root

def updateRootFtCreate (ft : FlowTable) : RootNs :=
  match root.rootFt with
  | some rootFt => if ft.level ≥ rootFt.level then root else { root with rootFt := some ft }
  | none => { root with rootFt := some ft }

/-- The rule loop of `connect_fwd_rules`. -/
def FlowRule.redirect (newNextFt : FlowTable) (rule : FlowRule) : FlowRule :=
  if rule.swAction = .fwdNextNs ∧ tree.nsOf rule.ft.prio = tree.nsOf newNextFt.prio then rule
  else { rule with dest := newNextFt }

def connectFwdRules (newNextFt oldNextFt : Option FlowTable) : RootNs :=
  match newNextFt, oldNextFt with
  | some newNext, some oldNext =>
    let spliced := root.fwdRules oldNext.id ++ root.fwdRules newNext.id
    { root with
      fwdRules := update (update root.fwdRules oldNext.id []) newNext.id
        spliced
      rules := root.rules.map fun rule =>
        if rule.id ∈ spliced then rule.redirect tree newNext else rule }
  | _, _ => root

/-- `modifyRoot` is the device capability of that name. -/
def connectFlowTable (modifyRoot : Bool) (root : RootNs) (ft : FlowTable) (prio : Nat) : RootNs :=
  let firstFt := (root.tables prio).head?
  let isFirst := match firstFt with
    | some first => decide (first.level > ft.level)
    | none => true
  let connected :=
    if isFirst then
      let root := connectPrevFts tree root (some ft) prio
      let nextFt := match firstFt with
        | some first => some first
        | none => findNextChainedFt tree root.tables prio
      connectFwdRules tree root (some ft) nextFt
    else root
  if modifyRoot then updateRootFtCreate connected ft else connected

def listAddFlowTable (ft : FlowTable) : List FlowTable → List FlowTable
  | [] => [ft]
  | iter :: rest => if iter.level > ft.level then ft :: iter :: rest
      else iter :: listAddFlowTable ft rest

/-- A new managed table at a level of the priority; `id` is its address. -/
def mlx5CreateFlowTable (modifyRoot : Bool) (root : RootNs) (id prio level : Nat) : Option RootNs :=
  match tree.attrs.find? (·.prio = prio) with
  | none => none
  | some attrs =>
    if level ≥ attrs.numLevels then none
    else
      let ft : FlowTable := ⟨id, prio, level + attrs.startLevel⟩
      let nextFt := findNextChainedFt tree root.tables prio
      let created := { root with
        nextFt := update root.nextFt id nextFt
        fwdRules := update root.fwdRules id [] }
      let connected := connectFlowTable tree modifyRoot created ft prio
      some { connected with
        tables := update connected.tables prio (listAddFlowTable ft (connected.tables prio)) }

/-- The table behind `ft` in the list of its priority. -/
def listNextFt (ft : FlowTable) : List FlowTable → Option FlowTable
  | [] => none
  | iter :: rest => if iter = ft then rest.head? else listNextFt ft rest

def findNextFt (tables : Nat → List FlowTable) (ft : FlowTable) : Option FlowTable :=
  match listNextFt ft (tables ft.prio) with
  | some next => some next
  | none => findNextChainedFt tree tables ft.prio

def updateRootFtDestroy (ft : FlowTable) : RootNs :=
  if root.rootFt = some ft then { root with rootFt := findNextFt tree root.tables ft } else root

def disconnectFlowTable (ft : FlowTable) : RootNs :=
  let root := updateRootFtDestroy tree root ft
  if (root.tables ft.prio).head? ≠ some ft then root
  else
    let nextFt := findNextFt tree root.tables ft
    connectPrevFts tree (connectFwdRules tree root nextFt (some ft)) nextFt ft.prio

/-- `tree_put_node`: a table goes when creator and rules have let go. -/
def putFlowTable (ft : FlowTable) : RootNs :=
  if ft ∈ root.released ∧ root.rules.all (·.ft ≠ ft) then
    { root with
      tables := update root.tables ft.prio ((root.tables ft.prio).erase ft)
      released := root.released.erase ft }
  else root

def mlx5DestroyFlowTable (ft : FlowTable) : RootNs :=
  let root := disconnectFlowTable tree root ft
  putFlowTable { root with released := ft :: root.released } ft

end Tree

end MlnxOfed.FsCore
