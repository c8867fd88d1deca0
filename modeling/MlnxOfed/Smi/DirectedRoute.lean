/-
Directed route SMPs: the pointer rules of `smi.c` and the two places of `mad.c` that apply them, on
receiving and before sending. `readPath` and `writePath` fail outside the 64 entries of a path.
-/

import Mathlib.Algebra.Order.Ring.Int

namespace MlnxOfed.Smi

def IB_SMP_MAX_PATH_HOPS : Nat := 64

def IB_LID_PERMISSIVE : Nat := 0xFFFF

abbrev Path : Type := Fin 64 → Nat

def readPath (path : Path) (index : Int) : Option Nat :=
  if inside : 0 ≤ index ∧ index < 64 then some (path ⟨index.toNat, by omega⟩) else none

def writePath (path : Path) (index : Int) (value : Nat) : Option Path :=
  if inside : 0 ≤ index ∧ index < 64 then
    some (Function.update path ⟨index.toNat, by omega⟩ (value % 256))
  else none

/-- `direction` is the top bit of the status, set in a returning SMP. -/
structure Smp where
  direction : Bool
  hopPtr : Nat
  hopCnt : Nat
  drSlid : Nat
  drDlid : Nat
  initialPath : Path
  returnPath : Path

def Smp.incHopPtr (smp : Smp) : Smp := { smp with hopPtr := (smp.hopPtr + 1) % 256 }

def Smp.decHopPtr (smp : Smp) : Smp := { smp with hopPtr := (smp.hopPtr + 255) % 256 }

inductive SmiAction where
  | discard
  | handle
  deriving DecidableEq

inductive SmiForwardAction where
  | localUp
  | send
  | forward

def handleIf (accepted : Bool) : SmiAction := if accepted then .handle else .discard

def smiHandleDrSmpSend (isSwitch : Bool) (portNum : Nat) (smp : Smp) : Option (SmiAction × Smp) :=
  if IB_SMP_MAX_PATH_HOPS ≤ smp.hopCnt then some (.discard, smp)
  else if smp.direction = false then
    -- C14-9:1
    if smp.hopCnt ≠ 0 ∧ smp.hopPtr = 0 then
      (readPath smp.initialPath smp.incHopPtr.hopPtr).map fun port =>
        (handleIf (port == portNum), smp.incHopPtr)
    -- C14-9:2
    else if smp.hopPtr ≠ 0 ∧ smp.hopPtr < smp.hopCnt then
      if isSwitch = false then some (.discard, smp)
      else
        (readPath smp.initialPath smp.incHopPtr.hopPtr).map fun port =>
          (handleIf (port == portNum), smp.incHopPtr)
    -- C14-9:3
    else if smp.hopPtr = smp.hopCnt then
      some (handleIf (isSwitch || smp.drDlid == IB_LID_PERMISSIVE), smp.incHopPtr)
    -- C14-9:4 and C14-9:5
    else some (handleIf (smp.hopPtr == smp.hopCnt + 1), smp)
  else
    -- C14-13:1
    if smp.hopCnt ≠ 0 ∧ smp.hopPtr = smp.hopCnt + 1 then
      (readPath smp.returnPath smp.decHopPtr.hopPtr).map fun port =>
        (handleIf (port == portNum), smp.decHopPtr)
    -- C14-13:2
    else if 2 ≤ smp.hopPtr ∧ smp.hopPtr ≤ smp.hopCnt then
      if isSwitch = false then some (.discard, smp)
      else
        (readPath smp.returnPath smp.decHopPtr.hopPtr).map fun port =>
          (handleIf (port == portNum), smp.decHopPtr)
    -- C14-13:3
    else if smp.hopPtr = 1 then
      some (handleIf (isSwitch || smp.drSlid == IB_LID_PERMISSIVE), smp.decHopPtr)
    -- C14-13:4 and C14-13:5
    else some (handleIf (smp.hopPtr == 0), smp)

def smiHandleDrSmpRecv (isSwitch : Bool) (portNum physPortCnt : Nat) (smp : Smp) : Option (SmiAction × Smp) :=
  if IB_SMP_MAX_PATH_HOPS ≤ smp.hopCnt then some (.discard, smp)
  else if smp.direction = false then
    -- C14-9:1
    if smp.hopCnt ≠ 0 ∧ smp.hopPtr = 0 then some (.discard, smp)
    -- C14-9:2
    else if smp.hopPtr ≠ 0 ∧ smp.hopPtr < smp.hopCnt then
      if isSwitch = false then some (.discard, smp)
      else
        (writePath smp.returnPath smp.hopPtr portNum).bind fun path =>
          (readPath smp.initialPath (smp.hopPtr + 1)).map fun port =>
            (handleIf (port ≤ physPortCnt), { smp with returnPath := path })
    -- C14-9:3
    else if smp.hopPtr = smp.hopCnt then
      if smp.hopCnt ≠ 0 then
        (writePath smp.returnPath smp.hopPtr portNum).map fun path =>
          (handleIf (isSwitch || smp.drDlid == IB_LID_PERMISSIVE), { smp with returnPath := path })
      else some (handleIf (isSwitch || smp.drDlid == IB_LID_PERMISSIVE), smp)
    -- C14-9:4 and C14-9:5
    else some (handleIf (smp.hopPtr == smp.hopCnt + 1), smp)
  else
    -- C14-13:1
    if smp.hopCnt ≠ 0 ∧ smp.hopPtr = smp.hopCnt + 1 then
      (readPath smp.returnPath smp.decHopPtr.hopPtr).map fun port =>
        (handleIf (port == portNum), smp.decHopPtr)
    -- C14-13:2
    else if 2 ≤ smp.hopPtr ∧ smp.hopPtr ≤ smp.hopCnt then
      if isSwitch = false then some (.discard, smp)
      else
        (readPath smp.returnPath ((smp.hopPtr : Int) - 1)).map fun port =>
          (handleIf (port ≤ physPortCnt), smp)
    -- C14-13:3
    else if smp.hopPtr = 1 then
      if smp.drSlid = IB_LID_PERMISSIVE then some (.handle, smp.decHopPtr)
      else some (handleIf isSwitch, smp)
    -- C14-13:4 and C14-13:5
    else some (handleIf (smp.hopPtr == 0), smp)

def smiCheckForwardDrSmp (smp : Smp) : SmiForwardAction :=
  if smp.direction = false then
    if smp.hopPtr ≠ 0 ∧ smp.hopPtr < smp.hopCnt then .forward
    else if smp.hopPtr = smp.hopCnt then
      if smp.drDlid = IB_LID_PERMISSIVE then .send else .localUp
    else if smp.hopPtr = smp.hopCnt + 1 then .send
    else .localUp
  else
    if 2 ≤ smp.hopPtr ∧ smp.hopPtr ≤ smp.hopCnt then .forward
    else if smp.hopPtr = 1 then
      if smp.drSlid ≠ IB_LID_PERMISSIVE then .send else .localUp
    else .localUp

def smiGetFwdPort (smp : Smp) : Option Nat :=
  if smp.direction = false then readPath smp.initialPath (smp.hopPtr + 1)
  else readPath smp.returnPath ((smp.hopPtr : Int) - 1)

/-- `processMad` says whether the driver has that operation. -/
structure Device where
  isSwitch : Bool
  physPortCnt : Nat
  processMad : Bool

variable (device : Device)

def smiCheckLocalSmp (smp : Smp) : SmiAction :=
  handleIf (device.processMad && !smp.direction && smp.hopPtr == smp.hopCnt + 1)

def smiCheckLocalReturningSmp (smp : Smp) : SmiAction :=
  handleIf (device.processMad && smp.direction && smp.hopPtr == 0)

/-- An SMP handed to `ib_post_send_mad` is refused, put on the wire, or given to the sending node's driver.
-/
inductive Outgoing where
  | invalid
  | wire (smp : Smp)
  | consumed (smp : Smp)

def handleOutgoingDrSmp (portNum : Nat) (smp : Smp) : Option Outgoing :=
  let routed :=
    if (if smp.direction then smp.drDlid else smp.drSlid) = IB_LID_PERMISSIVE then
      smiHandleDrSmpSend device.isSwitch portNum smp
    else some (.handle, smp)
  routed.map fun (action, smp) =>
    if action = .discard then .invalid
    else if smiCheckLocalSmp device smp = .discard ∧
        smiCheckLocalReturningSmp device smp = .discard then .wire smp
    else .consumed smp

/-- The agent is that of `portNum`, or on a switch that of port 0 with `portNum` in the work request: the
outgoing SMP's port either way. -/
def agentSendResponse (portNum : Nat) (smp : Smp) : Option Outgoing :=
  handleOutgoingDrSmp device portNum smp

/-- A received SMP is dropped, sent on by the agent, or handed to the driver and then the node's agents. -/
inductive Received where
  | discarded
  | forwarded (portNum : Nat) (outgoing : Outgoing)
  | handled (smp : Smp)

def handleIbSmi (portNum : Nat) (smp : Smp) : Option Received :=
  (smiHandleDrSmpRecv device.isSwitch portNum device.physPortCnt smp).bind fun (action, smp) =>
    if action = .discard then some .discarded
    else
      match smiCheckForwardDrSmp smp with
      | .localUp => some (.handled smp)
      | .send =>
        (smiHandleDrSmpSend device.isSwitch portNum smp).map fun (action, smp) =>
          if action = .discard then .discarded
          else if smiCheckLocalSmp device smp = .discard then .discarded
          else .handled smp
      | .forward =>
        if device.isSwitch then
          (smiGetFwdPort smp).bind fun port =>
            (agentSendResponse device port smp).map fun outgoing => .forwarded port outgoing
        else some (.handled smp)

/-- Links join two ports and carry both ways; a port number fits a byte, as in `ib_port_info` and the path
arrays. -/
structure Fabric (Node : Type) where
  device : Node → Device
  link : Node → Nat → Option (Node × Nat)
  linkBack : ∀ node port far entry, link node port = some (far, entry) → link far entry = some (node, port)
  portExists : ∀ node port far entry, link node port = some (far, entry) → port ≤ (device node).physPortCnt
  portByte : ∀ node, (device node).physPortCnt < 256

/-- Where a journey ends: at a node that hands the SMP up, one that drops it, or nowhere yet. -/
inductive Fate (Node : Type) where
  | delivered (node : Node) (smp : Smp)
  | lost (node : Node)
  | travelling

variable {Node : Type}

structure Journey (Node : Type) where
  entered : List (Node × Nat)
  fate : Fate Node

/-- What is done at the node whose port an SMP enters, and then at those it is sent to. -/
def carry (fabric : Fabric Node) : Nat → Node → Nat → Smp → Option (Journey Node)
  | 0, _, _, _ => some ⟨[], .travelling⟩
  | fuel + 1, node, entry, smp =>
    match handleIbSmi (fabric.device node) entry smp with
    | none => none
    | some .discarded => some ⟨[(node, entry)], .lost node⟩
    | some (.handled smp) => some ⟨[(node, entry)], .delivered node smp⟩
    | some (.forwarded _ .invalid) => some ⟨[(node, entry)], .lost node⟩
    | some (.forwarded _ (.consumed smp)) => some ⟨[(node, entry)], .delivered node smp⟩
    | some (.forwarded exit (.wire smp)) =>
      match fabric.link node exit with
      | none => some ⟨[(node, entry)], .lost node⟩
      | some (far, farEntry) =>
        (carry fabric fuel far farEntry smp).map fun rest =>
          { rest with entered := (node, entry) :: rest.entered }

/-- An SMP sent by an agent of `node` through `port`. -/
def emit (fabric : Fabric Node) (fuel : Nat) (node : Node) (port : Nat) (smp : Smp) : Option (Journey Node) :=
  match handleOutgoingDrSmp (fabric.device node) port smp with
  | none => none
  | some .invalid => some ⟨[], .lost node⟩
  | some (.consumed smp) => some ⟨[], .delivered node smp⟩
  | some (.wire smp) =>
    match fabric.link node port with
    | none => some ⟨[], .lost node⟩
    | some (far, entry) => carry fabric fuel far entry smp

end MlnxOfed.Smi
