/-
Every directed route SMP whose nodes route it comes to an end, whatever the fabric and its path: a pointer
only moves one way. One that carries a LID is sent on unrouted, and may go round for ever.
-/

import MlnxOfed.Smi.Retrace

namespace MlnxOfed.Smi

open Option

/-- The nodes route an SMP they send where this is permissive. -/
def Smp.sourceLid (smp : Smp) : Nat := if smp.direction then smp.drDlid else smp.drSlid

def Smp.hopsLeft (smp : Smp) : Nat := if smp.direction then smp.hopPtr else 64 - smp.hopPtr

private theorem smiHandleDrSmpRecv_hopsLeft {isSwitch} {portNum physPortCnt} {smp arrived}
    (handled : smiHandleDrSmpRecv isSwitch portNum physPortCnt smp = some (.handle, arrived)) :
    arrived.hopsLeft ≤ smp.hopsLeft ∧ arrived.sourceLid = smp.sourceLid := by
  unfold smiHandleDrSmpRecv IB_SMP_MAX_PATH_HOPS at handled
  split_ifs at handled
  all_goals
    simp only [bind_eq_some_iff, map_eq_some_iff, some.injEq, Prod.mk.injEq] at handled
    grind [Smp.decHopPtr, Smp.hopsLeft, Smp.sourceLid]

private theorem smiHandleDrSmpSend_hopsLeft {isSwitch} {portNum} {smp sent} (counted : smp.hopCnt < 64)
    (onward : smiCheckForwardDrSmp smp = .forward)
    (handled : smiHandleDrSmpSend isSwitch portNum smp = some (.handle, sent)) :
    sent.hopsLeft < smp.hopsLeft ∧ smp.hopsLeft < 64 ∧ sent.sourceLid = smp.sourceLid := by
  unfold smiCheckForwardDrSmp at onward
  unfold smiHandleDrSmpSend IB_SMP_MAX_PATH_HOPS at handled
  split_ifs at onward handled
  all_goals
    simp only [map_eq_some_iff, some.injEq, Prod.mk.injEq] at handled
    grind [Smp.decHopPtr, Smp.incHopPtr, Smp.hopsLeft, Smp.sourceLid]

/-- What is sent on is nearer its end, and the next node routes it too. -/
theorem handleIbSmi_hopsLeft {device} {entry exit} {smp sent} (routed : smp.sourceLid = IB_LID_PERMISSIVE)
    (forwarded : handleIbSmi device entry smp = some (.forwarded exit (.wire sent))) :
    sent.hopsLeft < smp.hopsLeft ∧ sent.hopsLeft < 63 ∧ sent.sourceLid = IB_LID_PERMISSIVE := by
  obtain ⟨⟨action, arrived⟩, received, forwarded⟩ := bind_eq_some_iff.1 forwarded
  cases action with
  | discard => cases forwarded
  | handle =>
    obtain ⟨_, sameCount, counted⟩ := smiHandleDrSmpRecv_kept received
    obtain ⟨nearer, sameLid⟩ := smiHandleDrSmpRecv_hopsLeft received
    dsimp only at forwarded
    rw [if_neg (by decide)] at forwarded
    split at forwarded
    · cases forwarded
    · obtain ⟨⟨action, posted⟩, _, forwarded⟩ := map_eq_some_iff.1 forwarded
      split_ifs at forwarded
    · rename_i onward
      have switch : device.isSwitch = true := by
        by_contra other
        rw [if_neg other] at forwarded
        cases forwarded
      rw [if_pos switch] at forwarded
      obtain ⟨port, _, forwarded⟩ := bind_eq_some_iff.1 forwarded
      obtain ⟨outgoing, out, same⟩ := map_eq_some_iff.1 forwarded
      cases same
      obtain ⟨⟨action, posted⟩, sends, wire⟩ := map_eq_some_iff.1 out
      have permissive : (if arrived.direction then arrived.drDlid else arrived.drSlid) = IB_LID_PERMISSIVE :=
        sameLid.trans routed
      rw [if_pos permissive] at sends
      cases action with
      | discard => cases wire
      | handle =>
        obtain ⟨closer, few, lid⟩ := smiHandleDrSmpSend_hopsLeft (sameCount ▸ counted) onward sends
        dsimp only at wire
        rw [if_neg (by decide)] at wire
        split_ifs at wire
        cases wire
        exact ⟨by omega, by omega, lid.trans (sameLid.trans routed)⟩

variable {Node : Type} (fabric : Fabric Node)

/-- A journey that is over after `fuel` nodes. -/
def Ends (fuel : Nat) (node : Node) (entry : Nat) (smp : Smp) : Prop :=
  ∃ journey, carry fabric fuel node entry smp = some journey ∧ journey.fate ≠ .travelling

theorem Ends.of_forwarded {fuel} {node} {entry} {smp}
    (rest : ∀ exit sent far farEntry,
      handleIbSmi (fabric.device node) entry smp = some (.forwarded exit (.wire sent)) →
      Ends fabric fuel far farEntry sent) :
    Ends fabric (fuel + 1) node entry smp := by
  obtain ⟨received, same⟩ := isSome_iff_exists.1 (handleIbSmi_inside (fabric.device node) entry smp)
  unfold Ends carry
  rw [same]
  cases received with
  | discarded => exact ⟨_, rfl, fun same => by cases same⟩
  | handled smp => exact ⟨_, rfl, fun same => by cases same⟩
  | forwarded exit outgoing =>
    cases outgoing with
    | invalid => exact ⟨_, rfl, fun same => by cases same⟩
    | consumed smp => exact ⟨_, rfl, fun same => by cases same⟩
    | wire sent =>
      dsimp only
      cases fabric.link node exit with
      | none => exact ⟨_, rfl, fun same => by cases same⟩
      | some there =>
        obtain ⟨journey, carried, ended⟩ := rest exit sent there.1 there.2 same
        dsimp only
        rw [carried]
        exact ⟨_, rfl, ended⟩

private theorem ends_of_hopsLeft {fuel} : ∀ node entry smp, smp.sourceLid = IB_LID_PERMISSIVE → smp.hopsLeft < fuel →
    Ends fabric fuel node entry smp := by
  induction fuel with
  | zero => exact fun _ _ _ _ few => absurd few (Nat.not_lt_zero _)
  | succ fuel ends =>
    intro node entry smp routed few
    refine .of_forwarded fabric fun exit sent far farEntry forwarded => ?_
    obtain ⟨nearer, _, lid⟩ := handleIbSmi_hopsLeft routed forwarded
    exact ends far farEntry sent lid (by omega)

/-- Two switches on one cable. -/
def twoSwitches : Fabric Bool where
  device _ := { isSwitch := true, physPortCnt := 1, processMad := true }
  link node port := if port = 1 then some (!node, 1) else none
  linkBack := by
    intro node port far entry linked
    split_ifs at linked with here
    cases linked
    rw [Bool.not_not, here]
    rfl
  portExists := by
    intro node port far entry linked
    split_ifs at linked with here
    exact here.le
  portByte := by decide

def aimless (returnPath : Path) : Smp where
  direction := false
  hopPtr := 1
  hopCnt := 3
  drSlid := 1
  drDlid := IB_LID_PERMISSIVE
  initialPath _ := 1
  returnPath := returnPath

private theorem aimless_travels (fuel) : ∀ node returnPath, ∃ entered,
    carry twoSwitches fuel node 1 (aimless returnPath) = some ⟨entered, .travelling⟩ := by
  induction fuel with
  | zero => exact fun _ _ => ⟨[], rfl⟩
  | succ fuel travels =>
    intro node returnPath
    have forwarded : handleIbSmi (twoSwitches.device node) 1 (aimless returnPath) =
        some (.forwarded 1 (.wire (aimless (Function.update returnPath 1 1)))) := rfl
    obtain ⟨entered, onward⟩ := travels (!node) (Function.update returnPath 1 1)
    refine ⟨(node, 1) :: entered, ?_⟩
    have cable : twoSwitches.link node 1 = some (!node, 1) := rfl
    unfold carry
    rw [forwarded]
    dsimp only
    rw [cable]
    dsimp only
    rw [onward]
    rfl

/-- Whatever its counters and paths, an SMP that the nodes route is delivered or dropped by the 64th node it
enters; one they do not may never be. -/
theorem routed_smp_ends (fabric : Fabric Node) :
    (∀ node entry smp, smp.sourceLid = IB_LID_PERMISSIVE → Ends fabric 64 node entry smp) ∧
    ∃ smp, smp.sourceLid ≠ IB_LID_PERMISSIVE ∧ ∀ fuel, ¬ Ends twoSwitches fuel true 1 smp := by
  refine ⟨?_, aimless fun _ => 0, by decide, ?_⟩
  · intro node entry smp routed
    refine .of_forwarded fabric fun exit sent far farEntry forwarded => ?_
    obtain ⟨_, few, lid⟩ := handleIbSmi_hopsLeft routed forwarded
    exact ends_of_hopsLeft fabric far farEntry sent lid few
  · rintro fuel ⟨journey, carried, ended⟩
    obtain ⟨entered, travels⟩ := aimless_travels fuel true fun _ => 0
    rw [travels] at carried
    cases carried
    exact ended rfl

theorem twoHops_ends : Ends twoAdapters 64 1 1 { twoHops with hopPtr := 1 } :=
  (routed_smp_ends twoAdapters).1 1 1 _ rfl

end MlnxOfed.Smi
