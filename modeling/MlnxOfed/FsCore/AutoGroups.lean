/-
The flow groups of an auto-grouped table (fs_core.c): those made for a rule that no group matches, those a
caller asks for in the reserved part, and the indexes of their entries.

Groups are in list order and known by their place. Indexes are `u32`. A group for a rule is inserted before
the device is asked for it and put when the device refuses: two operations.
-/

import MlnxOfed.Lib.FirstFit

namespace MlnxOfed.FsCore

open Lib

inductive GroupErr where
  | enoent
  | enospc
  | enomem
  | eperm
  | einval
  | device

/-- `struct mlx5_flow_group`; `auto`: of `alloc_auto_flow_group`; `fteAllocator`: the numbers given out;
`ftes`: the index of each entry. -/
structure FlowGroup where
  startIndex : Nat
  maxFtes : Nat
  auto : Bool
  fteAllocator : List Nat
  ftes : List Nat

structure Autogroup where
  active : Bool
  requiredGroups : Nat
  groupSize : Nat
  numGroups : Nat
  maxFte : Nat

/-- `struct mlx5_flow_table`. -/
structure GroupedTable where
  maxFte : Nat
  autogroup : Autogroup
  groups : List FlowGroup

def u32 (value : Nat) : Nat := value % 2 ^ 32

def maxFlowGroupSize : Int := 2 ^ 24

/-- `mlx5_create_auto_grouped_flow_table` for a table of `maxFte` entries; an `int` are left for the groups.
-/
def mlx5CreateAutoGroupedFlowTable (maxFte maxNumGroups numReservedEntries : Nat) :
    Except GroupErr GroupedTable :=
  let autogroupsMaxFte : Int := ((maxFte : Int) - numReservedEntries).bmod (2 ^ 32)
  if (maxNumGroups : Int) > autogroupsMaxFte then .error .enospc
  else if numReservedEntries > maxFte then .error .enospc
  else
    let maxNumGroups : Int :=
      if autogroupsMaxFte / (maxNumGroups + 1) > maxFlowGroupSize then
        autogroupsMaxFte / maxFlowGroupSize - 1
      else maxNumGroups
    .ok { maxFte := maxFte
          autogroup :=
            { active := true
              requiredGroups := maxNumGroups.toNat
              groupSize := (autogroupsMaxFte / (maxNumGroups + 1)).toNat
              numGroups := 0
              maxFte := autogroupsMaxFte.toNat }
          groups := [] }

def allocFlowGroup (auto : Bool) (startIndex endIndex : Nat) : FlowGroup where
  startIndex := startIndex
  maxFtes := u32 (endIndex + 2 ^ 32 - startIndex + 1)
  auto := auto
  fteAllocator := []
  ftes := []

namespace GroupedTable

variable (ft : GroupedTable)

/-- The size `alloc_auto_flow_group` looks for. -/
def chosenSize : Nat :=
  let groupSize :=
    if ft.autogroup.numGroups < ft.autogroup.requiredGroups then ft.autogroup.groupSize else 0
  if groupSize = 0 then 1 else groupSize

/-- The loop of `alloc_auto_flow_group`: candidate index and groups passed. -/
def findCandidate (groupSize candidateIndex : Nat) : List FlowGroup → Nat × Nat
  | [] => (candidateIndex, 0)
  | fg :: rest =>
    if u32 (candidateIndex + groupSize) > fg.startIndex then
      let later := findCandidate groupSize (u32 (fg.startIndex + fg.maxFtes)) rest
      (later.1, later.2 + 1)
    else (candidateIndex, 0)

def allocAutoFlowGroup (allocFails : Bool) : Except GroupErr GroupedTable :=
  if ft.autogroup.active = false then .error .enoent
  else
    let groupSize := ft.chosenSize
    let candidate := findCandidate groupSize 0 ft.groups
    if u32 (candidate.1 + groupSize) > ft.autogroup.maxFte then .error .enospc
    else if allocFails then .error .enomem
    else
      let fg := allocFlowGroup true candidate.1 (u32 (candidate.1 + groupSize - 1))
      .ok { ft with
        groups := ft.groups.take candidate.2 ++ fg :: ft.groups.drop candidate.2
        autogroup :=
          if groupSize = ft.autogroup.groupSize then
            { ft.autogroup with numGroups := ft.autogroup.numGroups + 1 }
          else ft.autogroup }

/-- The last reference to a group: `del_hw_flow_group`, whose failure is only logged, and
`del_sw_flow_group`. -/
def putFlowGroup (place : Nat) : GroupedTable :=
  match ft.groups[place]? with
  | none => ft
  | some fg =>
    { ft with
      groups := ft.groups.eraseIdx place
      autogroup :=
        if ft.autogroup.active ∧ fg.maxFtes = ft.autogroup.groupSize ∧
            fg.startIndex < ft.autogroup.maxFte then
          { ft.autogroup with numGroups := ft.autogroup.numGroups - 1 }
        else ft.autogroup }

/-- `mlx5_create_flow_group`: the group ends the list while the device is asked. -/
def mlx5CreateFlowGroup (startIndex endIndex : UInt32)
    (validMatcher allocFails commandFails : Bool) : GroupedTable × Option GroupErr :=
  if ft.autogroup.active ∧ startIndex.toNat < ft.autogroup.maxFte then (ft, some .eperm)
  else if validMatcher = false then (ft, some .einval)
  else if allocFails then (ft, some .enomem)
  else
    let fg := allocFlowGroup false startIndex.toNat endIndex.toNat
    let inserted := { ft with groups := ft.groups ++ [fg] }
    if commandFails then (inserted.putFlowGroup ft.groups.length, some .device)
    else (inserted, none)

/-- `ida_simple_get` from 0: the lowest free number below `last`; 0 stands for no bound, and bounds are cut
at `INT_MAX`. -/
def idaSimpleGet (used : List Nat) (last : Nat) : Option Nat :=
  let max := if last = 0 ∨ 2 ^ 31 < last then 2 ^ 31 - 1 else last - 1
  ((List.range (used.length + 1)).find? fun number => number ∉ used).filter fun number =>
    number ≤ max

def insertFte (place : Nat) (hashFails : Bool) : GroupedTable × Option GroupErr :=
  match ft.groups[place]? with
  | none => (ft, some .enoent)
  | some fg =>
    match idaSimpleGet fg.fteAllocator fg.maxFtes with
    | none => (ft, some .enospc)
    | some index =>
      if hashFails then (ft, some .enomem)
      else
        ({ ft with groups := ft.groups.set place { fg with
            fteAllocator := index :: fg.fteAllocator
            ftes := u32 (index + fg.startIndex) :: fg.ftes } }, none)

/-- `del_sw_fte`. -/
def delFte (place index : Nat) : GroupedTable :=
  match ft.groups[place]? with
  | none => ft
  | some fg =>
    if index ∈ fg.ftes then
      { ft with groups := ft.groups.set place { fg with
          fteAllocator := fg.fteAllocator.erase (u32 (index + 2 ^ 32 - fg.startIndex))
          ftes := fg.ftes.erase index } }
    else ft

end GroupedTable

/-- Entries hold their group: it is put when the device refused it, with its last entry, or by
`mlx5_destroy_flow_group`. -/
inductive GroupOp where
  | allocAuto (allocFails : Bool)
  | createGroup (startIndex endIndex : UInt32) (validMatcher allocFails commandFails : Bool)
  | putGroup (place : Nat)
  | insertFte (place : Nat) (hashFails : Bool)
  | delFte (place index : Nat)

namespace GroupedTable

def step (ft : GroupedTable) : GroupOp → GroupedTable
  | .allocAuto allocFails =>
    match ft.allocAutoFlowGroup allocFails with
    | .ok after => after
    | .error _ => ft
  | .createGroup startIndex endIndex validMatcher allocFails commandFails =>
    (ft.mlx5CreateFlowGroup startIndex endIndex validMatcher allocFails commandFails).1
  | .putGroup place =>
    if (ft.groups[place]?).all fun fg => fg.ftes = [] then ft.putFlowGroup place else ft
  | .insertFte place hashFails => (ft.insertFte place hashFails).1
  | .delFte place index => ft.delFte place index

end GroupedTable

end MlnxOfed.FsCore
