/-
Operations on fields that run two at a time, both reading the state from before. A pair does what its
operations do one after the other when the second neither writes nor reads the field the first one writes,
whichever write lands last.
-/

import Mathlib.Algebra.Order.Ring.Int

namespace MlnxOfed.Lib

open Function

/-- An operation that writes one field, with a value that depends on some fields alone. -/
structure FieldOp (Field Value : Type) where
  target : Field
  reads : List Field
  value : (Field → Value) → Value
  depends : ∀ s t, (∀ field ∈ reads, s field = t field) → value s = value t

namespace FieldOp

variable {Field Value : Type} [DecidableEq Field]

def run (op : FieldOp Field Value) (s : Field → Value) : Field → Value :=
  update s op.target (op.value s)

def runList (ops : List (FieldOp Field Value)) (s : Field → Value) : Field → Value :=
  ops.foldl (fun state op => op.run state) s

def runSlot (slot : Option (FieldOp Field Value)) (s : Field → Value) : Field → Value :=
  match slot with
  | none => s
  | some op => op.run s

/-- Both slots read `s`; `inOrder`: the second write lands last. -/
def runPair (inOrder : Bool) (first second : Option (FieldOp Field Value)) (s : Field → Value) :
    Field → Value :=
  match first, second with
  | some op, some next =>
    if inOrder then
      update (update s op.target (op.value s)) next.target (next.value s)
    else update (update s next.target (next.value s)) op.target (op.value s)
  | first, none => runSlot first s
  | none, second => runSlot second s

/-- The slots two at a time, from the pair with number `n` on. -/
def runPairs (inOrder : Nat → Bool) : Nat → List (Option (FieldOp Field Value)) →
    (Field → Value) → Field → Value
  | n, first :: second :: rest, s =>
    runPairs inOrder (n + 1) rest (runPair (inOrder n) first second s)
  | _, [last], s => runSlot last s
  | _, [], s => s

def Apart (op next : FieldOp Field Value) : Prop :=
  op.target ≠ next.target ∧ op.target ∉ next.reads

def SlotsApart (first second : Option (FieldOp Field Value)) : Prop :=
  ∀ op ∈ first, ∀ next ∈ second, op.Apart next

def Hazardless : List (Option (FieldOp Field Value)) → Prop
  | first :: second :: rest => SlotsApart first second ∧ Hazardless rest
  | _ => True

omit [DecidableEq Field] in
theorem slotsApart_none (slot : Option (FieldOp Field Value)) : SlotsApart slot none := fun _ _ => nofun

theorem Apart.value_run {op next : FieldOp Field Value} (apart : op.Apart next)
    (s : Field → Value) : next.value (op.run s) = next.value s := by
  refine next.depends _ _ ?_
  intro field inReads
  exact update_of_ne (fun same : field = op.target => apart.2 (same ▸ inReads)) _ _

theorem runPair_eq {first second} (apart : SlotsApart first second) (inOrder) (s : Field → Value) :
    runPair inOrder first second s = runSlot second (runSlot first s) := by
  cases first with
  | none => cases second <;> rfl
  | some op =>
    cases second with
    | none => rfl
    | some next =>
      have clear : op.Apart next := apart op rfl next rfl
      have after : (runSlot (some next) (runSlot (some op) s)) =
          update (update s op.target (op.value s)) next.target (next.value s) := by
        change update (op.run s) next.target (next.value (op.run s)) = _
        rw [clear.value_run]
        rfl
      rw [after]
      cases inOrder with
      | true => rfl
      | false => exact update_comm clear.1.symm _ _ _

variable {slots : List (Option (FieldOp Field Value))}

theorem runPairs_eq {inOrder n s} (clear : Hazardless slots) :
    runPairs inOrder n slots s = runList (slots.filterMap id) s := by
  fun_induction runPairs inOrder n slots s with
  | case1 n first second rest s ih =>
    rw [ih clear.2, runPair_eq clear.1]
    cases first <;> cases second <;> rfl
  | case2 n last s => cases last <;> rfl
  | case3 => rfl

omit [DecidableEq Field] in
theorem Hazardless.snoc {slot} (clear : Hazardless slots)
    (apart : slots.length % 2 = 1 → ∀ last ∈ slots.getLast?, SlotsApart last slot) :
    Hazardless (slots ++ [slot]) := by
  fun_induction Hazardless slots with
  | case1 first second rest ih =>
    refine ⟨clear.1, ih clear.2 ?_⟩
    intro odd last isLast
    have more : (first :: second :: rest).length % 2 = 1 := by
      rw [List.length_cons, List.length_cons]
      omega
    refine apart more last ?_
    cases rest with
    | nil => cases isLast
    | cons third others => exact isLast
  | case2 slots short =>
    match slots, short with
    | [], _ => trivial
    | [last], _ => exact ⟨apart rfl last rfl, trivial⟩
    | first :: second :: rest, short => exact absurd rfl (short first second rest)

end FieldOp

end MlnxOfed.Lib
