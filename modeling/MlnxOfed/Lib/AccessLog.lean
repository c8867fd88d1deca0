/-
Computations with a log of what they touch. A rule says that all a computation logs is good, and what its
result is; rules compose along binds and loops.
-/

import Mathlib.Algebra.Order.Ring.Int
import Mathlib.Order.Filter.AtTopBot.Basic

namespace MlnxOfed.Lib

open List

/-- A computation with logged events; no result at a fault or when fuel ends. -/
structure Logged (ε α : Type) where
  log : List ε
  result : Option α

namespace Logged

variable {ε α β : Type}

def pure (value : α) : Logged ε α := ⟨[], some value⟩

def bind (first : Logged ε α) (next : α → Logged ε β) : Logged ε β :=
  match first.result with
  | none => ⟨first.log, none⟩
  | some value => ⟨first.log ++ (next value).log, (next value).result⟩

instance : Monad (Logged ε) where
  pure := pure
  bind := bind

def emit (event : ε) : Logged ε Unit := ⟨[event], some ()⟩

def stop : Logged ε α := ⟨[], none⟩

/-- All events logged are good, and a result is as promised. -/
def Holds (good : ε → Prop) (run : Logged ε α) (post : α → Prop) : Prop :=
  (∀ event ∈ run.log, good event) ∧ ∀ value, run.result = some value → post value

variable {good : ε → Prop} {run : Logged ε α} {next : α → Logged ε β} {post other : α → Prop} {final : β → Prop}

theorem Holds.pure {value} (holds : post value) : Holds good (Pure.pure value : Logged ε α) post := by
  refine ⟨fun event inside => absurd inside not_mem_nil, ?_⟩
  intro found same
  cases same
  exact holds

theorem Holds.stop : Holds good (Logged.stop : Logged ε α) post :=
  ⟨fun event inside => absurd inside not_mem_nil, fun _ never => by cases never⟩

theorem Holds.emit {event} (isGood : good event) : Holds good (Logged.emit event) fun _ => True := by
  refine ⟨?_, fun _ _ => trivial⟩
  intro other inside
  rw [mem_singleton.mp inside]
  exact isGood

theorem Holds.weaken (holds : Holds good run post) (implies : ∀ value, post value → other value) :
    Holds good run other :=
  ⟨holds.1, fun value same => implies value (holds.2 value same)⟩

/-- The result is the one the computation has. -/
theorem Holds.returned (holds : Holds good run post) :
    Holds good run fun value => run.result = some value ∧ post value :=
  ⟨holds.1, fun value same => ⟨same, holds.2 value same⟩⟩

theorem Holds.bind (holds : Holds good run post)
    (later : ∀ value, post value → Holds good (next value) final) : Holds good (run >>= next) final := by
  change Holds good (Logged.bind run next) final
  unfold Logged.bind
  cases result : run.result with
  | none => exact ⟨holds.1, fun _ never => by cases never⟩
  | some value =>
    obtain ⟨rest, promised⟩ := later value (holds.2 value result)
    refine ⟨?_, promised⟩
    intro event inside
    obtain old | after := mem_append.mp inside
    · exact holds.1 event old
    · exact rest event after

theorem bind_congr {other} (same : ∀ value, run.result = some value → next value = other value) :
    run >>= next = run >>= other := by
  change Logged.bind run next = Logged.bind run other
  unfold Logged.bind
  cases result : run.result with
  | none => rfl
  | some value =>
    dsimp only
    rw [same value result]

theorem result_of_bind {value} (got : (run >>= next).result = some value) :
    ∃ first, run.result = some first ∧ (next first).result = some value := by
  change (Logged.bind run next).result = some value at got
  unfold Logged.bind at got
  cases result : run.result with
  | none =>
    rw [result] at got
    cases got
  | some first =>
    rw [result] at got
    exact ⟨first, rfl, got⟩

/-! ### Enough fuel -/

/-- With enough fuel the run has this result. -/
def EndsIn (run : Nat → Logged ε α) (value : α) : Prop :=
  ∀ᶠ fuel in Filter.atTop, (run fuel).result = some value

/-- With enough fuel all events logged are good. -/
def Clean (good : ε → Prop) (run : Nat → Logged ε α) : Prop :=
  ∀ᶠ fuel in Filter.atTop, ∀ event ∈ (run fuel).log, good event

variable {runs : Nat → Logged ε α} {nexts : Nat → α → Logged ε β} {value : α} {last : β}

/-- A run after what was logged before. -/
def after (old : List ε) (run : Logged ε α) : Logged ε α := ⟨old ++ run.log, run.result⟩

theorem after_after (old older : List ε) : (run.after old).after older = run.after (older ++ old) :=
  congrArg (mk · run.result) (append_assoc older old run.log).symm

theorem bind_of_result (got : run.result = some value) : run >>= next = (next value).after run.log := by
  change Logged.bind run next = _
  unfold Logged.bind
  rw [got]
  rfl

theorem EndsIn.of_result (got : run.result = some value) : EndsIn (fun _ => run) value :=
  .of_forall fun _ => got

theorem EndsIn.bind (ends : EndsIn runs value) (later : EndsIn (fun fuel => nexts fuel value) last) :
    EndsIn (fun fuel => runs fuel >>= nexts fuel) last := by
  filter_upwards [ends, later] with fuel got rest
  rw [bind_of_result got]
  exact rest

theorem mem_bind {event} (inside : event ∈ run.log) : event ∈ (run >>= next).log := by
  change event ∈ (Logged.bind run next).log
  unfold Logged.bind
  split
  · exact inside
  · exact mem_append_left _ inside

theorem Clean.first (clean : Clean good fun fuel => runs fuel >>= nexts fuel) : Clean good runs := by
  filter_upwards [clean] with fuel all event inside
  exact all event (mem_bind inside)

theorem Clean.later (clean : Clean good fun fuel => runs fuel >>= nexts fuel) (ends : EndsIn runs value) :
    Clean good fun fuel => nexts fuel value := by
  filter_upwards [clean, ends] with fuel all got event inside
  refine all event ?_
  rw [bind_of_result got]
  exact mem_append_right _ inside

theorem Clean.always (clean : Clean good fun _ => run) : ∀ event ∈ run.log, good event :=
  clean.exists.choose_spec

end Logged

end MlnxOfed.Lib
