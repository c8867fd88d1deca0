/-
Memory as a function from addresses to words: writing a list at an address, reading it back, and what a
write leaves alone. Consecutive words are `stride` addresses apart.
-/

import Mathlib.Tactic.Ring

namespace MlnxOfed.Lib

open Function List

variable {Word : Type*}

def writeWords (stride : Nat) (memory : Nat → Word) (addr : Nat) : List Word → Nat → Word
  | [] => memory
  | word :: rest => update (writeWords stride memory (addr + stride) rest) addr word

def HoldsWords (stride : Nat) (memory : Nat → Word) (addr : Nat) (words : List Word) : Prop :=
  ∀ i (below : i < words.length), memory (addr + stride * i) = words[i]

variable {stride : Nat} {memory : Nat → Word} {addr : Nat} {words : List Word}

theorem writeWords_outside (pos : 0 < stride) {other}
    (outside : other < addr ∨ addr + stride * words.length ≤ other) :
    writeWords stride memory addr words other = memory other := by
  induction words generalizing addr with
  | nil => rfl
  | cons word rest ih =>
    rw [length_cons, Nat.mul_succ] at outside
    have apart : other ≠ addr := by
      rcases outside with old | after
      · omega
      · have := Nat.zero_le (stride * rest.length)
        omega
    rw [writeWords, update_of_ne apart]
    refine ih ?_
    rcases outside with old | after
    · exact .inl (by omega)
    · exact .inr (by omega)

theorem writeWords_holds (pos : 0 < stride) :
    HoldsWords stride (writeWords stride memory addr words) addr words := by
  induction words generalizing addr with
  | nil =>
    intro i below
    cases below
  | cons word rest ih =>
    intro i below
    cases i with
    | zero => rw [writeWords, Nat.mul_zero, add_zero, update_self, getElem_cons_zero]
    | succ i =>
      have apart : addr + stride * (i + 1) ≠ addr := by
        rw [Nat.mul_succ]
        omega
      have step : addr + stride * (i + 1) = addr + stride + stride * i := by ring
      rw [writeWords, update_of_ne apart, getElem_cons_succ, step]
      exact ih i (Nat.lt_of_succ_lt_succ below)

theorem HoldsWords.congr {after} (holds : HoldsWords stride memory addr words)
    (same : ∀ other, addr ≤ other → other < addr + stride * words.length →
      after other = memory other) (pos : 0 < stride) :
    HoldsWords stride after addr words := by
  intro i below
  have inside : stride * i < stride * words.length := Nat.mul_lt_mul_of_pos_left below pos
  rw [same _ (Nat.le_add_right _ _) (by omega)]
  exact holds i below

theorem HoldsWords.append {later} (first : HoldsWords stride memory addr words)
    (second : HoldsWords stride memory (addr + stride * words.length) later) :
    HoldsWords stride memory addr (words ++ later) := by
  intro i below
  by_cases early : i < words.length
  · rw [getElem_append_left early]
    exact first i early
  obtain ⟨rest, rfl⟩ := Nat.exists_eq_add_of_le (Nat.le_of_not_lt early)
  have inLater : rest < later.length := by
    rw [length_append] at below
    omega
  have step : addr + stride * (words.length + rest) = addr + stride * words.length + stride * rest := by ring
  rw [step, second rest inLater, getElem_append_right (Nat.le_add_right _ _)]
  simp

end MlnxOfed.Lib
