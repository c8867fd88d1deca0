/-
Counting the numbers below a bound that satisfy a predicate, while it changes at one of them.
-/

import Mathlib.Data.Nat.Count

namespace MlnxOfed.Lib

open Nat (count)

variable {p q : Nat → Prop} [DecidablePred p] [DecidablePred q]

theorem count_congr_below {n} (same : ∀ x, x < n → (p x ↔ q x)) : count p n = count q n := by
  induction n with
  | zero => rw [Nat.count_zero, Nat.count_zero]
  | succ n ih =>
    rw [Nat.count_succ, Nat.count_succ, ih fun x below => same x (Nat.lt_succ_of_lt below)]
    exact congrArg (count q n + ·) (if_congr (same n (Nat.lt_succ_self n)) rfl rfl)

theorem count_drop {x n} (inside : x < n) (old : p x) (after : ¬q x)
    (same : ∀ y, y < n → y ≠ x → (p y ↔ q y)) : count p n = count q n + 1 := by
  induction n with
  | zero => exact absurd inside (Nat.not_lt_zero x)
  | succ n ih =>
    rw [Nat.count_succ, Nat.count_succ]
    by_cases last : x = n
    · subst last
      rw [if_pos old, if_neg after]
      have below := count_congr_below fun y smaller =>
        same y (Nat.lt_succ_of_lt smaller) (Nat.ne_of_lt smaller)
      rw [below]
    · have smaller : x < n := by omega
      have rest := ih smaller fun y below => same y (Nat.lt_succ_of_lt below)
      have unchanged := same n (Nat.lt_succ_self n) (fun equal => last equal.symm)
      rw [rest, if_congr unchanged rfl rfl]
      omega

theorem count_swap {x n} (inside : x < n) (same : ∀ y, y < n → y ≠ x → (p y ↔ q y)) :
    count p n + (if q x then 1 else 0) = count q n + if p x then 1 else 0 := by
  by_cases old : p x
  · by_cases after : q x
    · rw [if_pos after, if_pos old]
      have equal : count p n = count q n := by
        apply count_congr_below
        intro y below
        by_cases own : y = x
        · subst own
          exact ⟨fun _ => after, fun _ => old⟩
        · exact same y below own
      rw [equal]
    · rw [if_neg after, if_pos old, count_drop inside old after same]
  by_cases after : q x
  · rw [if_pos after, if_neg old, count_drop inside after old fun y below own => (same y below own).symm]
  rw [if_neg after, if_neg old]
  have equal : count p n = count q n := by
    apply count_congr_below
    intro y below
    by_cases own : y = x
    · subst own
      exact ⟨fun holds => absurd holds old, fun holds => absurd holds after⟩
    · exact same y below own
  rw [equal]

theorem count_extend {m n} (more : m ≤ n) (never : ∀ x, m ≤ x → ¬p x) : count p n = count p m := by
  induction n with
  | zero => rw [Nat.le_zero.mp more]
  | succ n ih =>
    by_cases last : m = n + 1
    · rw [last]
    · have inside : m ≤ n := by omega
      rw [Nat.count_succ, if_neg (never n inside), add_zero, ih inside]

end MlnxOfed.Lib
