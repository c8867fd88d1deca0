/-
Bitmaps as arrays of 64-bit words, with a second bitmap of the nonzero words. Arrays are total functions
from a word index; zeroed storage is the constant zero function.
-/

import Mathlib.Data.Finset.Card

namespace MlnxOfed.Lib

open Bool List Function

abbrev Words := Nat → BitVec 64

namespace Words

def zero : Words := fun _ => 0

def testBit (addr : Words) (nr : Nat) : Bool :=
  (addr (nr / 64)).getLsbD (nr % 64)

def setBit (addr : Words) (nr : Nat) : Words :=
  update addr (nr / 64) (addr (nr / 64) ||| (1#64 <<< (nr % 64)))

def clearBit (addr : Words) (nr : Nat) : Words :=
  update addr (nr / 64) (addr (nr / 64) &&& ~~~(1#64 <<< (nr % 64)))

private theorem oneHot_getLsbD {shift index} (inWord : index < 64) :
    (1#64 <<< shift).getLsbD index = decide (index = shift) := by
  rw [BitVec.getLsbD_shiftLeft, BitVec.getLsbD_one]
  by_cases same : index = shift
  · subst same
    simp [inWord]
  · have nonzero : index < shift ∨ index - shift ≠ 0 := by omega
    rcases nonzero with below | above
    · simp [below, same]
    · simp [above, same]

private theorem position_ext {left right}
    (word : left / 64 = right / 64) (offset : left % 64 = right % 64) : left = right := by
  omega

@[simp]
theorem testBit_zero (nr) : zero.testBit nr = false := by simp [testBit, zero]

variable (addr : Words)

include addr

theorem testBit_setBit (nr other) :
    (addr.setBit nr).testBit other = (decide (other = nr) || addr.testBit other) := by
  have inWord : other % 64 < 64 := Nat.mod_lt other (by decide)
  by_cases word : other / 64 = nr / 64
  · simp only [testBit, setBit, word, update_self, BitVec.getLsbD_or, oneHot_getLsbD inWord]
    by_cases same : other = nr
    · subst same
      simp
    · have offset : other % 64 ≠ nr % 64 := fun equal => same (position_ext word equal)
      simp [same, offset]
  · have apart : other ≠ nr := fun equal => word (congrArg (· / 64) equal)
    simp [testBit, setBit, update_of_ne word, apart]

theorem testBit_clearBit (nr other) :
    (addr.clearBit nr).testBit other = (decide (other ≠ nr) && addr.testBit other) := by
  have inWord : other % 64 < 64 := Nat.mod_lt other (by decide)
  by_cases word : other / 64 = nr / 64
  · simp only [testBit, clearBit, word, update_self, BitVec.getLsbD_and,
      BitVec.getLsbD_not, oneHot_getLsbD inWord]
    by_cases same : other = nr
    · subst same
      simp
    · have offset : other % 64 ≠ nr % 64 := fun equal => same (position_ext word equal)
      simp [same, offset, inWord]
  · have apart : other ≠ nr := fun equal => word (congrArg (· / 64) equal)
    simp [testBit, clearBit, update_of_ne word, apart]

private theorem setBit_word_ne (nr word) (apart : word ≠ nr / 64) : addr.setBit nr word = addr word := by
  simp [setBit, update_of_ne apart]

private theorem clearBit_word_ne (nr word) (apart : word ≠ nr / 64) : addr.clearBit nr word = addr word := by
  simp [clearBit, update_of_ne apart]

theorem word_ne_zero_iff (word) :
    addr word ≠ 0 ↔ ∃ offset, offset < 64 ∧ addr.testBit (64 * word + offset) = true := by
  constructor
  · intro nonzero
    by_contra absent
    apply nonzero
    apply BitVec.eq_of_getLsbD_eq
    intro offset inWord
    have unset : addr.testBit (64 * word + offset) ≠ true := fun here =>
      absent ⟨offset, inWord, here⟩
    have wordEq : (64 * word + offset) / 64 = word := by omega
    have offsetEq : (64 * word + offset) % 64 = offset := by omega
    simp only [testBit, wordEq, offsetEq, not_eq_true] at unset
    rw [unset]
    simp
  · rintro ⟨offset, inWord, here⟩ isZero
    have wordEq : (64 * word + offset) / 64 = word := by omega
    simp [testBit, wordEq, isZero] at here

private theorem setBit_word_ne_zero (nr) : addr.setBit nr (nr / 64) ≠ 0 := by
  rw [word_ne_zero_iff]
  refine ⟨nr % 64, Nat.mod_lt nr (by decide), ?_⟩
  have spot : 64 * (nr / 64) + nr % 64 = nr := by omega
  rw [spot, testBit_setBit]
  simp

omit addr in
def count (addr : Words) (words : Nat) : Nat :=
  ((Finset.range (64 * words)).filter (fun nr => addr.testBit nr = true)).card

theorem count_setBit (words nr) (inRange : nr < 64 * words) (clear : addr.testBit nr = false) :
    (addr.setBit nr).count words = addr.count words + 1 := by
  have grown : (Finset.range (64 * words)).filter (fun bit => (addr.setBit nr).testBit bit = true) =
      insert nr ((Finset.range (64 * words)).filter (fun bit => addr.testBit bit = true)) := by
    ext bit
    simp only [Finset.mem_filter, Finset.mem_range, Finset.mem_insert, testBit_setBit,
      or_eq_true, decide_eq_true_eq]
    constructor
    · rintro ⟨bound, same | present⟩
      · exact .inl same
      · exact .inr ⟨bound, present⟩
    · rintro (same | ⟨bound, present⟩)
      · exact ⟨same ▸ inRange, .inl same⟩
      · exact ⟨bound, .inr present⟩
  unfold count
  rw [grown, Finset.card_insert_of_notMem]
  simp [clear]

theorem count_clearBit (words nr) (inRange : nr < 64 * words) (here : addr.testBit nr = true) :
    (addr.clearBit nr).count words + 1 = addr.count words := by
  have shrunk : (Finset.range (64 * words)).filter (fun bit => (addr.clearBit nr).testBit bit = true) =
      ((Finset.range (64 * words)).filter (fun bit => addr.testBit bit = true)).erase nr := by
    ext bit
    simp only [Finset.mem_filter, Finset.mem_range, Finset.mem_erase, testBit_clearBit,
      and_eq_true, decide_eq_true_eq]
    constructor
    · rintro ⟨bound, apart, kept⟩
      exact ⟨apart, bound, kept⟩
    · rintro ⟨apart, bound, kept⟩
      exact ⟨bound, apart, kept⟩
  unfold count
  rw [shrunk]
  exact Finset.card_erase_add_one (by simp [inRange, here])

theorem count_pos_iff (words) : addr.count words ≠ 0 ↔ ∃ nr, nr < 64 * words ∧ addr.testBit nr = true := by
  unfold count
  rw [Finset.card_ne_zero]
  constructor
  · rintro ⟨nr, mem⟩
    exact ⟨nr, by simpa using mem⟩
  · rintro ⟨nr, inRange, here⟩
    exact ⟨nr, by simp [inRange, here]⟩

omit addr

@[simp]
theorem count_zero (words) : zero.count words = 0 := by simp [count]

/-- Bit `w` of the summary says whether word `w` of the bitmap is nonzero. -/
def Summarises (top addr : Words) : Prop :=
  ∀ word, top.testBit word = true ↔ addr word ≠ 0

theorem summarises_zero : Summarises zero zero := by
  intro word
  rw [testBit_zero]
  simp [zero]

theorem Summarises.setBit {top addr} (summary : Summarises top addr) (nr) :
    Summarises (top.setBit (nr / 64)) (addr.setBit nr) := by
  intro word
  rw [testBit_setBit]
  by_cases here : word = nr / 64
  · subst here
    simpa using setBit_word_ne_zero addr nr
  · rw [setBit_word_ne addr nr word here]
    simpa [here] using summary word

theorem Summarises.clearBit {top addr} (summary : Summarises top addr) (nr) :
    Summarises (if addr.clearBit nr (nr / 64) = 0 then top.clearBit (nr / 64) else top)
      (addr.clearBit nr) := by
  intro word
  split_ifs with emptied
  · rw [testBit_clearBit]
    by_cases here : word = nr / 64
    · subst here
      simp [emptied]
    · rw [clearBit_word_ne addr nr word here]
      simpa [here] using summary word
  by_cases here : word = nr / 64
  · subst here
    have old : addr (nr / 64) ≠ 0 := by
      intro isZero
      apply emptied
      rw [Words.clearBit, update_self, isZero]
      simp
    exact ⟨fun _ => emptied, fun _ => (summary _).mpr old⟩
  · rw [clearBit_word_ne addr nr word here]
    exact summary word

def lowestBit (word : BitVec 64) : Nat :=
  ((range 64).find? (fun index => word.getLsbD index)).getD 0

private theorem lowestBit_lt (word : BitVec 64) : lowestBit word < 64 := by
  unfold lowestBit
  cases found : (range 64).find? (fun index => word.getLsbD index) with
  | none => simp
  | some index =>
    have member := mem_of_find?_eq_some found
    simpa using mem_range.mp member

private theorem getLsbD_lowestBit (word : BitVec 64) (nonzero : word ≠ 0) : word.getLsbD (lowestBit word) = true := by
  unfold lowestBit
  cases found : (range 64).find? (fun index => word.getLsbD index) with
  | none =>
    exfalso
    apply nonzero
    apply BitVec.eq_of_getLsbD_eq
    intro index inWord
    have unset := find?_eq_none.mp found index (mem_range.mpr inWord)
    simpa using unset
  | some index => exact find?_some found

theorem testBit_lowestBit (addr : Words) (word : Nat) (nonzero : addr word ≠ 0) :
    addr.testBit (word * 64 + lowestBit (addr word)) = true := by
  have inWord := lowestBit_lt (addr word)
  have wordEq : (word * 64 + lowestBit (addr word)) / 64 = word := by omega
  have offsetEq : (word * 64 + lowestBit (addr word)) % 64 = lowestBit (addr word) := by omega
  rw [testBit, wordEq, offsetEq]
  exact getLsbD_lowestBit (addr word) nonzero

end Words

end MlnxOfed.Lib
