/-
A ring that one side writes and the other reads, where each slot carries the lap bit of its position. A slot
is taken only where it holds something under the reader's lap bit, so what an earlier lap left is not read.
-/

import MlnxOfed.Lib.CyclicRing

namespace MlnxOfed.Lib

open Function List

structure LapSlot (Item : Type) where
  content : Option Item
  lap : Nat

variable {Item : Type} {log head limit bound : Nat} {mem : Nat → LapSlot Item}
  {items : List Item}

/-- The items from `head` on. Slots of positions up to `limit` are those of the lap before, or, below
`bound`, have the lap bit zero. -/
structure LapRing (mem : Nat → LapSlot Item) (log head limit bound : Nat) (items : List Item) :
    Prop where
  fits : head + items.length ≤ limit
  round : limit ≤ head + 2 ^ log
  present : ∀ offset (inside : offset < items.length),
    mem (ringSlot log (head + offset)) = ⟨some (items.get ⟨offset, inside⟩), ringLap log (head + offset)⟩
  stale : ∀ position, head + items.length ≤ position → position < limit → bound ≤ position →
    (mem (ringSlot log position)).content = none ∨ (mem (ringSlot log position)).lap ≠ ringLap log position
  unwritten : ∀ position, head + items.length ≤ position → position < limit → position < bound →
    (mem (ringSlot log position)).lap = 0

namespace LapRing

variable {item : Item}

theorem first (ring : LapRing mem log head limit bound (item :: items)) :
    mem (ringSlot log head) = ⟨some item, ringLap log head⟩ :=
  ring.present 0 (Nat.succ_pos _)

theorem vacant (ring : LapRing mem log head limit bound []) (room : head < limit)
    (old : bound ≤ head ∨ ringLap log head = 1) : (mem (ringSlot log head)).content = none ∨
      (mem (ringSlot log head)).lap ≠ ringLap log head := by
  rcases Nat.lt_or_ge head bound with below | above
  · refine .inr ?_
    rw [ring.unwritten head le_rfl room below, old.resolve_left (by omega)]
    decide
  · exact ring.stale head le_rfl room above

theorem push (ring : LapRing mem log head limit bound items) (item) (room : head + items.length < limit) :
    LapRing (update mem (ringSlot log (head + items.length))
      ⟨some item, ringLap log (head + items.length)⟩) log head limit bound (items ++ [item]) := by
  have round := ring.round
  have later spot (after : head + (items ++ [item]).length ≤ spot) (old : spot < limit) :
      ringSlot log spot ≠ ringSlot log (head + items.length) := by
    rw [length_append, length_singleton] at after
    exact (ringSlot_ne (by omega) (by omega)).symm
  have longer : (items ++ [item]).length = items.length + 1 := length_append
  constructor
  · omega
  · exact round
  · intro offset inside
    by_cases last : offset = items.length
    · subst last
      rw [update_self]
      simp
    · have shorter : offset < items.length := by omega
      rw [update_of_ne (ringSlot_ne (by omega) (by omega)), ring.present offset shorter]
      simp [getElem_append_left shorter]
  · intro spot after old isOld
    rw [update_of_ne (later spot after old)]
    exact ring.stale spot (by omega) old isOld
  · intro spot after old isNew
    rw [update_of_ne (later spot after old)]
    exact ring.unwritten spot (by omega) old isNew

theorem tail (ring : LapRing mem log head limit bound (item :: items)) :
    LapRing mem log (head + 1) limit bound items := by
  have fits := ring.fits
  have round := ring.round
  rw [length_cons] at fits
  constructor
  · omega
  · omega
  · intro offset inside
    have same := ring.present (offset + 1) (by rw [length_cons]; omega)
    rw [show head + (offset + 1) = head + 1 + offset by omega] at same
    exact same
  · intro spot after old isOld
    exact ring.stale spot (by rw [length_cons]; omega) old isOld
  · intro spot after old isNew
    exact ring.unwritten spot (by rw [length_cons]; omega) old isNew

theorem pop (ring : LapRing mem log head (head + 2 ^ log) bound (item :: items))
    (bounded : bound ≤ head + 2 ^ log) :
    LapRing mem log (head + 1) (head + 1 + 2 ^ log) bound items := by
  have rest := ring.tail
  have fits := rest.fits
  constructor
  · omega
  · exact le_rfl
  · exact rest.present
  · intro spot after old isOld
    by_cases next : spot = head + 2 ^ log
    · refine .inr ?_
      rw [next, ringSlot_add_round, ring.first]
      exact (ringLap_add_round_ne log head).symm
    · exact rest.stale spot after (by omega) isOld
  · intro spot after old isNew
    exact rest.unwritten spot after (by omega) isNew

theorem update_of_ne (ring : LapRing mem log head limit bound items) (slot)
    (other : ∀ spot, head ≤ spot → spot < limit → slot ≠ ringSlot log spot)
    (value : LapSlot Item) :
    LapRing (Function.update mem slot value) log head limit bound items := by
  have fits := ring.fits
  constructor
  · exact fits
  · exact ring.round
  · intro offset inside
    rw [Function.update_of_ne (other _ (by omega) (by omega)).symm]
    exact ring.present offset inside
  · intro spot after old isOld
    rw [Function.update_of_ne (other _ (by omega) old).symm]
    exact ring.stale spot after old isOld
  · intro spot after old isNew
    rw [Function.update_of_ne (other _ (by omega) old).symm]
    exact ring.unwritten spot after old isNew

theorem pushFront (ring : LapRing mem log (head + 1) limit bound items)
    (near : limit ≤ head + 2 ^ log) (here : mem (ringSlot log head) = ⟨some item, ringLap log head⟩) :
    LapRing mem log head limit bound (item :: items) := by
  have fits := ring.fits
  constructor
  · rw [length_cons]
    omega
  · exact near
  · intro offset inside
    cases offset with
    | zero => exact here
    | succ offset =>
      rw [length_cons] at inside
      have same := ring.present offset (by omega)
      rw [show head + 1 + offset = head + (offset + 1) by omega] at same
      exact same
  · intro spot after old isOld
    rw [length_cons] at after
    exact ring.stale spot (by omega) old isOld
  · intro spot after old isNew
    rw [length_cons] at after
    exact ring.unwritten spot (by omega) old isNew

variable (ring : LapRing mem log head limit bound items)

include ring

theorem shorten (less) (fewer : less ≤ limit)
    (fits : head + items.length ≤ less) : LapRing mem log head less bound items where
  fits := fits
  round := le_trans fewer ring.round
  present := ring.present
  stale spot after before := ring.stale spot after (by omega)
  unwritten spot after before := ring.unwritten spot after (by omega)

theorem rebound {other}
    (above : limit ≤ bound) (otherAbove : limit ≤ other) : LapRing mem log head limit other items :=
  { ring with
    present := ring.present
    stale spot _ old isOld := by omega
    unwritten spot after old _ := ring.unwritten spot after old (by omega) }

theorem wipe {wiped} (spared : ∀ offset, offset < items.length →
      wiped (ringSlot log (head + offset)) = mem (ringSlot log (head + offset)))
    (others : ∀ slot, wiped slot = mem slot ∨ wiped slot = ⟨none, 0⟩) :
    LapRing wiped log head limit bound items where
  fits := ring.fits
  round := ring.round
  present offset inside := by
    rw [spared offset inside]
    exact ring.present offset inside
  stale spot after old isOld := by
    rcases others (ringSlot log spot) with same | empty
    · rw [same]
      exact ring.stale spot after old isOld
    · exact .inl (by rw [empty])
  unwritten spot after old isNew := by
    rcases others (ringSlot log spot) with same | empty
    · rw [same]
      exact ring.unwritten spot after old isNew
    · rw [empty]

omit ring

end LapRing

end MlnxOfed.Lib
