/-
Tilings of an initial segment of the naturals by aligned blocks of power-of-two length, and the moves of a
buddy system: take, split, merge, give.

A layout divides a tiling between a set of free blocks and a list of outstanding ones, which would show a
block handed out twice.
-/

import Mathlib.Order.CompletePartialOrder
import Mathlib.Algebra.Order.BigOperators.Group.Finset
import Mathlib.Data.Nat.Bitwise
import Mathlib.Order.Interval.Finset.Nat
import Mathlib.Tactic.Ring

namespace MlnxOfed.Lib

open List

/-- The block of length `2 ^ order` that starts at `index * 2 ^ order`. -/
@[ext]
structure Block where
  order : Nat
  index : Nat
  deriving DecidableEq

namespace Block

def Covers (block : Block) (unit : Nat) : Prop := unit / 2 ^ block.order = block.index

def start (block : Block) : Nat := block.index * 2 ^ block.order

def buddy (block : Block) : Block := ⟨block.order, block.index ^^^ 1⟩

def parent (block : Block) : Block := ⟨block.order + 1, block.index / 2⟩

def low (block : Block) : Block := ⟨block.order - 1, 2 * block.index⟩

def high (block : Block) : Block := ⟨block.order - 1, 2 * block.index + 1⟩

variable (block : Block)

include block

theorem covers_iff (unit) : block.Covers unit ↔
      block.start ≤ unit ∧ unit < block.start + 2 ^ block.order := by
  have pos : 0 < 2 ^ block.order := Nat.two_pow_pos block.order
  unfold Covers start
  rw [Nat.div_eq_iff pos]
  constructor
  · intro bounds
    omega
  · intro bounds
    omega

theorem covers_start : block.Covers block.start := by
  rw [covers_iff]
  have pos : 0 < 2 ^ block.order := Nat.two_pow_pos block.order
  omega

theorem covers_halves (unit) (pos : 0 < block.order) :
    block.Covers unit ↔ block.low.Covers unit ∨ block.high.Covers unit := by
  obtain ⟨order, index⟩ := block
  obtain ⟨half, rfl⟩ : ∃ half, order = half + 1 := ⟨order - 1, by simp at pos; omega⟩
  have halved : unit / 2 ^ (half + 1) = unit / 2 ^ half / 2 := by rw [Nat.div_div_eq_div_mul, Nat.pow_succ]
  simp only [Covers, low, high, Nat.add_sub_cancel]
  rw [halved]
  omega

private theorem low_ne_high : block.low ≠ block.high := by
  intro same
  have indices := congrArg Block.index same
  simp only [low, high] at indices
  omega

theorem buddy_index_cases :
    (block.index = 2 * (block.index / 2) ∧ block.buddy.index = 2 * (block.index / 2) + 1) ∨
      (block.index = 2 * (block.index / 2) + 1 ∧ block.buddy.index = 2 * (block.index / 2)) := by
  rcases Nat.even_or_odd block.index with even | odd
  · left
    have value := Nat.xor_one_of_even even
    have parity := Nat.even_iff.mp even
    simp only [buddy]
    omega
  · right
    have value := Nat.xor_one_of_odd odd
    have parity := Nat.odd_iff.mp odd
    simp only [buddy]
    omega

theorem halves_of_parent : (block = block.parent.low ∧ block.buddy = block.parent.high) ∨
      (block = block.parent.high ∧ block.buddy = block.parent.low) := by
  rcases buddy_index_cases block with ⟨own, other⟩ | ⟨own, other⟩
  · left
    constructor
    · apply Block.ext
      · simp [parent, low]
      · exact own
    · apply Block.ext
      · simp [parent, high, buddy]
      · exact other
  right
  constructor
  · apply Block.ext
    · simp [parent, high]
    · exact own
  · apply Block.ext
    · simp [parent, low, buddy]
    · exact other

private theorem buddy_ne : block.buddy ≠ block := by
  intro same
  have indices := congrArg Block.index same
  rcases buddy_index_cases block with ⟨own, other⟩ | ⟨own, other⟩ <;> omega

theorem buddy_buddy : block.buddy.buddy = block := by
  apply Block.ext
  · rfl
  · simp [buddy]

theorem low_buddy : block.low.buddy = block.high := by
  have value : (2 * block.index) ^^^ 1 = 2 * block.index + 1 := Nat.xor_one_of_even (even_two_mul block.index)
  apply Block.ext
  · rfl
  · exact value

omit block

end Block

/-- A set of blocks inside `[0, 2 ^ size)` that covers every unit exactly once. -/
structure Tiles (size : Nat) (blocks : Set Block) : Prop where
  inside : ∀ block ∈ blocks, block.order ≤ size ∧ block.index < 2 ^ (size - block.order)
  unique : ∀ left ∈ blocks, ∀ right ∈ blocks, ∀ unit, left.Covers unit → right.Covers unit → left = right
  total : ∀ unit, unit < 2 ^ size → ∃ block ∈ blocks, block.Covers unit

namespace Tiles

variable {size : Nat} {blocks : Set Block}

private theorem whole (size) : Tiles size {⟨size, 0⟩} where
  inside := by
    rintro block rfl
    simp
  unique := by
    rintro left rfl right rfl unit _ _
    rfl
  total unit bound := by exact ⟨⟨size, 0⟩, rfl, Nat.div_eq_of_lt bound⟩

variable (tiles : Tiles size blocks)

include tiles

theorem end_le {block} (mem : block ∈ blocks) : block.start + 2 ^ block.order ≤ 2 ^ size := by
  obtain ⟨orderBound, indexBound⟩ := tiles.inside block mem
  have split : 2 ^ size = 2 ^ (size - block.order) * 2 ^ block.order := by
    rw [← Nat.pow_add]
    congr 1
    omega
  have scaled : (block.index + 1) * 2 ^ block.order ≤ 2 ^ (size - block.order) * 2 ^ block.order :=
    Nat.mul_le_mul_right _ indexBound
  rw [split]
  calc block.index * 2 ^ block.order + 2 ^ block.order = (block.index + 1) * 2 ^ block.order := by ring
    _ ≤ 2 ^ (size - block.order) * 2 ^ block.order := scaled

theorem ordered {left right} (leftIn : left ∈ blocks) (rightIn : right ∈ blocks) (apart : left ≠ right) :
    left.start + 2 ^ left.order ≤ right.start ∨ right.start + 2 ^ right.order ≤ left.start := by
  by_contra overlapping
  have positiveLeft : 0 < 2 ^ left.order := Nat.two_pow_pos left.order
  have positiveRight : 0 < 2 ^ right.order := Nat.two_pow_pos right.order
  apply apart
  refine tiles.unique left leftIn right rightIn (max left.start right.start) ?_ ?_
  · rw [Block.covers_iff]
    omega
  · rw [Block.covers_iff]
    omega

private theorem split {block} (mem : block ∈ blocks) (pos : 0 < block.order) :
    Tiles size ({block.low, block.high} ∪ (blocks \ {block})) where
  inside := by
    obtain ⟨orderBound, indexBound⟩ := tiles.inside block mem
    have doubled : 2 ^ (size - (block.order - 1)) = 2 * 2 ^ (size - block.order) := by
      rw [← Nat.pow_succ']
      congr 1
      omega
    rintro piece (isHalf | ⟨isOld, _⟩)
    · rcases isHalf with rfl | rfl
      · simp only [Block.low]
        omega
      · simp only [Block.high]
        omega
    · exact tiles.inside piece isOld
  unique := by
    have halfCovers : ∀ piece ∈ ({block.low, block.high} : Set Block), ∀ unit,
        piece.Covers unit → block.Covers unit := by
      rintro piece (rfl | rfl) unit covered
      · exact (block.covers_halves unit pos).mpr (.inl covered)
      · exact (block.covers_halves unit pos).mpr (.inr covered)
    have halfOld : ∀ half ∈ ({block.low, block.high} : Set Block), ∀ old ∈ blocks \ {block},
        ∀ unit, half.Covers unit → old.Covers unit → False := by
      rintro half isHalf old ⟨isOld, apart⟩ unit coveredHalf coveredOld
      exact apart (tiles.unique old isOld block mem unit coveredOld (halfCovers half isHalf unit coveredHalf))
    have lowHigh unit (coveredLow : block.low.Covers unit) (coveredHigh : block.high.Covers unit) :
        False := by
      simp only [Block.Covers, Block.low, Block.high] at coveredLow coveredHigh
      omega
    rintro left (leftHalf | leftOld) right (rightHalf | rightOld) unit coveredLeft coveredRight
    · rcases leftHalf with rfl | rfl <;> rcases rightHalf with rfl | rfl
      · rfl
      · exact (lowHigh unit coveredLeft coveredRight).elim
      · exact (lowHigh unit coveredRight coveredLeft).elim
      · rfl
    · exact (halfOld left leftHalf right rightOld unit coveredLeft coveredRight).elim
    · exact (halfOld right rightHalf left leftOld unit coveredRight coveredLeft).elim
    · exact tiles.unique left leftOld.1 right rightOld.1 unit coveredLeft coveredRight
  total unit bound := by
    obtain ⟨owner, isOwner, covered⟩ := tiles.total unit bound
    by_cases same : owner = block
    · subst same
      rcases (owner.covers_halves unit pos).mp covered with inLow | inHigh
      · exact ⟨owner.low, .inl (.inl rfl), inLow⟩
      · exact ⟨owner.high, .inl (.inr rfl), inHigh⟩
    · exact ⟨owner, .inr ⟨isOwner, same⟩, covered⟩

private theorem merge {block} (mem : block ∈ blocks) (partner : block.buddy ∈ blocks) (below : block.order < size) :
    Tiles size ({block.parent} ∪ (blocks \ {block, block.buddy})) where
  inside := by
    obtain ⟨_, indexBound⟩ := tiles.inside block mem
    have doubled : 2 ^ (size - block.order) = 2 * 2 ^ (size - (block.order + 1)) := by
      rw [← Nat.pow_succ']
      congr 1
      omega
    rintro piece (rfl | ⟨isOld, _⟩)
    · simp only [Block.parent]
      omega
    · exact tiles.inside piece isOld
  unique := by
    have covering unit (covered : block.parent.Covers unit) : block.Covers unit ∨ block.buddy.Covers
        unit := by
      have halves := (block.parent.covers_halves unit (by simp [Block.parent])).mp covered
      rcases block.halves_of_parent with ⟨own, other⟩ | ⟨own, other⟩
      · rw [own, Block.low_buddy]
        simpa [← own] using halves
      · rw [← own, ← other] at halves
        exact halves.symm
    have parentOld : ∀ old ∈ blocks \ {block, block.buddy}, ∀ unit,
        block.parent.Covers unit → old.Covers unit → False := by
      rintro old ⟨isOld, apart⟩ unit coveredParent coveredOld
      apply apart
      rcases covering unit coveredParent with coveredBlock | coveredBuddy
      · exact .inl (tiles.unique old isOld block mem unit coveredOld coveredBlock)
      · exact .inr (tiles.unique old isOld block.buddy partner unit coveredOld coveredBuddy)
    rintro left (rfl | leftOld) right (rfl | rightOld) unit coveredLeft coveredRight
    · rfl
    · exact (parentOld right rightOld unit coveredLeft coveredRight).elim
    · exact (parentOld left leftOld unit coveredRight coveredLeft).elim
    · exact tiles.unique left leftOld.1 right rightOld.1 unit coveredLeft coveredRight
  total := by
    have halfCovers unit (covered : block.Covers unit ∨ block.buddy.Covers unit) : block.parent.Covers
        unit := by
      rw [block.parent.covers_halves unit (by simp [Block.parent])]
      rcases block.halves_of_parent with ⟨own, other⟩ | ⟨own, other⟩
      · rw [← own, ← other]
        exact covered
      · rw [← own, ← other]
        exact covered.symm
    intro unit bound
    obtain ⟨owner, isOwner, covered⟩ := tiles.total unit bound
    by_cases merged : owner ∈ ({block, block.buddy} : Set Block)
    · refine ⟨block.parent, .inl rfl, halfCovers unit ?_⟩
      rcases merged with rfl | rfl
      · exact .inl covered
      · exact .inr covered
    · exact ⟨owner, .inr ⟨isOwner, merged⟩, covered⟩

omit tiles

end Tiles

/-! ### Layouts: free and outstanding blocks -/

/-- Free and outstanding blocks share no block, repeat none, and tile together. -/
structure Layout (size : Nat) (free : Set Block) (outstanding : List Block) : Prop where
  tiles : Tiles size (free ∪ {block | block ∈ outstanding})
  separate : ∀ block ∈ outstanding, block ∉ free
  nodup : outstanding.Nodup

namespace Layout

variable {size : Nat} {free : Set Block} {outstanding : List Block} {block : Block}

theorem initial (size) : Layout size {⟨size, 0⟩} [] where
  tiles := by simpa using Tiles.whole size
  separate := by simp
  nodup := nodup_nil

theorem perm (layout : Layout size free outstanding) {reordered}
    (same : outstanding.Perm reordered) : Layout size free reordered where
  tiles := by
    have members : {block | block ∈ reordered} = {block | block ∈ outstanding} := by
      ext item
      exact same.mem_iff.symm
    rw [members]
    exact layout.tiles
  separate item member := layout.separate item (same.mem_iff.mpr member)
  nodup := same.nodup_iff.mp layout.nodup

theorem take (layout : Layout size free outstanding) (mem : block ∈ free) :
    Layout size (free \ {block}) (block :: outstanding) where
  tiles := by
    have same : (free \ {block}) ∪ {item | item ∈ block :: outstanding} =
        free ∪ {item | item ∈ outstanding} := by
      ext item
      simp only [Set.mem_union, Set.mem_sdiff, Set.mem_singleton_iff, Set.mem_ofPred_eq, mem_cons]
      by_cases equal : item = block
      · subst equal
        simp [mem]
      · simp [equal]
    rw [same]
    exact layout.tiles
  separate item outside := by
    rcases mem_cons.mp outside with rfl | old
    · simp
    · exact fun inFree => layout.separate item old inFree.1
  nodup := nodup_cons.mpr ⟨fun old => layout.separate block old mem, layout.nodup⟩

theorem give (layout : Layout size free (block :: outstanding)) :
    Layout size (insert block free) outstanding where
  tiles := by
    have same : insert block free ∪ {item | item ∈ outstanding} =
        free ∪ {item | item ∈ block :: outstanding} := by
      ext item
      simp only [Set.mem_union, Set.mem_insert_iff, Set.mem_ofPred_eq, mem_cons]
      tauto
    rw [same]
    exact layout.tiles
  separate item old inFree := by
    rcases inFree with rfl | isFree
    · exact (nodup_cons.mp layout.nodup).1 old
    · exact layout.separate item (mem_cons_of_mem block old) isFree
  nodup := (nodup_cons.mp layout.nodup).2

theorem mem_tiles_free (layout : Layout size free outstanding) (mem : block ∈ free) :
    block.order ≤ size ∧ block.index < 2 ^ (size - block.order) :=
  layout.tiles.inside block (.inl mem)

theorem mem_tiles_outstanding (layout : Layout size free outstanding) (mem : block ∈ outstanding) :
    block.order ≤ size ∧ block.index < 2 ^ (size - block.order) :=
  layout.tiles.inside block (.inr mem)

private theorem half_absent (layout : Layout size free (block :: outstanding))
    (pos : 0 < block.order) {half} (isHalf : half = block.low ∨ half = block.high) :
    half ∉ free ∪ {item | item ∈ block :: outstanding} := by
  intro here
  have covered : block.Covers half.start := by
    rw [block.covers_halves half.start pos]
    rcases isHalf with rfl | rfl
    · exact .inl block.low.covers_start
    · exact .inr block.high.covers_start
  have same := layout.tiles.unique half here block (.inr (.head _)) half.start half.covers_start covered
  have orders := congrArg Block.order same
  rcases isHalf with rfl | rfl
  · simp only [Block.low] at orders
    omega
  · simp only [Block.high] at orders
    omega

variable (layout : Layout size free (block :: outstanding))

include layout

theorem low_not_free (pos : 0 < block.order) : block.low ∉ free :=
  fun inFree => layout.half_absent pos (.inl rfl) (.inl inFree)

theorem high_not_free (pos : 0 < block.order) : block.high ∉ free :=
  fun inFree => layout.half_absent pos (.inr rfl) (.inl inFree)

theorem splitHead (pos : 0 < block.order) :
    Layout size (insert block.high free) (block.low :: outstanding) where
  tiles := by
    have parted := layout.tiles.split (.inr (.head _)) pos
    have same : insert block.high free ∪ {item | item ∈ block.low :: outstanding} = {block.low, block.high} ∪
          ((free ∪ {item | item ∈ block :: outstanding}) \ {block}) := by
      have absentTail := (nodup_cons.mp layout.nodup).1
      have absentFree := layout.separate block (.head _)
      ext item
      simp only [Set.mem_union, Set.mem_insert_iff, Set.mem_ofPred_eq, mem_cons,
        Set.mem_singleton_iff, Set.mem_sdiff]
      by_cases equal : item = block
      · subst equal
        simp only [absentFree, absentTail]
        tauto
      · tauto
    rw [same]
    exact parted
  separate item outside inFree := by
    rcases mem_cons.mp outside with rfl | old
    · rcases inFree with isHigh | isFree
      · exact block.low_ne_high isHigh
      · exact layout.low_not_free pos isFree
    · rcases inFree with rfl | isFree
      · exact layout.half_absent pos (.inr rfl) (.inr (mem_cons_of_mem block old))
      · exact layout.separate item (mem_cons_of_mem block old) isFree
  nodup := by
    refine nodup_cons.mpr ⟨?_, (nodup_cons.mp layout.nodup).2⟩
    intro old
    exact layout.half_absent pos (.inl rfl) (.inr (mem_cons_of_mem block old))

omit layout

private theorem parent_absent (layout : Layout size free (block :: outstanding)) :
    block.parent ∉ free ∪ {item | item ∈ block :: outstanding} := by
  intro here
  have covered : block.parent.Covers block.start := by
    rw [block.parent.covers_halves block.start (by simp [Block.parent])]
    rcases block.halves_of_parent with ⟨own, _⟩ | ⟨own, _⟩
    · exact .inl (own ▸ block.covers_start)
    · exact .inr (own ▸ block.covers_start)
  have same := layout.tiles.unique block.parent here block (.inr (.head _))
    block.start covered block.covers_start
  have orders := congrArg Block.order same
  simp [Block.parent] at orders

theorem mergeHead (layout : Layout size free (block :: outstanding))
    (partner : block.buddy ∈ free) (below : block.order < size) :
    Layout size (free \ {block.buddy}) (block.parent :: outstanding) where
  tiles := by
    have joined := layout.tiles.merge (.inr (.head _)) (.inl partner) below
    have same : (free \ {block.buddy}) ∪ {item | item ∈ block.parent :: outstanding} = {block.parent} ∪
          ((free ∪ {item | item ∈ block :: outstanding}) \ {block, block.buddy}) := by
      have absentTail := (nodup_cons.mp layout.nodup).1
      have absentFree := layout.separate block (.head _)
      have buddyTail : block.buddy ∉ outstanding := fun old =>
        layout.separate block.buddy (mem_cons_of_mem block old) partner
      ext item
      simp only [Set.mem_union, Set.mem_insert_iff, Set.mem_ofPred_eq, mem_cons,
        Set.mem_singleton_iff, Set.mem_sdiff]
      by_cases isBlock : item = block
      · subst isBlock
        simp only [absentFree, absentTail]
        tauto
      · by_cases isBuddy : item = block.buddy
        · subst isBuddy
          simp only [buddyTail]
          tauto
        · tauto
    rw [same]
    exact joined
  separate item outside inFree := by
    rcases mem_cons.mp outside with rfl | old
    · exact layout.parent_absent (.inl inFree.1)
    · exact layout.separate item (mem_cons_of_mem block old) inFree.1
  nodup := by
    refine nodup_cons.mpr ⟨?_, (nodup_cons.mp layout.nodup).2⟩
    intro old
    exact layout.parent_absent (.inr (mem_cons_of_mem block old))
theorem sum_le (layout : Layout size free outstanding) :
    (outstanding.map fun item => 2 ^ item.order).sum ≤ 2 ^ size := by
  let units : Block → Finset Nat := fun item => Finset.Ico item.start (item.start + 2 ^ item.order)
  have disjoint : (outstanding.toFinset : Set Block).PairwiseDisjoint units := by
    intro left leftIn right rightIn apart
    rw [Function.onFun, Finset.disjoint_left]
    intro unit inLeft inRight
    apply apart
    refine layout.tiles.unique left (.inr (by simpa using leftIn)) right
      (.inr (by simpa using rightIn)) unit ?_ ?_
    · rw [Block.covers_iff]
      simpa [units] using inLeft
    · rw [Block.covers_iff]
      simpa [units] using inRight
  have inside : outstanding.toFinset.biUnion units ⊆ Finset.range (2 ^ size) := by
    intro unit mem
    obtain ⟨item, itemIn, inUnits⟩ := Finset.mem_biUnion.mp mem
    have bound := layout.tiles.end_le (.inr (mem_toFinset.mp itemIn))
    simp only [units, Finset.mem_Ico] at inUnits
    exact Finset.mem_range.mpr (by omega)
  calc (outstanding.map fun item => 2 ^ item.order).sum = ∑ item ∈ outstanding.toFinset, 2 ^ item.order :=
        (sum_toFinset _ layout.nodup).symm
    _ = ∑ item ∈ outstanding.toFinset, (units item).card := by simp [units]
    _ = (outstanding.toFinset.biUnion units).card := (Finset.card_biUnion disjoint).symm
    _ ≤ (Finset.range (2 ^ size)).card := Finset.card_le_card inside
    _ = 2 ^ size := Finset.card_range _

end Layout

def Coalesced (size : Nat) (free : Set Block) : Prop :=
  ∀ block ∈ free, block.order < size → block.buddy ∉ free

theorem Coalesced.diff {size free} (coalesced : Coalesced size free)
    (block) : Coalesced size (free \ {block}) :=
  fun item mem below partner => coalesced item mem.1 below partner.1

theorem Coalesced.insert {size free block}
    (coalesced : Coalesced size free) (alone : block.order < size → block.buddy ∉ free) :
    Coalesced size (insert block free) := by
  intro item mem below partner
  rcases mem with rfl | old
  · rcases partner with same | isFree
    · exact item.buddy_ne same
    · exact alone below isFree
  rcases partner with same | isFree
  · have isBuddy : item = block.buddy := by
      rw [← same]
      exact item.buddy_buddy.symm
    subst isBuddy
    exact alone below old
  · exact coalesced item old below isFree

end MlnxOfed.Lib
