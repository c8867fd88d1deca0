/-
The buddy allocator behind the steering ICM pool (dr_icm_pool.c).

Every order has a bitmap of free blocks, a summary bitmap with one bit per word of it, and a counter.
Allocation searches upwards from the requested order and splits the block found; freeing merges with the
buddy while it is free.
-/

import MlnxOfed.Lib.DyadicTiling
import MlnxOfed.Lib.WordBitmap

namespace MlnxOfed.Steering

open Prod List Function Lib Words

def drFfs (l : BitVec 64) : Nat := lowestBit l

def drSetBit (nr : Nat) (addr : Words) : Words := addr.setBit nr

def drClearBit (nr : Nat) (addr : Words) : Words := addr.clearBit nr

def drTestBit (nr : Nat) (addr : Words) : Bool := addr.testBit nr

def bitsToLongs (nr : Nat) : Nat := (nr + 63) / 64

/-- The scan over the words of the summary, `remaining` of them left. -/
def drFindFirstBitFrom (setAddr addr : Words) (size setSize : Nat) : Nat → Nat → Nat
  | 0, _ => size
  | remaining + 1, idx =>
    if setAddr idx ≠ 0 then
      let setIdx := min (idx * 64 + drFfs (setAddr idx)) setSize
      min (setIdx * 64 + drFfs (addr setIdx)) size
    else drFindFirstBitFrom setAddr addr size setSize remaining (idx + 1)

def drFindFirstBit (setAddr addr : Words) (size : Nat) : Nat :=
  let setSize := (size - 1) / 64 + 1
  drFindFirstBitFrom setAddr addr size setSize ((setSize + 63) / 64) 0

/-- The bitmaps of `struct mlx5dr_icm_buddy_mem`. Orders are far below the word size, so counters and shifts
are naturals. -/
structure Buddy where
  maxOrder : Nat
  bits : Nat → Words
  numFree : Nat → Nat
  setBit : Nat → Words

def drBuddyInit (maxOrder : Nat) : Buddy :=
  { maxOrder := maxOrder
    bits := update (fun _ => zero) maxOrder (drSetBit 0 zero)
    setBit := update (fun _ => zero) maxOrder (drSetBit 0 zero)
    numFree := update (fun _ => 0) maxOrder 1 }

/-- Record block `seg` of order `o` as free: bit, summary bit, counter. -/
def Buddy.markFree (buddy : Buddy) (o seg : Nat) : Buddy :=
  { buddy with
    bits := update buddy.bits o (drSetBit seg (buddy.bits o))
    setBit := update buddy.setBit o (drSetBit (seg / 64) (buddy.setBit o))
    numFree := update buddy.numFree o (buddy.numFree o + 1) }

/-- Drop block `seg` of order `o` from the free ones; the summary bit goes when its word is zero. -/
def Buddy.markUsed (buddy : Buddy) (o seg : Nat) : Buddy :=
  let word := drClearBit seg (buddy.bits o)
  { buddy with
    bits := update buddy.bits o word
    setBit := update buddy.setBit o
      (if word (seg / 64) = 0 then drClearBit (seg / 64) (buddy.setBit o) else buddy.setBit o)
    numFree := update buddy.numFree o (buddy.numFree o - 1) }

/-- The `for` loop of `dr_buddy_alloc_mem`: first order from `o` with a block. -/
def drBuddyFindOrder (buddy : Buddy) : Nat → Nat → Option (Nat × Nat)
  | 0, _ => none
  | remaining + 1, o =>
    if buddy.numFree o ≠ 0 then
      let m := 1 <<< (buddy.maxOrder - o)
      let seg := drFindFirstBit (buddy.setBit o) (buddy.bits o) m
      if seg < m then some (o, seg) else drBuddyFindOrder buddy remaining (o + 1)
    else drBuddyFindOrder buddy remaining (o + 1)

/-- The `while (o > order)` loop of `dr_buddy_alloc_mem`, at order `order + steps`. -/
def drBuddySplit (order : Nat) : Nat → Buddy → Nat → Buddy × Nat
  | 0, buddy, seg => (buddy, seg)
  | steps + 1, buddy, seg =>
    drBuddySplit order steps (buddy.markFree (order + steps) ((seg <<< 1) ^^^ 1)) (seg <<< 1)

/-- `none` is the return value -1. -/
def drBuddyAllocMem (buddy : Buddy) (order : Nat) : Buddy × Option Nat :=
  match drBuddyFindOrder buddy (buddy.maxOrder + 1 - order) order with
  | none => (buddy, none)
  | some (o, seg) =>
    let result := drBuddySplit order (o - order) (buddy.markUsed o seg) seg
    (result.1, some (result.2 <<< order))

/-- The merging loop of `dr_buddy_free_mem`; past the last order it would read `bits[max_order + 1]`. -/
def drBuddyMerge : Nat → Buddy → Nat → Nat → Option (Buddy × Nat × Nat)
  | 0, _, _, _ => none
  | remaining + 1, buddy, seg, order =>
    if drTestBit (seg ^^^ 1) (buddy.bits order) then
      drBuddyMerge remaining (buddy.markUsed order (seg ^^^ 1)) (seg >>> 1) (order + 1)
    else some (buddy, seg, order)

def drBuddyFreeMem (buddy : Buddy) (seg order : Nat) : Option Buddy :=
  match drBuddyMerge (buddy.maxOrder + 1 - order) buddy (seg >>> order) order with
  | none => none
  | some (merged, top, topOrder) => some (merged.markFree topOrder top)

private theorem findFirstBitFrom_found (setAddr addr size setSize)
    (summary : Summarises setAddr addr) (range : ∀ nr, addr.testBit nr = true → nr < size)
    (sizeEq : setSize = (size - 1) / 64 + 1) (remaining idx)
    (here : ∃ word, idx * 64 ≤ word ∧ word < (idx + remaining) * 64 ∧ addr word ≠ 0) :
    drFindFirstBitFrom setAddr addr size setSize remaining idx < size ∧
      addr.testBit (drFindFirstBitFrom setAddr addr size setSize remaining idx) = true := by
  induction remaining generalizing idx with
  | zero =>
    obtain ⟨word, above, below, _⟩ := here
    omega
  | succ remaining ih =>
    unfold drFindFirstBitFrom
    split_ifs with nonzero
    · have inSummary := testBit_lowestBit setAddr idx nonzero
      have wordSet := (summary _).mp inSummary
      have bitSet := testBit_lowestBit addr _ wordSet
      have bounded := range _ bitSet
      have setIdxEq : min (idx * 64 + drFfs (setAddr idx)) setSize = idx * 64 + lowestBit (setAddr idx) := by
        simp only [drFfs]
        omega
      simp only [setIdxEq]
      have valueEq : min ((idx * 64 + lowestBit (setAddr idx)) * 64 +
          drFfs (addr (idx * 64 + lowestBit (setAddr idx)))) size =
          (idx * 64 + lowestBit (setAddr idx)) * 64 +
            lowestBit (addr (idx * 64 + lowestBit (setAddr idx))) := by
        simp only [drFfs]
        omega
      rw [valueEq]
      exact ⟨bounded, bitSet⟩
    · apply ih (idx + 1)
      obtain ⟨word, above, below, wordSet⟩ := here
      refine ⟨word, ?_, ?_, wordSet⟩
      · by_contra early
        -- a nonzero word in this summary word would make the summary word nonzero
        apply nonzero
        rw [word_ne_zero_iff]
        refine ⟨word - 64 * idx, by omega, ?_⟩
        have spot : 64 * idx + (word - 64 * idx) = word := by omega
        rw [spot]
        exact (summary word).mpr wordSet
      · have regrouped : (idx + 1 + remaining) * 64 = (idx + (remaining + 1)) * 64 := by ring
        omega

private theorem drFindFirstBit_found (setAddr addr size) (summary : Summarises setAddr addr)
    (range : ∀ nr, addr.testBit nr = true → nr < size) (here : ∃ nr, addr.testBit nr = true) :
    drFindFirstBit setAddr addr size < size ∧ addr.testBit (drFindFirstBit setAddr addr size) = true := by
  apply findFirstBitFrom_found setAddr addr size _ summary range rfl
  obtain ⟨nr, bitSet⟩ := here
  have bounded := range nr bitSet
  refine ⟨nr / 64, by omega, by omega, ?_⟩
  rw [word_ne_zero_iff]
  refine ⟨nr % 64, Nat.mod_lt nr (by decide), ?_⟩
  have spot : 64 * (nr / 64) + nr % 64 = nr := by omega
  rw [spot]
  exact bitSet

def Buddy.freeBlocks (buddy : Buddy) : Set Block :=
  {block | drTestBit block.index (buddy.bits block.order) = true}

/-- Words of `bits[o]` as allocated by `dr_buddy_init`. -/
def Buddy.words (buddy : Buddy) (o : Nat) : Nat := bitsToLongs (1 <<< (buddy.maxOrder - o))

structure Buddy.Consistent (buddy : Buddy) : Prop where
  counted : ∀ o, o ≤ buddy.maxOrder → buddy.numFree o = (buddy.bits o).count (buddy.words o)
  summarised : ∀ o, Summarises (buddy.setBit o) (buddy.bits o)

variable {o seg : Nat}

theorem lt_words (buddy : Buddy) (bound : seg < 2 ^ (buddy.maxOrder - o)) : seg < 64 * buddy.words o := by
  have size : 1 <<< (buddy.maxOrder - o) = 2 ^ (buddy.maxOrder - o) := by
    rw [Nat.shiftLeft_eq, one_mul]
  unfold Buddy.words bitsToLongs
  rw [size]
  omega

@[simp]
theorem Buddy.markFree_maxOrder (buddy : Buddy) (o seg : Nat) :
    (buddy.markFree o seg).maxOrder = buddy.maxOrder := rfl

@[simp]
theorem Buddy.markUsed_maxOrder (buddy : Buddy) (o seg : Nat) :
    (buddy.markUsed o seg).maxOrder = buddy.maxOrder := rfl

theorem Buddy.markFree_freeBlocks (buddy : Buddy) (o seg : Nat) :
    (buddy.markFree o seg).freeBlocks = insert ⟨o, seg⟩ buddy.freeBlocks := by
  ext ⟨order, index⟩
  simp only [freeBlocks, markFree, Set.mem_ofPred_eq, Set.mem_insert_iff, Block.mk.injEq]
  by_cases sameOrder : order = o
  · subst sameOrder
    simp [drTestBit, drSetBit, testBit_setBit]
  · simp [sameOrder]

theorem Buddy.markUsed_freeBlocks (buddy : Buddy) (o seg : Nat) :
    (buddy.markUsed o seg).freeBlocks = buddy.freeBlocks \ {⟨o, seg⟩} := by
  ext ⟨order, index⟩
  simp only [freeBlocks, markUsed, Set.mem_ofPred_eq, Set.mem_sdiff, Set.mem_singleton_iff, Block.mk.injEq]
  by_cases sameOrder : order = o
  · subst sameOrder
    simp [drTestBit, drClearBit, testBit_clearBit, and_comm]
  · simp [sameOrder]

theorem Buddy.Consistent.markFree {buddy : Buddy} (consistent : buddy.Consistent)
    (bound : seg < 2 ^ (buddy.maxOrder - o)) (absent : ⟨o, seg⟩ ∉ buddy.freeBlocks) :
    (buddy.markFree o seg).Consistent where
  counted order below := by
    by_cases sameOrder : order = o
    · subst sameOrder
      have clear : (buddy.bits order).testBit seg = false := by
        simpa [Buddy.freeBlocks, drTestBit] using absent
      simp only [Buddy.markFree, update_self, drSetBit]
      rw [consistent.counted order below]
      exact (count_setBit _ _ _ (lt_words buddy bound) clear).symm
    · simp only [Buddy.markFree, update_of_ne sameOrder]
      exact consistent.counted order below
  summarised order := by
    by_cases sameOrder : order = o
    · subst sameOrder
      simp only [Buddy.markFree, update_self, drSetBit]
      exact (consistent.summarised order).setBit seg
    · simp only [Buddy.markFree, update_of_ne sameOrder]
      exact consistent.summarised order

theorem Buddy.Consistent.markUsed {buddy : Buddy} (consistent : buddy.Consistent)
    (bound : seg < 2 ^ (buddy.maxOrder - o)) (mem : ⟨o, seg⟩ ∈ buddy.freeBlocks) :
    (buddy.markUsed o seg).Consistent where
  counted order below := by
    by_cases sameOrder : order = o
    · subst sameOrder
      simp only [Buddy.markUsed, update_self, drClearBit]
      have shrunk : ((buddy.bits order).clearBit seg).count (buddy.words order) + 1 =
          (buddy.bits order).count (buddy.words order) :=
        count_clearBit _ _ _ (lt_words buddy bound) mem
      have old : buddy.numFree order = (buddy.bits order).count (buddy.words order) :=
        consistent.counted order below
      change _ = ((buddy.bits order).clearBit seg).count (buddy.words order)
      omega
    · simp only [Buddy.markUsed, update_of_ne sameOrder]
      exact consistent.counted order below
  summarised order := by
    by_cases sameOrder : order = o
    · subst sameOrder
      simp only [Buddy.markUsed, update_self, drClearBit]
      exact (consistent.summarised order).clearBit seg
    · simp only [Buddy.markUsed, update_of_ne sameOrder]
      exact consistent.summarised order

/-- Bitmaps consistent, blocks tiling the segment, buddies coalesced. -/
structure Buddy.Valid (buddy : Buddy) (outstanding : List Block) : Prop where
  consistent : buddy.Consistent
  layout : Layout buddy.maxOrder buddy.freeBlocks outstanding
  coalesced : Coalesced buddy.maxOrder buddy.freeBlocks

theorem drBuddyInit_freeBlocks (maxOrder) : (drBuddyInit maxOrder).freeBlocks = {⟨maxOrder, 0⟩} := by
  ext ⟨order, index⟩
  simp only [Buddy.freeBlocks, drBuddyInit, Set.mem_ofPred_eq, Set.mem_singleton_iff, Block.mk.injEq]
  by_cases sameOrder : order = maxOrder
  · subst sameOrder
    simp [drTestBit, drSetBit, testBit_setBit]
  · simp [drTestBit, sameOrder]

theorem drBuddyInit_valid (maxOrder) : (drBuddyInit maxOrder).Valid [] where
  consistent :=
    { counted o below := by
        by_cases sameOrder : o = maxOrder
        · subst sameOrder
          simp only [drBuddyInit, update_self, drSetBit]
          rw [count_setBit _ _ _ (by simp [Buddy.words, bitsToLongs]) (by simp)]
          simp
        · simp [drBuddyInit, update_of_ne sameOrder]
      summarised o := by
        by_cases sameOrder : o = maxOrder
        · subst sameOrder
          simp only [drBuddyInit, update_self, drSetBit]
          exact summarises_zero.setBit 0
        · simp only [drBuddyInit, update_of_ne sameOrder]
          exact summarises_zero }
  layout := by
    rw [drBuddyInit_freeBlocks]
    exact Layout.initial maxOrder
  coalesced := by
    rw [drBuddyInit_freeBlocks]
    rintro block rfl below _
    exact absurd below (lt_irrefl maxOrder)

variable {buddy : Buddy} {outstanding : List Block}

private theorem findOrder_found (valid : buddy.Valid outstanding) (remaining o)
    (top : o + remaining = buddy.maxOrder + 1) :
    match drBuddyFindOrder buddy remaining o with
    | none => ∀ block ∈ buddy.freeBlocks, block.order < o
    | some (order, seg) => o ≤ order ∧ ⟨order, seg⟩ ∈ buddy.freeBlocks := by
  induction remaining generalizing o with
  | zero =>
    intro block mem
    have bound := (valid.layout.mem_tiles_free mem).1
    omega
  | succ remaining ih =>
    have later := ih (o + 1) (by omega)
    have inRange : o ≤ buddy.maxOrder := by omega
    have size : 1 <<< (buddy.maxOrder - o) = 2 ^ (buddy.maxOrder - o) := by
      rw [Nat.shiftLeft_eq, one_mul]
    simp only [drBuddyFindOrder]
    by_cases counted : buddy.numFree o ≠ 0
    · rw [valid.consistent.counted o inRange, count_pos_iff] at counted
      obtain ⟨nr, _, bitSet⟩ := counted
      have found := drFindFirstBit_found (buddy.setBit o) (buddy.bits o)
        (1 <<< (buddy.maxOrder - o)) (valid.consistent.summarised o)
        (fun bit here => by
          rw [size]
          exact (valid.layout.mem_tiles_free (show (⟨o, bit⟩ : Block) ∈ buddy.freeBlocks from here)).2)
        ⟨nr, bitSet⟩
      have nonzero : buddy.numFree o ≠ 0 := by
        rw [valid.consistent.counted o inRange, count_pos_iff]
        exact ⟨nr, by assumption, bitSet⟩
      rw [if_pos nonzero, if_pos found.1]
      exact ⟨Nat.le_refl o, found.2⟩
    · rw [if_neg counted]
      have emptyOrder : ∀ block ∈ buddy.freeBlocks, block.order ≠ o := by
        rintro ⟨order, index⟩ mem rfl
        apply counted
        rw [valid.consistent.counted order inRange, count_pos_iff]
        exact ⟨index, lt_words buddy (valid.layout.mem_tiles_free mem).2, mem⟩
      cases res : drBuddyFindOrder buddy remaining (o + 1) with
      | none =>
        rw [res] at later
        intro block mem
        have below := later block mem
        have different := emptyOrder block mem
        omega
      | some found =>
        rw [res] at later
        exact ⟨by omega, later.2⟩

private theorem split_step (valid : buddy.Valid (⟨o + 1, seg⟩ :: outstanding)) :
    (buddy.markFree o ((seg <<< 1) ^^^ 1)).Valid (⟨o, seg <<< 1⟩ :: outstanding) := by
  have doubled : seg <<< 1 = 2 * seg := by
    rw [Nat.shiftLeft_eq]
    omega
  have isHigh : (⟨o, (seg <<< 1) ^^^ 1⟩ : Block) = (⟨o + 1, seg⟩ : Block).high := by
    rw [doubled, Nat.xor_one_of_even (even_two_mul seg)]
    rfl
  have isLow : (⟨o, seg <<< 1⟩ : Block) = (⟨o + 1, seg⟩ : Block).low := by
    rw [doubled]
    rfl
  have pos : 0 < (⟨o + 1, seg⟩ : Block).order := Nat.succ_pos o
  have layout := valid.layout.splitHead pos
  have highInside := (layout.mem_tiles_free (Set.mem_insert _ _)).2
  have highAbsent := valid.layout.high_not_free pos
  rw [← isHigh] at layout highInside highAbsent
  rw [← isLow] at layout
  refine ⟨valid.consistent.markFree highInside highAbsent, ?_, ?_⟩
  · rw [Buddy.markFree_freeBlocks]
    exact layout
  rw [Buddy.markFree_freeBlocks]
  apply valid.coalesced.insert
  intro _
  have buddyEq : (⟨o, (seg <<< 1) ^^^ 1⟩ : Block).buddy = (⟨o + 1, seg⟩ : Block).low := by
    rw [isHigh, ← Block.low_buddy, Block.buddy_buddy]
  rw [buddyEq]
  exact valid.layout.low_not_free pos

private theorem split_valid (order steps buddy seg)
    (valid : buddy.Valid (⟨order + steps, seg⟩ :: outstanding)) : (drBuddySplit order steps buddy seg).1.Valid
        (⟨order, (drBuddySplit order steps buddy seg).2⟩ :: outstanding) ∧
      (drBuddySplit order steps buddy seg).1.maxOrder = buddy.maxOrder := by
  induction steps generalizing buddy seg with
  | zero => exact ⟨valid, rfl⟩
  | succ steps ih => exact ih _ _ (split_step valid)

theorem drBuddyAllocMem_valid (valid : buddy.Valid outstanding) (order) (inRange : order ≤ buddy.maxOrder) :
    match drBuddyAllocMem buddy order with
    | (after, some seg) => after.maxOrder = buddy.maxOrder ∧
        ∃ block : Block, block.order = order ∧ block.start = seg ∧ after.Valid (block :: outstanding)
    | (after, none) => after = buddy ∧ ∀ block ∈ buddy.freeBlocks, block.order < order := by
  have search := findOrder_found valid (buddy.maxOrder + 1 - order) order (by omega)
  unfold drBuddyAllocMem
  cases found : drBuddyFindOrder buddy (buddy.maxOrder + 1 - order) order with
  | none =>
    rw [found] at search
    exact ⟨rfl, search⟩
  | some spot =>
    obtain ⟨o, seg⟩ := spot
    rw [found] at search
    obtain ⟨above, mem⟩ := search
    have taken : (buddy.markUsed o seg).Valid (⟨o, seg⟩ :: outstanding) := by
      refine ⟨valid.consistent.markUsed (valid.layout.mem_tiles_free mem).2 mem, ?_, ?_⟩
      · rw [Buddy.markUsed_freeBlocks]
        exact valid.layout.take mem
      · rw [Buddy.markUsed_freeBlocks]
        exact valid.coalesced.diff _
    have orderEq : order + (o - order) = o := by omega
    rw [← orderEq] at taken
    have parted := split_valid order (o - order) _ seg taken
    rw [orderEq] at parted
    refine ⟨parted.2, ⟨order, _⟩, rfl, ?_, parted.1⟩
    rw [Nat.shiftLeft_eq]
    rfl

private theorem merge_valid (remaining buddy block)
    (valid : buddy.Valid (block :: outstanding)) (enough : buddy.maxOrder < block.order + remaining) :
    ∃ merged top, drBuddyMerge remaining buddy block.index block.order = some (merged, top.index, top.order) ∧
      merged.maxOrder = buddy.maxOrder ∧ merged.Valid (top :: outstanding) ∧
      top.buddy ∉ merged.freeBlocks := by
  induction remaining generalizing buddy block with
  | zero =>
    have bound := (valid.layout.mem_tiles_outstanding (.head _)).1
    omega
  | succ remaining ih =>
    simp only [drBuddyMerge]
    by_cases partner : block.buddy ∈ buddy.freeBlocks
    · have bitSet : drTestBit (block.index ^^^ 1) (buddy.bits block.order) = true := partner
      rw [if_pos bitSet]
      have inside := valid.layout.mem_tiles_free partner
      -- at the top order the only index is 0, so its buddy has no bit
      have below : block.order < buddy.maxOrder := by
        have own := valid.layout.mem_tiles_outstanding (.head _)
        have bound : block.order ≤ buddy.maxOrder := own.1
        by_contra atTop
        have orderEq : buddy.maxOrder - block.order = 0 := by omega
        have buddyZero : block.buddy.index = 0 := by
          have := inside.2
          simp only [Block.buddy, orderEq] at this ⊢
          omega
        have ownZero : block.index = 0 := by
          have := own.2
          rw [orderEq] at this
          omega
        rcases block.buddy_index_cases with ⟨first, second⟩ | ⟨first, second⟩ <;> omega
      have swallowed : (buddy.markUsed block.order (block.index ^^^ 1)).Valid
          (block.parent :: outstanding) := by
        refine ⟨valid.consistent.markUsed inside.2 partner, ?_, ?_⟩
        · rw [Buddy.markUsed_freeBlocks]
          exact valid.layout.mergeHead partner below
        · rw [Buddy.markUsed_freeBlocks]
          exact valid.coalesced.diff _
      obtain ⟨merged, top, res, sameMax, validTop, alone⟩ := ih _ block.parent swallowed
        (by simp only [Buddy.markUsed_maxOrder, Block.parent]; omega)
      have halved : block.index >>> 1 = block.parent.index := by
        rw [Nat.shiftRight_eq_div_pow]
        rfl
      rw [halved]
      exact ⟨merged, top, res, sameMax, validTop, alone⟩
    · have bitClear : ¬ drTestBit (block.index ^^^ 1) (buddy.bits block.order) = true := partner
      rw [if_neg bitClear]
      exact ⟨buddy, block, rfl, rfl, valid, partner⟩

theorem drBuddyFreeMem_valid (valid : buddy.Valid outstanding) (block) (mem : block ∈ outstanding) :
    ∃ after, drBuddyFreeMem buddy block.start block.order = some after ∧
      after.maxOrder = buddy.maxOrder ∧ after.Valid (outstanding.erase block) := by
  have front : buddy.Valid (block :: outstanding.erase block) :=
    { valid with layout := valid.layout.perm (perm_cons_erase mem) }
  have shifted : block.start >>> block.order = block.index := by
    rw [Nat.shiftRight_eq_div_pow, Block.start, Nat.mul_div_cancel _ (Nat.two_pow_pos block.order)]
  obtain ⟨merged, top, res, sameMax, validTop, alone⟩ :=
    merge_valid (buddy.maxOrder + 1 - block.order) buddy block front (by omega)
  refine ⟨merged.markFree top.order top.index, ?_, sameMax, ?_⟩
  · unfold drBuddyFreeMem
    rw [shifted, res]
  have inside := validTop.layout.mem_tiles_outstanding (.head _)
  have absent := validTop.layout.separate top (.head _)
  refine ⟨validTop.consistent.markFree inside.2 absent, ?_, ?_⟩
  · rw [Buddy.markFree_freeBlocks]
    exact validTop.layout.give
  · rw [Buddy.markFree_freeBlocks]
    exact validTop.coalesced.insert fun _ => alone

/-- The allocator and what its callers hold: each segment returned with its order. -/
structure BuddyState where
  buddy : Buddy
  outstanding : List (Nat × Nat)

inductive BuddyStep : BuddyState → BuddyState → Prop where
  | alloc (state : BuddyState) (order seg : Nat) (after : Buddy) (inRange : order ≤ state.buddy.maxOrder)
      (returned : drBuddyAllocMem state.buddy order = (after, some seg)) :
      BuddyStep state ⟨after, (seg, order) :: state.outstanding⟩
  | exhausted (state : BuddyState) (order : Nat) (after : Buddy) (inRange : order ≤ state.buddy.maxOrder)
      (returned : drBuddyAllocMem state.buddy order = (after, none)) :
      BuddyStep state ⟨after, state.outstanding⟩
  | free (state : BuddyState) (seg order : Nat) (after : Buddy) (member : (seg, order) ∈ state.outstanding)
      (returned : drBuddyFreeMem state.buddy seg order = some after) :
      BuddyStep state ⟨after, state.outstanding.erase (seg, order)⟩

def BuddyReachable (maxOrder : Nat) : BuddyState → Prop :=
  Relation.ReflTransGen BuddyStep ⟨drBuddyInit maxOrder, []⟩

def holding (block : Block) : Nat × Nat := (block.start, block.order)

theorem holding_injective : Injective holding := by
  rintro ⟨leftOrder, leftIndex⟩ ⟨rightOrder, rightIndex⟩ same
  simp only [holding, Block.start, mk.injEq] at same
  obtain ⟨starts, rfl⟩ := same
  have indices := Nat.eq_of_mul_eq_mul_right (Nat.two_pow_pos leftOrder) starts
  rw [indices]

def BuddyState.Valid (maxOrder : Nat) (state : BuddyState) : Prop :=
  state.buddy.maxOrder = maxOrder ∧ ∃ blocks, state.outstanding = blocks.map holding ∧ state.buddy.Valid blocks

theorem BuddyStep.valid {maxOrder state after} (step : BuddyStep state after)
    (valid : state.Valid maxOrder) : after.Valid maxOrder := by
  obtain ⟨sameMax, blocks, held, validBuddy⟩ := valid
  cases step with
  | alloc order seg next inRange back =>
    have spec := drBuddyAllocMem_valid validBuddy order inRange
    rw [back] at spec
    obtain ⟨kept, block, rfl, rfl, validNext⟩ := spec
    exact ⟨kept.trans sameMax, block :: blocks, by rw [held]; rfl, validNext⟩
  | exhausted order next inRange back =>
    have spec := drBuddyAllocMem_valid validBuddy order inRange
    rw [back] at spec
    obtain ⟨rfl, _⟩ := spec
    exact ⟨sameMax, blocks, held, validBuddy⟩
  | free seg order next mem back =>
    rw [held] at mem
    obtain ⟨block, isOutstanding, same⟩ := mem_map.mp mem
    simp only [holding, mk.injEq] at same
    obtain ⟨rfl, rfl⟩ := same
    obtain ⟨res, freed, kept, validNext⟩ :=
      drBuddyFreeMem_valid validBuddy block isOutstanding
    have nextEq : res = next := Option.some.inj (freed.symm.trans back)
    subst nextEq
    refine ⟨kept.trans sameMax, blocks.erase block, ?_, validNext⟩
    rw [held, map_erase holding_injective]
    rfl

theorem BuddyReachable.valid {maxOrder state}
    (reachable : BuddyReachable maxOrder state) : state.Valid maxOrder := by
  induction reachable with
  | refl => exact ⟨rfl, [], rfl, drBuddyInit_valid maxOrder⟩
  | tail _ step ih => exact step.valid ih

def units (seg order : Nat) : Set Nat := Set.Ico seg (seg + 2 ^ order)

def Buddy.IsFree (buddy : Buddy) (o index : Nat) : Prop :=
  o ≤ buddy.maxOrder ∧ drTestBit index (buddy.bits o) = true

structure BuddyState.Sound (maxOrder : Nat) (state : BuddyState) : Prop where
  aligned : ∀ seg order, (seg, order) ∈ state.outstanding →
    2 ^ order ∣ seg ∧ units seg order ⊆ Set.Ico 0 (2 ^ maxOrder)
  heldDisjoint : state.outstanding.Pairwise fun left right =>
    Disjoint (units left.1 left.2) (units right.1 right.2)
  freeDisjoint : ∀ o index o' index', state.buddy.IsFree o index → state.buddy.IsFree o' index' →
    (o, index) ≠ (o', index') → Disjoint (units (index * 2 ^ o) o) (units (index' * 2 ^ o') o')
  heldFreeDisjoint : ∀ seg order o index, (seg, order) ∈ state.outstanding →
    state.buddy.IsFree o index → Disjoint (units seg order) (units (index * 2 ^ o) o)
  covering : ∀ unit, unit < 2 ^ maxOrder ↔
    (∃ seg order, (seg, order) ∈ state.outstanding ∧ unit ∈ units seg order) ∨
      ∃ o index, state.buddy.IsFree o index ∧ unit ∈ units (index * 2 ^ o) o
  counted : ∀ o, o ≤ maxOrder →
    state.buddy.numFree o = (state.buddy.bits o).count (bitsToLongs (2 ^ (maxOrder - o)))
  summarised : ∀ o, o ≤ maxOrder → ∀ w, w < bitsToLongs (2 ^ (maxOrder - o)) →
    (drTestBit w (state.buddy.setBit o) = true ↔ state.buddy.bits o w ≠ 0)
  coalesced : ∀ o, o < maxOrder → ∀ index,
    ¬ (state.buddy.IsFree o (2 * index) ∧ state.buddy.IsFree o (2 * index + 1))
  freeReturns : ∀ seg order, (seg, order) ∈ state.outstanding →
    ∃ after, drBuddyFreeMem state.buddy seg order = some after

theorem mem_units_iff (block : Block) (unit : Nat) :
    unit ∈ units block.start block.order ↔ block.Covers unit := by
  rw [Block.covers_iff, units, Set.mem_Ico]

private theorem disjoint_units {size blocks} (tiles : Tiles size blocks)
    {left right} (leftIn : left ∈ blocks) (rightIn : right ∈ blocks) (apart : left ≠ right) :
    Disjoint (units left.start left.order) (units right.start right.order) := by
  rw [Set.disjoint_left]
  intro unit inLeft inRight
  exact apart (tiles.unique left leftIn right rightIn unit
    ((mem_units_iff left unit).mp inLeft) ((mem_units_iff right unit).mp inRight))

/-- In every state that allocations and frees of outstanding blocks reach from `dr_buddy_init`, blocks are
aligned and inside, held and free ones partition the segment, counters and summaries are exact, buddies are
coalesced, and permitted frees return. -/
theorem buddy_reachable_sound (maxOrder : Nat) (state : BuddyState)
    (reachable : BuddyReachable maxOrder state) : state.Sound maxOrder := by
  obtain ⟨sameMax, blocks, held, valid⟩ := reachable.valid
  subst sameMax
  have tiles := valid.layout.tiles
  have heldBlock seg order (member : (seg, order) ∈ state.outstanding) : ∃ block ∈ blocks, block.start = seg ∧
      block.order = order := by
    rw [held] at member
    obtain ⟨block, isOutstanding, same⟩ := mem_map.mp member
    simp only [holding, mk.injEq] at same
    exact ⟨block, isOutstanding, same⟩
  have freeMember o index (isFree : state.buddy.IsFree o index) : (⟨o, index⟩ : Block) ∈
      state.buddy.freeBlocks := isFree.2
  refine ⟨?_, ?_, ?_, ?_, ?_, ?_, ?_, ?_, ?_⟩
  · intro seg order member
    obtain ⟨block, isOutstanding, rfl, rfl⟩ := heldBlock seg order member
    refine ⟨⟨block.index, mul_comm _ _⟩, ?_⟩
    intro unit inside
    have bound := tiles.end_le (.inr isOutstanding)
    simp only [units, Set.mem_Ico] at inside ⊢
    omega
  · rw [held, pairwise_map]
    refine valid.layout.nodup.imp_of_mem ?_
    intro left right leftIn rightIn different
    exact disjoint_units tiles (.inr leftIn) (.inr rightIn) different
  · intro o index o' index' leftFree rightFree different
    have leftIn := freeMember _ _ leftFree
    have rightIn := freeMember _ _ rightFree
    refine disjoint_units tiles (.inl leftIn) (.inl rightIn) ?_
    intro same
    apply different
    rw [Block.mk.injEq] at same
    rw [same.1, same.2]
  · intro seg order o index member isFree
    obtain ⟨block, isOutstanding, rfl, rfl⟩ := heldBlock seg order member
    have freeIn := freeMember _ _ isFree
    refine disjoint_units tiles (.inr isOutstanding) (.inl freeIn) ?_
    intro same
    exact valid.layout.separate block isOutstanding (same ▸ freeMember _ _ isFree)
  · intro unit
    constructor
    · intro bound
      obtain ⟨block, owner, covered⟩ := tiles.total unit bound
      have inUnits := (mem_units_iff block unit).mpr covered
      rcases owner with isFree | isOutstanding
      · have inRange := (valid.layout.mem_tiles_free isFree).1
        exact .inr ⟨block.order, block.index, ⟨inRange, isFree⟩, inUnits⟩
      · refine .inl ⟨block.start, block.order, ?_, inUnits⟩
        rw [held]
        exact mem_map.mpr ⟨block, isOutstanding, rfl⟩
    · rintro (⟨seg, order, member, inUnits⟩ | ⟨o, index, isFree, inUnits⟩)
      · obtain ⟨block, isOutstanding, rfl, rfl⟩ := heldBlock seg order member
        have bound := tiles.end_le (.inr isOutstanding)
        simp only [units, Set.mem_Ico] at inUnits
        omega
      · have bound := tiles.end_le (.inl (freeMember _ _ isFree))
        simp only [units, Set.mem_Ico] at inUnits
        simp only [Block.start] at bound
        omega
  · intro o inRange
    rw [valid.consistent.counted o inRange, Buddy.words, Nat.shiftLeft_eq, one_mul]
  · intro o _ w _
    exact valid.consistent.summarised o w
  · intro o below index both
    refine valid.coalesced ⟨o, 2 * index⟩ (freeMember _ _ both.1) below ?_
    have partner : (⟨o, 2 * index⟩ : Block).buddy = ⟨o, 2 * index + 1⟩ := by
      rw [Block.buddy, Nat.xor_one_of_even (even_two_mul index)]
    rw [partner]
    exact freeMember _ _ both.2
  · intro seg order member
    obtain ⟨block, isOutstanding, rfl, rfl⟩ := heldBlock seg order member
    obtain ⟨after, freed, _⟩ := drBuddyFreeMem_valid valid block isOutstanding
    exact ⟨after, freed⟩

/-- A state reached: two units of a four-unit segment allocated, the second returned. -/
theorem buddy_reachable_sound_four_units :
    ∃ state, BuddyReachable 2 state ∧ state.outstanding = [(0, 0)] ∧ state.Sound 2 := by
  let first := (drBuddyAllocMem (drBuddyInit 2) 0).1
  let second := (drBuddyAllocMem first 0).1
  have firstReturned : drBuddyAllocMem (drBuddyInit 2) 0 = (first, some 0) :=
    Prod.ext rfl (by decide)
  have secondReturned : drBuddyAllocMem first 0 = (second, some 1) :=
    Prod.ext rfl (by decide)
  have reachedTwo : BuddyReachable 2 ⟨second, [(1, 0), (0, 0)]⟩ :=
    (Relation.ReflTransGen.refl.tail
      (BuddyStep.alloc ⟨drBuddyInit 2, []⟩ 0 0 first (Nat.zero_le _) firstReturned)).tail
        (BuddyStep.alloc ⟨first, [(0, 0)]⟩ 0 1 second (Nat.zero_le _) secondReturned)
  obtain ⟨after, freed⟩ :=
    (buddy_reachable_sound 2 _ reachedTwo).freeReturns 1 0 (.head _)
  have reached : BuddyReachable 2 ⟨after, [(0, 0)]⟩ :=
    reachedTwo.tail (BuddyStep.free _ 1 0 after (.head _) freed)
  exact ⟨⟨after, [(0, 0)]⟩, reached, rfl, buddy_reachable_sound 2 _ reached⟩

end MlnxOfed.Steering
