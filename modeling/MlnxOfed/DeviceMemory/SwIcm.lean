/-
The SW ICM of the device memory (lib/dm.c): regions handed out in blocks, with a bitmap of those in use.
-/

import Mathlib.Order.CompletePartialOrder
import Mathlib.Data.List.Perm.Basic
import Mathlib.Data.Nat.Bitwise
import Mathlib.Order.Interval.Set.Disjoint

namespace MlnxOfed.DeviceMemory

open Function

inductive SwIcmType where
  | steering
  | headerModify
  | headerModifyPattern
  | swEncap
  deriving DecidableEq

/-- Start address and size of a type as reported, and whether `mlx5_dm_create` made a bitmap. -/
structure IcmRegion where
  start : Nat
  logSize : Nat
  mapped : Bool

/-- `bit` is `BIT`, only defined below the width of a long, and `findArea` is `bitmap_find_next_zero_area`.
-/
structure DmDev where
  created : Bool
  logBlock : Nat
  region : SwIcmType → IcmRegion
  bit : Nat → Nat
  findArea : (Nat → Bool) → Nat → Nat → Nat → Nat → Nat
  granularity : logBlock < 31
  blocks : ∀ type, logBlock ≤ (region type).logSize
  words : ∀ type, (region type).logSize < 64
  inMemory : ∀ type, (region type).start + 2 ^ (region type).logSize ≤ 2 ^ 64
  bit_eq : ∀ n < 64, bit n = 2 ^ n
  findArea_spec : ∀ map size start nr alignMask, let index := findArea map size start nr alignMask
    size ≤ index ∨ index + nr ≤ size ∧ (∀ i, index ≤ i → i < index + nr → map i = false) ∧
        index &&& alignMask = 0

def DmDev.blockSize (dev : DmDev) : Nat := 2 ^ dev.logBlock

/-- `DIV_ROUND_UP_ULL` into a `u32`. -/
def DmDev.numBlocks (dev : DmDev) (length : Nat) : Nat :=
  (length + dev.blockSize - 1) / dev.blockSize % 2 ^ 32

def bitmapSet (map : Nat → Bool) (start nr : Nat) : Nat → Bool :=
  fun i => map i || decide (start ≤ i ∧ i < start + nr)

def bitmapClear (map : Nat → Bool) (start nr : Nat) : Nat → Bool :=
  fun i => map i && !decide (start ≤ i ∧ i < start + nr)

abbrev BlockMaps := SwIcmType → Nat → Bool

/-- `ret` is what the command that creates the object returns. -/
def mlx5DmSwIcmAlloc (dev : DmDev) (maps : BlockMaps) (type : SwIcmType)
    (length logAlignment : Nat) (ret : Int) : BlockMaps × Except Int Nat :=
  let numBlocks := dev.numBlocks length
  let region := dev.region type
  if dev.created = false then (maps, .error (-95))
  else if length = 0 ∨ length &&& (length - 1) ≠ 0 ∨ length &&& (dev.blockSize - 1) ≠ 0 then
    (maps, .error (-22))
  else if region.mapped = false then (maps, .error (-95))
  else
    let maxBlocks := dev.bit (region.logSize - dev.logBlock) % 2 ^ 32
    let alignMask := dev.bit (max logAlignment dev.logBlock - dev.logBlock) - 1
    let blockIdx := dev.findArea (maps type) maxBlocks 0 numBlocks alignMask
    if maxBlocks ≤ blockIdx then (maps, .error (-12))
    else
      let map := bitmapSet (maps type) blockIdx numBlocks
      if ret ≠ 0 then (update maps type (bitmapClear map blockIdx numBlocks), .error ret)
      else (update maps type map, .ok ((region.start + blockIdx * dev.blockSize) % 2 ^ 64))

def mlx5DmSwIcmDealloc (dev : DmDev) (maps : BlockMaps) (type : SwIcmType) (length addr : Nat)
    (ret : Int) : BlockMaps × Int :=
  if dev.created = false then (maps, -95)
  else if ret ≠ 0 then (maps, ret)
  else
    let startIdx := (addr + 2 ^ 64 - (dev.region type).start) % 2 ^ 64 / dev.blockSize
    (update maps type (bitmapClear (maps type) startIdx (dev.numBlocks length)), 0)

structure Allocation where
  type : SwIcmType
  length : Nat
  logAlignment : Nat
  addr : Nat
  deriving DecidableEq

structure DmRun where
  maps : BlockMaps
  live : List Allocation

def DmRun.init : DmRun := ⟨fun _ _ => false, []⟩

inductive DmOp where
  | alloc (type : SwIcmType) (length logAlignment : Nat) (ret : Int)
  | dealloc (index : Nat) (ret : Int)

def DmRun.step (dev : DmDev) (run : DmRun) : DmOp → DmRun
  | .alloc type length logAlignment ret =>
    match mlx5DmSwIcmAlloc dev run.maps type length logAlignment ret with
    | (maps, .ok addr) => ⟨maps, ⟨type, length, logAlignment, addr⟩ :: run.live⟩
    | (maps, .error _) => ⟨maps, run.live⟩
  | .dealloc index ret =>
    match run.live[index]? with
    | none => run
    | some old =>
      let result := mlx5DmSwIcmDealloc dev run.maps old.type old.length old.addr ret
      ⟨result.1, if result.2 = 0 then run.live.eraseIdx index else run.live⟩

def DmRun.run (dev : DmDev) (ops : List DmOp) : DmRun := ops.foldl (DmRun.step dev) .init

/-- The length has less than 2 to the 32 blocks, and the alignment less than 2 to the 64. -/
def DmOp.Fits (dev : DmDev) : DmOp → Prop
  | .alloc _ length logAlignment _ =>
    length < 2 ^ 32 * dev.blockSize ∧ logAlignment < dev.logBlock + 64
  | .dealloc .. => True

def Allocation.range (a : Allocation) : Set Nat := Set.Ico a.addr (a.addr + a.length)

structure DmRun.Sound (dev : DmDev) (run : DmRun) : Prop where
  disjoint : run.live.Pairwise fun a b => a.type = b.type → Disjoint a.range b.range
  inside : ∀ a ∈ run.live, (dev.region a.type).start ≤ a.addr ∧
    a.addr + a.length ≤ (dev.region a.type).start + 2 ^ (dev.region a.type).logSize
  aligned : ∀ a ∈ run.live, 2 ^ max a.logAlignment dev.logBlock ∣ a.addr - (dev.region a.type).start
  exact : ∀ type i, run.maps type i = true ↔
    ∃ a ∈ run.live, a.type = type ∧ (dev.region type).start + i * dev.blockSize ∈ a.range

/-! ### The blocks of an allocation -/

section Blocks

variable {dev : DmDev} {run : DmRun} {maps : BlockMaps} {type : SwIcmType} {a b : Allocation}

def Allocation.first (dev : DmDev) (a : Allocation) : Nat :=
  (a.addr - (dev.region a.type).start) / dev.blockSize

def Allocation.Has (dev : DmDev) (a : Allocation) (i : Nat) : Prop :=
  a.first dev ≤ i ∧ i < a.first dev + dev.numBlocks a.length

instance (dev : DmDev) (a : Allocation) (i : Nat) : Decidable (a.Has dev i) :=
  inferInstanceAs (Decidable (_ ∧ _))

structure Placed (dev : DmDev) (a : Allocation) : Prop where
  addr : a.addr = (dev.region a.type).start + a.first dev * dev.blockSize
  length : a.length = dev.numBlocks a.length * dev.blockSize
  inside : a.first dev + dev.numBlocks a.length ≤ 2 ^ ((dev.region a.type).logSize - dev.logBlock)
  aligned : 2 ^ (max a.logAlignment dev.logBlock - dev.logBlock) ∣ a.first dev

structure DmRun.Inv (dev : DmDev) (run : DmRun) : Prop where
  placed : ∀ a ∈ run.live, Placed dev a
  apart : run.live.Pairwise fun a b => a.type = b.type → ∀ i, a.Has dev i → ¬ b.Has dev i
  marked : ∀ type i, run.maps type i = true ↔ ∃ a ∈ run.live, a.type = type ∧ a.Has dev i

theorem DmDev.blockSize_pos (dev : DmDev) : 0 < dev.blockSize := Nat.two_pow_pos _

theorem DmDev.region_blocks (dev : DmDev) (type : SwIcmType) :
    2 ^ ((dev.region type).logSize - dev.logBlock) * dev.blockSize = 2 ^ (dev.region type).logSize := by
  rw [DmDev.blockSize, ← Nat.pow_add, Nat.sub_add_cancel (dev.blocks type)]

theorem Placed.has_iff (placed : Placed dev a) (i : Nat) :
    (dev.region a.type).start + i * dev.blockSize ∈ a.range ↔ a.Has dev i := by
  have last : a.addr + a.length =
      (dev.region a.type).start + (a.first dev + dev.numBlocks a.length) * dev.blockSize := by
    rw [Nat.add_mul, ← placed.length, ← add_assoc, ← placed.addr]
  rw [Allocation.range, Set.mem_Ico, last, placed.addr, Nat.add_le_add_iff_left,
    Nat.add_lt_add_iff_left, Nat.mul_le_mul_right_iff dev.blockSize_pos,
    Nat.mul_lt_mul_right dev.blockSize_pos]
  rfl

theorem Placed.disjoint (placed : Placed dev a) (other : Placed dev b) (same : a.type = b.type)
    (apart : ∀ i, a.Has dev i → ¬ b.Has dev i) : Disjoint a.range b.range := by
  rw [Set.disjoint_left]
  intro x inA inB
  have start : (dev.region a.type).start ≤ x := by
    rw [Allocation.range, Set.mem_Ico, placed.addr] at inA
    omega
  have within {c : Allocation} (placed : Placed dev c) (same : a.type = c.type)
      (inside : x ∈ c.range) : c.Has dev ((x - (dev.region a.type).start) / dev.blockSize) := by
    rw [Allocation.range, Set.mem_Ico, placed.addr, placed.length, add_assoc, ← Nat.add_mul, ← same] at inside
    exact ⟨(Nat.le_div_iff_mul_le dev.blockSize_pos).mpr (by omega),
      (Nat.div_lt_iff_lt_mul dev.blockSize_pos).mpr (by omega)⟩
  exact apart _ (within placed rfl inA) (within other same inB)

theorem DmRun.Inv.sound (inv : run.Inv dev) : run.Sound dev where
  disjoint := inv.apart.imp_of_mem fun inA inB apart same =>
    (inv.placed _ inA).disjoint (inv.placed _ inB) same (apart same)
  inside a member := by
    have placed := inv.placed a member
    have room := Nat.mul_le_mul_right dev.blockSize placed.inside
    rw [Nat.add_mul, ← placed.length, dev.region_blocks] at room
    have addr := placed.addr
    omega
  aligned a member := by
    have placed := inv.placed a member
    rw [placed.addr, Nat.add_sub_cancel_left, ← Nat.sub_add_cancel (Nat.le_max_right ..), Nat.pow_add]
    exact Nat.mul_dvd_mul_right placed.aligned _
  exact type i := by
    rw [inv.marked]
    refine exists_congr fun a => and_congr_right fun member => and_congr_right ?_
    rintro rfl
    exact ((inv.placed a member).has_iff i).symm

/-! ### The steps -/

private theorem bitmapClear_set {map start nr} (free : ∀ i, start ≤ i → i < start + nr → map i = false) :
    bitmapClear (bitmapSet map start nr) start nr = map := by
  funext i
  unfold bitmapClear bitmapSet
  by_cases inside : start ≤ i ∧ i < start + nr
  · simp [inside, free i inside.1 inside.2]
  · simp [inside]

theorem DmDev.numBlocks_mul {length} (whole : length &&& (dev.blockSize - 1) = 0)
    (short : length < 2 ^ 32 * dev.blockSize) : length = dev.numBlocks length * dev.blockSize := by
  rw [DmDev.blockSize, Nat.and_two_pow_sub_one_eq_mod] at whole
  obtain ⟨count, rfl⟩ := Nat.dvd_of_mod_eq_zero whole
  change dev.blockSize * count < _ at short
  change dev.blockSize * count = dev.numBlocks (dev.blockSize * count) * dev.blockSize
  have positive := dev.blockSize_pos
  have few : count < 2 ^ 32 := by
    rw [mul_comm] at short
    exact Nat.lt_of_mul_lt_mul_right short
  have quotient : (dev.blockSize * count + dev.blockSize - 1) / dev.blockSize = count := by
    rw [Nat.add_sub_assoc positive, Nat.mul_add_div positive, Nat.div_eq_of_lt (by omega), add_zero]
  rw [DmDev.numBlocks, quotient, Nat.mod_eq_of_lt few, mul_comm]

variable {length logAlignment : Nat}

/-- An allocation changes nothing, or it takes blocks that are free. -/
private theorem alloc_cases {ret} (fits : (DmOp.alloc type length logAlignment ret).Fits dev) :
    (∃ error, mlx5DmSwIcmAlloc dev maps type length logAlignment ret = (maps, .error error)) ∨
    ∃ first, length = dev.numBlocks length * dev.blockSize ∧
      first + dev.numBlocks length ≤ 2 ^ ((dev.region type).logSize - dev.logBlock) ∧
      2 ^ (max logAlignment dev.logBlock - dev.logBlock) ∣ first ∧
      (∀ i, first ≤ i → i < first + dev.numBlocks length → maps type i = false) ∧
      mlx5DmSwIcmAlloc dev maps type length logAlignment ret =
        (update maps type (bitmapSet (maps type) first (dev.numBlocks length)),
          .ok ((dev.region type).start + first * dev.blockSize)) := by
  obtain ⟨short, within⟩ := fits
  have size := dev.words type
  unfold mlx5DmSwIcmAlloc
  dsimp only
  rw [dev.bit_eq ((dev.region type).logSize - dev.logBlock) (by omega), dev.bit_eq (_ - _) (by omega)]
  have area := dev.findArea_spec (maps type)
    (2 ^ ((dev.region type).logSize - dev.logBlock) % 2 ^ 32) 0 (dev.numBlocks length)
    (2 ^ (max logAlignment dev.logBlock - dev.logBlock) - 1)
  generalize dev.findArea _ _ _ _ _ = first at area ⊢
  split_ifs with made invalid mapped full failed
  · exact .inl ⟨_, rfl⟩
  · exact .inl ⟨_, rfl⟩
  · exact .inl ⟨_, rfl⟩
  · exact .inl ⟨_, rfl⟩
  · left
    rw [bitmapClear_set (area.resolve_left full).2.1, update_eq_self]
    exact ⟨ret, rfl⟩
  right
  obtain ⟨inside, free, aligned⟩ := area.resolve_left full
  rw [Nat.and_two_pow_sub_one_eq_mod] at aligned
  refine ⟨first, dev.numBlocks_mul (not_not.mp fun part => invalid (.inr (.inr part))) short,
    inside.trans (Nat.mod_le ..), Nat.dvd_of_mod_eq_zero aligned, free, ?_⟩
  have room := Nat.mul_lt_mul_of_pos_right ((Nat.not_le.mp full).trans_le (Nat.mod_le ..)) dev.blockSize_pos
  rw [dev.region_blocks] at room
  have memory := dev.inMemory type
  have addr : (dev.region type).start + first * dev.blockSize < 2 ^ 64 := by omega
  rw [Nat.mod_eq_of_lt addr]

theorem DmRun.Inv.perm {live} (inv : DmRun.Inv dev ⟨maps, live⟩)
    {list} (perm : live.Perm list) : DmRun.Inv dev ⟨maps, list⟩ where
  placed a member := inv.placed a (perm.mem_iff.mpr member)
  apart := (perm.pairwise_iff fun apart same i has other => apart same.symm i other has).mp inv.apart
  marked type i := by
    rw [inv.marked]
    exact exists_congr fun a => and_congr_left' perm.mem_iff

theorem DmRun.Inv.alloc (inv : run.Inv dev) {ret}
    (fits : (DmOp.alloc type length logAlignment ret).Fits dev) :
    (run.step dev (.alloc type length logAlignment ret)).Inv dev := by
  obtain ⟨error, same⟩ | ⟨first, whole, inside, aligned, free, taken⟩ := @alloc_cases dev run.maps
    type length logAlignment ret fits
  · simp only [DmRun.step, same]
    exact inv
  simp only [DmRun.step, taken]
  have start : Allocation.first dev
      ⟨type, length, logAlignment, (dev.region type).start + first * dev.blockSize⟩ = first := by
    rw [Allocation.first, Nat.add_sub_cancel_left, Nat.mul_div_cancel _ dev.blockSize_pos]
  refine ⟨?_, List.pairwise_cons.mpr ⟨?_, inv.apart⟩, ?_⟩
  · intro a mem
    obtain rfl | old := List.mem_cons.mp mem
    · exact ⟨by rw [start], whole, by rw [start]; exact inside, by rw [start]; exact aligned⟩
    · exact inv.placed a old
  · rintro b mem rfl i has other
    rw [Allocation.Has, start] at has
    have busy := (inv.marked b.type i).mpr ⟨b, mem, rfl, other⟩
    rw [free i has.1 has.2] at busy
    cases busy
  intro other i
  simp only [List.mem_cons, exists_eq_or_imp, Allocation.Has, start]
  by_cases same : other = type
  · subst same
    rw [update_self, bitmapSet, Bool.or_eq_true, inv.marked, decide_eq_true_iff, or_comm]
    simp only [true_and]
    rfl
  · rw [update_of_ne same, inv.marked]
    have apart : ¬ type = other := fun equal => same equal.symm
    simp only [apart, false_and, false_or]
    rfl

theorem DmRun.Inv.dealloc {rest} (inv : DmRun.Inv dev ⟨maps, a :: rest⟩) : DmRun.Inv dev
      ⟨update maps a.type (bitmapClear (maps a.type) (a.first dev) (dev.numBlocks a.length)), rest⟩ := by
  obtain ⟨apart, others⟩ := List.pairwise_cons.mp inv.apart
  refine ⟨fun b mem => inv.placed b (List.mem_cons_of_mem _ mem), others, ?_⟩
  intro type i
  have marked := inv.marked type i
  simp only [List.mem_cons, exists_eq_or_imp] at marked
  dsimp only
  by_cases same : type = a.type
  · subst same
    simp only [true_and] at marked
    rw [update_self, bitmapClear, Bool.and_eq_true, marked, Bool.not_eq_true', decide_eq_false_iff_not]
    change (a.Has dev i ∨ _) ∧ ¬ a.Has dev i ↔ _
    constructor
    · rintro ⟨has | other, apart⟩
      · exact absurd has apart
      · exact other
    · rintro ⟨b, mem, equal, has⟩
      exact ⟨.inr ⟨b, mem, equal, has⟩, fun own => apart b mem equal.symm i own has⟩
  · rw [update_of_ne same, marked]
    have different : ¬ a.type = type := fun equal => same equal.symm
    simp [different]

theorem Placed.startIdx (placed : Placed dev a) :
    (a.addr + 2 ^ 64 - (dev.region a.type).start) % 2 ^ 64 / dev.blockSize = a.first dev := by
  have room := Nat.mul_le_mul_right dev.blockSize ((Nat.le_add_right ..).trans placed.inside)
  have size : 2 ^ (dev.region a.type).logSize < 2 ^ 64 := Nat.pow_lt_pow_right (by decide) (dev.words a.type)
  rw [dev.region_blocks] at room
  have addr := placed.addr
  have offset : (a.addr + 2 ^ 64 - (dev.region a.type).start) % 2 ^ 64 = a.first dev * dev.blockSize := by
    omega
  rw [offset, Nat.mul_div_cancel _ dev.blockSize_pos]

theorem DmRun.Inv.step (inv : run.Inv dev) {op} (fits : op.Fits dev) : (run.step dev op).Inv dev := by
  cases op with
  | alloc type length logAlignment ret => exact inv.alloc fits
  | dealloc index ret =>
    unfold DmRun.step
    dsimp only
    cases found : run.live[index]? with
    | none => exact inv
    | some old =>
      obtain ⟨below, rfl⟩ := List.getElem?_eq_some_iff.mp found
      dsimp only
      unfold mlx5DmSwIcmDealloc
      by_cases created : dev.created = false
      · rw [if_pos created]
        exact inv
      by_cases failed : ret ≠ 0
      · rw [if_neg created, if_pos failed, if_neg failed]
        exact inv
      · rw [if_neg created, if_neg failed]
        rw [(inv.placed _ (List.getElem_mem below)).startIdx]
        exact DmRun.Inv.dealloc (inv.perm (List.getElem_cons_eraseIdx_perm below).symm)

end Blocks

/-- Live allocations are disjoint, inside their region, aligned and marked. -/
theorem dm_allocations_sound (dev : DmDev) {ops : List DmOp} (fits : ∀ op ∈ ops, op.Fits dev) :
    (DmRun.run dev ops).Sound dev := by
  have start : DmRun.init.Inv dev :=
    ⟨fun _ inside => absurd inside List.not_mem_nil, .nil, fun _ _ => ⟨nofun,
        fun ⟨_, inside, _⟩ => absurd inside List.not_mem_nil⟩⟩
  have kept (run : DmRun) (inv : run.Inv dev) : (ops.foldl (DmRun.step dev) run).Inv dev := by
    induction ops generalizing run with
    | nil => exact inv
    | cons op ops ih =>
      exact ih (fun op member => fits op (List.mem_cons_of_mem _ member)) _
        (inv.step (fits op List.mem_cons_self))
  exact (kept _ start).sound

def firstArea (map : Nat → Bool) (size start nr alignMask : Nat) : Nat :=
  ((List.range size).find? fun i =>
    decide (start ≤ i ∧ i + nr ≤ size ∧ i &&& alignMask = 0) &&
      (List.range nr).all fun j => !map (i + j)).getD size

private theorem firstArea_spec (map size start nr alignMask) : let index := firstArea map size start nr alignMask
    size ≤ index ∨ index + nr ≤ size ∧ (∀ i, index ≤ i → i < index + nr → map i = false) ∧
        index &&& alignMask = 0 := by
  unfold firstArea
  cases found : (List.range size).find? fun i =>
      decide (start ≤ i ∧ i + nr ≤ size ∧ i &&& alignMask = 0) &&
        (List.range nr).all fun j => !map (i + j) with
  | none => exact .inl (Nat.le_refl size)
  | some index =>
    have fits := List.find?_some found
    simp only [Bool.and_eq_true, decide_eq_true_eq, List.all_eq_true, List.mem_range, Bool.not_eq_true'] at fits
    refine .inr ⟨fits.1.2.1, ?_, fits.1.2.2⟩
    dsimp only [Option.getD]
    intro i above below
    have free := fits.2 (i - index) (by omega)
    rw [Nat.add_sub_cancel' above] at free
    exact free

def smallDev : DmDev where
  created := true
  logBlock := 6
  region := fun _ => ⟨0, 10, true⟩
  bit := fun n => 2 ^ n
  findArea := firstArea
  granularity := by decide
  blocks := fun _ => by decide
  words := fun _ => by decide
  inMemory := fun _ => by decide
  bit_eq := fun _ _ => rfl
  findArea_spec := firstArea_spec

theorem dm_allocations_sound_two :
    (DmRun.run smallDev [.alloc .steering 128 8 0, .alloc .steering 64 0 0, .dealloc 1 0]).Sound
      smallDev :=
  dm_allocations_sound smallDev (by
    intro op member
    simp only [List.mem_cons, List.not_mem_nil, or_false] at member
    obtain rfl | rfl | rfl := member
    · exact ⟨by decide, by decide⟩
    · exact ⟨by decide, by decide⟩
    · trivial)

/-- The number of blocks of a length with 2 to the 32 of them is cut to 0. -/
theorem dm_allocations_shared :
    let run := DmRun.run smallDev
      [.alloc .steering (2 ^ 38) 0 0, .alloc .steering (2 ^ 38) 0 0]
    run.live = [⟨.steering, 2 ^ 38, 0, 0⟩, ⟨.steering, 2 ^ 38, 0, 0⟩] ∧ ¬ run.Sound smallDev := by
  intro run
  have live : run.live = [⟨.steering, 2 ^ 38, 0, 0⟩, ⟨.steering, 2 ^ 38, 0, 0⟩] := by
    decide +kernel
  refine ⟨live, fun sound => ?_⟩
  have inside := sound.inside ⟨.steering, 2 ^ 38, 0, 0⟩ (by rw [live]; exact List.mem_cons_self)
  exact absurd inside (by decide)

end MlnxOfed.DeviceMemory
