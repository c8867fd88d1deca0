/-
The pages of an ODP region: `ib_umem_odp_map_dma_pages` takes page references in batches, maps the
pages and gives the references back; `ib_umem_odp_unmap_dma_pages` unmaps a range.
-/

import Mathlib.Data.List.Nodup
import Mathlib.Data.Nat.ModEq

namespace MlnxOfed.Odp

open List Function

variable {Page : Type}

def pageSize : Nat := 4096

structure UmemOdp (Page : Type) where
  start : Nat
  stop : Nat
  pageShift : Nat
  pageList : Nat → Option Page
  dmaList : Nat → Nat
  npages : Int

def UmemOdp.block (umem : UmemOdp Page) : Nat := 2 ^ umem.pageShift

/-! ### Unmapping -/

section Unmap

variable (umem : UmemOdp Page) (virt bound : Nat)

structure Unmapping (Page : Type) where
  umem : UmemOdp Page
  unmapped : List (Nat × Nat) := []
  dirtied : List Page := []

def unmapSlot (state : Unmapping Page) (idx : Nat) : Unmapping Page :=
  match state.umem.pageList idx with
  | none => state
  | some page =>
    let dma := state.umem.dmaList idx
    { umem := { state.umem with
        pageList := update state.umem.pageList idx none
        dmaList := update state.umem.dmaList idx 0
        npages := state.umem.npages - 1 }
      unmapped := state.unmapped ++ [(idx, dma / 4 * 4)]
      dirtied := if dma.testBit 1 then state.dirtied ++ [page] else state.dirtied }

def UmemOdp.lo : Nat := max virt umem.start

def UmemOdp.hi : Nat := min bound umem.stop

def UmemOdp.slot (addr : Nat) : Nat := (addr - umem.start) >>> umem.pageShift

/-- The slots of the addresses from `lo` below `hi`, a block apart. -/
def UmemOdp.slots : List Nat :=
  (range ((umem.hi bound - umem.lo virt + umem.block - 1) / umem.block)).map
    fun i => umem.slot (umem.lo virt + i * umem.block)

def ibUmemOdpUnmapDmaPages : Unmapping Page :=
  (umem.slots virt bound).foldl unmapSlot ⟨umem, [], []⟩

/-! ### The slots of a range -/

def UmemOdp.Overlaps (idx : Nat) : Prop :=
  umem.lo virt < umem.hi bound ∧ umem.lo virt < umem.start + (idx + 1) * umem.block ∧
    umem.start + idx * umem.block < umem.hi bound

/-- The mapped slots of the range are unmapped, each once, and no other. -/
structure UnmapsExactly (state : Unmapping Page) : Prop where
  once : (state.unmapped.map Prod.fst).Nodup
  unmapped : ∀ idx, idx ∈ state.unmapped.map Prod.fst ↔ umem.Overlaps virt bound idx ∧ umem.pageList idx ≠ none
  pageList : ∀ idx, state.umem.pageList idx = none ↔ umem.Overlaps virt bound idx ∨ umem.pageList idx = none

/-- The range ends no earlier in its last block than it starts in its first, or that is not mapped. -/
def Covers : Prop :=
  umem.hi bound ≤ umem.lo virt ∨
    (umem.lo virt - umem.start) % umem.block ≤ (umem.hi bound - 1 - umem.start) % umem.block ∨
    umem.pageList (umem.slot (umem.hi bound - 1)) = none

private theorem unmapSlots_spec {idxs : List Nat} (once : idxs.Nodup) (state : Unmapping Page) :
    (idxs.foldl unmapSlot state).unmapped.map Prod.fst = state.unmapped.map Prod.fst ++
      idxs.filter (fun idx => (state.umem.pageList idx).isSome) ∧
    ∀ idx, (idxs.foldl unmapSlot state).umem.pageList idx = none ↔
      idx ∈ idxs ∨ state.umem.pageList idx = none := by
  induction idxs generalizing state with
  | nil => simp
  | cons first rest ih =>
    obtain ⟨apart, once⟩ := nodup_cons.mp once
    obtain ⟨unmapped, pageList⟩ := ih once (unmapSlot state first)
    rw [foldl_cons, unmapped]
    simp only [pageList, mem_cons]
    cases here : state.umem.pageList first with
    | none =>
      have same : unmapSlot state first = state := by
        unfold unmapSlot
        rw [here]
      rw [same, filter_cons_of_neg (by rw [here]; exact Bool.false_ne_true)]
      refine ⟨rfl, fun idx => ⟨fun known => ?_, fun known => ?_⟩⟩
      · exact known.imp_left .inr
      · obtain (rfl | later) | empty := known
        exacts [.inr here, .inl later, .inr empty]
    | some page =>
      have after : (unmapSlot state first).umem.pageList = update state.umem.pageList first none ∧
          (unmapSlot state first).unmapped.map Prod.fst = state.unmapped.map Prod.fst ++ [first] := by
        unfold unmapSlot
        rw [here]
        exact ⟨rfl, map_append⟩
      rw [after.1, after.2, filter_cons_of_pos (by rw [here]; rfl), append_assoc, singleton_append]
      constructor
      · congr 2
        refine filter_congr fun idx mem => ?_
        rw [update_of_ne (ne_of_mem_of_not_mem mem apart)]
      · intro idx
        by_cases same : idx = first
        · subst same
          simp
        · rw [update_of_ne same, or_iff_right same]

theorem UmemOdp.slot_eq (addr) : umem.slot addr = (addr - umem.start) / umem.block :=
  Nat.shiftRight_eq_div_pow ..

theorem UmemOdp.block_pos : 0 < umem.block := Nat.two_pow_pos _

theorem UmemOdp.start_le : umem.start ≤ umem.lo virt := Nat.le_max_right ..

theorem UmemOdp.slots_eq : umem.slots virt bound =
    (range ((umem.hi bound - umem.lo virt + umem.block - 1) / umem.block)).map
      (umem.slot (umem.lo virt) + ·) := by
  refine map_congr_left fun i _ => ?_
  rw [umem.slot_eq, umem.slot_eq, Nat.sub_add_comm (umem.start_le virt),
    Nat.add_mul_div_right _ _ umem.block_pos]

theorem UmemOdp.mem_slots {virt bound idx} : idx ∈ umem.slots virt bound ↔
    umem.slot (umem.lo virt) ≤ idx ∧ idx < umem.slot (umem.lo virt) +
      (umem.hi bound - umem.lo virt + umem.block - 1) / umem.block := by
  rw [slots_eq, mem_map]
  simp only [mem_range]
  constructor
  · rintro ⟨i, below, rfl⟩
    omega
  · rintro ⟨first, last⟩
    exact ⟨idx - umem.slot (umem.lo virt), by omega, Nat.add_sub_of_le first⟩

/-- The loop passes the slots up to the last address's, but not that if the range ends earlier in its
block than it starts. -/
theorem UmemOdp.slots_cases {virt bound idx} (some : umem.lo virt < umem.hi bound) :
    (umem.Overlaps virt bound idx ↔ umem.slot (umem.lo virt) ≤ idx ∧ idx ≤ umem.slot (umem.hi bound - 1)) ∧
    (idx ∈ umem.slots virt bound ↔ umem.Overlaps virt bound idx ∧
      ((umem.lo virt - umem.start) % umem.block ≤ (umem.hi bound - 1 - umem.start) % umem.block ∨
        idx ≠ umem.slot (umem.hi bound - 1))) := by
  have pos := umem.block_pos
  have least := umem.start_le virt
  have overlaps : umem.Overlaps virt bound idx ↔
      umem.slot (umem.lo virt) ≤ idx ∧ idx ≤ umem.slot (umem.hi bound - 1) := by
    rw [slot_eq, slot_eq, ← Nat.lt_add_one_iff, Nat.div_lt_iff_lt_mul pos, Nat.le_div_iff_mul_le pos]
    unfold Overlaps
    omega
  refine ⟨overlaps, ?_⟩
  rw [overlaps, mem_slots]
  obtain ⟨length, reach⟩ : ∃ length, umem.hi bound - 1 - umem.start =
      umem.lo virt - umem.start + length := Nat.exists_eq_add_of_le (by omega)
  have count : (umem.hi bound - umem.lo virt + umem.block - 1) / umem.block = length / umem.block + 1 := by
    rw [← Nat.add_div_right length pos]
    congr 1
    omega
  rw [count, slot_eq, slot_eq, reach, Nat.add_div pos]
  have less := Nat.mod_lt length pos
  split_ifs with carry
  · have rest := Nat.add_mod_add_of_le_add_mod carry
    omega
  · have rest := Nat.add_mod_of_add_mod_lt (Nat.lt_of_not_le carry)
    omega

private theorem unmapsExactly_iff : UnmapsExactly umem virt bound (ibUmemOdpUnmapDmaPages umem virt bound) ↔
      Covers umem virt bound := by
  have once : (umem.slots virt bound).Nodup := by
    rw [umem.slots_eq]
    exact Nodup.map (fun _ _ => Nat.add_left_cancel) nodup_range
  obtain ⟨unmapped, pageList⟩ := unmapSlots_spec once ⟨umem, [], []⟩
  have passed (idx : Nat) : idx ∈ umem.slots virt bound ↔ umem.Overlaps virt bound idx ∧
      ((umem.lo virt - umem.start) % umem.block ≤ (umem.hi bound - 1 - umem.start) % umem.block ∨
        idx ≠ umem.slot (umem.hi bound - 1)) := by
    by_cases some : umem.lo virt < umem.hi bound
    · exact (umem.slots_cases some).2
    have none : (umem.hi bound - umem.lo virt + umem.block - 1) / umem.block = 0 := by
      refine Nat.div_eq_of_lt ?_
      have pos := umem.block_pos
      omega
    rw [umem.mem_slots, none]
    exact iff_of_false (fun within => by omega) fun overlaps => some overlaps.1.1
  rw [map_nil, nil_append] at unmapped
  constructor
  · intro exactly
    refine or_iff_not_imp_left.mpr fun some => or_iff_not_imp_left.mpr fun earlier =>
      Classical.byContradiction fun here => ?_
    have overlaps := (umem.slots_cases (Nat.not_le.mp some)).1.mpr
      ⟨by rw [umem.slot_eq, umem.slot_eq]; exact Nat.div_le_div_right (by omega), le_rfl⟩
    have member := (exactly.unmapped _).mpr ⟨overlaps, here⟩
    have inSlots : umem.slot (umem.hi bound - 1) ∈ umem.slots virt bound := by
      unfold ibUmemOdpUnmapDmaPages at member
      rw [unmapped] at member
      exact (mem_filter.mp member).1
    obtain inside | other := ((passed _).mp inSlots).2
    · exact earlier inside
    · exact other rfl
  · intro covers
    have all (idx : Nat) (here : umem.pageList idx ≠ none) :
        idx ∈ umem.slots virt bound ↔ umem.Overlaps virt bound idx := by
      rw [passed, and_iff_left_iff_imp]
      intro overlaps
      obtain empty | inside | last := covers
      · exact absurd overlaps.1 (Nat.not_lt.mpr empty)
      · exact .inl inside
      · exact .inr fun same => here (same ▸ last)
    unfold ibUmemOdpUnmapDmaPages
    refine ⟨?_, fun idx => ?_, fun idx => ?_⟩
    · rw [unmapped]
      exact once.filter _
    · rw [unmapped, mem_filter, Option.isSome_iff_ne_none]
      exact and_congr_left (all idx)
    · rw [pageList]
      exact or_congr_left' (all idx)

end Unmap

/-! ### Mapping -/

def SameSlot (left right : UmemOdp Page) (idx : Nat) : Prop :=
  left.pageList idx = right.pageList idx ∧ left.dmaList idx = right.dmaList idx

theorem SameSlot.trans {left middle right : UmemOdp Page} {idx : Nat}
    (first : SameSlot left middle idx) (second : SameSlot middle right idx) :
    SameSlot left right idx :=
  ⟨first.1.trans second.1, first.2.trans second.2⟩

/-- Around a call: by address, count and write access the batches of `get_user_pages_remote`, a first page
and the others; by slot the changes of the sequence number and the outcomes of the DMA mapping. -/
structure Kernel (Page : Type) where
  pageToPhys : Page → Nat
  noMemory : Bool
  noOwner : Bool
  getUserPages : Nat → Nat → Bool → Except Int (Page × List Page)
  checkRetry : Nat → Bool
  dmaMapPage : Nat → Page → Option Nat

variable [DecidableEq Page] (kernel : Kernel Page) (access : Nat)

/-- `ib_umem_odp_map_dma_single_page`, but for its `put_page`. -/
def mapDmaSinglePage (umem : UmemOdp Page) (pageIndex : Nat) (page : Page) : UmemOdp Page × Int :=
  if kernel.checkRetry pageIndex then (umem, -11)
  else if umem.dmaList pageIndex = 0 then
    match kernel.dmaMapPage pageIndex page with
    | none => (umem, -14)
    | some dmaAddr => ({ umem with
        dmaList := update umem.dmaList pageIndex (dmaAddr ||| access)
        pageList := update umem.pageList pageIndex (some page)
        npages := umem.npages + 1 }, 0)
  else if umem.pageList pageIndex = some page then
    ({ umem with
      dmaList := update umem.dmaList pageIndex (umem.dmaList pageIndex ||| access) }, 0)
  else (umem, -11)

/-- The address, the slot and the physical address of the page before. -/
structure Cursor where
  userVirt : Nat
  k : Nat
  p : Nat

def Cursor.follow (cursor : Cursor) : Cursor :=
  { cursor with userVirt := cursor.userVirt + pageSize, p := (cursor.p + pageSize) % 2 ^ 64 }

def Cursor.next (cursor : Cursor) (phys : Nat) : Cursor :=
  ⟨cursor.userVirt + pageSize, cursor.k + 1, phys⟩

/-- A call under way, with the references it took and those it gave back. -/
structure Walk (Page : Type) extends Cursor where
  umem : UmemOdp Page
  npages : Int := 0
  ret : Int := 0
  obtained : List Page := []
  put : List Page := []

/-- The loop over the pages of a batch, and the pages after the one at which it broke off. -/
def mapBatch : List Page → Walk Page → Walk Page × List Page
  | [], walk => (walk, [])
  | page :: rest, walk =>
    if walk.userVirt % walk.umem.block ≠ 0 then
      if kernel.pageToPhys page ≠ (walk.p + pageSize) % 2 ^ 64 then ({ walk with ret := -14 }, rest)
      else mapBatch rest
        { walk with toCursor := walk.toCursor.follow, put := walk.put ++ [page] }
    else
      let (umem, ret) := mapDmaSinglePage kernel access walk.umem walk.k page
      let walk := { walk with umem := umem, ret := ret, put := walk.put ++ [page] }
      if ret < 0 then (walk, rest)
      else mapBatch rest { walk with toCursor := walk.next (kernel.pageToPhys page) }

def gupNumPages (bcnt : Nat) : Nat := min ((bcnt + pageSize - 1) / pageSize) 512

def mapLoop (bcnt : Nat) (walk : Walk Page) : Walk Page :=
  if 0 < bcnt then
    match kernel.getUserPages walk.userVirt (gupNumPages bcnt) (access.testBit 1) with
    | .error error => { walk with npages := error }
    | .ok (first, others) =>
      let pages := first :: others
      let (walk, rest) := mapBatch kernel access pages
        { walk with npages := pages.length, obtained := walk.obtained ++ pages }
      if walk.ret < 0 then { walk with put := walk.put ++ rest }
      else mapLoop (bcnt - min (pages.length * pageSize) bcnt) walk
  else walk
termination_by bcnt
decreasing_by
  unfold pageSize
  dsimp only [length_cons]
  omega

variable (umem : UmemOdp Page) (userVirt bcnt : Nat)

def UmemOdp.blockStart : Nat := userVirt - userVirt % umem.block

def UmemOdp.startIdx : Nat := (umem.blockStart userVirt - umem.start) >>> umem.pageShift

def UmemOdp.entry : Walk Page := ⟨⟨umem.blockStart userVirt, umem.startIdx userVirt, 0⟩, umem, 0, 0, [], []⟩

def ibUmemOdpMapDmaPages : Walk Page :=
  let entry := umem.entry userVirt
  if access = 0 then { entry with ret := -22 }
  else if userVirt < umem.start ∨ umem.stop < userVirt + bcnt then { entry with ret := -14 }
  else if kernel.noMemory then { entry with ret := -12 }
  else if kernel.noOwner then { entry with ret := -22 }
  else
    let walk := mapLoop kernel access (bcnt + userVirt % umem.block) entry
    if walk.ret < 0 then walk
    else if walk.npages < 0 ∧ walk.k = umem.startIdx userVirt then { walk with ret := walk.npages }
    else { walk with ret := walk.k - umem.startIdx userVirt }

/-! ### The references -/

/-- A slot holds a page that was obtained, with the access asked for. -/
def Walk.Has (walk : Walk Page) (idx : Nat) : Prop :=
  (∃ page ∈ walk.obtained, walk.umem.pageList idx = some page) ∧ walk.umem.dmaList idx &&& access = access

/-- Each reference is given back once, and a call that does not fail maps as many slots as it
returns, from the first one on, and no other. -/
structure MapsExactly (walk : Walk Page) : Prop where
  released : walk.put.Perm walk.obtained
  mapped : 0 ≤ walk.ret → ∀ idx : Nat,
    if umem.startIdx userVirt ≤ idx ∧ idx < umem.startIdx userVirt + walk.ret then
      walk.Has access idx else SameSlot walk.umem umem idx

private theorem or_and_right (left right : Nat) : (left ||| right) &&& right = right := by
  apply Nat.eq_of_testBit_eq
  intro bit
  rw [Nat.testBit_and, Nat.testBit_or]
  cases left.testBit bit <;> cases right.testBit bit <;> rfl

private theorem mapDmaSinglePage_cases (umem : UmemOdp Page) (idx page) :
    (mapDmaSinglePage kernel access umem idx page).2 < 0 ∨
    ∃ after : UmemOdp Page, mapDmaSinglePage kernel access umem idx page = (after, 0) ∧
      after.pageShift = umem.pageShift ∧ after.pageList idx = some page ∧
      after.dmaList idx &&& access = access ∧ ∀ other, other ≠ idx → SameSlot after umem other := by
  unfold mapDmaSinglePage
  split_ifs with retry empty same
  · exact .inl (Int.negSucc_lt_zero 10)
  · cases kernel.dmaMapPage idx page with
    | none => exact .inl (Int.negSucc_lt_zero 13)
    | some dmaAddr =>
      refine .inr ⟨_, rfl, rfl, update_self .., ?_, fun other apart => ?_⟩
      · dsimp only
        rw [update_self, or_and_right]
      · exact ⟨update_of_ne apart .., update_of_ne apart ..⟩
  · refine .inr ⟨_, rfl, rfl, same, ?_, fun other apart => ⟨rfl, update_of_ne apart ..⟩⟩
    dsimp only
    rw [update_self, or_and_right]
  · exact .inl (Int.negSucc_lt_zero 10)

variable {kernel access umem userVirt} {page : Page} {idx : Nat}

private theorem mapDmaSinglePage_congr {other} (same : SameSlot other umem idx) :
    (mapDmaSinglePage kernel access other idx page).2 = (mapDmaSinglePage kernel access umem idx page).2 := by
  unfold mapDmaSinglePage
  rw [same.1, same.2]
  split_ifs
  · rfl
  · cases kernel.dmaMapPage idx page <;> rfl
  · rfl
  · rfl

variable (kernel access umem userVirt)

/-- A page inside a block does not follow the page before, and every block up to it can be mapped. -/
def Strays : List Page → Cursor → Prop
  | [], _ => False
  | page :: rest, cursor =>
    if cursor.userVirt % umem.block ≠ 0 then
      kernel.pageToPhys page ≠ (cursor.p + pageSize) % 2 ^ 64 ∨ Strays rest cursor.follow
    else 0 ≤ (mapDmaSinglePage kernel access umem cursor.k page).2 ∧
      Strays rest (cursor.next (kernel.pageToPhys page))

/-- The pages that `get_user_pages_remote` has for a range. -/
def supplied (bcnt virt : Nat) : List Page :=
  if 0 < bcnt then
    match kernel.getUserPages virt (gupNumPages bcnt) (access.testBit 1) with
    | .error _ => []
    | .ok (first, others) =>
      let pages := first :: others
      pages ++ supplied (bcnt - min (pages.length * pageSize) bcnt) (virt + pages.length * pageSize)
  else []
termination_by bcnt
decreasing_by
  unfold pageSize
  dsimp only [length_cons]
  omega

/-- The slots from the first one on are mapped, the others are as before. -/
structure Progress (start : Nat) (walk : Walk Page) : Prop where
  ret : walk.ret = 0
  block : walk.umem.block = umem.block
  le : start ≤ walk.k
  mapped : ∀ idx, start ≤ idx → idx < walk.k → walk.Has access idx
  same : ∀ idx, idx < start ∨ walk.k ≤ idx → SameSlot walk.umem umem idx

/-- A loop over a batch ends after the last page, or at one that is not mapped: only when this one
strays, a reference is missing from those given back. -/
inductive Ended (start : Nat) (pages : List Page) (walk : Walk Page) : Walk Page × List Page → Prop
  | passed {after : Walk Page} (progress : Progress access umem start after)
      (obtained : after.obtained = walk.obtained) (put : after.put = walk.put ++ pages)
      (virt : after.userVirt = walk.userVirt + pages.length * pageSize)
      (strays : ∀ more, Strays kernel access umem (pages ++ more) walk.toCursor ↔
        Strays kernel access umem more after.toCursor) : Ended start pages walk (after, [])
  | broken {after : Walk Page} {rest : List Page} (ret : after.ret < 0)
      (obtained : after.obtained = walk.obtained)
      (kept : ∀ more, ¬Strays kernel access umem (pages ++ more) walk.toCursor →
        after.put ++ rest = walk.put ++ pages)
      (lost : ∀ more, Strays kernel access umem (pages ++ more) walk.toCursor →
        (after.put ++ rest).length < (walk.put ++ pages).length) : Ended start pages walk (after, rest)

variable {kernel access umem userVirt}
variable {start : Nat} {walk next : Walk Page} {rest : List Page} {result : Walk Page × List Page}

theorem Ended.cons (ended : Ended kernel access umem start rest next result)
    (obtained : next.obtained = walk.obtained) (put : next.put = walk.put ++ [page])
    (virt : next.userVirt = walk.userVirt + pageSize)
    (strays : ∀ more, Strays kernel access umem (page :: more) walk.toCursor ↔
      Strays kernel access umem more next.toCursor) :
    Ended kernel access umem start (page :: rest) walk result := by
  cases ended with
  | passed progress same putAfter virtAfter straysAfter =>
    refine .passed progress (same.trans obtained) ?_ ?_ fun more =>
      (strays (rest ++ more)).trans (straysAfter more)
    · rw [putAfter, put, append_assoc, singleton_append]
    · rw [virtAfter, virt, length_cons, Nat.succ_mul]
      omega
  | broken ret same kept lost =>
    rw [put, append_assoc, singleton_append] at kept lost
    exact .broken ret (same.trans obtained)
      (fun more follows => kept more (mt (strays (rest ++ more)).mpr follows))
      fun more stray => lost more ((strays (rest ++ more)).mp stray)

private theorem mapBatch_ended (kernel : Kernel Page) {pages} (progress : Progress access umem start walk)
    (inside : ∀ page ∈ pages, page ∈ walk.obtained) :
    Ended kernel access umem start pages walk (mapBatch kernel access pages walk) := by
  induction pages generalizing walk with
  | nil =>
    exact .passed progress rfl (append_nil _).symm (by rw [length_nil]; omega) fun more => .rfl
  | cons page rest ih =>
    have later other (mem : other ∈ rest) : other ∈ walk.obtained := inside other (mem_cons_of_mem _ mem)
    unfold mapBatch
    by_cases within : walk.userVirt % umem.block ≠ 0
    · rw [progress.block, if_pos within]
      have strays (more : List Page) : Strays kernel access umem (page :: more) walk.toCursor ↔
          kernel.pageToPhys page ≠ (walk.p + pageSize) % 2 ^ 64 ∨
            Strays kernel access umem more walk.follow := by
        rw [Strays, if_pos within]
      split_ifs with apart
      · refine .broken (Int.negSucc_lt_zero 13) rfl
          (fun more never => absurd ((strays (rest ++ more)).mpr (.inl apart)) never) fun more _ => ?_
        rw [length_append, length_append, length_cons]
        exact Nat.lt_succ_self _
      · refine Ended.cons (ih ⟨progress.ret, progress.block, progress.le, progress.mapped,
          progress.same⟩ later) rfl rfl rfl fun more => ?_
        rw [strays]
        exact or_iff_right apart
    · rw [progress.block, if_neg within]
      have same := progress.same walk.k (.inr le_rfl)
      have strays (more : List Page) : Strays kernel access umem (page :: more) walk.toCursor ↔
          0 ≤ (mapDmaSinglePage kernel access umem walk.k page).2 ∧
            Strays kernel access umem more (walk.next (kernel.pageToPhys page)) := by
        rw [Strays, if_neg within]
      rw [← mapDmaSinglePage_congr same] at strays
      obtain failed | ⟨after, mapped, shift, slot, ok, others⟩ :=
        mapDmaSinglePage_cases kernel access walk.umem walk.k page
      · dsimp only
        rw [if_pos failed]
        refine .broken failed rfl (fun more _ => ?_)
          fun more never => absurd ((strays (rest ++ more)).mp never).1 (by omega)
        rw [append_assoc, singleton_append]
      rw [mapped] at strays ⊢
      dsimp only
      rw [if_neg (by omega)]
      refine Ended.cons (ih ⟨rfl, ?_, ?_, ?_, ?_⟩ later) rfl rfl rfl fun more => ?_
      · exact (congrArg (2 ^ ·) shift).trans progress.block
      · exact Nat.le_succ_of_le progress.le
      · intro idx first last
        by_cases here : idx = walk.k
        · subst here
          exact ⟨⟨page, inside page mem_cons_self, slot⟩, ok⟩
        · obtain ⟨⟨other, mem, old⟩, granted⟩ :=
            progress.mapped idx first (by dsimp only [Cursor.next] at last; omega)
          have kept := others idx here
          exact ⟨⟨other, mem, kept.1.trans old⟩, by rw [kept.2]; exact granted⟩
      · intro idx outside
        have le := progress.le
        dsimp only [Cursor.next] at outside
        exact (others idx (by omega)).trans (progress.same idx (by omega))
      · rw [strays]
        exact and_iff_right (Int.le_refl 0)

omit [DecidableEq Page] in
theorem UmemOdp.entry_progress (umem : UmemOdp Page) (access userVirt) :
    Progress access umem (umem.startIdx userVirt) (umem.entry userVirt) :=
  ⟨rfl, rfl, le_rfl, fun _ first last => absurd last (Nat.not_lt.mpr first), fun _ _ => ⟨rfl, rfl⟩⟩

omit [DecidableEq Page] in
theorem Progress.take (progress : Progress access umem start walk) (npages pages) : Progress access umem start
      { walk with npages := npages, obtained := walk.obtained ++ pages } := by
  refine ⟨progress.ret, progress.block, progress.le, fun idx first last => ?_, progress.same⟩
  obtain ⟨⟨page, member, slot⟩, granted⟩ := progress.mapped idx first last
  exact ⟨⟨page, mem_append_left _ member, slot⟩, granted⟩

private theorem mapLoop_spec (kernel : Kernel Page) (progress : Progress access umem start walk)
    (freed : walk.put.Perm walk.obtained) (bcnt) :
    (0 ≤ (mapLoop kernel access bcnt walk).ret → Progress access umem start (mapLoop kernel access bcnt walk)) ∧
    ((mapLoop kernel access bcnt walk).put.Perm (mapLoop kernel access bcnt walk).obtained ↔
      ¬Strays kernel access umem (supplied kernel access bcnt walk.userVirt) walk.toCursor) := by
  induction bcnt using Nat.strong_induction_on generalizing walk with
  | _ bcnt ih =>
    rw [mapLoop, supplied]
    by_cases more : 0 < bcnt
    · rw [if_pos more, if_pos more]
      cases kernel.getUserPages walk.userVirt (gupNumPages bcnt) (access.testBit 1) with
      | error error => exact ⟨fun _ => { progress with }, iff_of_true freed not_false⟩
      | ok batch =>
        obtain ⟨first, others⟩ := batch
        dsimp only
        generalize pagesEq : first :: others = pages
        have fewer : bcnt - min (pages.length * pageSize) bcnt < bcnt := by
          rw [← pagesEq, length_cons]
          unfold pageSize
          omega
        have ended := mapBatch_ended kernel (progress.take pages.length pages)
          (fun page mem => mem_append_right _ mem)
        generalize mapBatch kernel access pages _ = res at ended ⊢
        cases ended with
        | passed progress obtained put virt strays =>
          rw [if_neg (by rw [progress.ret]; decide), ← virt, strays]
          refine ih _ fewer progress ?_
          rw [put, obtained]
          exact freed.append_right pages
        | broken ret obtained kept lost =>
          rw [if_pos ret]
          refine ⟨fun never => by dsimp only at never; omega, ?_⟩
          rw [obtained]
          constructor
          · intro same stray
            have less := lost _ stray
            rw [same.length_eq, length_append, length_append, freed.length_eq] at less
            exact less.false
          · intro follows
            rw [kept _ follows]
            exact freed.append_right pages
    · rw [if_neg more, if_neg more]
      exact ⟨fun _ => progress, iff_of_true freed not_false⟩

variable (kernel access umem userVirt)

/-- The range lies inside the region, and the call comes to its loop. -/
def Enters : Prop :=
  access ≠ 0 ∧ umem.start ≤ userVirt ∧ userVirt + bcnt ≤ umem.stop ∧ kernel.noMemory = false ∧
    kernel.noOwner = false

/-- The pages of the range that come inside a block follow the pages before them, up to the first
block that cannot be mapped. -/
def Follows : Prop :=
  ¬Strays kernel access umem (supplied kernel access (bcnt + userVirt % umem.block) (umem.blockStart userVirt))
    (umem.entry userVirt).toCursor

private theorem mapsExactly_iff : MapsExactly access umem userVirt
      (ibUmemOdpMapDmaPages kernel access umem userVirt bcnt) ↔
    (Enters kernel access umem userVirt bcnt → Follows kernel access umem userVirt bcnt) := by
  have refused {ret : Int} (negative : ret < 0) : MapsExactly access umem userVirt
      { umem.entry userVirt with ret := ret } :=
    ⟨.nil, fun never => absurd negative (Int.not_lt.mpr never)⟩
  unfold ibUmemOdpMapDmaPages
  dsimp only
  split_ifs with noAccess outside noMemory noOwner failed gupFailed
  · exact iff_of_true (refused (by decide)) fun enters => absurd noAccess enters.1
  · exact iff_of_true (refused (by decide)) fun enters => by have := enters.2; omega
  · exact iff_of_true (refused (by decide)) fun enters =>
      absurd noMemory (Bool.eq_false_iff.mp enters.2.2.2.1)
  · exact iff_of_true (refused (by decide)) fun enters =>
      absurd noOwner (Bool.eq_false_iff.mp enters.2.2.2.2)
  all_goals
    have entered : Enters kernel access umem userVirt bcnt :=
      ⟨noAccess, by omega, by omega, Bool.eq_false_iff.mpr noMemory, Bool.eq_false_iff.mpr noOwner⟩
    obtain ⟨progress, released⟩ := mapLoop_spec kernel (umem.entry_progress access userVirt) .nil
      (bcnt + userVirt % umem.block)
    rw [forall_prop_of_true entered]
    refine Iff.trans ⟨fun exactly => exactly.released, fun put => ⟨put, ?_⟩⟩ released
  · exact fun never => absurd failed (Int.not_lt.mpr never)
  · exact fun never => absurd gupFailed.1 (Int.not_lt.mpr never)
  intro _ idx
  have done := progress (Int.not_lt.mp failed)
  dsimp only
  split_ifs with within
  · exact done.mapped idx within.1 (by omega)
  · exact done.same idx (by omega)

/-! ### Mapping and unmapping -/

variable (virt bound : Nat)

/-- The references are conserved and the slots of the range mapped, and a range is unmapped, exactly
when inside blocks the pages follow each other and the loop comes to the last block. -/
theorem odp_pages_exact_iff :
    (MapsExactly access umem userVirt (ibUmemOdpMapDmaPages kernel access umem userVirt bcnt) ∧
      UnmapsExactly umem virt bound (ibUmemOdpUnmapDmaPages umem virt bound)) ↔
    (Enters kernel access umem userVirt bcnt → Follows kernel access umem userVirt bcnt) ∧
      Covers umem virt bound :=
  and_congr (mapsExactly_iff kernel access umem userVirt bcnt) (unmapsExactly_iff umem virt bound)

def scattered : Kernel Nat :=
  { pageToPhys := fun page => page * pageSize
    noMemory := false
    noOwner := false
    getUserPages := fun _ _ _ => .ok (1, [7])
    checkRetry := fun _ => false
    dmaMapPage := fun _ page => some (page * pageSize) }

def twoBlocks : UmemOdp Nat := ⟨0, 16384, 13, fun _ => none, fun _ => 0, 0⟩

theorem scattered_block_leaks : (ibUmemOdpMapDmaPages scattered 1 twoBlocks 0 8192).obtained = [1, 7] ∧
    (ibUmemOdpMapDmaPages scattered 1 twoBlocks 0 8192).put = [1] ∧
    ¬MapsExactly 1 twoBlocks 0 (ibUmemOdpMapDmaPages scattered 1 twoBlocks 0 8192) := by
  have obtained : (ibUmemOdpMapDmaPages scattered 1 twoBlocks 0 8192).obtained = [1, 7] := by
    decide +kernel
  have put : (ibUmemOdpMapDmaPages scattered 1 twoBlocks 0 8192).put = [1] := by
    decide +kernel
  refine ⟨obtained, put, fun exactly => ?_⟩
  have same := exactly.released.length_eq
  rw [obtained, put] at same
  exact absurd same (by decide)

end MlnxOfed.Odp
