/-
Runs of group creations and deletions in an auto-grouped table: where the groups lie, how many of the full
size there are, and the indexes of the entries.

Groups made for rules lie in order below `autogroup.max_fte`, those a caller asked for behind them. The loop
of `alloc_auto_flow_group` is then a first fit.
-/

import MlnxOfed.FsCore.AutoGroups
import Mathlib.Data.List.Nodup
import Mathlib.Data.List.Perm.Basic

namespace MlnxOfed.FsCore

open List Lib Span GroupedTable FlowGroup

/-! ### Where groups lie -/

namespace FlowGroup

def span (fg : FlowGroup) : Span := ⟨fg.startIndex, fg.maxFtes⟩

def place (fg : FlowGroup) : Span × Bool := (fg.span, fg.auto)

/-- Numbers given out once, inside the group, and the indexes they stand for. -/
structure Entries (fg : FlowGroup) : Prop where
  nodup : fg.fteAllocator.Nodup
  below : ∀ number ∈ fg.fteAllocator, number < fg.maxFtes
  ftes : fg.ftes = fg.fteAllocator.map (· + fg.startIndex)

end FlowGroup

/-- Groups made for rules lie below `limit`, the others between it and `last`. -/
structure Layout (limit last groupSize numGroups : Nat) (places : List (Span × Bool)) : Prop where
  ordered : (places.map Prod.fst).Pairwise (OrderedBelow limit)
  disjoint : (places.map Prod.fst).Pairwise Span.Disjoint
  positive : ∀ place ∈ places, 0 < place.1.size
  auto : ∀ place ∈ places, place.2 = true → place.1.stop ≤ limit
  reserved : ∀ place ∈ places, place.2 = false → limit ≤ place.1.start ∧ place.1.stop ≤ last
  counted : numGroups = places.countP fun place => place.2 && place.1.size = groupSize

namespace Layout

variable {limit last groupSize numGroups : Nat} {places : List (Span × Bool)}

private theorem nil : Layout limit last groupSize 0 [] where
  ordered := .nil
  disjoint := .nil
  positive := by simp
  auto := by simp
  reserved := by simp
  counted := rfl

variable (layout : Layout limit last groupSize numGroups places)

include layout

variable {place : Span × Bool}

private theorem stop_le (inside : limit ≤ last) (mem : place ∈ places) : place.1.stop ≤ last := by
  cases auto : place.2 with
  | true => exact le_trans (layout.auto place mem auto) inside
  | false => exact (layout.reserved place mem auto).2

private theorem eraseIdx {index} (found : places[index]? = some place) : Layout limit last groupSize
      (if place.1.size = groupSize ∧ place.1.start < limit then numGroups - 1 else numGroups)
      (places.eraseIdx index) := by
  have smaller : (places.eraseIdx index).Sublist places := eraseIdx_sublist places index
  have spans := smaller.map Prod.fst
  obtain ⟨bound, isPlace⟩ := List.getElem?_eq_some_iff.mp found
  have perm : (place :: places.eraseIdx index).Perm places := by
    rw [← isPlace]
    exact getElem_cons_eraseIdx_perm bound
  have mem : place ∈ places := isPlace ▸ getElem_mem bound
  -- Only a group made for a rule starts below the limit.
  have below : place.1.start < limit ↔ place.2 = true := by
    constructor
    · intro low
      by_contra notAuto
      have past := (layout.reserved place mem (Bool.eq_false_of_not_eq_true notAuto)).1
      omega
    · intro isAuto
      have stop := layout.auto place mem isAuto
      have size := layout.positive place mem
      simp only [Span.stop] at stop
      omega
  refine ⟨layout.ordered.sublist spans, layout.disjoint.sublist spans, ?_, ?_, ?_, ?_⟩
  · exact fun other otherMember => layout.positive other (smaller.mem otherMember)
  · exact fun other otherMember => layout.auto other (smaller.mem otherMember)
  · exact fun other otherMember => layout.reserved other (smaller.mem otherMember)
  have counted := layout.counted
  rw [← perm.countP_eq, countP_cons] at counted
  by_cases full : place.1.size = groupSize ∧ place.1.start < limit
  · have isCounted : (place.2 && decide (place.1.size = groupSize)) = true := by
      simp [full.1, below.mp full.2]
    rw [if_pos isCounted] at counted
    rw [if_pos full]
    omega
  have notCounted : ¬ (place.2 && decide (place.1.size = groupSize)) = true := by
    simp only [Bool.and_eq_true, decide_eq_true_eq, ← below]
    exact fun both => full ⟨both.2, both.1⟩
  rw [if_neg notCounted] at counted
  rw [if_neg full]
  exact counted

private theorem append {new} (positive : 0 < new.size) (start : limit ≤ new.start) (stop : new.stop ≤ last)
    (apart : ∀ place ∈ places, place.2 = false → place.1.Disjoint new) :
    Layout limit last groupSize numGroups (places ++ [(new, false)]) := by
  have before place (mem : place ∈ places) (isAuto : place.2 = true) : place.1.stop ≤ new.start :=
      le_trans (layout.auto place mem isAuto) start
  refine ⟨?_, ?_, ?_, ?_, ?_, ?_⟩
  · rw [map_append, pairwise_append]
    refine ⟨layout.ordered, pairwise_singleton _ _, ?_⟩
    intro span mem other isNew
    obtain ⟨place, placeMember, rfl⟩ := mem_map.mp mem
    rw [map_singleton, mem_singleton] at isNew
    subst isNew
    cases auto : place.2 with
    | true => exact .inl (before place placeMember auto)
    | false => exact .inr ⟨(layout.reserved place placeMember auto).1, start⟩
  · rw [map_append, pairwise_append]
    refine ⟨layout.disjoint, pairwise_singleton _ _, ?_⟩
    intro span mem other isNew
    obtain ⟨place, placeMember, rfl⟩ := mem_map.mp mem
    rw [map_singleton, mem_singleton] at isNew
    subst isNew
    cases auto : place.2 with
    | true => exact .inl (before place placeMember auto)
    | false => exact apart place placeMember auto
  · intro place mem
    rcases mem_append.mp mem with old | isNew
    · exact layout.positive place old
    · exact mem_singleton.mp isNew ▸ positive
  · intro place mem isAuto
    rcases mem_append.mp mem with old | isNew
    · exact layout.auto place old isAuto
    · rw [mem_singleton.mp isNew] at isAuto
      cases isAuto
  · intro place mem notAuto
    rcases mem_append.mp mem with old | isNew
    · exact layout.reserved place old notAuto
    · exact mem_singleton.mp isNew ▸ ⟨start, stop⟩
  · rw [countP_append, ← layout.counted]
    rfl

private theorem insert {size}
    (positive : 0 < size) (below : (firstFit size 0 (places.map Prod.fst)).1 + size ≤ limit) :
    Layout limit last groupSize (if size = groupSize then numGroups + 1 else numGroups)
      (places.take (firstFit size 0 (places.map Prod.fst)).2 ++
        (⟨(firstFit size 0 (places.map Prod.fst)).1, size⟩, true) ::
          places.drop (firstFit size 0 (places.map Prod.fst)).2) := by
  have room := firstFit_room positive layout.ordered (Ahead.zero _ _) below
  have ordered := firstFit_ordered positive layout.ordered below
  revert below room ordered
  generalize firstFit size 0 (places.map Prod.fst) = found
  obtain ⟨candidate, passed⟩ := found
  rintro below ⟨_, before, behind⟩ ordered
  have split := take_append_drop passed places
  have perm : (places.take passed ++ (⟨candidate, size⟩, true) :: places.drop passed).Perm
      ((⟨candidate, size⟩, true) :: places) := by
    conv_rhs => rw [← split]
    exact perm_middle
  refine ⟨?_, ?_, ?_, ?_, ?_, ?_⟩
  · rw [map_append, map_cons, map_take, map_drop]
    exact ordered
  · have disjoint := layout.disjoint
    rw [← take_append_drop passed (places.map Prod.fst), pairwise_append] at disjoint
    obtain ⟨front, back, across⟩ := disjoint
    rw [map_append, map_cons, map_take, map_drop, pairwise_append]
    refine ⟨front, pairwise_cons.mpr ⟨?_, back⟩, ?_⟩
    · exact fun span mem => .inl (behind span mem)
    · intro span mem other otherMember
      rcases mem_cons.mp otherMember with rfl | later
      · exact .inl (before span mem)
      · exact across span mem other later
  · intro place mem
    rcases mem_cons.mp (perm.mem_iff.mp mem) with rfl | old
    · exact positive
    · exact layout.positive place old
  · intro place mem isAuto
    rcases mem_cons.mp (perm.mem_iff.mp mem) with rfl | old
    · exact below
    · exact layout.auto place old isAuto
  · intro place mem notAuto
    rcases mem_cons.mp (perm.mem_iff.mp mem) with rfl | old
    · cases notAuto
    · exact layout.reserved place old notAuto
  · rw [perm.countP_eq, countP_cons, ← layout.counted]
    by_cases full : size = groupSize
    · simp [full]
    · simp [full]

omit layout

end Layout

theorem u32_of_lt {value} (small : value < 2 ^ 32) : u32 value = value :=
  Nat.mod_eq_of_lt small

private theorem findCandidate_eq {groupSize candidateIndex groups}
    (candidate : candidateIndex ≤ 2 ^ 31) (size : groupSize < 2 ^ 31)
    (stops : ∀ fg ∈ groups, fg.span.stop ≤ 2 ^ 31) :
    GroupedTable.findCandidate groupSize candidateIndex groups =
      firstFit groupSize candidateIndex (groups.map FlowGroup.span) := by
  induction groups generalizing candidateIndex with
  | nil => rfl
  | cons fg rest ih =>
    have stop := stops fg (.head _)
    have sum : u32 (candidateIndex + groupSize) = candidateIndex + groupSize := u32_of_lt (by omega)
    have next : u32 (fg.startIndex + fg.maxFtes) = fg.span.stop := by
      simp only [Span.stop, FlowGroup.span] at stop ⊢
      exact u32_of_lt (by omega)
    rw [GroupedTable.findCandidate, map_cons, firstFit, sum, next,
      ih stop fun other mem => stops other (.tail _ mem)]
    rfl

theorem allocFlowGroup_maxFtes {auto startIndex endIndex}
    (ordered : startIndex ≤ endIndex) (small : endIndex < 2 ^ 31) :
    (allocFlowGroup auto startIndex endIndex).maxFtes = endIndex - startIndex + 1 := by
  simp only [allocFlowGroup, u32]
  omega

private theorem allocFlowGroup_place {start size} (pos : 0 < size) (small : start + size ≤ 2 ^ 31) :
    (allocFlowGroup true start (u32 (start + size - 1))).place = (⟨start, size⟩, true) := by
  have last : u32 (start + size - 1) = start + size - 1 := u32_of_lt (by omega)
  have maxFtes : (allocFlowGroup true start (start + size - 1)).maxFtes = size := by
    rw [allocFlowGroup_maxFtes (by omega) (by omega)]
    omega
  rw [last, FlowGroup.place, FlowGroup.span, maxFtes]
  rfl

theorem FlowGroup.Entries.fresh {fg : FlowGroup} (unused : fg.fteAllocator = [])
    (empty : fg.ftes = []) : fg.Entries where
  nodup := unused ▸ .nil
  below := by simp [unused]
  ftes := by simp [unused, empty]

namespace GroupedTable

variable {ft : GroupedTable}

structure Inv (ft : GroupedTable) : Prop where
  active : ft.autogroup.active = true
  limit : ft.autogroup.maxFte < 2 ^ 31
  inside : ft.autogroup.maxFte ≤ ft.maxFte
  sized : ft.maxFte ≤ 2 ^ 31
  groupSize : ft.autogroup.groupSize ≤ ft.autogroup.maxFte
  layout : Layout ft.autogroup.maxFte ft.maxFte ft.autogroup.groupSize ft.autogroup.numGroups
    (ft.groups.map place)
  entries : ∀ fg ∈ ft.groups, fg.Entries

theorem spans_eq (ft : GroupedTable) :
    (ft.groups.map FlowGroup.place).map Prod.fst = ft.groups.map FlowGroup.span := by
  rw [map_map]
  rfl

theorem Inv.stop_le (inv : ft.Inv) {fg} (mem : fg ∈ ft.groups) : fg.span.stop ≤ ft.maxFte :=
  inv.layout.stop_le inv.inside (mem_map_of_mem mem)

theorem chosenSize_cases (ft : GroupedTable) :
    ft.chosenSize = 1 ∨ (ft.chosenSize = ft.autogroup.groupSize ∧ 0 < ft.autogroup.groupSize) := by
  by_cases wanted : ft.autogroup.numGroups < ft.autogroup.requiredGroups
  · by_cases zero : ft.autogroup.groupSize = 0
    · exact .inl (by simp [chosenSize, wanted, zero])
    · exact .inr ⟨by simp [chosenSize, wanted, zero], Nat.pos_of_ne_zero zero⟩
  · exact .inl (by simp [chosenSize, wanted])

theorem chosenSize_pos (ft : GroupedTable) : 0 < ft.chosenSize := by
  rcases ft.chosenSize_cases with one | ⟨full, pos⟩ <;> omega

theorem Inv.chosenSize_lt (inv : ft.Inv) : ft.chosenSize < 2 ^ 31 := by
  have limit := inv.limit
  have groupSize := inv.groupSize
  rcases ft.chosenSize_cases with one | ⟨full, _⟩ <;> omega

theorem Inv.findCandidate (inv : ft.Inv) : findCandidate ft.chosenSize 0 ft.groups =
      firstFit ft.chosenSize 0 ((ft.groups.map place).map Prod.fst) := by
  rw [spans_eq]
  refine findCandidate_eq (Nat.zero_le _) inv.chosenSize_lt ?_
  exact fun fg mem => le_trans (inv.stop_le mem) inv.sized

private theorem firstFit_le {limit size candidate spans} (start : candidate ≤ limit)
    (stops : ∀ span ∈ spans, span.stop ≤ limit) : (firstFit size candidate spans).1 ≤ limit := by
  induction spans generalizing candidate with
  | nil => exact start
  | cons span rest ih =>
    rw [firstFit]
    split
    · exact ih (stops span (.head _)) fun other mem =>
        stops other (.tail _ mem)
    · exact start

theorem Inv.candidate_le (inv : ft.Inv) :
    (firstFit ft.chosenSize 0 ((ft.groups.map place).map Prod.fst)).1 ≤ ft.maxFte := by
  refine firstFit_le (Nat.zero_le _) ?_
  intro span mem
  rw [spans_eq] at mem
  obtain ⟨fg, listed, rfl⟩ := mem_map.mp mem
  exact inv.stop_le listed

theorem Inv.candidate_sum (inv : ft.Inv) :
    u32 ((firstFit ft.chosenSize 0 ((ft.groups.map place).map Prod.fst)).1 + ft.chosenSize) =
      (firstFit ft.chosenSize 0 ((ft.groups.map place).map Prod.fst)).1 + ft.chosenSize := by
  have candidate := inv.candidate_le
  have sized := inv.sized
  have size := inv.chosenSize_lt
  exact u32_of_lt (by omega)

/-! ### One operation -/

theorem Inv.create {maxFte maxNumGroups numReservedEntries} (sized : maxFte ≤ 2 ^ 31)
    (made : mlx5CreateAutoGroupedFlowTable maxFte maxNumGroups numReservedEntries = .ok ft) :
    ft.Inv := by
  unfold mlx5CreateAutoGroupedFlowTable at made
  simp only at made
  split at made
  · cases made
  rename_i enough
  split at made
  · cases made
  rename_i reserved
  cases made
  have bounds : ((maxFte : Int) - numReservedEntries).bmod (2 ^ 32) =
        (maxFte : Int) - numReservedEntries ∧ (maxFte : Int) - numReservedEntries < 2 ^ 31 ∧
      0 ≤ (maxFte : Int) - numReservedEntries := by
    simp only [Int.bmod] at enough ⊢
    omega
  obtain ⟨same, small, nonneg⟩ := bounds
  rw [same] at enough ⊢
  refine ⟨rfl, ?_, ?_, sized, ?_, Layout.nil, by simp⟩
  · simp only
    omega
  · simp only
    omega
  have groups : (0 : Int) ≤
      if ((maxFte : Int) - numReservedEntries) / (maxNumGroups + 1) > maxFlowGroupSize then
        ((maxFte : Int) - numReservedEntries) / maxFlowGroupSize - 1
      else maxNumGroups := by
    split
    · rename_i large
      have most := Int.ediv_le_self (maxNumGroups + 1) nonneg
      simp only [maxFlowGroupSize] at large ⊢
      omega
    · omega
  exact Int.toNat_le_toNat (Int.ediv_le_self _ nonneg)

end GroupedTable

namespace GroupedTable

variable {ft after : GroupedTable}

variable (inv : ft.Inv)

include inv

private theorem allocAutoFlowGroup_ok {allocFails} (made : ft.allocAutoFlowGroup allocFails = .ok after) :
    ∃ candidate, candidate = firstFit ft.chosenSize 0 (ft.groups.map span) ∧
      candidate.1 + ft.chosenSize ≤ ft.autogroup.maxFte ∧
      ∃ fg : FlowGroup, fg.place = (⟨candidate.1, ft.chosenSize⟩, true) ∧ fg.Entries ∧ after = { ft with
          groups := ft.groups.take candidate.2 ++ fg :: ft.groups.drop candidate.2
          autogroup := { ft.autogroup with
            numGroups := if ft.chosenSize = ft.autogroup.groupSize then ft.autogroup.numGroups + 1
              else ft.autogroup.numGroups } } := by
  unfold allocAutoFlowGroup at made
  rw [if_neg (by rw [inv.active]; decide)] at made
  simp only [inv.findCandidate, inv.candidate_sum] at made
  split at made
  · cases made
  rename_i below
  split at made
  · cases made
  cases made
  rw [spans_eq] at below ⊢
  have below := Nat.le_of_not_lt below
  have limit := inv.limit
  refine ⟨_, rfl, below, _, allocFlowGroup_place ft.chosenSize_pos (by omega), Entries.fresh rfl rfl, ?_⟩
  split <;> rfl

theorem Inv.allocAuto {allocFails} (made : ft.allocAutoFlowGroup allocFails = .ok after) : after.Inv := by
  obtain ⟨candidate, isFit, below, fg, place, entries, rfl⟩ := allocAutoFlowGroup_ok inv made
  rw [← spans_eq] at isFit
  subst isFit
  refine { inv with layout := ?_, entries := ?_ }
  · have layout := inv.layout.insert ft.chosenSize_pos below
    rw [map_append, map_cons, map_take, map_drop, place]
    exact layout
  intro other mem
  rcases mem_append.mp mem with front | back
  · exact inv.entries other (mem_of_mem_take front)
  · rcases mem_cons.mp back with rfl | later
    · exact entries
    · exact inv.entries other (mem_of_mem_drop later)

theorem Inv.putFlowGroup (place) : (ft.putFlowGroup place).Inv := by
  unfold GroupedTable.putFlowGroup
  cases found : ft.groups[place]? with
  | none => exact inv
  | some fg =>
    have listed : (ft.groups.map FlowGroup.place)[place]? = some fg.place := by
      rw [getElem?_map, found]
      rfl
    have layout := inv.layout.eraseIdx listed
    have entries other (mem : other ∈ ft.groups.eraseIdx place) : other.Entries :=
        inv.entries other ((eraseIdx_sublist _ _).mem mem)
    rw [eraseIdx_map] at layout
    simp only [inv.active, true_and]
    split_ifs with full
    · rw [if_pos (show fg.place.1.size = _ ∧ fg.place.1.start < _ from full)] at layout
      exact { inv with active := rfl, layout := layout, entries := entries }
    · rw [if_neg (show ¬ (fg.place.1.size = _ ∧ fg.place.1.start < _) from full)] at layout
      exact { inv with layout := layout, entries := entries }

variable {validMatcher allocFails : Bool} {startIndex endIndex : UInt32}

theorem mlx5CreateFlowGroup_failed :
    (ft.mlx5CreateFlowGroup startIndex endIndex validMatcher allocFails true).1 = ft := by
  unfold mlx5CreateFlowGroup
  split
  · rfl
  rename_i past
  split
  · rfl
  split
  · rfl
  have notBelow : ¬ startIndex.toNat < ft.autogroup.maxFte := fun low => past ⟨inv.active, low⟩
  simp [putFlowGroup, allocFlowGroup, notBelow, eraseIdx_append_of_length_le]

omit inv in
/-- A caller of `mlx5_create_flow_group` asks for a range in the table and apart from its other groups. -/
def Reserved (ft : GroupedTable) (startIndex endIndex : UInt32) : Prop :=
  startIndex ≤ endIndex ∧ endIndex.toNat < ft.maxFte ∧ ∀ fg ∈ ft.groups, fg.auto = false →
      fg.span.Disjoint ⟨startIndex.toNat, endIndex.toNat - startIndex.toNat + 1⟩

theorem Inv.createGroup (reserved : ft.Reserved startIndex endIndex) :
    (ft.mlx5CreateFlowGroup startIndex endIndex validMatcher allocFails false).1.Inv := by
  obtain ⟨ordered, inTable, apart⟩ := reserved
  have ordered : startIndex.toNat ≤ endIndex.toNat := ordered
  have sized := inv.sized
  unfold mlx5CreateFlowGroup
  split
  · exact inv
  rename_i past
  split
  · exact inv
  split
  · exact inv
  have start : ft.autogroup.maxFte ≤ startIndex.toNat := Nat.le_of_not_lt fun low => past ⟨inv.active, low⟩
  have size := @allocFlowGroup_maxFtes false _ _ ordered (by omega)
  have place : (allocFlowGroup false startIndex.toNat endIndex.toNat).place =
      (⟨startIndex.toNat, endIndex.toNat - startIndex.toNat + 1⟩, false) := by
    rw [FlowGroup.place, FlowGroup.span, size]
    rfl
  refine { inv with layout := ?_, entries := ?_ }
  · simp only [Bool.false_eq_true, if_false, map_append, map_cons, map_nil, place]
    refine inv.layout.append (Nat.succ_pos _) start ?_ ?_
    · simp only [Span.stop]
      omega
    · intro other mem notAuto
      obtain ⟨fg, listed, rfl⟩ := mem_map.mp mem
      exact apart fg listed notAuto
  · intro fg mem
    rcases mem_append.mp mem with old | isNew
    · exact inv.entries fg old
    · rw [mem_singleton.mp isNew]
      exact FlowGroup.Entries.fresh rfl rfl

omit inv in
private theorem idaSimpleGet_some {used last index} (pos : 0 < last)
    (small : last ≤ 2 ^ 31) (given : idaSimpleGet used last = some index) :
    index ∉ used ∧ index < last := by
  obtain ⟨found, low⟩ := Option.filter_eq_some_iff.mp given
  have free := find?_some found
  simp only [decide_eq_true_eq] at free low
  rw [if_neg (by omega)] at low
  exact ⟨free, by omega⟩

theorem Inv.setGroup {place fg changed} (found : ft.groups[place]? = some fg)
    (same : changed.place = fg.place) (entries : changed.Entries) :
    { ft with groups := ft.groups.set place changed }.Inv := by
  refine { inv with layout := ?_, entries := ?_ }
  · have places : (ft.groups.set place changed).map FlowGroup.place = ft.groups.map FlowGroup.place := by
      have listed : (ft.groups.map FlowGroup.place)[place]? = some fg.place := by
        rw [getElem?_map, found]
        rfl
      obtain ⟨bound, isPlace⟩ := List.getElem?_eq_some_iff.mp listed
      rw [map_set, same, ← isPlace]
      exact set_getElem_self bound
    rw [places]
    exact inv.layout
  · intro other mem
    rcases mem_or_eq_of_mem_set mem with old | rfl
    · exact inv.entries other old
    · exact entries

theorem Inv.insertFte (place hashFails) : (ft.insertFte place hashFails).1.Inv := by
  unfold GroupedTable.insertFte
  cases found : ft.groups[place]? with
  | none => exact inv
  | some fg =>
    have member := mem_of_getElem? found
    have entries := inv.entries fg member
    have stop := inv.stop_le member
    have sized := inv.sized
    have positive := inv.layout.positive _ (mem_map_of_mem member)
    simp only [Span.stop, FlowGroup.span, FlowGroup.place] at stop positive
    simp only
    cases given : idaSimpleGet fg.fteAllocator fg.maxFtes with
    | none => exact inv
    | some index =>
      simp only
      obtain ⟨free, low⟩ := idaSimpleGet_some positive (by omega) given
      split
      · exact inv
      refine inv.setGroup found rfl ⟨?_, ?_, ?_⟩
      · exact nodup_cons.mpr ⟨free, entries.nodup⟩
      · intro number listed
        rcases mem_cons.mp listed with rfl | old
        · exact low
        · exact entries.below number old
      · rw [map_cons, ← entries.ftes, u32_of_lt (by omega)]

theorem Inv.delFte (place index) : (ft.delFte place index).Inv := by
  unfold GroupedTable.delFte
  cases found : ft.groups[place]? with
  | none => exact inv
  | some fg =>
    have member := mem_of_getElem? found
    have entries := inv.entries fg member
    have stop := inv.stop_le member
    have sized := inv.sized
    simp only [Span.stop, FlowGroup.span] at stop
    simp only
    split
    · rename_i listed
      rw [entries.ftes] at listed
      obtain ⟨number, given, rfl⟩ := mem_map.mp listed
      have low := entries.below number given
      have isNumber : u32 (number + fg.startIndex + 2 ^ 32 - fg.startIndex) = number := by
        simp only [u32]
        omega
      rw [isNumber]
      refine inv.setGroup found rfl ⟨entries.nodup.erase _, ?_, ?_⟩
      · exact fun other otherGiven => entries.below other (mem_of_mem_erase otherGiven)
      · simp only [entries.ftes]
        exact (map_erase (fun _ _ same => Nat.add_right_cancel same) _).symm
    · exact inv

omit inv

end GroupedTable

namespace GroupedTable

variable {ft : GroupedTable}

inductive Reachable (maxFte maxNumGroups numReservedEntries : Nat)
    (allowed : GroupedTable → GroupOp → Prop) : GroupedTable → Prop
  | create {ft : GroupedTable} :
      mlx5CreateAutoGroupedFlowTable maxFte maxNumGroups numReservedEntries = .ok ft →
      Reachable maxFte maxNumGroups numReservedEntries allowed ft
  | step {ft : GroupedTable} (op : GroupOp) :
      Reachable maxFte maxNumGroups numReservedEntries allowed ft → allowed ft op →
      Reachable maxFte maxNumGroups numReservedEntries allowed (ft.step op)

def CallersReserve (ft : GroupedTable) : GroupOp → Prop
  | .createGroup startIndex endIndex validMatcher allocFails commandFails =>
    (ft.mlx5CreateFlowGroup startIndex endIndex validMatcher allocFails commandFails).2 = none →
      ft.Reserved startIndex endIndex
  | _ => True

private theorem mlx5CreateFlowGroup_refused {startIndex endIndex validMatcher allocFails commandFails}
    (inv : ft.Inv)
    (refused : (ft.mlx5CreateFlowGroup startIndex endIndex validMatcher allocFails commandFails).2 ≠ none) :
    (ft.mlx5CreateFlowGroup startIndex endIndex validMatcher allocFails commandFails).1 = ft := by
  cases commandFails with
  | true => exact mlx5CreateFlowGroup_failed inv
  | false =>
    unfold mlx5CreateFlowGroup at refused ⊢
    split
    · rfl
    split
    · rfl
    split
    · rfl
    simp_all

theorem Inv.step (inv : ft.Inv) {op} (allowed : ft.CallersReserve op) : (ft.step op).Inv := by
  cases op with
  | allocAuto allocFails =>
    simp only [GroupedTable.step]
    cases made : ft.allocAutoFlowGroup allocFails with
    | ok after => exact inv.allocAuto made
    | error reason => exact inv
  | createGroup startIndex endIndex validMatcher allocFails commandFails =>
    simp only [GroupedTable.step]
    by_cases accepted : (ft.mlx5CreateFlowGroup startIndex endIndex validMatcher allocFails
        commandFails).2 = none
    · cases commandFails with
      | true =>
        rw [mlx5CreateFlowGroup_failed inv]
        exact inv
      | false => exact inv.createGroup (allowed accepted)
    · rw [mlx5CreateFlowGroup_refused inv accepted]
      exact inv
  | putGroup place =>
    simp only [GroupedTable.step]
    split
    · exact inv.putFlowGroup place
    · exact inv
  | insertFte place hashFails => exact inv.insertFte place hashFails
  | delFte place index => exact inv.delFte place index

theorem Reachable.inv {maxFte maxNumGroups numReservedEntries} (sized : maxFte ≤ 2 ^ 31)
    (reached : Reachable maxFte maxNumGroups numReservedEntries CallersReserve ft) : ft.Inv := by
  induction reached with
  | create made => exact Inv.create sized made
  | step op _ ok ih => exact ih.step ok

def autoGroups (ft : GroupedTable) : List FlowGroup := ft.groups.filter auto

/-- Groups for rules are sorted, disjoint and below the limit, those of full size are counted, entries have
indices of their own, and a search fails only without a gap. -/
structure GroupsSafe (ft : GroupedTable) : Prop where
  sorted : ft.autoGroups.Pairwise fun left right => left.startIndex < right.startIndex
  disjoint : ft.autoGroups.Pairwise fun left right => left.span.Disjoint right.span
  inside : ∀ fg ∈ ft.autoGroups, fg.span.stop ≤ ft.autogroup.maxFte
  counted : ft.autogroup.numGroups = ft.autoGroups.countP fun fg => fg.maxFtes = ft.autogroup.groupSize
  index : ∀ fg ∈ ft.groups, ∀ index ∈ fg.ftes, fg.startIndex ≤ index ∧ index < fg.span.stop
  unique : (ft.groups.flatMap ftes).Nodup
  noSpace : ∀ allocFails, ft.allocAutoFlowGroup allocFails = .error .enospc →
    NoGap ft.autogroup.maxFte ft.chosenSize 0 (ft.groups.map span)

variable (inv : ft.Inv)

include inv

theorem Inv.auto_stop {fg} (mem : fg ∈ ft.autoGroups) :
    fg.startIndex < fg.span.stop ∧ fg.span.stop ≤ ft.autogroup.maxFte := by
  obtain ⟨listed, auto⟩ := mem_filter.mp mem
  have placed := mem_map_of_mem listed (f := place)
  exact ⟨Nat.lt_add_of_pos_right (inv.layout.positive _ placed), inv.layout.auto _ placed auto⟩

theorem Inv.sorted : ft.autoGroups.Pairwise fun left right => left.startIndex < right.startIndex := by
  have ordered := inv.layout.ordered
  rw [spans_eq, pairwise_map] at ordered
  refine (ordered.sublist filter_sublist).imp_of_mem ?_
  intro left right leftIn rightIn old
  have stop := inv.auto_stop leftIn
  rcases old with below | ⟨past, _⟩
  · exact lt_of_lt_of_le stop.1 below
  · exact absurd (lt_of_lt_of_le stop.1 stop.2) (Nat.not_lt_of_le past)

theorem Inv.spans_disjoint : ft.groups.Pairwise fun left right => left.span.Disjoint right.span := by
  have disjoint := inv.layout.disjoint
  rw [spans_eq, pairwise_map] at disjoint
  exact disjoint

theorem Inv.index {fg} (mem : fg ∈ ft.groups) {index}
    (listed : index ∈ fg.ftes) : fg.startIndex ≤ index ∧ index < fg.span.stop := by
  have entries := inv.entries fg mem
  rw [entries.ftes] at listed
  obtain ⟨number, given, rfl⟩ := mem_map.mp listed
  have low := entries.below number given
  exact ⟨Nat.le_add_left _ _, by simp only [Span.stop, FlowGroup.span]; omega⟩

theorem Inv.unique : (ft.groups.flatMap ftes).Nodup := by
  rw [nodup_flatMap]
  constructor
  · intro fg mem
    have entries := inv.entries fg mem
    rw [entries.ftes]
    exact entries.nodup.map fun _ _ same => Nat.add_right_cancel same
  refine inv.spans_disjoint.imp_of_mem ?_
  intro left right leftIn rightIn apart index inLeft inRight
  have leftBounds := inv.index leftIn inLeft
  have rightBounds := inv.index rightIn inRight
  have apart : left.span.stop ≤ right.startIndex ∨ right.span.stop ≤ left.startIndex := apart
  omega

theorem Inv.noSpace {allocFails} (failed : ft.allocAutoFlowGroup allocFails = .error .enospc) :
    NoGap ft.autogroup.maxFte ft.chosenSize 0 (ft.groups.map span) := by
  unfold allocAutoFlowGroup at failed
  rw [if_neg (by rw [inv.active]; decide)] at failed
  simp only [inv.findCandidate, inv.candidate_sum] at failed
  split at failed
  · rename_i beyond
    rw [← spans_eq]
    exact firstFit_noGap inv.layout.ordered beyond
  · split at failed
    · cases failed
    · cases failed

theorem Inv.groupsSafe : ft.GroupsSafe where
  sorted := inv.sorted
  disjoint := inv.spans_disjoint.sublist filter_sublist
  inside _ member := (inv.auto_stop member).2
  counted := by
    rw [inv.layout.counted, countP_map, autoGroups, countP_filter]
    congr 1
    funext fg
    exact Bool.and_comm _ _
  index _ member _ listed := inv.index member listed
  unique := inv.unique
  noSpace _ failed := inv.noSpace failed

omit inv

/-- In every run with ranges of the callers' own. The device's tables have at most `2 ^ 31` entries. -/
theorem groups_safe {maxFte maxNumGroups numReservedEntries : Nat} (sized : maxFte ≤ 2 ^ 31)
    (reached : Reachable maxFte maxNumGroups numReservedEntries CallersReserve ft) :
    ft.GroupsSafe :=
  (reached.inv sized).groupsSafe

end GroupedTable

namespace GroupedTable

theorem Reachable.run {maxFte maxNumGroups numReservedEntries ft}
    {ok} (ops : List GroupOp) (anywhere : ∀ op ∈ ops, ∀ ft, ok ft op)
    (reached : Reachable maxFte maxNumGroups numReservedEntries ok ft) :
    Reachable maxFte maxNumGroups numReservedEntries ok (ops.foldl GroupedTable.step ft) := by
  induction ops generalizing ft with
  | nil => exact reached
  | cons op rest ih =>
    exact ih (fun later mem => anywhere later (.tail _ mem)) (reached.step op (anywhere op (.head _) ft))

/-- A table of eight entries, two of them reserved: two groups for rules, the first of which goes, and a
caller's group. -/
theorem groups_safe_eight : ∃ ft : GroupedTable, ft.groups.map place = [(⟨2, 2⟩, true), (⟨6, 2⟩, false)] ∧
      ft.GroupsSafe := by
  obtain ⟨ft, made⟩ : ∃ ft, mlx5CreateAutoGroupedFlowTable 8 2 2 = .ok ft := ⟨_, rfl⟩
  have reached : Reachable 8 2 2 CallersReserve ft := .create made
  cases made
  have forRules := reached.run [.allocAuto false, .insertFte 0 false, .allocAuto false,
    .insertFte 1 false, .delFte 0 0, .putGroup 0] (by simp [CallersReserve])
  have all := forRules.step (.createGroup 6 7 true false false)
    fun _ => ⟨by decide, by decide, by decide +kernel⟩
  exact ⟨_, by decide +kernel, groups_safe (by decide) all⟩

/-- A caller's group up to the last `u32` index: past it the search starts over. And two callers' groups
with one range. Software steering, with tables of `INT_MAX` entries, checks neither. -/
theorem groups_unsafe_ranges : (∃ ft, Reachable 2147483647 1 2147483646 (fun _ _ => True) ft ∧
      ft.autoGroups.map FlowGroup.span = [⟨0, 1⟩, ⟨0, 1⟩]) ∧
    (∃ ft, Reachable 2147483647 1 2147483646 (fun _ _ => True) ft ∧
      ft.groups.flatMap FlowGroup.ftes = [1, 1]) := by
  obtain ⟨ft, made⟩ : ∃ ft, mlx5CreateAutoGroupedFlowTable 2147483647 1 2147483646 = .ok ft := ⟨_, rfl⟩
  have reached : Reachable 2147483647 1 2147483646 (fun _ _ => True) ft := .create made
  cases made
  constructor
  · exact ⟨_, reached.run [.allocAuto false, .createGroup 1 0xffffffff true false false,
      .allocAuto false] fun _ _ _ => trivial, by decide +kernel⟩
  · exact ⟨_, reached.run [.createGroup 1 1 true false false, .createGroup 1 1 true false false,
      .insertFte 0 false, .insertFte 1 false] fun _ _ _ => trivial, by decide +kernel⟩

end GroupedTable

end MlnxOfed.FsCore
