/-
The invariant of the pages given to firmware, and what allocating and freeing a chunk does to it. A chunk is
outstanding while its bit in a live page is clear.
-/

import MlnxOfed.PageAlloc.FwPages

namespace MlnxOfed.PageAlloc

open Function Option List Lib Words SearchTree PageDev PageAlloc

variable {config : PageConfig} {dev : PageDev}

theorem PageConfig.num4k_pos (config : PageConfig) : 0 < config.num4kInPage := Nat.two_pow_pos _

theorem PageConfig.num4k_le (config : PageConfig) : config.num4kInPage ≤ 64 := by
  exact Nat.pow_le_pow_right (n := 2) (by decide) (show config.pageShift - 12 ≤ 6 by
    have large := config.atMost64Chunks
    omega)

theorem PageConfig.pageSize (config : PageConfig) : 2 ^ config.pageShift = config.num4kInPage * 4096 := by
  unfold PageConfig.num4kInPage
  have small := config.atLeast4k
  rw [show (4096 : Nat) = 2 ^ 12 from rfl, ← Nat.pow_add]
  congr 1
  omega

theorem pageBase_chunk {base n} (aligned : base % 2 ^ config.pageShift = 0)
    (inside : n < config.num4kInPage) : pageBase config (base + n * 4096) = base := by
  unfold pageBase
  have below : n * 4096 < 2 ^ config.pageShift := by
    rw [config.pageSize]
    exact Nat.mul_lt_mul_of_pos_right inside (by decide)
  obtain ⟨k, rfl⟩ := Nat.dvd_of_mod_eq_zero aligned
  rw [Nat.mul_add_div (Nat.two_pow_pos _), Nat.div_eq_of_lt below, add_zero, mul_comm]

theorem chunkOf_lt (addr : Nat) : chunkOf config addr < config.num4kInPage := by
  unfold chunkOf
  rw [Nat.div_lt_iff_lt_mul (by decide), ← config.pageSize]
  exact Nat.mod_lt _ (Nat.two_pow_pos _)

theorem pageBase_add_chunkOf (addr : Nat) :
    pageBase config addr + chunkOf config addr * 4096 = addr / 4096 * 4096 := by
  unfold pageBase chunkOf
  rw [config.pageSize]
  have split : addr / 4096 = config.num4kInPage * (addr / (config.num4kInPage * 4096)) +
      addr % (config.num4kInPage * 4096) / 4096 := by
    rw [mul_comm config.num4kInPage 4096, Nat.mod_mul_right_div_self, ← Nat.div_div_eq_div_mul]
    exact (Nat.div_add_mod _ _).symm
  rw [split, Nat.add_mul]
  congr 1
  generalize addr / (config.num4kInPage * 4096) = pages
  rw [mul_comm config.num4kInPage pages, Nat.mul_assoc]

private theorem foldl_setBit_testBit (bits : List Nat) (start : Words) (n) :
    (bits.foldl setBit start).testBit n = (decide (n ∈ bits) || start.testBit n) := by
  induction bits generalizing start with
  | nil => simp
  | cons bit bits ih =>
    rw [foldl_cons, ih, testBit_setBit]
    by_cases here : n = bit
    · simp [here]
    · simp [here]

theorem newFwPage_testBit (addr fn n : Nat) :
    (newFwPage config addr fn).bitmask.testBit n = decide (n < config.num4kInPage) := by
  unfold newFwPage
  rw [foldl_setBit_testBit, testBit_zero, Bool.or_false]
  simp

theorem newFwPage_count (addr fn : Nat) :
    (newFwPage config addr fn).bitmask.count 1 = config.num4kInPage := by
  have small := config.num4k_le
  unfold Words.count
  have bits : (Finset.range (64 * 1)).filter
      (fun nr => (newFwPage config addr fn).bitmask.testBit nr = true) = Finset.range config.num4kInPage := by
    ext nr
    rw [Finset.mem_filter, newFwPage_testBit, decide_eq_true_eq, Finset.mem_range, Finset.mem_range]
    omega
  rw [bits, Finset.card_range]

private theorem findFirstBit_spec {bitmask size n} (set : bitmask.testBit n = true) (inside : n < size) :
    bitmask.testBit (findFirstBit bitmask size) = true ∧ findFirstBit bitmask size < size := by
  unfold findFirstBit
  cases found : (range size).find? bitmask.testBit with
  | none =>
    have clear := find?_eq_none.mp found n (mem_range.mpr inside)
    exact absurd set clear
  | some first =>
    exact ⟨find?_some found, mem_range.mp (mem_of_find?_eq_some found)⟩

def PageDev.live (dev : PageDev) (function : Nat) : List Nat :=
  ((dev.pageRoot function).map SearchTree.toList).getD []

structure FwPage.Counted (config : PageConfig) (page : FwPage) : Prop where
  count : page.freeCount = page.bitmask.count 1
  valid : ∀ n, config.num4kInPage ≤ n → page.bitmask.testBit n = false

structure PageDev.Sound (config : PageConfig) (dev : PageDev) : Prop where
  sorted : ∀ function root, dev.pageRoot function = some root → Sorted dev.addr root.toList
  function : ∀ function, ∀ fp ∈ dev.live function, (dev.page fp).function = function
  distinct : ∀ left right, ∀ fp ∈ dev.live left, ∀ other ∈ dev.live right,
    dev.addr fp = dev.addr other → fp = other
  aligned : ∀ function, ∀ fp ∈ dev.live function, dev.addr fp % 2 ^ config.pageShift = 0
  nodup : dev.freeList.Nodup
  listed : ∀ fp, fp ∈ dev.freeList ↔ (∃ function, fp ∈ dev.live function) ∧ 0 < (dev.page fp).freeCount
  counted : ∀ function, ∀ fp ∈ dev.live function, (dev.page fp).Counted config

def Outstanding (config : PageConfig) (dev : PageDev) (function addr : Nat) : Prop :=
  ∃ fp ∈ dev.live function, ∃ n, n < config.num4kInPage ∧
    (dev.page fp).bitmask.testBit n = false ∧ addr = dev.addr fp + n * 4096

theorem PageDev.mem_live {fn fp} :
    fp ∈ dev.live fn ↔ ∃ root, dev.pageRoot fn = some root ∧ fp ∈ root.toList := by
  unfold PageDev.live
  cases dev.pageRoot fn with
  | none => simp
  | some root => simp

theorem PageDev.Sound.found (sound : dev.Sound config) {fn fp addr} :
    findFwPage dev addr fn = some fp ↔ fp ∈ dev.live fn ∧ dev.addr fp = addr := by
  unfold findFwPage
  rw [mem_live]
  cases known : dev.pageRoot fn with
  | none => simp
  | some root =>
    rw [bind_some, search_eq_some (sound.sorted fn root known)]
    simp

theorem PageDev.Sound.nodup_live (sound : dev.Sound config) (fn) : (dev.live fn).Nodup := by
  unfold live
  cases known : dev.pageRoot fn with
  | none => exact nodup_nil
  | some root =>
    refine List.Pairwise.imp ?_ (sound.sorted fn root known)
    intro old after less same
    subst same
    exact lt_irrefl _ less

theorem PageDev.Sound.outstanding_iff (sound : dev.Sound config) {function fp n}
    (live : fp ∈ dev.live function) (inside : n < config.num4kInPage) {other} :
    Outstanding config dev other (dev.addr fp + n * 4096) ↔
      other = function ∧ (dev.page fp).bitmask.testBit n = false := by
  constructor
  · rintro ⟨found, foundLive, m, bound, clear, same⟩
    have base : dev.addr fp = dev.addr found := by
      rw [← pageBase_chunk (sound.aligned function fp live) inside, same,
        pageBase_chunk (sound.aligned other found foundLive) bound]
    have page := sound.distinct function other fp live found foundLive base
    subst page
    have index : n = m := by omega
    subst index
    exact ⟨(sound.function other fp foundLive).symm.trans (sound.function function fp live), clear⟩
  · rintro ⟨rfl, clear⟩
    exact ⟨fp, live, n, inside, clear, rfl⟩

/-! ### Changing one page -/

def PageDev.change (dev : PageDev) (fp : Nat) (page : FwPage) (freeList : List Nat) : PageDev :=
  { dev with page := update dev.page fp page, freeList := freeList }

theorem PageDev.change_same (fp page freeList) : (dev.change fp page freeList).page fp = page := by
  unfold change
  simp

theorem PageDev.change_other {fp other} (apart : other ≠ fp) (page)
    (freeList) : (dev.change fp page freeList).page other = dev.page other := by
  unfold change
  simp [apart]

theorem PageDev.change_addr {fp page} (addr : page.addr = dev.addr fp)
    (freeList) : (dev.change fp page freeList).addr = dev.addr := by
  funext other
  unfold PageDev.addr
  by_cases same : other = fp
  · subst same
    rw [PageDev.change_same, addr]
    rfl
  · rw [PageDev.change_other same]

theorem PageDev.Sound.change (sound : dev.Sound config) (fp page)
    (addr : page.addr = dev.addr fp) (function : page.function = (dev.page fp).function)
    (counted : page.Counted config) {freeList} (nodup : freeList.Nodup)
    (listed : ∀ other, other ∈ freeList ↔ if other = fp then
      (∃ function, fp ∈ dev.live function) ∧ 0 < page.freeCount else other ∈ dev.freeList) :
    (dev.change fp page freeList).Sound config := by
  constructor
  case sorted =>
    intro f root known
    rw [PageDev.change_addr addr]
    exact sound.sorted f root known
  case function =>
    intro f other live
    by_cases same : other = fp
    · subst same
      rw [PageDev.change_same, function]
      exact sound.function f other live
    · rw [PageDev.change_other same]
      exact sound.function f other live
  case distinct =>
    rw [PageDev.change_addr addr]
    exact sound.distinct
  case aligned =>
    rw [PageDev.change_addr addr]
    exact sound.aligned
  case nodup => exact nodup
  case listed =>
    intro other
    refine (listed other).trans ?_
    by_cases same : other = fp
    · subst same
      rw [if_pos rfl, PageDev.change_same]
      rfl
    · rw [if_neg same, PageDev.change_other same]
      exact sound.listed other
  case counted =>
    intro f other live
    by_cases same : other = fp
    · subst same
      rw [PageDev.change_same]
      exact counted
    · rw [PageDev.change_other same]
      exact sound.counted f other live

theorem outstanding_change {fp page} (same : page.addr = dev.addr fp) (freeList) {fn addr} :
    Outstanding config (dev.change fp page freeList) fn addr ↔
      ∃ other ∈ dev.live fn, ∃ n, n < config.num4kInPage ∧
        ((if other = fp then page else dev.page other).bitmask.testBit n = false) ∧
          addr = dev.addr other + n * 4096 := by
  unfold Outstanding
  rw [PageDev.change_addr same]
  have page (other : Nat) : (dev.change fp page freeList).page other =
      if other = fp then page else dev.page other := by
    by_cases same : other = fp
    · subst same
      rw [PageDev.change_same, if_pos rfl]
    · rw [PageDev.change_other same, if_neg same]
  simp only [page]
  rfl

theorem PageDev.Sound.outstanding_clear (sound : dev.Sound config) {fp function n}
    (live : fp ∈ dev.live function) (inside : n < config.num4kInPage) (page)
    (same : page.addr = dev.addr fp) (bits : page.bitmask = (dev.page fp).bitmask.clearBit n)
    (freeList) {other addr} :
    Outstanding config (dev.change fp page freeList) other addr ↔ Outstanding config dev other addr ∨
        other = function ∧ addr = dev.addr fp + n * 4096 := by
  rw [outstanding_change same]
  constructor
  · rintro ⟨found, foundLive, m, bound, clear, rfl⟩
    by_cases here : found = fp
    · subst here
      have functions := (sound.function other found foundLive).symm.trans (sound.function function found live)
      rw [if_pos rfl, bits, testBit_clearBit] at clear
      by_cases index : m = n
      · exact .inr ⟨functions, by rw [index]⟩
      · rw [decide_eq_true index, Bool.true_and] at clear
        exact .inl ⟨found, foundLive, m, bound, clear, rfl⟩
    · rw [if_neg here] at clear
      exact .inl ⟨found, foundLive, m, bound, clear, rfl⟩
  rintro (⟨found, foundLive, m, bound, clear, rfl⟩ | ⟨rfl, rfl⟩)
  · refine ⟨found, foundLive, m, bound, ?_, rfl⟩
    by_cases here : found = fp
    · subst here
      rw [if_pos rfl, bits, testBit_clearBit, clear, Bool.and_false]
    · rw [if_neg here]
      exact clear
  · refine ⟨fp, live, n, inside, ?_, rfl⟩
    rw [if_pos rfl, bits, testBit_clearBit]
    simp

theorem PageDev.Sound.outstanding_set (sound : dev.Sound config) {fp function n}
    (live : fp ∈ dev.live function) (inside : n < config.num4kInPage) (page)
    (same : page.addr = dev.addr fp) (bits : page.bitmask = (dev.page fp).bitmask.setBit n)
    (freeList) {other addr} :
    Outstanding config (dev.change fp page freeList) other addr ↔ Outstanding config dev other addr ∧
        ¬ (other = function ∧ addr = dev.addr fp + n * 4096) := by
  rw [outstanding_change same]
  constructor
  · rintro ⟨found, foundLive, m, bound, clear, rfl⟩
    by_cases here : found = fp
    · subst here
      rw [if_pos rfl, bits, testBit_setBit, Bool.or_eq_false_iff] at clear
      refine ⟨⟨found, foundLive, m, bound, clear.2, rfl⟩, ?_⟩
      rintro ⟨-, equal⟩
      have index : m = n := by omega
      exact of_decide_eq_false clear.1 index
    rw [if_neg here] at clear
    refine ⟨⟨found, foundLive, m, bound, clear, rfl⟩, ?_⟩
    rintro ⟨rfl, equal⟩
    have base : dev.addr found = dev.addr fp := by
      rw [← pageBase_chunk (sound.aligned other found foundLive) bound, equal,
        pageBase_chunk (sound.aligned other fp live) inside]
    exact here (sound.distinct other other found foundLive fp live base)
  · rintro ⟨⟨found, foundLive, m, bound, clear, rfl⟩, apart⟩
    refine ⟨found, foundLive, m, bound, ?_, rfl⟩
    by_cases here : found = fp
    · subst here
      have functions := (sound.function other found foundLive).symm.trans (sound.function function found live)
      have index : m ≠ n := by
        rintro rfl
        exact apart ⟨functions, rfl⟩
      rw [if_pos rfl, bits, testBit_setBit, clear, decide_eq_false index]
      rfl
    · rw [if_neg here]
      exact clear

/-! ### Taking a page out -/

/-- A device that agrees with another one up to the content of one page. -/
structure SameBut (fp : Nat) (dev other : PageDev) : Prop where
  pageRoot : other.pageRoot = dev.pageRoot
  page : ∀ found, found ≠ fp → other.page found = dev.page found
  freeList : other.freeList = dev.freeList

section Erase

variable {fp function : Nat} {other : PageDev} {inFreeList : Bool}

theorem freeFwp_eq (known : (other.page fp).function = function) {root}
    (isRoot : other.pageRoot function = some root) :
    freeFwp config other fp inFreeList = { other with
        pageRoot := update other.pageRoot function (some (config.balance.erase fp root))
        freeList := if inFreeList then other.freeList.erase fp else other.freeList } := by
  unfold freeFwp
  simp [known, isRoot]

theorem freeFwp_live (live : fp ∈ dev.live function)
    (same : SameBut fp dev other) (known : (other.page fp).function = function) (asked) :
    (freeFwp config other fp inFreeList).live asked =
      if asked = function then (dev.live asked).erase fp else dev.live asked := by
  obtain ⟨root, isRoot, -⟩ := PageDev.mem_live.mp live
  rw [freeFwp_eq known (by rw [same.pageRoot, isRoot]), same.pageRoot]
  unfold PageDev.live
  simp only
  by_cases here : asked = function
  · subst here
    rw [update_self, if_pos rfl, isRoot, map_some, map_some, getD_some, getD_some, config.balance.erase_toList]
  · rw [update_of_ne here, if_neg here]

theorem freeFwp_page : (freeFwp config other fp inFreeList).page = other.page := by
  unfold freeFwp
  simp only
  split <;> rfl

private theorem freeFwp_freeList (live : fp ∈ dev.live function) (same : SameBut fp dev other)
    (known : (other.page fp).function = function) (flag : inFreeList = true ↔ fp ∈ dev.freeList) :
    (freeFwp config other fp inFreeList).freeList = dev.freeList.erase fp := by
  obtain ⟨root, isRoot, -⟩ := mem_live.mp live
  rw [freeFwp_eq known (by rw [same.pageRoot, isRoot])]
  rw [same.freeList]
  split
  · rfl
  · rename_i out
    exact (erase_of_not_mem fun mem => out (flag.mpr mem)).symm

theorem PageDev.Sound.mem_erase_live (sound : dev.Sound config) {asked found}
    (live : fp ∈ dev.live function) :
    (found ∈ if asked = function then (dev.live asked).erase fp else dev.live asked) ↔
      found ∈ dev.live asked ∧ found ≠ fp := by
  split_ifs with here
  · rw [(sound.nodup_live asked).mem_erase_iff]
    exact and_comm
  constructor
  · intro mem
    refine ⟨mem, ?_⟩
    rintro rfl
    exact here ((sound.function asked found mem).symm.trans (sound.function function found live))
  · exact And.left

theorem freeFwp_sound (sound : dev.Sound config) (live : fp ∈ dev.live function) (same : SameBut fp dev other)
    (known : (other.page fp).function = function) (flag : inFreeList = true ↔ fp ∈ dev.freeList) :
    (freeFwp config other fp inFreeList).Sound config := by
  have mem (asked found : Nat) : found ∈ (freeFwp config other fp inFreeList).live asked ↔
        found ∈ dev.live asked ∧ found ≠ fp := by
    rw [freeFwp_live live same known]
    exact sound.mem_erase_live live
  have page (found : Nat) (apart : found ≠ fp) :
      (freeFwp config other fp inFreeList).page found = dev.page found := by
    rw [freeFwp_page, same.page found apart]
  have addr (found : Nat) (apart : found ≠ fp) :
      (freeFwp config other fp inFreeList).addr found = dev.addr found :=
    congrArg FwPage.addr (page found apart)
  constructor
  case sorted =>
    intro asked root isRoot
    have values : root.toList = if asked = function then (dev.live asked).erase fp else dev.live asked := by
      rw [← freeFwp_live live same known]
      unfold PageDev.live
      rw [isRoot]
      rfl
    have old : SearchTree.Sorted dev.addr (dev.live asked) := by
      unfold PageDev.live
      cases before : dev.pageRoot asked with
      | none => exact .nil
      | some root => exact sound.sorted asked root before
    have kept : SearchTree.Sorted dev.addr root.toList := by
      rw [values]
      split
      · exact List.Pairwise.sublist erase_sublist old
      · exact old
    refine List.Pairwise.imp_of_mem ?_ kept
    intro before after beforeIn afterIn less
    rw [values, sound.mem_erase_live live] at beforeIn afterIn
    rw [addr before beforeIn.2, addr after afterIn.2]
    exact less
  case function =>
    intro asked found isLive
    obtain ⟨was, apart⟩ := (mem asked found).mp isLive
    rw [page found apart]
    exact sound.function asked found was
  case distinct =>
    intro left right found isLive second secondLive equal
    obtain ⟨was, apart⟩ := (mem left found).mp isLive
    obtain ⟨secondWas, secondApart⟩ := (mem right second).mp secondLive
    rw [addr found apart, addr second secondApart] at equal
    exact sound.distinct left right found was second secondWas equal
  case aligned =>
    intro asked found isLive
    obtain ⟨was, apart⟩ := (mem asked found).mp isLive
    rw [addr found apart]
    exact sound.aligned asked found was
  case nodup =>
    rw [freeFwp_freeList live same known flag]
    exact sound.nodup.erase fp
  case listed =>
    intro found
    rw [freeFwp_freeList live same known flag, sound.nodup.mem_erase_iff, sound.listed]
    simp only [mem]
    constructor
    · rintro ⟨apart, ⟨asked, was⟩, pos⟩
      rw [page found apart]
      exact ⟨⟨asked, was, apart⟩, pos⟩
    · rintro ⟨⟨asked, was, apart⟩, pos⟩
      rw [page found apart] at pos
      exact ⟨apart, ⟨asked, was⟩, pos⟩
  case counted =>
    intro asked found isLive
    obtain ⟨was, apart⟩ := (mem asked found).mp isLive
    rw [page found apart]
    exact sound.counted asked found was

private theorem freeFwp_outstanding (sound : dev.Sound config) (live : fp ∈ dev.live function)
    (same : SameBut fp dev other) (known : (other.page fp).function = function) {asked addr} :
    Outstanding config (freeFwp config other fp inFreeList) asked addr ↔
      Outstanding config dev asked addr ∧ pageBase config addr ≠ dev.addr fp := by
  unfold Outstanding
  simp only [freeFwp_live live same known, sound.mem_erase_live live]
  constructor
  · rintro ⟨found, ⟨was, apart⟩, n, bound, clear, rfl⟩
    have page : (freeFwp config other fp inFreeList).page found = dev.page found := by
      rw [freeFwp_page, same.page found apart]
    have addr : (freeFwp config other fp inFreeList).addr found = dev.addr found := congrArg FwPage.addr page
    rw [page] at clear
    rw [addr]
    refine ⟨⟨found, was, n, bound, clear, rfl⟩, ?_⟩
    rw [pageBase_chunk (sound.aligned asked found was) bound]
    intro equal
    exact apart (sound.distinct asked function found was fp live equal)
  rintro ⟨⟨found, was, n, bound, clear, rfl⟩, apart⟩
  rw [pageBase_chunk (sound.aligned asked found was) bound] at apart
  have different : found ≠ fp := by
    rintro rfl
    exact apart rfl
  have page : (freeFwp config other fp inFreeList).page found = dev.page found := by
    rw [freeFwp_page, same.page found different]
  refine ⟨found, ⟨was, different⟩, n, bound, ?_, ?_⟩
  · rw [page]
    exact clear
  · unfold addr
    rw [page]

end Erase

/-! ### One chunk -/

variable {page : FwPage}

theorem FwPage.Counted.bits_subset (counted : page.Counted config) :
    (Finset.range (64 * 1)).filter (fun nr => page.bitmask.testBit nr = true) ⊆
      Finset.range config.num4kInPage := by
  intro nr mem
  rw [Finset.mem_filter] at mem
  rw [Finset.mem_range]
  apply Nat.lt_of_not_le
  intro above
  rw [counted.valid nr above] at mem
  exact absurd mem.2 (by decide)

theorem FwPage.Counted.le (counted : page.Counted config) : page.freeCount ≤ config.num4kInPage := by
  rw [counted.count]
  exact (Finset.card_le_card counted.bits_subset).trans_eq (Finset.card_range _)

variable {n : Nat}

theorem FwPage.Counted.all_set (counted : page.Counted config)
    (full : page.freeCount = config.num4kInPage) (inside : n < config.num4kInPage) :
    page.bitmask.testBit n = true := by
  have same := Finset.eq_of_subset_of_card_le counted.bits_subset (by
    rw [Finset.card_range, ← full, counted.count]
    exact le_rfl)
  have mem : n ∈ Finset.range config.num4kInPage := Finset.mem_range.mpr inside
  rw [← same, Finset.mem_filter] at mem
  exact mem.2

def PageDev.NoIdle (config : PageConfig) (dev : PageDev) : Prop :=
  ∀ function, ∀ fp ∈ dev.live function, (dev.page fp).freeCount < config.num4kInPage

def SameCounters (dev other : PageDev) : Prop :=
  other.fwPages = dev.fwPages ∧ other.vfsPages = dev.vfsPages ∧ other.hostPfPages = dev.hostPfPages

theorem lastFree_eq_some {function fp} (found : lastFree dev function = some fp) :
    fp ∈ dev.freeList ∧ (dev.page fp).function = function := by
  have member := mem_of_getLast? found
  rw [mem_filter, decide_eq_true_eq] at member
  exact member

theorem lastFree_eq_none {function} :
    lastFree dev function = none ↔ ∀ fp ∈ dev.freeList, (dev.page fp).function ≠ function := by
  unfold lastFree
  rw [getLast?_eq_none_iff, filter_eq_nil_iff]
  simp

structure Taken (config : PageConfig) (function : Nat) (dev after : PageDev) (addr : Nat) :
    Prop where
  sound : after.Sound config
  free : ¬ Outstanding config dev function addr
  outstanding : ∀ other chunk, Outstanding config after other chunk ↔
    Outstanding config dev other chunk ∨ other = function ∧ chunk = addr
  live : after.live = dev.live
  addr : after.addr = dev.addr
  counters : SameCounters dev after
  page : ∃ fp, lastFree dev function = some fp ∧ (after.page fp).freeCount < config.num4kInPage ∧
      ∀ other, other ≠ fp → after.page other = dev.page other

def FwPage.take (page : FwPage) (n : Nat) : FwPage :=
  { page with bitmask := page.bitmask.clearBit n, freeCount := page.freeCount - 1 }

def FwPage.give (page : FwPage) (n : Nat) : FwPage :=
  { page with freeCount := page.freeCount + 1, bitmask := page.bitmask.setBit n }

theorem FwPage.Counted.take (counted : page.Counted config)
    (set : page.bitmask.testBit n = true) : (page.take n).Counted config := by
  have inside : n < config.num4kInPage := by
    apply Nat.lt_of_not_le
    intro above
    rw [counted.valid n above] at set
    exact absurd set (by decide)
  have small := config.num4k_le
  constructor
  · have fewer := count_clearBit page.bitmask 1 n (by omega) set
    change page.freeCount - 1 = (page.bitmask.clearBit n).count 1
    rw [counted.count]
    omega
  · intro m above
    change (page.bitmask.clearBit n).testBit m = false
    rw [testBit_clearBit, counted.valid m above, Bool.and_false]

theorem FwPage.Counted.give (counted : page.Counted config) (inside : n < config.num4kInPage)
    (clear : page.bitmask.testBit n = false) : (page.give n).Counted config := by
  have small := config.num4k_le
  constructor
  · change page.freeCount + 1 = (page.bitmask.setBit n).count 1
    rw [count_setBit page.bitmask 1 n (by omega) clear, counted.count]
  · intro m above
    change (page.bitmask.setBit n).testBit m = false
    rw [testBit_setBit, counted.valid m above, decide_eq_false (show m ≠ n by omega)]
    rfl

theorem PageDev.Sound.take (sound : dev.Sound config) {fn fp n}
    (last : lastFree dev fn = some fp) (live : fp ∈ dev.live fn)
    (set : (dev.page fp).bitmask.testBit n = true) (inside : n < config.num4kInPage) :
    Taken config fn dev (dev.change fp ((dev.page fp).take n)
        (if ((dev.page fp).take n).freeCount = 0 then dev.freeList.erase fp else dev.freeList))
      (dev.addr fp + n * 4096) := by
  obtain ⟨onList, -⟩ := lastFree_eq_some last
  have positive := ((sound.listed fp).mp onList).2
  have counted := sound.counted fn fp live
  constructor
  case sound =>
    apply sound.change fp ((dev.page fp).take n) rfl rfl (counted.take set)
    · split
      · exact sound.nodup.erase fp
      · exact sound.nodup
    intro other
    by_cases same : other = fp
    · subst same
      rw [if_pos rfl]
      split
      · rename_i empty
        rw [sound.nodup.mem_erase_iff, empty]
        simp
      · rename_i some
        exact iff_of_true onList ⟨⟨fn, live⟩, Nat.pos_of_ne_zero some⟩
    · rw [if_neg same]
      split
      · rw [sound.nodup.mem_erase_iff]
        exact and_iff_right same
      · exact .rfl
  case free =>
    intro already
    have clear := ((sound.outstanding_iff live inside).mp already).2
    rw [set] at clear
    exact absurd clear (by decide)
  case outstanding =>
    intro other chunk
    exact sound.outstanding_clear live inside ((dev.page fp).take n) rfl rfl _
  case live => rfl
  case addr => exact @PageDev.change_addr dev fp ((dev.page fp).take n) rfl _
  case counters => exact ⟨rfl, rfl, rfl⟩
  case page =>
    refine ⟨fp, last, ?_, fun other apart => PageDev.change_other apart _ _⟩
    have most := counted.le
    rw [PageDev.change_same]
    change (dev.page fp).freeCount - 1 < config.num4kInPage
    omega

theorem PageDev.Sound.alloc4k (sound : dev.Sound config) (function) :
    (lastFree dev function = none ∧ alloc4k config dev function = .error .noMem) ∨
      ∃ after addr, PageAlloc.alloc4k config dev function = .ok (after, addr) ∧
        Taken config function dev after addr := by
  unfold PageAlloc.alloc4k
  cases last : lastFree dev function with
  | none => exact .inl ⟨rfl, rfl⟩
  | some fp =>
    right
    obtain ⟨onList, isFunction⟩ := lastFree_eq_some last
    obtain ⟨⟨found, live⟩, pos⟩ := (sound.listed fp).mp onList
    obtain rfl : found = function := (sound.function found fp live).symm.trans isFunction
    have counted := sound.counted found fp live
    obtain ⟨bit, bitBound, bitSet⟩ : ∃ nr, nr < 64 * 1 ∧ (dev.page fp).bitmask.testBit nr = true := by
      apply (Words.count_pos_iff _ 1).mp
      rw [← counted.count]
      omega
    obtain ⟨set, -⟩ := findFirstBit_spec bitSet (show bit < 64 from bitBound)
    have inside : findFirstBit (dev.page fp).bitmask 64 < config.num4kInPage := by
      apply Nat.lt_of_not_le
      intro above
      rw [counted.valid _ above] at set
      exact absurd set (by decide)
    refine ⟨_, _, if_neg (Nat.not_le.mpr inside), ?_⟩
    exact sound.take last live set inside

structure Freed (config : PageConfig) (function addr : Nat) (dev after : PageDev) : Prop where
  sound : after.Sound config
  used : Outstanding config dev function (addr / 4096 * 4096)
  outstanding : ∀ other chunk, Outstanding config after other chunk ↔
    Outstanding config dev other chunk ∧ ¬ (other = function ∧ chunk = addr / 4096 * 4096)
  counters : SameCounters dev after
  noIdle : dev.NoIdle config → after.NoIdle config

section Give

variable {function addr fwp : Nat}

private theorem place_eq (base : dev.addr fwp = pageBase config addr) :
    addr / 4096 * 4096 = dev.addr fwp + chunkOf config addr * 4096 := by
  rw [base, pageBase_add_chunkOf]

variable (sound : dev.Sound config) (live : fwp ∈ dev.live function)
  (base : dev.addr fwp = pageBase config addr)
  (clear : (dev.page fwp).bitmask.testBit (chunkOf config addr) = false)

include live base clear

private theorem used_chunk : Outstanding config dev function (addr / 4096 * 4096) := by
  rw [place_eq base]
  exact ⟨fwp, live, _, chunkOf_lt addr, clear, rfl⟩

include sound

theorem PageDev.Sound.give (part : ((dev.page fwp).give (chunkOf config addr)).freeCount < config.num4kInPage)
    {freeList} (nodup : freeList.Nodup)
    (listed : ∀ other, other ∈ freeList ↔ other = fwp ∨ other ∈ dev.freeList) :
    Freed config function addr dev (dev.change fwp ((dev.page fwp).give (chunkOf config addr)) freeList) := by
  have counted := sound.counted function fwp live
  have inside := @chunkOf_lt config addr
  constructor
  case sound =>
    apply sound.change fwp ((dev.page fwp).give _) rfl rfl (counted.give inside clear) nodup
    intro other
    rw [listed]
    split_ifs with same
    · exact iff_of_true (.inl same) ⟨⟨function, live⟩, Nat.succ_pos _⟩
    · exact or_iff_right same
  case used => exact used_chunk live base clear
  case outstanding =>
    intro other chunk
    rw [place_eq base]
    exact sound.outstanding_set live inside ((dev.page fwp).give _) rfl rfl _
  case counters => exact ⟨rfl, rfl, rfl⟩
  case noIdle =>
    intro noIdle asked other otherLive
    by_cases same : other = fwp
    · subst same
      rw [PageDev.change_same]
      exact part
    · rw [PageDev.change_other same]
      exact noIdle asked other otherLive

theorem PageDev.Sound.giveLast
    (full : ((dev.page fwp).give (chunkOf config addr)).freeCount = config.num4kInPage)
    (flag) (isFlag : flag = (config.num4kInPage != 1)) :
    Freed config function addr dev (freeFwp config
        (dev.change fwp ((dev.page fwp).give (chunkOf config addr)) dev.freeList) fwp flag) := by
  have counted := sound.counted function fwp live
  have inside := @chunkOf_lt config addr
  have same : SameBut fwp dev (dev.change fwp ((dev.page fwp).give (chunkOf config addr)) dev.freeList) :=
    ⟨rfl, fun found apart => change_other apart _ _, rfl⟩
  have known : ((dev.change fwp ((dev.page fwp).give (chunkOf config addr)) dev.freeList).page
      fwp).function = function := by
    rw [change_same]
    exact sound.function function fwp live
  have plusOne : (dev.page fwp).freeCount + 1 = config.num4kInPage := full
  have onList : flag = true ↔ fwp ∈ dev.freeList := by
    rw [isFlag, bne_iff_ne, sound.listed]
    constructor
    · intro several
      exact ⟨⟨function, live⟩, by omega⟩
    · rintro ⟨-, pos⟩
      omega
  constructor
  case sound => exact freeFwp_sound sound live same known onList
  case used => exact used_chunk live base clear
  case outstanding =>
    intro other chunk
    rw [freeFwp_outstanding sound live same known]
    refine and_congr_right ?_
    rintro ⟨found, foundLive, m, bound, foundClear, rfl⟩
    rw [pageBase_chunk (sound.aligned other found foundLive) bound, place_eq base]
    apply not_congr
    constructor
    · intro equal
      obtain rfl := sound.distinct other function found foundLive fwp live equal
      have isFunction := (sound.function other found foundLive).symm.trans (sound.function function found live)
      have all := (counted.give inside clear).all_set full bound
      change ((dev.page found).bitmask.setBit (chunkOf config addr)).testBit m = true at all
      rw [testBit_setBit, foundClear, Bool.or_false, decide_eq_true_eq] at all
      exact ⟨isFunction, by rw [all]⟩
    · rintro ⟨rfl, equal⟩
      rw [← pageBase_chunk (sound.aligned other found foundLive) bound, equal,
        pageBase_chunk (sound.aligned other fwp live) inside]
  case counters =>
    obtain ⟨root, isRoot, -⟩ := mem_live.mp live
    rw [freeFwp_eq known (show _ = some root from isRoot)]
    exact ⟨rfl, rfl, rfl⟩
  case noIdle =>
    intro noIdle asked other otherLive
    rw [freeFwp_live live same known, sound.mem_erase_live live] at otherLive
    rw [freeFwp_page, change_other otherLive.2]
    exact noIdle asked other otherLive.1

end Give

theorem PageDev.Sound.free4k (sound : dev.Sound config) (addr fn) :
    (¬ Outstanding config dev fn (addr / 4096 * 4096) ∧ ∃ err, free4k config dev addr fn = (dev, some err)) ∨
      ∃ after, PageAlloc.free4k config dev addr fn = (after, none) ∧ Freed config fn addr dev after := by
  have inside := @chunkOf_lt config addr
  unfold PageAlloc.free4k
  cases found : findFwPage dev (pageBase config addr) fn with
  | none =>
    refine .inl ⟨?_, _, rfl⟩
    rintro ⟨fp, live, n, bound, -, same⟩
    have aligned : pageBase config addr % 2 ^ config.pageShift = 0 := by exact Nat.mul_mod_left _ _
    have base : dev.addr fp = pageBase config addr := by
      rw [← pageBase_add_chunkOf] at same
      rw [← pageBase_chunk (sound.aligned fn fp live) bound, ← same, pageBase_chunk aligned inside]
    have hit := sound.found.mpr ⟨live, base⟩
    rw [found] at hit
    exact absurd hit (by simp)
  | some fwp =>
    obtain ⟨live, base⟩ := sound.found.mp found
    simp only
    split
    · rename_i already
      refine .inl ⟨?_, _, rfl⟩
      rw [← pageBase_add_chunkOf, ← base, sound.outstanding_iff live inside, already]
      rintro ⟨-, clear⟩
      exact absurd clear (by decide)
    rename_i notSet
    right
    have clear := Bool.eq_false_iff.mpr notSet
    have counted := sound.counted fn fwp live
    have most := (counted.give inside clear).le
    split
    · rename_i full
      refine ⟨_, rfl, ?_⟩
      exact sound.giveLast live base clear full _ (by rw [full])
    rename_i notFull
    have part := Nat.lt_of_le_of_ne most notFull
    have member := sound.listed fwp
    split
    · rename_i first
      have empty : (dev.page fwp).freeCount = 0 := Nat.succ.inj first
      have off : fwp ∉ dev.freeList := by
        rw [member, empty]
        exact fun listed => lt_irrefl 0 listed.2
      refine ⟨_, rfl, ?_⟩
      exact sound.give live base clear part (nodup_cons.mpr ⟨off, sound.nodup⟩) (fun other => mem_cons)
    rename_i notFirst
    have some : 0 < (dev.page fwp).freeCount := by
      apply Nat.pos_of_ne_zero
      intro empty
      apply notFirst
      rw [empty]
    refine ⟨_, rfl, ?_⟩
    refine sound.give live base clear part sound.nodup ?_
    intro other
    constructor
    · exact .inr
    · rintro (rfl | listed)
      · exact member.mpr ⟨⟨fn, live⟩, some⟩
      · exact listed

end MlnxOfed.PageAlloc
