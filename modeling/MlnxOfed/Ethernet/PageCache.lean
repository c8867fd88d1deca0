/-
The page cache of a receive queue (en_rx.c, en_main.c): a stack of mapped pages lent to the work entries,
which shrinks and grows by halves.

Every page of the pool is a new number, also for the same memory. References of skbs are counted apart from
`page_ref_count`, to compare the two. `refcnt_bias` is 32 bits wide. What depends on the clock and on a
page's node is an argument. The reduce work is one step: while the pending bit is set nothing else touches
the pending array.
-/

import Mathlib.Data.List.GetD
import Mathlib.Tactic.Linarith

namespace MlnxOfed.Ethernet

open Bool List

/-! ### State -/

def pageCacheLogMaxRqMult : Nat := 4

def pageCacheReduceSuccessiveCnt : Nat := 5

def pageRefElevation : Nat := 2 ^ 16 - 1

/-- `PAGE_REF_THRSD`; pages have up to 256K bytes. -/
def pageRefThrsd (pageShift : Nat) : Nat :=
  2 ^ pageShift / 64

def maxPageShift : Nat := 18

structure DmaInfo where
  page : Nat
  refcntBias : Nat
  deriving DecidableEq, Inhabited

/-- `struct mlx5e_page_cache`; `pending` has the `npages` entries of its array. -/
structure PageCache where
  pageCache : List DmaInfo
  head : Int
  sz : Nat
  lrs : Nat
  logMinSz : Nat
  logMaxSz : Nat
  successive : Nat
  pending : List DmaInfo

/-- A page of a work entry, and how many references skbs got since it was lent. -/
structure Lent where
  info : DmaInfo
  given : Nat
  deriving DecidableEq

/-- The pages of the pool: `page_ref_count`, the references of skbs, and what was mapped, unmapped and given
back. -/
structure Pages where
  pageRef : Nat → Nat
  skbRefs : Nat → Nat
  nextPage : Nat
  mapped : List Nat
  unmapped : List Nat
  released : List Nat

structure Rq where
  pageShift : Nat
  cache : PageCache
  reducePending : Bool
  pages : Pages
  lent : List Lent
  freed : Bool

/-- `mlx5e_rx_alloc_page_cache`. -/
def PageCache.alloc (logInitSz : Nat) : PageCache where
  pageCache := replicate (2 ^ (logInitSz + pageCacheLogMaxRqMult)) default
  head := -1
  sz := 2 ^ logInitSz
  lrs := 0
  logMinSz := logInitSz
  logMaxSz := logInitSz + pageCacheLogMaxRqMult
  successive := 0
  pending := []

namespace PageCache

def pageSwap (cache : PageCache) (a b : Nat) : PageCache :=
  let tmp := cache.pageCache.getD a default
  let swapped := (cache.pageCache.set a (cache.pageCache.getD b default)).set b tmp
  { cache with pageCache := swapped }

/-- The index that `mlx5e_rx_cache_get` samples next. -/
def nextLrs (cache : PageCache) : Nat :=
  if cache.head ≤ cache.lrs + 1 then 0 else cache.lrs + 1

/-- The swap of `mlx5e_rx_cache_get`. -/
def sample (cache : PageCache) : PageCache :=
  { cache.pageSwap cache.head.toNat cache.lrs with lrs := cache.nextLrs }

def top (cache : PageCache) : DmaInfo :=
  cache.pageCache.getD cache.head.toNat default

def dropHead (cache : PageCache) : PageCache :=
  { cache with head := cache.head - 1 }

/-- `mlx5e_rx_cache_extend`; false where the limit is reached. -/
def extend (cache : PageCache) (logRxPageCacheMult : Nat) : PageCache × Bool :=
  if cache.logMinSz + logRxPageCacheMult ≤ cache.sz.log2 then (cache, false)
  else ({ cache with sz := cache.sz * 2, successive := 0 }, true)

/-- `page_cache[++head] = *dma_info`. -/
def push (cache : PageCache) (info : DmaInfo) : PageCache :=
  { cache with
    pageCache := cache.pageCache.set (cache.head + 1).toNat info
    head := cache.head + 1 }

/-- `mlx5e_rx_cache_put`. -/
def put (cache : PageCache) (info : DmaInfo) (isReserved : Bool) (logRxPageCacheMult : Nat) :
    PageCache × Bool :=
  let (cache, room) :=
    if cache.head = (cache.sz : Int) - 1 then cache.extend logRxPageCacheMult else (cache, true)
  if room = false then (cache, false)
  else if isReserved then (cache, false)
  else (cache.push info, true)

end PageCache

namespace Pages

def setPageRef (pages : Pages) (page count : Nat) : Pages :=
  { pages with pageRef := fun other => if other = page then count else pages.pageRef other }

def setSkbRefs (pages : Pages) (page count : Nat) : Pages :=
  { pages with skbRefs := fun other => if other = page then count else pages.skbRefs other }

def devAllocPages (pages : Pages) : Pages :=
  { pages.setPageRef pages.nextPage 1 with nextPage := pages.nextPage + 1 }

def refElev (pages : Pages) (info : DmaInfo) : Pages × DmaInfo :=
  (pages.setPageRef info.page (pages.pageRef info.page + pageRefElevation),
    { info with refcntBias := (info.refcntBias + pageRefElevation) % 2 ^ 32 })

def dmaMap (pages : Pages) (info : DmaInfo) : Pages :=
  { pages with mapped := info.page :: pages.mapped }

def dmaUnmap (pages : Pages) (info : DmaInfo) : Pages :=
  { pages with unmapped := info.page :: pages.unmapped }

/-- `page_ref_sub` and `page_pool_recycle_direct`. -/
def recycleDirect (pages : Pages) (info : DmaInfo) : Pages :=
  { pages.setPageRef info.page (pages.pageRef info.page - info.refcntBias) with
    released := info.page :: pages.released }

/-- `page_pool_release_page` and `mlx5e_put_page`. -/
def putPage (pages : Pages) (info : DmaInfo) : Pages :=
  { pages.setPageRef info.page (pages.pageRef info.page - info.refcntBias - 1) with
    released := info.page :: pages.released }

end Pages

namespace Rq

def init (pageShift logInitSz : Nat) : Rq where
  pageShift := pageShift
  cache := PageCache.alloc logInitSz
  reducePending := false
  pages := ⟨fun _ => 0, fun _ => 0, 0, [], [], []⟩
  lent := []
  freed := false

def pageBusy (rq : Rq) (i : Nat) : Bool :=
  let info := rq.cache.pageCache.getD i default
  (rq.pages.pageRef info.page + (2 ^ 32 - info.refcntBias)) % 2 ^ 32 ≠ 1

def sample (rq : Rq) : Rq :=
  { rq with cache := rq.cache.sample }

/-- The taking of the page at the head, in `mlx5e_rx_cache_get`. -/
def pop (rq : Rq) : Rq × DmaInfo :=
  let info := rq.cache.top
  let rq := { rq with cache := rq.cache.dropHead }
  if rq.pages.pageRef info.page ≤ pageRefThrsd rq.pageShift then
    ({ rq with pages := (rq.pages.refElev info).1 }, (rq.pages.refElev info).2)
  else (rq, info)

def cacheGet (rq : Rq) : Rq × Option DmaInfo :=
  let noPage := fun rq : Rq => ({ rq with cache := { rq.cache with successive := 0 } }, none)
  if rq.cache.head < 0 then noPage rq
  else if rq.sample.pageBusy rq.sample.cache.head.toNat then noPage rq.sample
  else (rq.sample.pop.1, some rq.sample.pop.2)

/-- `mlx5e_page_alloc_pool` after the cache had no page; pool and mapping may fail. -/
def allocNew (rq : Rq) (noPage mapFails : Bool) : Rq × Option DmaInfo :=
  if noPage then (rq, none)
  else
    let (pages, info) := rq.pages.devAllocPages.refElev ⟨rq.pages.nextPage, 0⟩
    if mapFails then ({ rq with pages := pages.recycleDirect info }, none)
    else ({ rq with pages := pages.dmaMap info }, some info)

def pageAllocPool (rq : Rq) (noPage mapFails : Bool) : Rq × Option DmaInfo :=
  match rq.cacheGet with
  | (rq, some info) => (rq, some info)
  | (rq, none) => rq.allocNew noPage mapFails

def pageReleaseDynamic (rq : Rq) (info : DmaInfo) (recycle isReserved : Bool) (logRxPageCacheMult : Nat) : Rq :=
  if recycle then
    match rq.cache.put info isReserved logRxPageCacheMult with
    | (cache, true) => { rq with cache := cache }
    | (cache, false) =>
      { rq with cache := cache, pages := (rq.pages.dmaUnmap info).recycleDirect info }
  else { rq with pages := (rq.pages.dmaUnmap info).putPage info }

def checkReduce (rq : Rq) (timeBefore : Bool) : Rq × Bool :=
  let resetWatch := ({ rq with cache := { rq.cache with successive := 0 } }, false)
  if rq.reducePending then (rq, false)
  else if timeBefore then (rq, false)
  else if ¬ rq.cache.head < 0 ∧ rq.pageBusy rq.cache.head.toNat then resetWatch
  else if rq.cache.sz.log2 = rq.cache.logMinSz then resetWatch
  else if rq.cache.successive < pageCacheReduceSuccessiveCnt then
    ({ rq with cache := { rq.cache with successive := rq.cache.successive + 1 } }, false)
  else (rq, true)

/-- The part of `mlx5e_rx_cache_may_reduce` that halves the cache. -/
def reduce (rq : Rq) : Rq :=
  let sz := rq.cache.sz / 2
  let maxNewHead : Int := (sz / 2 : Nat) - 1
  if maxNewHead < rq.cache.head then
    let npages := (rq.cache.head - maxNewHead).toNat
    let cache := { rq.cache with
      sz := sz
      head := maxNewHead
      lrs := if maxNewHead ≤ rq.cache.lrs then 0 else rq.cache.lrs
      pending := (rq.cache.pageCache.drop (maxNewHead + 1).toNat).take npages
      successive := 0 }
    { rq with cache := cache, reducePending := true }
  else { rq with cache := { rq.cache with sz := sz, successive := 0 } }

def mayReduce (rq : Rq) (timeBefore : Bool) : Rq :=
  match rq.checkReduce timeBefore with
  | (rq, false) => rq
  | (rq, true) => rq.reduce

def releaseAll (rq : Rq) (infos : List DmaInfo) : Rq :=
  infos.foldl (fun rq info => rq.pageReleaseDynamic info false false 0) rq

def reduceCleanPending (rq : Rq) : Rq :=
  if rq.reducePending then
    { rq.releaseAll rq.cache.pending with reducePending := false }
  else rq

/-- `mlx5e_rx_free_page_cache`; the reduce work is cancelled first. -/
def freePageCache (rq : Rq) : Rq :=
  let rq := rq.reduceCleanPending
  { rq.releaseAll (rq.cache.pageCache.take (rq.cache.head + 1).toNat) with freed := true }

def lend (rq : Rq) (info : DmaInfo) : Rq :=
  { rq with lent := ⟨info, 0⟩ :: rq.lent }

def alloc (rq : Rq) (noPage mapFails : Bool) : Rq :=
  match rq.pageAllocPool noPage mapFails with
  | (next, some info) => next.lend info
  | (next, none) => next

/-- `refcnt_bias--`. -/
def biasDec (info : DmaInfo) : DmaInfo :=
  { info with
    refcntBias := if info.refcntBias = 0 then 2 ^ 32 - 1 else info.refcntBias - 1 }

def giveRef (rq : Rq) (loan : Lent) : Rq :=
  { rq with
    lent := ⟨biasDec loan.info, loan.given + 1⟩ :: rq.lent.erase loan
    pages := rq.pages.setSkbRefs loan.info.page (rq.pages.skbRefs loan.info.page + 1) }

def release (rq : Rq) (loan : Lent) (recycle isReserved : Bool) (logRxPageCacheMult : Nat) : Rq :=
  ({ rq with lent := rq.lent.erase loan }).pageReleaseDynamic loan.info recycle isReserved
    logRxPageCacheMult

def skbFree (rq : Rq) (page : Nat) : Rq :=
  let pages := rq.pages.setPageRef page (rq.pages.pageRef page - 1)
  { rq with pages := pages.setSkbRefs page (rq.pages.skbRefs page - 1) }

end Rq

/-- The multiplier may be changed at any time, up to its limit. -/
inductive RqStep : Rq → Rq → Prop where
  | alloc (rq : Rq) (noPage mapFails : Bool) (inUse : rq.freed = false) : RqStep rq (rq.alloc noPage mapFails)
  | giveRef (rq : Rq) (loan : Lent) (lent : loan ∈ rq.lent)
      (few : loan.given < pageRefThrsd rq.pageShift) : RqStep rq (rq.giveRef loan)
  | skbFree (rq : Rq) (page : Nat) (holds : 0 < rq.pages.skbRefs page) : RqStep rq (rq.skbFree page)
  | release (rq : Rq) (loan : Lent) (recycle isReserved : Bool) (logRxPageCacheMult : Nat)
      (inUse : rq.freed = false) (lent : loan ∈ rq.lent)
      (limit : logRxPageCacheMult ≤ pageCacheLogMaxRqMult) :
      RqStep rq (rq.release loan recycle isReserved logRxPageCacheMult)
  | mayReduce (rq : Rq) (timeBefore : Bool) (inUse : rq.freed = false) : RqStep rq (rq.mayReduce timeBefore)
  | reduceWork (rq : Rq) (inUse : rq.freed = false) : RqStep rq rq.reduceCleanPending
  | free (rq : Rq) (inUse : rq.freed = false) : RqStep rq rq.freePageCache

def RqReachable (pageShift logInitSz : Nat) : Rq → Prop :=
  Relation.ReflTransGen RqStep (Rq.init pageShift logInitSz)

/-! ### The ledger of pages

A list of places is accounted for where each page taken from the pool is in one place or was
given back, and each mapped page is in one place or was unmapped. -/

structure Ledger (pageShift : Nat) (pages : Pages) (places : List DmaInfo) : Prop where
  mapping : ∀ page, (places.map DmaInfo.page).count page + pages.unmapped.count page = pages.mapped.count page
  pool : ∀ page, (places.map DmaInfo.page).count page + pages.released.count page =
    if page < pages.nextPage then 1 else 0
  mappedOnce : ∀ page, pages.mapped.count page ≤ if page < pages.nextPage then 1 else 0
  counted : ∀ info ∈ places, pages.pageRef info.page = 1 + info.refcntBias + pages.skbRefs info.page
  bounded : ∀ info ∈ places, info.refcntBias ≤ pageRefThrsd pageShift + pageRefElevation
  held : ∀ info ∈ places, pages.skbRefs info.page ≤ pageRefThrsd pageShift
  unused : ∀ page, pages.nextPage ≤ page → pages.skbRefs page = 0

section Ledger

variable {pageShift : Nat} {pages : Pages} {places rest : List DmaInfo} {info : DmaInfo}

theorem Ledger.perm (ledger : Ledger pageShift pages places) (same : places.Perm rest) :
    Ledger pageShift pages rest where
  mapping page := by rw [← (same.map _).count_eq page]; exact ledger.mapping page
  pool page := by rw [← (same.map _).count_eq page]; exact ledger.pool page
  mappedOnce := ledger.mappedOnce
  counted info member := ledger.counted info (same.mem_iff.mpr member)
  bounded info member := ledger.bounded info (same.mem_iff.mpr member)
  held info member := ledger.held info (same.mem_iff.mpr member)
  unused := ledger.unused

theorem count_page_pos_of_mem (mem : info ∈ places) : 0 < (places.map DmaInfo.page).count info.page :=
  count_pos_iff.mpr (mem_map_of_mem mem)

theorem Ledger.apart (ledger : Ledger pageShift pages (info :: rest)) :
    ∀ other ∈ rest, other.page ≠ info.page := by
  intro other mem same
  have once := ledger.pool info.page
  have again := count_page_pos_of_mem mem
  rw [same] at again
  simp only [map_cons, count_cons_self] at once
  split at once <;> omega

theorem Ledger.page_lt (ledger : Ledger pageShift pages places) (mem : info ∈ places) :
    info.page < pages.nextPage := by
  have once := ledger.pool info.page
  have here := count_page_pos_of_mem mem
  by_contra beyond
  rw [if_neg beyond] at once
  omega

theorem Ledger.leave (ledger : Ledger pageShift pages (info :: rest)) (next)
    (unmapped : next.unmapped = info.page :: pages.unmapped)
    (released : next.released = info.page :: pages.released) (mapped : next.mapped = pages.mapped)
    (nextPage : next.nextPage = pages.nextPage) (skbRefs : next.skbRefs = pages.skbRefs)
    (others : ∀ page, page ≠ info.page → next.pageRef page = pages.pageRef page) :
    Ledger pageShift next rest where
  mapping page := by
    have before := ledger.mapping page
    rw [unmapped, mapped]
    simp only [map_cons, count_cons] at before ⊢
    omega
  pool page := by
    have before := ledger.pool page
    rw [released, nextPage]
    simp only [map_cons, count_cons] at before ⊢
    omega
  mappedOnce page := by rw [mapped, nextPage]; exact ledger.mappedOnce page
  counted other member := by
    rw [others _ (ledger.apart other member), skbRefs]
    exact ledger.counted other (.tail _ member)
  bounded other member := ledger.bounded other (.tail _ member)
  held other member := by
    rw [skbRefs]
    exact ledger.held other (.tail _ member)
  unused page later := by rw [skbRefs]; exact ledger.unused page (by rwa [nextPage] at later)

theorem Ledger.recount (ledger : Ledger pageShift pages (info :: rest)) (next)
    (after) (samePage : after.page = info.page)
    (unmapped : next.unmapped = pages.unmapped) (released : next.released = pages.released)
    (mapped : next.mapped = pages.mapped) (nextPage : next.nextPage = pages.nextPage)
    (refsOthers : ∀ page, page ≠ info.page → next.pageRef page = pages.pageRef page)
    (skbOthers : ∀ page, page ≠ info.page → next.skbRefs page = pages.skbRefs page)
    (counted : next.pageRef info.page = 1 + after.refcntBias + next.skbRefs info.page)
    (bounded : after.refcntBias ≤ pageRefThrsd pageShift + pageRefElevation)
    (held : next.skbRefs info.page ≤ pageRefThrsd pageShift) :
    Ledger pageShift next (after :: rest) where
  mapping page := by
    rw [unmapped, mapped, map_cons, samePage]
    exact ledger.mapping page
  pool page := by
    rw [released, nextPage, map_cons, samePage]
    exact ledger.pool page
  mappedOnce page := by rw [mapped, nextPage]; exact ledger.mappedOnce page
  counted other member := by
    rcases mem_cons.mp member with rfl | inRest
    · rw [samePage]; exact counted
    · rw [refsOthers _ (ledger.apart other inRest), skbOthers _ (ledger.apart other inRest)]
      exact ledger.counted other (.tail _ inRest)
  bounded other member := by
    rcases mem_cons.mp member with rfl | inRest
    · exact bounded
    · exact ledger.bounded other (.tail _ inRest)
  held other member := by
    rcases mem_cons.mp member with rfl | inRest
    · rw [samePage]; exact held
    · rw [skbOthers _ (ledger.apart other inRest)]
      exact ledger.held other (.tail _ inRest)
  unused page later := by
    rw [nextPage] at later
    have taken := ledger.page_lt (mem_cons_self (a := info) (l := rest))
    rw [skbOthers page (by omega)]
    exact ledger.unused page later

theorem Ledger.take (ledger : Ledger pageShift pages places) (next)
    (nextPage : next.nextPage = pages.nextPage + 1) (skbRefs : next.skbRefs = pages.skbRefs)
    (refsOthers : ∀ page, page ≠ pages.nextPage → next.pageRef page = pages.pageRef page)
    (unmapped : next.unmapped = pages.unmapped)
    (newPlaces newMapped newReleased)
    (placed : newPlaces.map DmaInfo.page = newMapped)
    (mapped : next.mapped = newMapped ++ pages.mapped)
    (released : next.released = newReleased ++ pages.released)
    (one : ∀ page, newMapped.count page + newReleased.count page = if page = pages.nextPage then 1 else 0)
    (counted : ∀ info ∈ newPlaces, info.page = pages.nextPage ∧ next.pageRef info.page = 1 + info.refcntBias ∧
      info.refcntBias ≤ pageRefThrsd pageShift + pageRefElevation) :
    Ledger pageShift next (newPlaces ++ places) where
  mapping page := by
    have before := ledger.mapping page
    rw [unmapped, mapped, map_append, placed, count_append, count_append]
    omega
  pool page := by
    have before := ledger.pool page
    have new := one page
    rw [released, nextPage, map_append, placed, count_append, count_append]
    split at before <;> split at new <;> split <;> omega
  mappedOnce page := by
    have before := ledger.mappedOnce page
    have new := one page
    rw [mapped, nextPage, count_append]
    split at before <;> split at new <;> split <;> omega
  counted info member := by
    rcases mem_append.mp member with isNew | old
    · obtain ⟨isNext, refs, -⟩ := counted info isNew
      have free := ledger.unused info.page (le_of_eq isNext.symm)
      rw [refs, skbRefs, free, add_zero]
    · have taken := ledger.page_lt old
      rw [refsOthers _ (by omega), skbRefs]
      exact ledger.counted info old
  bounded info member := by
    rcases mem_append.mp member with isNew | old
    · exact (counted info isNew).2.2
    · exact ledger.bounded info old
  held info member := by
    rw [skbRefs]
    rcases mem_append.mp member with isNew | old
    · rw [ledger.unused info.page (le_of_eq (counted info isNew).1.symm)]
      exact Nat.zero_le _
    · exact ledger.held info old
  unused page later := by
    rw [skbRefs]
    exact ledger.unused page (by omega)

theorem Ledger.skbPut (ledger : Ledger pageShift pages places) (page) (holds : 0 < pages.skbRefs page) :
    Ledger pageShift ((pages.setPageRef page (pages.pageRef page - 1)).setSkbRefs page
      (pages.skbRefs page - 1)) places :=
  { ledger with
    mappedOnce := ledger.mappedOnce
    counted info member := by
      have before := ledger.counted info member
      simp only [Pages.setSkbRefs, Pages.setPageRef]
      by_cases same : info.page = page
      · subst same
        simp only [if_true]
        omega
      · simp only [if_neg same]
        exact before
    bounded := ledger.bounded
    held info member := by
      have before := ledger.held info member
      simp only [Pages.setSkbRefs]
      split
      · next same => subst same; omega
      · exact before
    unused other later := by
      have before := ledger.unused other later
      simp only [Pages.setSkbRefs]
      split
      · next same => subst same; omega
      · exact before }

end Ledger

/-! ### The stack of cached pages -/

/-- `page_cache[0..head]`. -/
def PageCache.cached (cache : PageCache) : List DmaInfo :=
  cache.pageCache.take (cache.head + 1).toNat

structure PageCache.Bounds (logInitSz : Nat) (cache : PageCache) : Prop where
  logMin : cache.logMinSz = logInitSz
  logMax : cache.logMaxSz = logInitSz + pageCacheLogMaxRqMult
  room : cache.pageCache.length = 2 ^ cache.logMaxSz
  size : ∃ log, cache.sz = 2 ^ log ∧ cache.logMinSz ≤ log ∧ log ≤ cache.logMaxSz
  headLow : -1 ≤ cache.head
  headHigh : cache.head < cache.sz
  lrs : (cache.lrs : Int) ≤ max cache.head 0

namespace PageCache

variable {logInitSz : Nat} {cache : PageCache}

variable (bounds : Bounds logInitSz cache)

include bounds

theorem Bounds.sz_le : cache.sz ≤ 2 ^ cache.logMaxSz := by
  obtain ⟨log, size, -, upper⟩ := bounds.size
  rw [size]
  exact Nat.pow_le_pow_right (by omega) upper

theorem Bounds.head_lt_length : cache.head < cache.pageCache.length := by
  have size := bounds.sz_le
  have high := bounds.headHigh
  have room := bounds.room
  omega

variable (infos : List DmaInfo)

omit bounds in
private theorem swap_perm (n a b) (aLow : a < n) (bLow : b < n) (inside : n ≤ infos.length) :
    (((infos.set a (infos.getD b default)).set b (infos.getD a default)).take n).Perm (infos.take n) := by
  have aTake : a < (infos.take n).length := by rw [length_take]; omega
  have bTake : b < (infos.take n).length := by rw [length_take]; omega
  have first : infos.getD a default = (infos.take n)[a] := by rw [getElem_take, getD_eq_getElem]
  have second : infos.getD b default = (infos.take n)[b] := by rw [getElem_take, getD_eq_getElem]
  rw [take_set, take_set, first, second]
  exact set_set_perm aTake bTake

omit bounds in
private theorem take_succ_perm (n) (inside : n < infos.length) :
    (infos.take (n + 1)).Perm (infos.getD n default :: infos.take n) := by
  rw [take_succ_eq_append_getElem inside, getD_eq_getElem _ _ inside]
  exact perm_append_singleton _ _

omit bounds in
private theorem take_set_succ (n info) (inside : n < infos.length) :
    (infos.set n info).take (n + 1) = infos.take n ++ [info] := by
  have inside' : n < (infos.set n info).length := by rwa [length_set]
  rw [take_succ_eq_append_getElem inside', getElem_set_self, take_set,
    set_eq_of_length_le (by rw [length_take]; omega)]

private theorem extend_spec (logRxPageCacheMult) (limit : logRxPageCacheMult ≤ pageCacheLogMaxRqMult) :
    Bounds logInitSz (cache.extend logRxPageCacheMult).1 ∧
      (cache.extend logRxPageCacheMult).1.pending = cache.pending ∧
      (cache.extend logRxPageCacheMult).1.pageCache = cache.pageCache ∧
      (cache.extend logRxPageCacheMult).1.head = cache.head ∧
      ((cache.extend logRxPageCacheMult).2 = true →
        cache.head + 1 < (cache.extend logRxPageCacheMult).1.sz) := by
  obtain ⟨log, size, lower, upper⟩ := bounds.size
  have high := bounds.headHigh
  unfold extend
  split
  · exact ⟨bounds, rfl, rfl, rfl, nofun⟩
  next small =>
  rw [size, Nat.log2_two_pow] at small
  have logMin := bounds.logMin
  have logMax := bounds.logMax
  have pos : 0 < cache.sz := by rw [size]; exact Nat.two_pow_pos log
  have larger : Bounds logInitSz { cache with sz := cache.sz * 2, successive := 0 } :=
    { bounds with
      logMin := logMin
      logMax := logMax
      size := ⟨log + 1, by simp only [size, Nat.pow_succ], by simp only; omega, by simp only; omega⟩
      headHigh := by simp only; omega }
  exact ⟨larger, rfl, rfl, rfl, fun _ => by simp only; omega⟩

private theorem push_spec (room : cache.head + 1 < cache.sz) (info) :
    Bounds logInitSz (cache.push info) ∧ (cache.push info).cached.Perm (info :: cache.cached) := by
  have low := bounds.headLow
  have lrs := bounds.lrs
  have size := bounds.sz_le
  have length := bounds.room
  constructor
  · exact
      { bounds with
        room := by simp only [push, length_set]; exact length
        headLow := by simp only [push]; omega
        headHigh := room
        lrs := by simp only [push]; omega }
  · simp only [cached, push]
    have next : (cache.head + 1 + 1).toNat = (cache.head + 1).toNat + 1 := by omega
    rw [next, take_set_succ _ _ _ (by omega)]
    exact perm_append_singleton _ _

private theorem put_cases (info isReserved)
    (logRxPageCacheMult) (limit : logRxPageCacheMult ≤ pageCacheLogMaxRqMult) :
    ∃ grown : PageCache, Bounds logInitSz grown ∧ grown.pending = cache.pending ∧ grown.cached = cache.cached ∧
      (cache.put info isReserved logRxPageCacheMult = (grown, false) ∨ grown.head + 1 < grown.sz ∧
          cache.put info isReserved logRxPageCacheMult = (grown.push info, true)) := by
  obtain ⟨larger, pending, pageCache, head, room⟩ := extend_spec bounds logRxPageCacheMult limit
  have high := bounds.headHigh
  have sameCached : (cache.extend logRxPageCacheMult).1.cached = cache.cached := by
    simp [cached, pageCache, head]
  unfold put
  by_cases full : cache.head = (cache.sz : Int) - 1
  · refine ⟨(cache.extend logRxPageCacheMult).1, larger, pending, sameCached, ?_⟩
    rw [if_pos full]
    cases ok : (cache.extend logRxPageCacheMult).2 with
    | false => simp [ok]
    | true =>
      rw [← head] at room
      cases isReserved with
      | true => simp
      | false => exact .inr ⟨room ok, by simp [ok]⟩
  · refine ⟨cache, bounds, rfl, rfl, ?_⟩
    rw [if_neg full]
    cases isReserved with
    | true => simp
    | false => exact .inr ⟨by omega, by simp⟩

omit bounds in
private theorem nextLrs_lt (cache : PageCache) : (cache.nextLrs : Int) < cache.head ∨ cache.nextLrs = 0 := by
  unfold nextLrs
  split
  · exact .inr rfl
  · exact .inl (by omega)

theorem sample_spec (used : 0 ≤ cache.head) :
    Bounds logInitSz (cache.sample) ∧ cache.sample.cached.Perm cache.cached ∧
      ((cache.sample.lrs : Int) < cache.head ∨ cache.sample.lrs = 0) := by
  have low := bounds.headLow
  have lrs := bounds.lrs
  have inside := bounds.head_lt_length
  have next := nextLrs_lt cache
  refine ⟨?_, ?_, ?_⟩
  · exact
      { bounds with
        room := by simp only [sample, pageSwap, length_set]; exact bounds.room
        lrs := by simp only [sample, pageSwap]; omega }
  · simp only [cached, sample, pageSwap]
    exact swap_perm _ _ _ _ (by omega) (by omega) (by omega)
  · exact next

theorem pop_spec (used : 0 ≤ cache.head) (sampled : (cache.lrs : Int) < cache.head ∨ cache.lrs = 0) :
    Bounds logInitSz cache.dropHead ∧ cache.cached.Perm (cache.top :: cache.dropHead.cached) := by
  have high := bounds.headHigh
  have inside := bounds.head_lt_length
  constructor
  · exact
      { bounds with
        headLow := by simp only [dropHead]; omega
        headHigh := by simp only [dropHead]; omega
        lrs := by simp only [dropHead]; omega }
  · have above : (cache.head + 1).toNat = cache.head.toNat + 1 := by omega
    have below : cache.head - 1 + 1 = cache.head := by omega
    simp only [cached, top, dropHead, above, below]
    exact take_succ_perm _ _ (by omega)

omit bounds

end PageCache

namespace Rq

def places (rq : Rq) : List DmaInfo :=
  rq.lent.map Lent.info ++ if rq.freed then []
    else rq.cache.cached ++ if rq.reducePending then rq.cache.pending else []

structure LoanOk (pageShift : Nat) (pages : Pages) (loan : Lent) : Prop where
  few : loan.given ≤ pageRefThrsd pageShift
  enough : pageRefThrsd pageShift ≤ loan.info.refcntBias + loan.given
  held : pages.skbRefs loan.info.page ≤ loan.given

structure Inv (pageShift logInitSz : Nat) (rq : Rq) : Prop where
  shift : rq.pageShift = pageShift
  bounds : rq.cache.Bounds logInitSz
  ledger : Ledger pageShift rq.pages rq.places
  loans : ∀ loan ∈ rq.lent, LoanOk pageShift rq.pages loan

variable {pageShift logInitSz : Nat} {rq : Rq}

variable (inv : Inv pageShift logInitSz rq)

include inv

theorem checkReduce_inv (timeBefore) : Inv pageShift logInitSz (rq.checkReduce timeBefore).1 ∧
      ((rq.checkReduce timeBefore).2 = true → (rq.checkReduce timeBefore).1 = rq ∧
        rq.reducePending = false ∧ rq.cache.sz.log2 ≠ rq.cache.logMinSz) := by
  have watched : ∀ successive, Inv pageShift logInitSz
      { rq with cache := { rq.cache with successive := successive } } := fun successive =>
    { inv with
      bounds := ⟨inv.bounds.logMin, inv.bounds.logMax, inv.bounds.room, inv.bounds.size,
        inv.bounds.headLow, inv.bounds.headHigh, inv.bounds.lrs⟩ }
  unfold checkReduce
  dsimp only
  split
  · exact ⟨inv, nofun⟩
  next noPending =>
  split
  · exact ⟨inv, nofun⟩
  split
  · exact ⟨watched 0, nofun⟩
  split
  · exact ⟨watched 0, nofun⟩
  · next larger =>
    split
    · exact ⟨watched _, nofun⟩
    · exact ⟨inv, fun _ => ⟨rfl, by simpa using noPending, larger⟩⟩

omit inv in
private theorem exists_quarter (bounds : rq.cache.Bounds logInitSz) (least : 1 ≤ logInitSz)
    (larger : rq.cache.sz.log2 ≠ rq.cache.logMinSz) :
    ∃ quarter log, 0 < quarter ∧ rq.cache.sz = 4 * quarter ∧ 2 * quarter = 2 ^ log ∧
      rq.cache.logMinSz ≤ log ∧ log ≤ rq.cache.logMaxSz := by
  obtain ⟨log, size, lower, upper⟩ := bounds.size
  rw [size, Nat.log2_two_pow] at larger
  have logMin := bounds.logMin
  obtain ⟨low, isLog⟩ : ∃ low, log = low + 1 + 1 := ⟨log - 2, by omega⟩
  refine ⟨2 ^ low, low + 1, Nat.two_pow_pos low, ?_, ?_, by omega, by omega⟩
  · rw [size, isLog, Nat.pow_succ, Nat.pow_succ]; omega
  · rw [Nat.pow_succ]; omega

theorem reduce_inv (least : 1 ≤ logInitSz) (inUse : rq.freed = false) (noPending : rq.reducePending = false)
    (larger : rq.cache.sz.log2 ≠ rq.cache.logMinSz) :
    Inv pageShift logInitSz rq.reduce := by
  obtain ⟨quarter, log, pos, size, power, lower, upper⟩ := exists_quarter inv.bounds least larger
  have low := inv.bounds.headLow
  have high := inv.bounds.headHigh
  have lrs := inv.bounds.lrs
  have halved : rq.cache.sz / 2 = 2 * quarter := by omega
  have again : 2 * quarter / 2 = quarter := by omega
  have ledger := inv.ledger
  unfold reduce
  dsimp only
  rw [halved, again]
  split
  · next exceeded =>
    have split : rq.cache.cached = rq.cache.pageCache.take quarter ++
        (rq.cache.pageCache.drop quarter).take (rq.cache.head - (quarter - 1 : Int)).toNat := by
      rw [← take_add]
      simp only [PageCache.cached]
      congr 1
      omega
    have start : ((quarter : Int) - 1 + 1).toNat = quarter := by omega
    simp only [places, inUse, noPending, split] at ledger
    rw [start]
    exact
      { inv with
        bounds :=
          { logMin := inv.bounds.logMin
            logMax := inv.bounds.logMax
            room := inv.bounds.room
            size := ⟨log, power, lower, upper⟩
            headLow := by simp only; omega
            headHigh := by simp only; omega
            lrs := by
              simp only
              split <;> omega }
        ledger := by
          simp only [places, inUse, PageCache.cached, start]
          simpa using ledger }
  · next under =>
    exact
      { inv with
        bounds :=
          { logMin := inv.bounds.logMin
            logMax := inv.bounds.logMax
            room := inv.bounds.room
            size := ⟨log, power, lower, upper⟩
            headLow := low
            headHigh := by simp only; omega
            lrs := lrs }
        ledger := ledger }

theorem mayReduce_inv (least : 1 ≤ logInitSz) (inUse : rq.freed = false) (timeBefore) :
    Inv pageShift logInitSz (rq.mayReduce timeBefore) := by
  obtain ⟨checked, ready⟩ := checkReduce_inv inv timeBefore
  unfold mayReduce
  cases res : rq.checkReduce timeBefore with
  | mk next reduces =>
    rw [res] at checked ready
    cases reduces with
    | false => exact checked
    | true =>
      obtain ⟨same, noPending, larger⟩ := ready rfl
      dsimp only at same ⊢
      rw [same]
      exact reduce_inv inv least inUse noPending larger

omit inv in
def leavePages (pages : Pages) (info : DmaInfo) : Pages :=
  (pages.dmaUnmap info).putPage info

omit inv in
theorem ledger_leavePages {pages info rest} (ledger : Ledger pageShift pages (info :: rest)) :
    Ledger pageShift (leavePages pages info) rest :=
  ledger.leave _ rfl rfl rfl rfl rfl (fun _ other => if_neg other)

omit inv in
private theorem ledger_recycleDirect {pages info rest} (ledger : Ledger pageShift pages (info :: rest)) :
    Ledger pageShift ((pages.dmaUnmap info).recycleDirect info) rest :=
  ledger.leave _ rfl rfl rfl rfl rfl (fun _ other => if_neg other)

omit inv in
theorem releaseAll_eq (rq : Rq) (infos : List DmaInfo) :
    rq.releaseAll infos = { rq with pages := infos.foldl leavePages rq.pages } := by
  induction infos generalizing rq with
  | nil => rfl
  | cons info rest ih => exact ih _

omit inv in
theorem skbRefs_foldl_leavePages (pages : Pages) (infos : List DmaInfo) :
    (infos.foldl leavePages pages).skbRefs = pages.skbRefs := by
  induction infos generalizing pages with
  | nil => rfl
  | cons info rest ih => exact ih _

omit inv in
theorem ledger_foldl_leavePages (infos rest pages) (ledger : Ledger pageShift pages (infos ++ rest)) :
    Ledger pageShift (infos.foldl leavePages pages) rest := by
  induction infos generalizing pages with
  | nil => exact ledger
  | cons info others ih => exact ih _ (ledger_leavePages ledger)

omit inv in
theorem LoanOk.of_skbRefs {pages next loan} (ok : LoanOk pageShift pages loan)
    (skbRefs : next.skbRefs loan.info.page ≤ pages.skbRefs loan.info.page) :
    LoanOk pageShift next loan :=
  ⟨ok.few, ok.enough, le_trans skbRefs ok.held⟩

theorem reduceCleanPending_inv (inUse : rq.freed = false) : Inv pageShift logInitSz rq.reduceCleanPending := by
  unfold reduceCleanPending
  split
  · next pending =>
    rw [releaseAll_eq]
    refine ⟨inv.shift, inv.bounds, ?_, ?_⟩
    · refine ledger_foldl_leavePages rq.cache.pending _ rq.pages (inv.ledger.perm ?_)
      simp only [places, inUse, pending, if_true, false_eq_true, if_false, append_nil]
      rw [← append_assoc]
      exact perm_append_comm
    · intro loan mem
      exact (inv.loans loan mem).of_skbRefs (by rw [skbRefs_foldl_leavePages])
  · exact inv

omit inv in
private theorem reduceCleanPending_fields (rq : Rq) :
    rq.reduceCleanPending.reducePending = false ∧ rq.reduceCleanPending.freed = rq.freed := by
  unfold reduceCleanPending
  split
  · rw [releaseAll_eq]
    exact ⟨rfl, rfl⟩
  · next noPending => exact ⟨by simpa using noPending, rfl⟩

theorem freePageCache_inv (inUse : rq.freed = false) : Inv pageShift logInitSz rq.freePageCache := by
  have cleaned := reduceCleanPending_inv inv inUse
  obtain ⟨noPending, sameFreed⟩ := reduceCleanPending_fields rq
  unfold freePageCache
  dsimp only
  rw [releaseAll_eq]
  refine ⟨cleaned.shift, cleaned.bounds, ?_, ?_⟩
  · refine ledger_foldl_leavePages rq.reduceCleanPending.cache.cached _ _ (cleaned.ledger.perm ?_)
    simp only [places, sameFreed, inUse, noPending, if_true, false_eq_true, if_false, append_nil]
    exact perm_append_comm
  · intro loan mem
    exact (cleaned.loans loan mem).of_skbRefs (by rw [skbRefs_foldl_leavePages])

omit inv in
theorem pageReleaseDynamic_inv (shift : rq.pageShift = pageShift) (bounds : rq.cache.Bounds logInitSz)
    {info} (ledger : Ledger pageShift rq.pages (info :: rq.places))
    (loans : ∀ loan ∈ rq.lent, LoanOk pageShift rq.pages loan) (inUse : rq.freed = false)
    (recycle isReserved logRxPageCacheMult)
    (limit : logRxPageCacheMult ≤ pageCacheLogMaxRqMult) :
    Inv pageShift logInitSz (rq.pageReleaseDynamic info recycle isReserved logRxPageCacheMult) := by
  unfold pageReleaseDynamic
  cases recycle with
  | false =>
    rw [if_neg Bool.false_ne_true]
    exact ⟨shift, bounds, ledger_leavePages ledger,
      fun loan member => (loans loan member).of_skbRefs (le_refl _)⟩
  | true =>
    rw [if_pos rfl]
    obtain ⟨grown, grownBounds, pending, cached, refused | ⟨room, pushed⟩⟩ :=
      PageCache.put_cases bounds info isReserved logRxPageCacheMult limit
    · rw [refused]
      refine ⟨shift, grownBounds, ?_, fun loan member => (loans loan member).of_skbRefs (le_refl _)⟩
      simp only [places, pending, cached]
      exact ledger_recycleDirect ledger
    rw [pushed]
    obtain ⟨pushedBounds, perm⟩ := PageCache.push_spec grownBounds room info
    rw [cached] at perm
    refine ⟨shift, pushedBounds, ledger.perm ?_, loans⟩
    have samePending : (grown.push info).pending = rq.cache.pending := pending
    simp only [places, inUse, samePending, false_eq_true, if_false]
    refine perm_middle.symm.trans ?_
    exact (perm.symm.append_right _).append_left _

omit inv in
theorem places_perm_of_mem (loan) (member : loan ∈ rq.lent) :
    rq.places.Perm (loan.info :: ({ rq with lent := rq.lent.erase loan } : Rq).places) := by
  have perm := (perm_cons_erase member).map Lent.info
  exact perm.append_right _

theorem release_inv (inUse : rq.freed = false) (loan)
    (mem : loan ∈ rq.lent) (recycle isReserved logRxPageCacheMult)
    (limit : logRxPageCacheMult ≤ pageCacheLogMaxRqMult) :
    Inv pageShift logInitSz (rq.release loan recycle isReserved logRxPageCacheMult) := by
  have ledger := inv.ledger.perm (places_perm_of_mem loan mem)
  have loans other (inRest : other ∈ rq.lent.erase loan) : LoanOk pageShift rq.pages other :=
      inv.loans other (mem_of_mem_erase inRest)
  refine pageReleaseDynamic_inv ?_ ?_ ?_ ?_ ?_ recycle isReserved logRxPageCacheMult limit
  · exact inv.shift
  · exact inv.bounds
  · exact ledger
  · exact loans
  · exact inUse

omit inv in
theorem thrsd_add_elev_lt (small : pageShift ≤ maxPageShift) : pageRefThrsd pageShift ≤ pageRefElevation ∧
      pageRefThrsd pageShift + pageRefElevation < 2 ^ 32 := by
  have power : 2 ^ pageShift ≤ 2 ^ 18 := Nat.pow_le_pow_right (by omega) small
  simp only [pageRefThrsd, pageRefElevation]
  omega

omit inv in
private theorem biasDec_eq (info) (pos : 0 < info.refcntBias) : (biasDec info).refcntBias = info.refcntBias - 1 :=
  if_neg (by omega)

theorem giveRef_inv (loan) (mem : loan ∈ rq.lent) (few : loan.given < pageRefThrsd rq.pageShift) :
    Inv pageShift logInitSz (rq.giveRef loan) := by
  have ok := inv.loans loan mem
  have ledger := inv.ledger.perm (places_perm_of_mem loan mem)
  have counted := ledger.counted loan.info (.head _)
  have bounded := ledger.bounded loan.info (.head _)
  have apart := ledger.apart
  have enough := ok.enough
  have held := ok.held
  rw [inv.shift] at few
  have dec := biasDec_eq loan.info (by omega)
  refine ⟨inv.shift, inv.bounds, ?_, ?_⟩
  · refine ledger.recount _ (biasDec loan.info) rfl rfl rfl rfl rfl (fun _ _ => rfl)
      (fun _ other => if_neg other) ?_ ?_ ?_
    · simp only [giveRef, Pages.setSkbRefs, if_true, dec]; omega
    · rw [dec]; omega
    · simp only [giveRef, Pages.setSkbRefs, if_true]; omega
  intro other inLent
  rcases mem_cons.mp inLent with rfl | inRest
  · refine ⟨by simp only; omega, by simp only [dec]; omega, ?_⟩
    simp only [giveRef, Pages.setSkbRefs, biasDec, if_true]
    omega
  · refine (inv.loans other (mem_of_mem_erase inRest)).of_skbRefs ?_
    have different := apart other.info (mem_append_left _ (mem_map_of_mem inRest))
    simp only [giveRef, Pages.setSkbRefs, if_neg different, le_refl]

theorem skbFree_inv (page)
    (holds : 0 < rq.pages.skbRefs page) : Inv pageShift logInitSz (rq.skbFree page) := by
  refine ⟨inv.shift, inv.bounds, inv.ledger.skbPut page holds, ?_⟩
  intro loan mem
  refine (inv.loans loan mem).of_skbRefs ?_
  simp only [skbFree, Pages.setSkbRefs]
  split
  · next same => rw [same]; exact Nat.sub_le _ _
  · exact le_refl _

/-! #### Allocation -/

theorem sample_inv (inUse : rq.freed = false)
    (used : 0 ≤ rq.cache.head) : Inv pageShift logInitSz rq.sample := by
  obtain ⟨bounds, perm, -⟩ := PageCache.sample_spec inv.bounds used
  refine ⟨inv.shift, bounds, inv.ledger.perm ?_, inv.loans⟩
  simp only [places, sample, inUse, false_eq_true, if_false]
  exact (perm.symm.append_right _).append_left _

omit inv

variable (small : pageShift ≤ maxPageShift)

include small

private theorem not_busy_iff {pages places} (ledger : Ledger pageShift pages places) {info} (mem : info ∈ places) :
    (pages.pageRef info.page + (2 ^ 32 - info.refcntBias)) % 2 ^ 32 = 1 ↔ pages.skbRefs info.page = 0 := by
  have counted := ledger.counted info mem
  have bounded := ledger.bounded info mem
  have held := ledger.held info mem
  obtain ⟨thrsd, width⟩ := thrsd_add_elev_lt small
  have elevation : pageRefElevation = 65535 := rfl
  omega

omit small in
theorem refElev_snd (pages : Pages) (info : DmaInfo) (width : info.refcntBias + pageRefElevation < 2 ^ 32) :
    (pages.refElev info).2 = ⟨info.page, info.refcntBias + pageRefElevation⟩ := by
  unfold Pages.refElev
  simp only [Nat.mod_eq_of_lt width]

omit small in
theorem lend_inv (shift : rq.pageShift = pageShift) (bounds : rq.cache.Bounds logInitSz)
    (loans : ∀ loan ∈ rq.lent, LoanOk pageShift rq.pages loan) {info}
    (ledger : Ledger pageShift rq.pages (info :: rq.places)) (enough : pageRefThrsd pageShift ≤ info.refcntBias)
    (idle : rq.pages.skbRefs info.page = 0) : Inv pageShift logInitSz (rq.lend info) := by
  refine ⟨shift, bounds, ledger, ?_⟩
  intro loan member
  rcases mem_cons.mp member with rfl | old
  · exact ⟨Nat.zero_le _, enough, le_of_eq idle⟩
  · exact loans loan old

theorem pop_inv (inv : Inv pageShift logInitSz rq) (inUse : rq.freed = false) (used : 0 ≤ rq.cache.head)
    (sampled : (rq.cache.lrs : Int) < rq.cache.head ∨ rq.cache.lrs = 0)
    (idle : rq.pageBusy rq.cache.head.toNat = false) :
    Inv pageShift logInitSz (rq.pop.1.lend rq.pop.2) ∧ rq.pop.2.page = rq.cache.top.page ∧
      rq.pages.skbRefs rq.cache.top.page = 0 := by
  obtain ⟨bounds, perm⟩ := PageCache.pop_spec inv.bounds used sampled
  obtain ⟨thrsd, width⟩ := thrsd_add_elev_lt small
  have ledger : Ledger pageShift rq.pages
      (rq.cache.top :: ({ rq with cache := rq.cache.dropHead } : Rq).places) := by
    refine inv.ledger.perm ?_
    simp only [places, inUse, false_eq_true, if_false]
    refine ((perm.append_right _).append_left _).trans ?_
    exact perm_middle
  have free : rq.pages.skbRefs rq.cache.top.page = 0 := by
    rw [← not_busy_iff small ledger (.head _)]
    simpa [pageBusy, PageCache.top] using idle
  have counted := ledger.counted _ (.head _)
  have bounded := ledger.bounded _ (.head _)
  have elevated : rq.cache.top.refcntBias + pageRefElevation < 2 ^ 32 := by
    have elevation : pageRefElevation = 65535 := rfl
    omega
  have samePage : ((rq.pages.refElev rq.cache.top).2).page = rq.cache.top.page := by
    rw [refElev_snd _ _ elevated]
  rw [free] at counted
  unfold pop
  dsimp only
  split
  · next few =>
    rw [inv.shift] at few
    have enough : pageRefThrsd pageShift ≤ rq.cache.top.refcntBias + pageRefElevation := by omega
    have upper : rq.cache.top.refcntBias + pageRefElevation ≤
        pageRefThrsd pageShift + pageRefElevation := by omega
    have raised : (rq.pages.refElev rq.cache.top).1.pageRef rq.cache.top.page =
        1 + (rq.cache.top.refcntBias + pageRefElevation) +
          (rq.pages.refElev rq.cache.top).1.skbRefs rq.cache.top.page := by
      have sum : (rq.pages.refElev rq.cache.top).1.pageRef rq.cache.top.page =
        rq.pages.pageRef rq.cache.top.page + pageRefElevation := if_pos rfl
      have same : (rq.pages.refElev rq.cache.top).1.skbRefs rq.cache.top.page = 0 := free
      omega
    refine ⟨?_, samePage, free⟩
    rw [refElev_snd _ _ elevated]
    refine lend_inv ?_ ?_ ?_ ?_ ?_ ?_
    · exact inv.shift
    · exact bounds
    · exact fun loan mem => (inv.loans loan mem).of_skbRefs (le_refl _)
    · exact ledger.recount _ _ rfl rfl rfl rfl rfl (fun _ other => if_neg other)
        (fun _ _ => rfl) raised upper (le_of_eq_of_le free (Nat.zero_le _))
    · exact enough
    · exact free
  · next many =>
    rw [inv.shift] at many
    have enough : pageRefThrsd pageShift ≤ rq.cache.top.refcntBias := by omega
    refine ⟨lend_inv ?_ ?_ ?_ ?_ ?_ ?_, rfl, free⟩
    · exact inv.shift
    · exact bounds
    · exact inv.loans
    · exact ledger
    · exact enough
    · exact free

omit small in
private theorem count_one (page other : Nat) : [page].count other = if other = page then 1 else 0 := by
  split_ifs with same
  · rw [same, count_singleton_self]
  · rw [count_eq_zero, mem_singleton]
    exact same

theorem allocNew_inv (inv : Inv pageShift logInitSz rq) (noPage mapFails) :
    Inv pageShift logInitSz (match rq.allocNew noPage mapFails with
      | (next, some info) => next.lend info
      | (next, none) => next) := by
  obtain ⟨thrsd, width⟩ := thrsd_add_elev_lt small
  have elevated : (⟨rq.pages.nextPage, 0⟩ : DmaInfo).refcntBias + pageRefElevation < 2 ^ 32 := by
    have elevation : pageRefElevation = 65535 := rfl
    simp only
    omega
  unfold allocNew
  cases noPage with
  | true => exact inv
  | false =>
    have others page (other : page ≠ rq.pages.nextPage) : (rq.pages.devAllocPages.refElev
        ⟨rq.pages.nextPage, 0⟩).1.pageRef page = rq.pages.pageRef page := by
      simp only [Pages.refElev, Pages.devAllocPages, Pages.setPageRef, if_neg other]
    have first : (rq.pages.devAllocPages.refElev ⟨rq.pages.nextPage, 0⟩).1.pageRef
        rq.pages.nextPage = 1 + pageRefElevation := by
      simp only [Pages.refElev, Pages.devAllocPages, Pages.setPageRef, if_true]
    simp only [false_eq_true, if_false, refElev_snd _ _ elevated]
    cases mapFails with
    | true =>
      simp only [if_true]
      refine ⟨inv.shift, inv.bounds, ?_, ?_⟩
      · refine inv.ledger.take ((rq.pages.devAllocPages.refElev ⟨rq.pages.nextPage, 0⟩).1
          |>.recycleDirect ⟨rq.pages.nextPage, 0 + pageRefElevation⟩) rfl rfl ?_ rfl [] []
          [rq.pages.nextPage] rfl rfl rfl ?_ ?_
        · intro page other
          refine Eq.trans ?_ (others page other)
          simp only [Pages.recycleDirect, Pages.setPageRef, if_neg other]
        · intro page
          rw [count_nil, zero_add, count_one]
        · intro info mem
          cases mem
      · intro loan mem
        exact (inv.loans loan mem).of_skbRefs (le_refl _)
    | false =>
      simp only [false_eq_true, if_false]
      refine lend_inv ?_ ?_ ?_ ?_ ?_ ?_
      · exact inv.shift
      · exact inv.bounds
      · exact fun loan mem => (inv.loans loan mem).of_skbRefs (le_refl _)
      · refine inv.ledger.take ((rq.pages.devAllocPages.refElev ⟨rq.pages.nextPage, 0⟩).1
          |>.dmaMap ⟨rq.pages.nextPage, 0 + pageRefElevation⟩) rfl rfl others rfl
          [⟨rq.pages.nextPage, 0 + pageRefElevation⟩] [rq.pages.nextPage] [] rfl rfl rfl ?_ ?_
        · intro page
          rw [count_nil, add_zero, count_one]
        · intro info mem
          rw [mem_singleton.mp mem]
          refine ⟨rfl, ?_, ?_⟩
          · rw [zero_add]; exact first
          · rw [zero_add]; exact Nat.le_add_left _ _
      · rw [zero_add]; exact thrsd
      · exact inv.ledger.unused _ (le_refl _)

theorem cacheGet_cases (inv : Inv pageShift logInitSz rq) (inUse : rq.freed = false) :
    (∃ next, rq.cacheGet = (next, none) ∧ Inv pageShift logInitSz next) ∨
      ∃ next info, rq.cacheGet = (next, some info) ∧ Inv pageShift logInitSz (next.lend info) ∧
        info.page ∈ rq.cache.cached.map DmaInfo.page ∧ rq.pages.skbRefs info.page = 0 := by
  have watched : ∀ other, Inv pageShift logInitSz other → Inv pageShift logInitSz
      { other with cache := { other.cache with successive := 0 } } := fun other ok =>
    ⟨ok.shift, ⟨ok.bounds.logMin, ok.bounds.logMax, ok.bounds.room, ok.bounds.size,
      ok.bounds.headLow, ok.bounds.headHigh, ok.bounds.lrs⟩, ok.ledger, ok.loans⟩
  unfold cacheGet
  dsimp only
  split
  · exact .inl ⟨_, rfl, watched rq inv⟩
  have used : 0 ≤ rq.cache.head := by omega
  have sampled := sample_inv inv inUse used
  obtain ⟨-, perm, lrs⟩ := PageCache.sample_spec inv.bounds used
  cases busy : rq.sample.pageBusy rq.sample.cache.head.toNat with
  | true =>
    rw [if_pos rfl]
    exact .inl ⟨_, rfl, watched rq.sample sampled⟩
  | false =>
    rw [if_neg Bool.false_ne_true]
    obtain ⟨popped, samePage, free⟩ := pop_inv small sampled inUse used lrs busy
    refine Or.inr ⟨_, _, rfl, popped, ?_, ?_⟩
    · rw [samePage]
      obtain ⟨-, split⟩ := PageCache.pop_spec sampled.bounds used lrs
      exact mem_map_of_mem ((split.symm.trans perm).mem_iff.mp (.head _))
    · rw [samePage]
      exact free

theorem alloc_inv (inv : Inv pageShift logInitSz rq) (inUse : rq.freed = false) (noPage mapFails) :
    Inv pageShift logInitSz (rq.alloc noPage mapFails) := by
  unfold alloc pageAllocPool
  obtain ⟨next, none, ok⟩ | ⟨next, info, some, ok, -⟩ := cacheGet_cases small inv inUse
  · rw [none]
    exact allocNew_inv small ok noPage mapFails
  · rw [some]
    exact ok

omit small in
theorem init_inv (pageShift logInitSz) : Inv pageShift logInitSz (init pageShift logInitSz) where
  shift := rfl
  bounds :=
    { logMin := rfl
      logMax := rfl
      room := length_replicate
      size := ⟨logInitSz, rfl, le_refl _, Nat.le_add_right _ _⟩
      headLow := le_refl _
      headHigh := by
        have pos : (0 : Int) ≤ (2 ^ logInitSz : Nat) := Int.natCast_nonneg _
        simp only [init, PageCache.alloc]
        omega
      lrs := le_max_right _ _ }
  ledger := by
    have empty : (init pageShift logInitSz).places = [] := rfl
    rw [empty]
    exact
      { mapping _ := rfl
        pool _ := rfl
        mappedOnce _ := le_refl _
        counted _ member := by cases member
        bounded _ member := by cases member
        held _ member := by cases member
        unused _ _ := rfl }
  loans _ member := by cases member

theorem step_inv (least : 1 ≤ logInitSz) {next} (inv : Inv pageShift logInitSz rq) (step : RqStep rq next) :
    Inv pageShift logInitSz next := by
  cases step with
  | alloc noPage mapFails inUse => exact alloc_inv small inv inUse noPage mapFails
  | giveRef loan lent few => exact giveRef_inv inv loan lent few
  | skbFree page holds => exact skbFree_inv inv page holds
  | release loan recycle isReserved mult inUse lent limit =>
    exact release_inv inv inUse loan lent recycle isReserved mult limit
  | mayReduce timeBefore inUse => exact mayReduce_inv inv least inUse timeBefore
  | reduceWork inUse => exact reduceCleanPending_inv inv inUse
  | free inUse => exact freePageCache_inv inv inUse

theorem reachable_inv (least : 1 ≤ logInitSz)
    (reachable : RqReachable pageShift logInitSz rq) : Inv pageShift logInitSz rq := by
  induction reachable with
  | refl => exact init_inv pageShift logInitSz
  | tail _ step inv => exact step_inv small least inv step

omit small

end Rq

/-- In every reachable state the stack is inside its array; pages from the pool are in one place or were
given back once, mapped ones in one place or unmapped once; the counters of a page in a place agree; a loan
never runs out of bias; and the cache gives only pages without an skb. -/
theorem page_cache_exact (pageShift logInitSz : Nat) (small : pageShift ≤ maxPageShift)
    (least : 1 ≤ logInitSz) (rq : Rq) (reachable : RqReachable pageShift logInitSz rq) :
    (-1 ≤ rq.cache.head ∧ rq.cache.head < rq.cache.sz ∧ rq.cache.sz ≤ 2 ^ rq.cache.logMaxSz ∧
      (rq.cache.lrs : Int) ≤ max rq.cache.head 0) ∧
    (∀ page, (rq.places.map DmaInfo.page).count page + rq.pages.released.count page =
      if page < rq.pages.nextPage then 1 else 0) ∧
    (∀ page, (rq.places.map DmaInfo.page).count page + rq.pages.unmapped.count page =
      rq.pages.mapped.count page ∧ rq.pages.mapped.count page ≤ 1) ∧
    (∀ info ∈ rq.places, rq.pages.pageRef info.page = 1 + info.refcntBias + rq.pages.skbRefs info.page) ∧
    (∀ loan ∈ rq.lent, loan.given < pageRefThrsd pageShift → 0 < loan.info.refcntBias) ∧
    (∀ next info, rq.freed = false → rq.cacheGet = (next, some info) →
      info.page ∈ rq.cache.cached.map DmaInfo.page ∧ rq.pages.skbRefs info.page = 0) ∧
    (rq.freed = true → rq.lent = [] → ∀ page < rq.pages.nextPage, rq.pages.released.count page = 1 ∧
        rq.pages.unmapped.count page = rq.pages.mapped.count page) := by
  have inv := Rq.reachable_inv small least reachable
  have bounds := inv.bounds
  refine ⟨⟨bounds.headLow, bounds.headHigh, bounds.sz_le, bounds.lrs⟩, inv.ledger.pool, ?_,
    inv.ledger.counted, ?_, ?_, ?_⟩
  · intro page
    have once := inv.ledger.mappedOnce page
    refine ⟨inv.ledger.mapping page, ?_⟩
    split at once <;> omega
  · intro loan member few
    have enough := (inv.loans loan member).enough
    omega
  · intro next info inUse given
    obtain ⟨other, none, -⟩ | ⟨other, got, some, -, cached, free⟩ :=
      Rq.cacheGet_cases small inv inUse
    · rw [none] at given
      cases given
    · rw [some] at given
      cases given
      exact ⟨cached, free⟩
  · intro freed nothing page taken
    have pool := inv.ledger.pool page
    have mapping := inv.ledger.mapping page
    have noPlace : rq.places = [] := by simp [Rq.places, freed, nothing]
    rw [noPlace] at pool mapping
    rw [if_pos taken] at pool
    simp only [map_nil, count_nil, zero_add] at pool mapping
    exact ⟨pool, mapping⟩

/-- A page that is mapped, recycled and lent again, with all its references. -/
theorem page_cache_exact_reuse : ∃ rq : Rq, RqReachable 12 1 rq ∧ rq.lent = [⟨⟨0, pageRefElevation⟩, 0⟩] ∧
      rq.pages.pageRef 0 = 1 + pageRefElevation + rq.pages.skbRefs 0 := by
  have first : RqStep (Rq.init 12 1) ((Rq.init 12 1).alloc false false) := .alloc _ _ _ rfl
  have second := RqStep.release ((Rq.init 12 1).alloc false false) ⟨⟨0, pageRefElevation⟩, 0⟩
    true false 4 rfl (by decide) (by decide)
  have third := RqStep.alloc (((Rq.init 12 1).alloc false false).release
    ⟨⟨0, pageRefElevation⟩, 0⟩ true false 4) false false rfl
  have reachable := ((Relation.ReflTransGen.single first).tail second).tail third
  have exact := page_cache_exact 12 1 (by decide) (by decide) _ reachable
  exact ⟨_, reachable, by decide, exact.2.2.2.1 ⟨0, pageRefElevation⟩ (by decide)⟩

end MlnxOfed.Ethernet
