/-
Whole requests for pages: giving, undone where it fails, reclaiming what an answer names, and releasing all
pages of a function, followed by a list of the chunks firmware holds.
-/

import MlnxOfed.PageAlloc.FwChunks

namespace MlnxOfed.PageAlloc

open Option List Function Lib PageDev SearchTree

variable {config : PageConfig} {dev : PageDev}

/-! ### System pages -/

/-- Pages have page aligned addresses of their own, not 0, and a new `struct fw_page` is none in use. -/
structure Fresh (config : PageConfig) (dev : PageDev) (memory : List SystemPage) : Prop where
  mapped : ∀ page ∈ memory, ∀ addr, some addr ∈ page.maps →
    addr ≠ 0 ∧ addr % 2 ^ config.pageShift = 0 ∧ addr < 2 ^ 64 ∧
      ∀ function, ∀ fp ∈ dev.live function, dev.addr fp ≠ addr
  nodes : ∀ page ∈ memory, ∀ fp, page.node = some fp → ∀ function, fp ∉ dev.live function
  apart : memory.Pairwise fun before after =>
    (∀ addr, some addr ∈ before.maps → some addr ∉ after.maps) ∧
      ∀ fp, before.node = some fp → after.node ≠ some fp

structure SamePages (dev other : PageDev) : Prop where
  live : other.live = dev.live
  page : other.page = dev.page
  freeList : other.freeList = dev.freeList
  counters : SameCounters dev other

theorem SamePages.refl (dev) : SamePages dev dev := ⟨rfl, rfl, rfl, ⟨rfl, rfl, rfl⟩⟩

variable {other : PageDev}

theorem SamePages.outstanding (same : SamePages dev other) {fn addr} :
    Outstanding config other fn addr ↔ Outstanding config dev fn addr := by
  unfold Outstanding PageDev.addr
  rw [same.live, same.page]

theorem PageDev.Sound.of_live (sound : dev.Sound config) (live : other.live = dev.live)
    (page : other.page = dev.page) (freeList : other.freeList = dev.freeList) : other.Sound config := by
  cases other
  cases page
  cases freeList
  constructor
  case sorted =>
    intro function root isRoot
    have values : root.toList = dev.live function := by
      rw [← live]
      unfold PageDev.live
      rw [isRoot]
      rfl
    rw [values]
    unfold PageDev.live
    cases before : dev.pageRoot function with
    | none => exact .nil
    | some old => exact sound.sorted function old before
  case nodup => exact sound.nodup
  all_goals rw [live]
  case function => exact sound.function
  case distinct => exact sound.distinct
  case aligned => exact sound.aligned
  case listed => exact sound.listed
  case counted => exact sound.counted

theorem PageDev.Sound.of_same (sound : dev.Sound config) (same : SamePages dev other) : other.Sound config :=
  sound.of_live same.live same.page same.freeList

private theorem pageRootPerFunction_same (memory fn) : SamePages dev (pageRootPerFunction dev memory fn).1 := by
  unfold pageRootPerFunction
  cases known : dev.pageRoot fn with
  | some root => exact SamePages.refl dev
  | none =>
    simp only
    split
    · refine ⟨?_, rfl, rfl, rfl, rfl, rfl⟩
      funext asked
      unfold live
      by_cases here : asked = fn
      · subst here
        simp only [update_self, known]
        rfl
      · simp [update_of_ne here]
    · exact SamePages.refl dev

private theorem pageRootPerFunction_root {memory fn root}
    (given : (pageRootPerFunction dev memory fn).2 = some root) :
    (pageRootPerFunction dev memory fn).1.pageRoot fn = some root := by
  unfold pageRootPerFunction at given ⊢
  cases known : dev.pageRoot fn with
  | some old =>
    simp only [known] at given ⊢
    exact given
  | none =>
    simp only [known] at given ⊢
    split at given
    · rename_i isMemory
      simp only [isMemory, if_true, update_self]
      exact given
    · exact absurd given (by simp)

/-- What a new page does: nothing but being there, free and first on the list. -/
structure Inserted (config : PageConfig) (function addr fp : Nat) (dev after : PageDev) : Prop where
  sound : after.Sound config
  absent : ∀ asked, fp ∉ dev.live asked
  live : ∀ asked found, found ∈ after.live asked ↔ asked = function ∧ found = fp ∨ found ∈ dev.live asked
  new : after.page fp = newFwPage config addr function
  page : ∀ found, found ≠ fp → after.page found = dev.page found
  freeList : after.freeList = fp :: dev.freeList
  counters : SameCounters dev after

variable {after : PageDev} {function addr fp : Nat}

variable (inserted : Inserted config function addr fp dev after)

include inserted

theorem Inserted.addr_other {found} (apart : found ≠ fp) : after.addr found = dev.addr found :=
  congrArg FwPage.addr (inserted.page found apart)

theorem Inserted.addr_new : after.addr fp = addr := congrArg FwPage.addr inserted.new

theorem Inserted.outstanding {asked chunk} :
    Outstanding config after asked chunk ↔ Outstanding config dev asked chunk := by
  constructor
  · rintro ⟨found, isLive, n, bound, clear, rfl⟩
    rcases (inserted.live asked found).mp isLive with ⟨-, rfl⟩ | old
    · rw [inserted.new, newFwPage_testBit, decide_eq_true bound] at clear
      exact absurd clear (by decide)
    have apart : found ≠ fp := by
      rintro rfl
      exact inserted.absent asked old
    rw [inserted.page found apart] at clear
    rw [inserted.addr_other apart]
    exact ⟨found, old, n, bound, clear, rfl⟩
  rintro ⟨found, old, n, bound, clear, rfl⟩
  have apart : found ≠ fp := by
    rintro rfl
    exact inserted.absent asked old
  refine ⟨found, (inserted.live asked found).mpr (.inr old), n, bound, ?_, ?_⟩
  · rw [inserted.page found apart]
    exact clear
  · rw [inserted.addr_other apart]

omit inserted

private theorem insertPage_sound (sound : dev.Sound config) {root}
    (isRoot : dev.pageRoot function = some root) (missing : root.search dev.addr addr = none)
    (aligned : addr % 2 ^ config.pageShift = 0)
    (unused : ∀ asked, ∀ found ∈ dev.live asked, dev.addr found ≠ addr)
    (absent : ∀ asked, fp ∉ dev.live asked) :
    Inserted config function addr fp dev
      { dev with
        page := update dev.page fp (newFwPage config addr function)
        pageRoot := update dev.pageRoot function
          (some (config.balance.insertColor (root.link dev.addr addr fp)))
        freeList := fp :: dev.freeList } := by
  generalize afterIs : mk _ _ _ _ _ _ = after
  have new : after.page fp = newFwPage config addr function := by
    rw [← afterIs]
    exact update_self ..
  have page (found : Nat) (apart : found ≠ fp) : after.page found = dev.page found := by
    rw [← afterIs]
    exact update_of_ne apart ..
  have newAddr : after.addr fp = addr := congrArg FwPage.addr new
  have sameAddr (found : Nat) (apart : found ≠ fp) : after.addr found = dev.addr found :=
    congrArg FwPage.addr (page found apart)
  have inTree : dev.live function = root.toList := by
    unfold live
    rw [isRoot]
    rfl
  have values : root.toList ⊆ dev.live function := by
    rw [inTree]
    exact fun _ => id
  have keys found (mem : found ∈ root.toList) : dev.addr found = after.addr found := by
    refine (sameAddr found ?_).symm
    rintro rfl
    exact absent function (values mem)
  have newRoot : after.pageRoot function =
      some (config.balance.insertColor (root.link dev.addr addr fp)) := by
    rw [← afterIs]
    exact update_self ..
  have otherRoot (asked : Nat) (apart : asked ≠ function) :
      after.pageRoot asked = dev.pageRoot asked := by
    rw [← afterIs]
    exact update_of_ne apart ..
  have live (asked found : Nat) : found ∈ after.live asked ↔
      asked = function ∧ found = fp ∨ found ∈ dev.live asked := by
    by_cases here : asked = function
    · subst here
      rw [inTree]
      unfold live
      rw [newRoot, map_some, getD_some, config.balance.insertColor_toList, link_mem missing]
      simp
    · unfold live
      rw [otherRoot asked here]
      simp [here]
  have apartOf {asked found : Nat} (old : found ∈ dev.live asked) : found ≠ fp := by
    rintro rfl
    exact absent asked old
  have freeList : after.freeList = fp :: dev.freeList := by rw [← afterIs]
  have sound' : after.Sound config := by
    constructor
    case sorted =>
      intro asked found isFound
      by_cases here : asked = function
      · subst here
        rw [newRoot] at isFound
        obtain rfl := some.inj isFound
        rw [config.balance.insertColor_toList, (search_link_congr keys _).2, ← newAddr]
        apply link_sorted
        · refine List.Pairwise.imp_of_mem ?_ (sound.sorted asked root isRoot)
          intro before later beforeIn laterIn less
          rw [← keys before beforeIn, ← keys later laterIn]
          exact less
        · rw [← (search_link_congr keys _).1, newAddr]
          exact missing
      · rw [otherRoot asked here] at isFound
        refine List.Pairwise.imp_of_mem ?_ (sound.sorted asked found isFound)
        intro before later beforeIn laterIn less
        rw [sameAddr before (apartOf (mem_live.mpr ⟨found, isFound, beforeIn⟩)),
          sameAddr later (apartOf (mem_live.mpr ⟨found, isFound, laterIn⟩))]
        exact less
    case function =>
      intro asked found isLive
      rcases (live asked found).mp isLive with ⟨rfl, rfl⟩ | old
      · rw [new]
        rfl
      · rw [page found (apartOf old)]
        exact sound.function asked found old
    case distinct =>
      intro left right found isLive other otherLive same
      rcases (live left found).mp isLive with ⟨-, rfl⟩ | old
      · rcases (live right other).mp otherLive with ⟨-, rfl⟩ | otherOld
        · rfl
        · rw [newAddr, sameAddr other (apartOf otherOld)] at same
          exact absurd same.symm (unused right other otherOld)
      · rcases (live right other).mp otherLive with ⟨-, rfl⟩ | otherOld
        · rw [newAddr, sameAddr found (apartOf old)] at same
          exact absurd same (unused left found old)
        · rw [sameAddr found (apartOf old), sameAddr other (apartOf otherOld)] at same
          exact sound.distinct left right found old other otherOld same
    case aligned =>
      intro asked found isLive
      rcases (live asked found).mp isLive with ⟨-, rfl⟩ | old
      · rw [newAddr]
        exact aligned
      · rw [sameAddr found (apartOf old)]
        exact sound.aligned asked found old
    case nodup =>
      rw [freeList, nodup_cons]
      refine ⟨?_, sound.nodup⟩
      intro listed
      obtain ⟨⟨asked, old⟩, -⟩ := (sound.listed fp).mp listed
      exact absent asked old
    case listed =>
      intro found
      rw [freeList, mem_cons]
      constructor
      · rintro (rfl | old)
        · rw [new]
          exact ⟨⟨function, (live function found).mpr (.inl ⟨rfl, rfl⟩)⟩, config.num4k_pos⟩
        · obtain ⟨⟨asked, was⟩, pos⟩ := (sound.listed found).mp old
          rw [page found (apartOf was)]
          exact ⟨⟨asked, (live asked found).mpr (.inr was)⟩, pos⟩
      · rintro ⟨⟨asked, isLive⟩, pos⟩
        rcases (live asked found).mp isLive with ⟨-, rfl⟩ | old
        · exact .inl rfl
        · rw [page found (apartOf old)] at pos
          exact .inr ((sound.listed found).mpr ⟨⟨asked, old⟩, pos⟩)
    case counted =>
      intro asked found isLive
      rcases (live asked found).mp isLive with ⟨-, rfl⟩ | old
      · rw [new]
        refine ⟨(newFwPage_count addr function).symm, ?_⟩
        intro n above
        rw [newFwPage_testBit, decide_eq_false (Nat.not_lt.mpr above)]
      · rw [page found (apartOf old)]
        exact sound.counted asked found old
  exact ⟨sound', absent, live, new, page, freeList, by rw [← afterIs]; exact ⟨rfl, rfl, rfl⟩⟩

private theorem mapPage_mem {maps addr} (mapped : mapPage maps = some addr) : some addr ∈ maps := by
  induction maps with
  | nil => exact absurd mapped (by simp [mapPage])
  | cons first later ih =>
    cases first with
    | none => exact absurd mapped (by simp [mapPage])
    | some found =>
      rw [mapPage] at mapped
      split at mapped
      · exact .tail _ (ih mapped)
      · rw [mapped]
        exact .head _

variable {memory : List SystemPage} {page : SystemPage}

private theorem allocSystemPage_spec (sound : dev.Sound config) (fresh : Fresh config dev (page :: memory)) (fn) :
    (∃ after err, allocSystemPage config dev page fn = (after, some err) ∧ SamePages dev after) ∨
      ∃ after addr fp, allocSystemPage config dev page fn = (after, none) ∧
        Inserted config fn addr fp dev after ∧ some addr ∈ page.maps ∧ page.node = some fp := by
  unfold allocSystemPage
  split
  · cases isMapped : mapPage page.maps with
    | none => exact .inl ⟨_, _, rfl, SamePages.refl dev⟩
    | some addr =>
      have inMaps := mapPage_mem isMapped
      obtain ⟨-, aligned, -, unused⟩ := fresh.mapped page (.head _) addr inMaps
      have same := @pageRootPerFunction_same dev page.root fn
      have given := @pageRootPerFunction_root dev page.root fn
      simp only
      unfold insertPage
      rcases rooted : pageRootPerFunction dev page.root fn with ⟨middle, root⟩
      rw [rooted] at same given
      cases root with
      | none => exact .inl ⟨_, _, rfl, same⟩
      | some root =>
        simp only
        have isRoot : middle.pageRoot fn = some root := given rfl
        have middleSound := sound.of_same same
        have middleAddr : middle.addr = dev.addr := by
          unfold PageDev.addr
          rw [show middle.page = dev.page from same.page]
        cases missing : root.search middle.addr addr with
        | some found => exact .inl ⟨_, _, rfl, same⟩
        | none =>
          cases node : page.node with
          | none => exact .inl ⟨_, _, rfl, same⟩
          | some fp =>
            have absent := fresh.nodes page (.head _) fp node
            have inserted := insertPage_sound middleSound isRoot missing aligned
              (by rw [same.live, middleAddr]; exact unused) (by rw [same.live]; exact absent)
            refine .inr ⟨_, addr, fp, rfl, ?_, inMaps, rfl⟩
            exact {
              sound := inserted.sound
              absent := absent
              live asked found := by rw [inserted.live, same.live]
              new := inserted.new
              page found apart := by rw [inserted.page found apart, same.page]
              freeList := by rw [inserted.freeList, same.freeList]
              counters := same.counters }
  · exact .inl ⟨_, _, rfl, SamePages.refl dev⟩

/-! ### One chunk for a request -/

def AlmostNoIdle (config : PageConfig) (function : Nat) (dev : PageDev) : Prop :=
  ∀ asked, ∀ fp ∈ dev.live asked, lastFree dev function ≠ some fp → (dev.page fp).freeCount < config.num4kInPage

theorem PageDev.NoIdle.almost (noIdle : dev.NoIdle config) (fn) : AlmostNoIdle config fn dev :=
  fun asked fp live _ => noIdle asked fp live

theorem PageDev.NoIdle.of_same (noIdle : dev.NoIdle config)
    (same : SamePages dev other) : other.NoIdle config := by
  unfold NoIdle
  rw [same.live, same.page]
  exact noIdle

theorem Inserted.almostNoIdle (inserted : Inserted config function addr fp dev after)
    (none : lastFree dev function = none) (noIdle : dev.NoIdle config) (sound : dev.Sound config) :
    AlmostNoIdle config function after := by
  have only : lastFree after function = some fp := by
    unfold lastFree
    have new : (after.page fp).function = function := by
      rw [inserted.new]
      rfl
    have others : dev.freeList.filter (fun iter => (after.page iter).function = function) = [] := by
      rw [filter_eq_nil_iff]
      intro iter listed
      obtain ⟨⟨asked, old⟩, -⟩ := (sound.listed iter).mp listed
      have apart : iter ≠ fp := by
        rintro rfl
        exact inserted.absent asked old
      rw [inserted.page iter apart, decide_eq_true_eq]
      exact lastFree_eq_none.mp none iter listed
    rw [inserted.freeList, filter_cons_of_pos (by rw [new]; exact decide_eq_true rfl), others]
    rfl
  intro asked found isLive different
  rw [only] at different
  rcases (inserted.live asked found).mp isLive with ⟨-, rfl⟩ | old
  · exact absurd rfl different
  · have apart : found ≠ fp := by
      rintro rfl
      exact different rfl
    rw [inserted.page found apart]
    exact noIdle asked found old

theorem Taken.noIdle {fn addr}
    (taken : Taken config fn dev after addr) (almost : AlmostNoIdle config fn dev) :
    after.NoIdle config := by
  obtain ⟨fp, last, fewer, others⟩ := taken.page
  intro asked found isLive
  by_cases same : found = fp
  · subst same
    exact fewer
  rw [others found same]
  rw [taken.live] at isLive
  apply almost asked found isLive
  rw [last]
  intro equal
  exact same (some.inj equal).symm

theorem Fresh.of_inserted (fresh : Fresh config dev (page :: memory))
    (inserted : Inserted config fn addr fp dev after) (mapped : some addr ∈ page.maps)
    (node : page.node = some fp) : Fresh config after memory := by
  have apart := (pairwise_cons.mp fresh.apart).1
  constructor
  case mapped =>
    intro other mem found inMaps
    obtain ⟨nonzero, aligned, small, unused⟩ := fresh.mapped other (.tail _ mem) found inMaps
    refine ⟨nonzero, aligned, small, ?_⟩
    intro asked live isLive
    rcases (inserted.live asked live).mp isLive with ⟨-, rfl⟩ | old
    · rw [inserted.addr_new]
      rintro rfl
      exact (apart other mem).1 addr mapped inMaps
    · have different : live ≠ fp := by
        rintro rfl
        exact inserted.absent asked old
      rw [inserted.addr_other different]
      exact unused asked live old
  case nodes =>
    intro other mem found isNode asked isLive
    rcases (inserted.live asked found).mp isLive with ⟨-, rfl⟩ | old
    · exact (apart other mem).2 found node isNode
    · exact fresh.nodes other (.tail _ mem) found isNode asked old
  case apart => exact (pairwise_cons.mp fresh.apart).2

theorem Fresh.of_taken (fresh : Fresh config dev memory) {fn addr} (taken : Taken config fn dev after addr) :
    Fresh config after memory where
  mapped := by
    rw [taken.live, taken.addr]
    exact fresh.mapped
  nodes := by
    rw [taken.live]
    exact fresh.nodes
  apart := fresh.apart

/-- What a request for one chunk comes to, with new system pages where they are needed. -/
structure Retried (config : PageConfig) (function : Nat) (dev after : PageDev)
    (rest : List SystemPage) (result : Except Errno Nat) : Prop where
  sound : after.Sound config
  noIdle : after.NoIdle config
  counters : SameCounters dev after
  given : ∀ addr, result = .ok addr → Fresh config after rest ∧
    ¬ Outstanding config dev function addr ∧ ∀ asked chunk, Outstanding config after asked chunk ↔
        Outstanding config dev asked chunk ∨ asked = function ∧ chunk = addr
  failed : ∀ err, result = .error err → ∀ asked chunk,
    Outstanding config after asked chunk ↔ Outstanding config dev asked chunk

theorem SameCounters.trans {first second third} (left : SameCounters first second)
    (right : SameCounters second third) : SameCounters first third :=
  ⟨right.1.trans left.1, right.2.1.trans left.2.1, right.2.2.trans left.2.2⟩

private theorem Taken.retried {fn addr} (taken : Taken config fn dev after addr)
    (almost : AlmostNoIdle config fn dev) (fresh : Fresh config dev memory) :
    Retried config fn dev after memory (.ok addr) where
  sound := taken.sound
  noIdle := taken.noIdle almost
  counters := taken.counters
  given found same := by
    obtain rfl := Except.ok.inj same
    exact ⟨fresh.of_taken taken, taken.free, taken.outstanding⟩
  failed err same := absurd same (by simp)

private theorem SamePages.retried {fn} (same : SamePages dev after) (sound : dev.Sound config)
    (noIdle : dev.NoIdle config) (err) : Retried config fn dev after memory (.error err) where
  sound := sound.of_same same
  noIdle := noIdle.of_same same
  counters := same.counters
  given found impossible := absurd impossible (by simp)
  failed _ _ _ _ := same.outstanding

theorem allocRetry_spec (fn memory) :
    ∀ dev : PageDev, dev.Sound config → AlmostNoIdle config fn dev → Fresh config dev memory →
        ∃ after rest result, allocRetry config fn memory dev = (after, rest, result) ∧
          Retried config fn dev after rest result := by
  induction memory with
  | nil =>
    intro dev sound almost fresh
    rw [allocRetry]
    rcases sound.alloc4k fn with ⟨none, failed⟩ | ⟨after, addr, done, taken⟩
    · have noIdle : dev.NoIdle config := fun asked fp live =>
        almost asked fp live (by rw [none]; simp)
      rw [failed]
      exact ⟨dev, _, _, rfl, (SamePages.refl dev).retried sound noIdle _⟩
    · rw [done]
      exact ⟨after, _, _, rfl, taken.retried almost fresh⟩
  | cons page memory ih =>
    intro dev sound almost fresh
    rw [allocRetry]
    rcases sound.alloc4k fn with ⟨none, failed⟩ | ⟨after, addr, done, taken⟩
    · have noIdle : dev.NoIdle config := fun asked fp live =>
        almost asked fp live (by rw [none]; simp)
      rw [failed]
      rcases allocSystemPage_spec sound fresh fn with
        ⟨after, err, refused, same⟩ | ⟨middle, addr, fp, made, inserted, mapped, node⟩
      · rw [refused]
        exact ⟨after, _, _, rfl, same.retried sound noIdle err⟩
      rw [made]
      obtain ⟨after, rest, result, retry, retried⟩ := ih middle inserted.sound
        (inserted.almostNoIdle none noIdle sound) (fresh.of_inserted inserted mapped node)
      refine ⟨after, rest, result, retry, ?_⟩
      exact {
        sound := retried.sound
        noIdle := retried.noIdle
        counters := inserted.counters.trans retried.counters
        given found same := by
          obtain ⟨later, free, outstanding⟩ := retried.given found same
          refine ⟨later, ?_, ?_⟩
          · rw [← inserted.outstanding]
            exact free
          · intro asked chunk
            rw [outstanding, inserted.outstanding]
        failed err same asked chunk := by rw [retried.failed err same, inserted.outstanding] }
    · rw [done]
      exact ⟨after, _, _, rfl, taken.retried almost fresh⟩

end MlnxOfed.PageAlloc
