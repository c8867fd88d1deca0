/-
Accounting of firmware pages over every sequence of requests. Firmware is the list of chunks it holds: a
successful `give_pages` adds the addresses sent, `reclaim_pages` takes out what `free_4k` accepted and
`release_all_pages` everything of one function.
-/

import MlnxOfed.PageAlloc.PageRequests

namespace MlnxOfed.PageAlloc

open Prod List Lib

variable {config : PageConfig} {dev : PageDev}

/-- A device on which some more chunks of a function are in use than on another one. -/
structure Ahead (config : PageConfig) (function : Nat) (start dev : PageDev) (pas : List Nat) :
    Prop where
  sound : dev.Sound config
  noIdle : dev.NoIdle config
  counters : SameCounters start dev
  nodup : pas.Nodup
  free : ∀ addr ∈ pas, ¬ Outstanding config start function addr
  outstanding : ∀ asked chunk, Outstanding config dev asked chunk ↔
    Outstanding config start asked chunk ∨ asked = function ∧ chunk ∈ pas

theorem Ahead.refl (sound : dev.Sound config) (noIdle : dev.NoIdle config) (fn) :
    Ahead config fn dev dev [] where
  sound := sound
  noIdle := noIdle
  counters := ⟨rfl, rfl, rfl⟩
  nodup := nodup_nil
  free _ member := absurd member not_mem_nil
  outstanding asked chunk := by simp

private theorem givePagesLoop_spec {expired fn start} (npages i) {memory pas}
    (ahead : Ahead config fn start dev pas) (fresh : Fresh config dev memory) :
    ∃ after final err, givePagesLoop config expired fn npages i dev memory pas =
        (after, final, err) ∧ Ahead config fn start after final ∧
          (err = none → final.length = npages + pas.length) := by
  induction npages generalizing i dev memory pas with
  | zero => exact ⟨dev, pas, none, rfl, ahead, fun _ => (zero_add _).symm⟩
  | succ npages ih =>
    rw [givePagesLoop]
    split
    · exact ⟨dev, pas, _, rfl, ahead, fun never => absurd never (by simp)⟩
    obtain ⟨after, rest, res, retry, retried⟩ := allocRetry_spec fn memory dev
      ahead.sound (ahead.noIdle.almost fn) fresh
    rw [retry]
    cases res with
    | error err =>
      refine ⟨after, pas, some err, rfl, ?_, fun never => absurd never (by simp)⟩
      exact {
        sound := retried.sound
        noIdle := retried.noIdle
        counters := ahead.counters.trans retried.counters
        nodup := ahead.nodup
        free := ahead.free
        outstanding asked chunk := by rw [retried.failed err rfl, ahead.outstanding] }
    | ok addr =>
      obtain ⟨later, free, outstanding⟩ := retried.given addr rfl
      rw [ahead.outstanding, not_or] at free
      have next : Ahead config fn start after (addr :: pas) := {
        sound := retried.sound
        noIdle := retried.noIdle
        counters := ahead.counters.trans retried.counters
        nodup := nodup_cons.mpr ⟨fun mem => free.2 ⟨rfl, mem⟩, ahead.nodup⟩
        free := forall_mem_cons.mpr ⟨free.1, ahead.free⟩
        outstanding asked chunk := by
          rw [outstanding, ahead.outstanding, mem_cons, or_assoc, ← and_or_left,
            or_comm (b := chunk = addr)] }
      obtain ⟨last, final, err, done, aheadLast, length⟩ := ih (i + 1) next later
      refine ⟨last, final, err, done, aheadLast, ?_⟩
      intro fine
      rw [length fine, length_cons]
      omega

variable {function addr : Nat}

theorem Outstanding.aligned (sound : dev.Sound config)
    (used : Outstanding config dev fn addr) : addr / 4096 * 4096 = addr := by
  obtain ⟨fp, live, n, -, -, rfl⟩ := used
  obtain ⟨k, base⟩ := Nat.dvd_of_mod_eq_zero (sound.aligned fn fp live)
  rw [base, config.pageSize, mul_comm config.num4kInPage, Nat.mul_assoc,
    mul_comm n, ← Nat.mul_add, Nat.mul_div_cancel_left _ (by decide), mul_comm]

theorem Ahead.undo {fn start pas} (ahead : Ahead config fn start dev pas) :
    Ahead config fn start (pas.foldl (fun dev addr => (free4k config dev addr fn).1) dev) [] := by
  induction pas generalizing dev with
  | nil => exact ahead
  | cons addr pas ih =>
    have used : Outstanding config dev fn addr := (ahead.outstanding fn addr).mpr (.inr ⟨rfl, .head _⟩)
    have aligned := used.aligned ahead.sound
    rcases ahead.sound.free4k addr fn with ⟨unused, -⟩ | ⟨after, done, freed⟩
    · rw [aligned] at unused
      exact absurd used unused
    rw [foldl_cons, done]
    obtain ⟨absent, nodup⟩ := nodup_cons.mp ahead.nodup
    apply ih
    exact {
      sound := freed.sound
      noIdle := freed.noIdle ahead.noIdle
      counters := ahead.counters.trans freed.counters
      nodup := nodup
      free other member := ahead.free other (.tail _ member)
      outstanding asked chunk := by
        rw [freed.outstanding, ahead.outstanding, aligned, mem_cons]
        constructor
        · rintro ⟨old | ⟨rfl, rfl | member⟩, apart⟩
          · exact .inl old
          · exact absurd ⟨rfl, rfl⟩ apart
          · exact .inr ⟨rfl, member⟩
        rintro (old | ⟨rfl, member⟩)
        · refine ⟨.inl old, ?_⟩
          rintro ⟨rfl, rfl⟩
          exact ahead.free chunk (.head _) old
        · refine ⟨.inr ⟨rfl, .inr member⟩, ?_⟩
          rintro ⟨-, rfl⟩
          exact absent member }

private theorem freeFwp_counters {fp inFreeList} : SameCounters dev (freeFwp config dev fp inFreeList) := by
  unfold freeFwp
  simp only
  split <;> exact ⟨rfl, rfl, rfl⟩

private theorem releaseLoop_spec {function} (pages count)
    (sound : dev.Sound config) (live : dev.live function = pages) :
    ∃ after, pages.foldl
        (fun (state : PageDev × Nat) fwp =>
          (freeFwp config state.1 fwp ((state.1.page fwp).freeCount != 0),
            state.2 + (config.num4kInPage - (state.1.page fwp).freeCount)))
        (dev, count) = (after, count + (pages.map fun fp => config.num4kInPage - (dev.page fp).freeCount).sum) ∧
      after.Sound config ∧ after.page = dev.page ∧ SameCounters dev after ∧
        ∀ asked, after.live asked = if asked = function then [] else dev.live asked := by
  induction pages generalizing dev count with
  | nil =>
    refine ⟨dev, rfl, sound, rfl, ⟨rfl, rfl, rfl⟩, ?_⟩
    intro asked
    by_cases here : asked = function
    · rw [if_pos here, here, live]
    · rw [if_neg here]
  | cons fwp pages ih =>
    have isLive : fwp ∈ dev.live function := by
      rw [live]
      exact .head _
    have same : SameBut fwp dev dev := ⟨rfl, fun _ _ => rfl, rfl⟩
    have known := sound.function function fwp isLive
    have flag : ((dev.page fwp).freeCount != 0) = true ↔ fwp ∈ dev.freeList := by
      rw [bne_iff_ne, sound.listed, ← Nat.pos_iff_ne_zero]
      exact (and_iff_right ⟨function, isLive⟩).symm
    have lives (asked : Nat) := @freeFwp_live config dev fwp function dev
      ((dev.page fwp).freeCount != 0) isLive same known asked
    have rest : (freeFwp config dev fwp ((dev.page fwp).freeCount != 0)).live function = pages := by
      rw [lives, if_pos rfl, live, erase_cons_head]
    obtain ⟨after, folded, afterSound, page, counters, afterLive⟩ := @ih _
      (count + (config.num4kInPage - (dev.page fwp).freeCount))
      (freeFwp_sound sound isLive same known flag) rest
    refine ⟨after, ?_, afterSound, page.trans freeFwp_page, freeFwp_counters.trans counters, ?_⟩
    · rw [foldl_cons, folded, freeFwp_page, map_cons, sum_cons, add_assoc]
    · intro asked
      rw [afterLive, lives]
      by_cases here : asked = function
      · rw [if_pos here, if_pos here]
      · rw [if_neg here, if_neg here, if_neg here]

variable {page : FwPage}

theorem FwPage.Counted.length (counted : page.Counted config) :
    page.freeCount = ((range config.num4kInPage).filter fun n => page.bitmask.testBit n).length := by
  have same : (Finset.range (64 * 1)).filter (fun nr => page.bitmask.testBit nr = true) =
      (Finset.range config.num4kInPage).filter fun nr => page.bitmask.testBit nr = true := by
    ext nr
    rw [Finset.mem_filter, Finset.mem_filter]
    constructor
    · intro mem
      have inside := counted.bits_subset (Finset.mem_filter.mpr mem)
      exact ⟨inside, mem.2⟩
    · rintro ⟨inside, set⟩
      have small := config.num4k_le
      rw [Finset.mem_range] at inside ⊢
      exact ⟨by omega, set⟩
  have asList : (Finset.range config.num4kInPage).filter (fun nr => page.bitmask.testBit nr = true) =
        ((range config.num4kInPage).filter fun n => page.bitmask.testBit n).toFinset := by
    ext nr
    simp
  rw [counted.count]
  unfold Words.count
  rw [same, asList, toFinset_card_of_nodup (nodup_range.filter _)]

private theorem usedChunks_length (counted : page.Counted config) :
    (usedChunks config page).length = config.num4kInPage - page.freeCount := by
  have both := length_eq_length_filter_add (l := range config.num4kInPage) (fun n => page.bitmask.testBit n)
  rw [length_range] at both
  unfold usedChunks
  rw [length_map, counted.length]
  omega

theorem mem_usedChunks {addr} : addr ∈ usedChunks config page ↔ ∃ n, n < config.num4kInPage ∧
      page.bitmask.testBit n = false ∧ addr = page.addr + n * 4096 := by
  unfold usedChunks
  rw [mem_map]
  constructor
  · rintro ⟨n, mem, rfl⟩
    rw [mem_filter, mem_range, Bool.not_eq_true'] at mem
    exact ⟨n, mem.1, mem.2, rfl⟩
  · rintro ⟨n, inside, clear, rfl⟩
    refine ⟨n, ?_, rfl⟩
    rw [mem_filter, mem_range, Bool.not_eq_true']
    exact ⟨inside, clear⟩

private theorem usedChunks_nodup (page) : (usedChunks config page).Nodup := by
  apply Nodup.map
  · intro left right same
    have equal : page.addr + left * 4096 = page.addr + right * 4096 := same
    omega
  · exact nodup_range.filter _

def chunkList (config : PageConfig) (dev : PageDev) (function : Nat) : List Nat :=
  (dev.live function).flatMap fun fp => usedChunks config (dev.page fp)

private theorem mem_chunkList : addr ∈ chunkList config dev fn ↔ Outstanding config dev fn addr := by
  unfold chunkList Outstanding
  rw [mem_flatMap]
  simp only [mem_usedChunks]
  rfl

private theorem chunkList_nodup (sound : dev.Sound config) (fn) : (chunkList config dev fn).Nodup := by
  unfold chunkList
  rw [nodup_flatMap]
  refine ⟨fun fp _ => usedChunks_nodup _, ?_⟩
  refine List.Pairwise.imp_of_mem ?_ (sound.nodup_live fn)
  intro left right leftLive rightLive apart addr inLeft inRight
  obtain ⟨n, inside, -, rfl⟩ := mem_usedChunks.mp inLeft
  obtain ⟨m, bound, -, same⟩ := mem_usedChunks.mp inRight
  apply apart
  apply sound.distinct fn fn left leftLive right rightLive
  have base : pageBase config (dev.addr left + n * 4096) =
      pageBase config (dev.addr right + m * 4096) := congrArg (pageBase config) same
  rwa [pageBase_chunk (sound.aligned fn left leftLive) inside,
    pageBase_chunk (sound.aligned fn right rightLive) bound] at base

private theorem chunkList_length (sound : dev.Sound config) (fn) : (chunkList config dev fn).length =
      ((dev.live fn).map fun fp => config.num4kInPage - (dev.page fp).freeCount).sum := by
  unfold chunkList
  rw [length_flatMap]
  congr 1
  apply map_congr_left
  intro fp live
  exact usedChunks_length (sound.counted fn fp live)

/-- The counters are the chunks firmware holds: of all functions, of those with a function number, and of
the host's physical function on the embedded CPU. -/
structure Counts (config : PageConfig) (dev : PageDev) (held : List (Nat × Nat)) : Prop where
  fwPages : dev.fwPages = held.length
  vfsPages : dev.vfsPages = held.countP fun chunk => getFuncId chunk.1 ≠ 0
  hostPfPages : dev.hostPfPages =
    if config.isEcpf then ((held.countP fun chunk => chunk.1 = 0 : Nat) : Int) else 0

theorem getFunction_eq (funcId ecFunction) :
    getFunction funcId ecFunction = funcId.toNat + ecFunction.toNat * 2 ^ 16 := by
  unfold getFunction
  rw [Nat.or_comm, Nat.shiftLeft_eq, mul_comm, ← Nat.two_pow_add_eq_or_of_lt funcId.toNat_lt, add_comm]

private theorem getFuncId_getFunction (funcId ecFunction) :
    getFuncId (getFunction funcId ecFunction) = funcId.toNat := by
  unfold getFuncId
  rw [getFunction_eq, Nat.add_mul_mod_self_right]
  exact Nat.mod_eq_of_lt funcId.toNat_lt

variable {ecFunction : Bool} {funcId : UInt16}

private theorem getFunction_eq_zero : getFunction funcId ecFunction = 0 ↔ funcId = 0 ∧ ecFunction = false := by
  rw [getFunction_eq, Nat.add_eq_zero_iff, ← UInt16.toNat_inj]
  cases ecFunction <;> simp

theorem Counts.countPages {held after} (counts : Counts config dev held) {change}
    (changed : ∀ counted : Nat → Bool, (after.countP (fun chunk => counted chunk.1) : Int) =
      held.countP (fun chunk => counted chunk.1) +
        if counted (getFunction funcId ecFunction) then change else 0) :
    Counts config (countPages config dev funcId ecFunction change) after := by
  have all := changed fun _ => true
  have vfs := changed fun function => getFuncId function ≠ 0
  have host := changed fun function => function = 0
  simp only [getFuncId_getFunction, getFunction_eq_zero, countP_true, if_true,
    decide_eq_true_eq] at all vfs host
  have zero : funcId = 0 ↔ funcId.toNat = 0 := by
    rw [← UInt16.toNat_inj]
    rfl
  unfold PageAlloc.countPages
  simp only
  split
  · rename_i isVf
    rw [if_pos (fun none => isVf (zero.mpr none))] at vfs
    rw [if_neg (fun both => isVf both.1), Int.add_zero] at host
    refine ⟨?_, ?_, ?_⟩
    · rw [all, ← counts.fwPages]
    · rw [vfs, ← counts.vfsPages]
    · rw [host]
      exact counts.hostPfPages
  rename_i notVf
  have isZero := not_not.mp notVf
  rw [if_neg (fun some => some (zero.mp isZero)), Int.add_zero] at vfs
  split
  · rename_i isHost
    rw [Bool.and_eq_true, Bool.not_eq_true'] at isHost
    rw [if_pos ⟨isZero, isHost.2⟩] at host
    refine ⟨?_, ?_, ?_⟩
    · rw [all, ← counts.fwPages]
    · rw [vfs]
      exact counts.vfsPages
    · have before := counts.hostPfPages
      rw [if_pos isHost.1] at before ⊢
      rw [host, ← before]
  rename_i notHost
  refine ⟨?_, ?_, ?_⟩
  · rw [all, ← counts.fwPages]
  · rw [vfs]
    exact counts.vfsPages
  have before := counts.hostPfPages
  by_cases ecpf : config.isEcpf = true
  · rw [if_pos ecpf] at before ⊢
    have isEc : ecFunction ≠ false := by
      intro isFalse
      apply notHost
      rw [ecpf, isFalse]
      rfl
    rw [if_neg (fun both => isEc both.2), Int.add_zero] at host
    rw [host]
    exact before
  · rw [if_neg ecpf] at before ⊢
    exact before

/-! ### Every sequence of requests -/

/-- A device with the chunks, each with its function, that firmware holds. -/
structure PageRun where
  dev : PageDev
  held : List (Nat × Nat)

def heldAfterGive (held : List (Nat × Nat)) (function : Nat) : Except Errno (List Nat) → List (Nat × Nat)
  | .ok pas => held ++ pas.map fun addr => (function, addr)
  | .error _ => held

def heldAfterReclaim (held : List (Nat × Nat)) (function : Nat) : List Nat → List (Nat × Nat)
  | [] => held
  | addr :: claimed =>
    (heldAfterReclaim held function claimed).erase (function, addr / 4096 * 4096)

inductive PageStep (config : PageConfig) : PageRun → PageRun → Prop
  | give {run : PageRun} {after : PageDev} {result : Except Errno (List Nat)} (env : GiveEnv)
      (funcId : UInt16) (npages : Nat) (ecFunction : Bool)
      (fresh : Fresh config run.dev env.memory)
      (done : givePages config run.dev env funcId npages ecFunction = (after, result)) :
      PageStep config run ⟨after, heldAfterGive run.held (getFunction funcId ecFunction) result⟩
  | reclaim {run : PageRun} {after : PageDev} {claimed : List Nat} (memory isDown : Bool)
      (reply : ReclaimReply) (funcId : UInt16) (npages : Nat) (ecFunction : Bool)
      (done : reclaimPages config run.dev memory isDown reply funcId npages ecFunction = (after, claimed)) :
      PageStep config run ⟨after, heldAfterReclaim run.held (getFunction funcId ecFunction) claimed⟩
  | release {run : PageRun} (funcId : UInt16) (ecFunction : Bool) : PageStep config run
        ⟨releaseAllPages config run.dev funcId ecFunction,
          run.held.filter fun chunk => chunk.1 ≠ getFunction funcId ecFunction⟩

def PageReachable (config : PageConfig) : PageRun → Prop :=
  Relation.ReflTransGen (PageStep config) ⟨PageDev.empty, []⟩

/-- The list of chunks that firmware holds is the one the pages show. -/
structure Holds (config : PageConfig) (dev : PageDev) (held : List (Nat × Nat)) : Prop where
  sound : dev.Sound config
  noIdle : dev.NoIdle config
  nodup : held.Nodup
  member : ∀ function addr, (function, addr) ∈ held ↔ Outstanding config dev function addr

theorem Holds.of_pages {held} (holds : Holds config dev held)
    {other} (root : other.pageRoot = dev.pageRoot) (page : other.page = dev.page)
    (freeList : other.freeList = dev.freeList) : Holds config other held := by
  have live : other.live = dev.live := by
    unfold PageDev.live
    rw [root]
  constructor
  case sound => exact holds.sound.of_live live page freeList
  case noIdle =>
    unfold PageDev.NoIdle
    rw [live, page]
    exact holds.noIdle
  case nodup => exact holds.nodup
  case member =>
    intro fn addr
    rw [holds.member]
    unfold Outstanding PageDev.addr
    rw [live, page]

theorem Holds.countPages {held} (holds : Holds config dev held) (funcId ecFunction npages) :
    Holds config (countPages config dev funcId ecFunction npages) held := by
  unfold PageAlloc.countPages
  simp only
  split
  · exact holds.of_pages rfl rfl rfl
  · split
    · exact holds.of_pages rfl rfl rfl
    · exact holds.of_pages rfl rfl rfl

theorem Counts.of_same {held other} (counts : Counts config dev held) (same : SameCounters dev other) :
    Counts config other held where
  fwPages := same.1.trans counts.fwPages
  vfsPages := same.2.1.trans counts.vfsPages
  hostPfPages := same.2.2.trans counts.hostPfPages

variable {after : PageDev}

theorem Holds.of_ahead {fn held pas}
    (holds : Holds config dev held) (ahead : Ahead config fn dev after pas) :
    Holds config after (held ++ pas.reverse.map fun addr => (fn, addr)) := by
  exact { ahead with
    nodup := by
      rw [nodup_append']
      refine ⟨holds.nodup, ?_, ?_⟩
      · apply Nodup.map
        · intro left right same
          exact (mk.inj same).2
        · exact nodup_reverse.mpr ahead.nodup
      · intro chunk old new
        obtain ⟨addr, member, rfl⟩ := mem_map.mp new
        exact ahead.free addr (mem_reverse.mp member) ((holds.member fn addr).mp old)
    member asked addr := by
      rw [mem_append, holds.member, ahead.outstanding, mem_map]
      refine or_congr_right ?_
      constructor
      · rintro ⟨found, member, same⟩
        obtain ⟨rfl, rfl⟩ := mk.inj same
        exact ⟨rfl, mem_reverse.mp member⟩
      · rintro ⟨rfl, member⟩
        exact ⟨addr, mem_reverse.mpr member, rfl⟩ }

private theorem countP_given (counted : Nat → Bool) (fn : Nat) (pas : List Nat) :
    (pas.map fun addr => (fn, addr)).countP (fun chunk => counted chunk.1) =
      if counted fn then pas.length else 0 := by
  induction pas with
  | nil => simp
  | cons addr pas ih =>
    rw [map_cons, countP_cons, ih, length_cons]
    split
    · rfl
    · rfl

private theorem countP_function (counted : Nat → Bool) (fn : Nat) (held : List (Nat × Nat)) :
    (held.filter fun chunk => chunk.1 ≠ fn).countP (fun chunk => counted chunk.1) +
        (if counted fn then (held.filter fun chunk => chunk.1 = fn).length else 0) =
      held.countP fun chunk => counted chunk.1 := by
  induction held with
  | nil => simp
  | cons chunk held ih =>
    rw [countP_cons, ← ih]
    by_cases here : chunk.1 = fn
    · rw [filter_cons_of_neg (by simp [here]), filter_cons_of_pos (by simp [here]), here, length_cons]
      split
      · rfl
      · rfl
    · rw [filter_cons_of_pos (by simp [here]), filter_cons_of_neg (by simp [here]), countP_cons]
      omega

theorem givePages_spec {held} (holds : Holds config dev held)
    (counts : Counts config dev held) {env npages} (fresh : Fresh config dev env.memory)
    {res}
    (done : givePages config dev env funcId npages ecFunction = (after, res)) :
    Holds config after (heldAfterGive held (getFunction funcId ecFunction) res) ∧
      Counts config after (heldAfterGive held (getFunction funcId ecFunction) res) ∧
      (∀ err, res = .error err → SameCounters dev after) := by
  -- A request that is undone is one without new chunks.
  have undone {failed : PageDev} (ahead : Ahead config (getFunction funcId ecFunction) dev failed [])
      (err : Errno) : Holds config failed (heldAfterGive held (getFunction funcId ecFunction) (.error err)) ∧
        Counts config failed (heldAfterGive held (getFunction funcId ecFunction) (.error err)) ∧
          ∀ other, (Except.error err : Except Errno (List Nat)) = .error other → SameCounters dev failed := by
    have same := holds.of_ahead ahead
    rw [reverse_nil, map_nil, append_nil] at same
    exact ⟨same, counts.of_same ahead.counters, fun _ _ => ahead.counters⟩
  have start := Ahead.refl holds.sound holds.noIdle (getFunction funcId ecFunction)
  unfold givePages at done
  simp only at done
  split at done
  · obtain ⟨middle, pas, err, loop, ahead, length⟩ :=
      @givePagesLoop_spec config dev env.expired _ dev npages 0 env.memory [] start fresh
    rw [loop] at done
    cases err with
    | some err =>
      obtain ⟨rfl, rfl⟩ := mk.inj done
      exact undone ahead.undo err
    | none =>
      simp only at done
      split at done
      · obtain ⟨rfl, rfl⟩ := mk.inj done
        refine ⟨(holds.of_ahead ahead).countPages _ _ _, ?_, fun _ never =>
          absurd never (by simp)⟩
        apply (counts.of_same ahead.counters).countPages
        intro counted
        have many := length rfl
        rw [length_nil, add_zero] at many
        rw [heldAfterGive, countP_append, countP_given, length_reverse, many]
        split
        · rfl
        · rfl
      · obtain ⟨rfl, rfl⟩ := mk.inj done
        exact undone ahead.undo .command
  · obtain ⟨rfl, rfl⟩ := mk.inj done
    exact undone start .noMem

private theorem reclaimLoop_spec {function pas} (n) {held} (holds : Holds config dev held) :
    ∃ after claimed, reclaimLoop config function pas n dev = (after, claimed) ∧
      Holds config after (heldAfterReclaim held function claimed) ∧ SameCounters dev after ∧
        ∀ counted : Nat → Bool,
          ((heldAfterReclaim held function claimed).countP (fun chunk => counted chunk.1) : Int) =
            held.countP (fun chunk => counted chunk.1) +
              if counted function then (-claimed.length : Int) else 0 := by
  induction n with
  | zero =>
    refine ⟨dev, [], rfl, holds, ⟨rfl, rfl, rfl⟩, ?_⟩
    intro counted
    simp [heldAfterReclaim]
  | succ n ih =>
    obtain ⟨middle, claimed, loop, holdsMiddle, counters, counts⟩ := ih
    rw [reclaimLoop, loop]
    rcases holdsMiddle.sound.free4k (pas n) function with
      ⟨-, err, refused⟩ | ⟨after, done, freed⟩
    · exact ⟨middle, claimed, by simp only [refused], holdsMiddle, counters, counts⟩
    have isHeld := (holdsMiddle.member function _).mpr freed.used
    refine ⟨after, pas n :: claimed, by simp only [done], ?_, counters.trans freed.counters, ?_⟩
    · constructor
      case sound => exact freed.sound
      case noIdle => exact freed.noIdle holdsMiddle.noIdle
      case nodup => exact holdsMiddle.nodup.erase _
      case member =>
        intro asked addr
        rw [heldAfterReclaim, holdsMiddle.nodup.mem_erase_iff, holdsMiddle.member,
          freed.outstanding, and_comm, Ne, mk.injEq]
    intro counted
    have before := counts counted
    rw [heldAfterReclaim, countP_erase]
    by_cases isCounted : counted function = true
    · have pos : 0 < (heldAfterReclaim held function claimed).countP
          fun chunk => counted chunk.1 :=
        countP_pos_iff.mpr ⟨_, isHeld, isCounted⟩
      rw [if_pos isCounted] at before ⊢
      rw [if_pos ⟨isHeld, isCounted⟩, length_cons]
      omega
    · rw [if_neg isCounted] at before ⊢
      rw [if_neg (fun both => isCounted both.2)]
      exact before

private theorem reclaimPages_spec {held} (holds : Holds config dev held)
    (counts : Counts config dev held) {memory isDown reply}
    {npages claimed}
    (done : reclaimPages config dev memory isDown reply funcId npages ecFunction = (after, claimed)) :
    Holds config after (heldAfterReclaim held (getFunction funcId ecFunction) claimed) ∧
      Counts config after (heldAfterReclaim held (getFunction funcId ecFunction) claimed) := by
  unfold reclaimPages at done
  simp only at done
  split at done
  · split at done
    · obtain ⟨rfl, rfl⟩ := mk.inj done
      exact ⟨holds, counts⟩
    rename_i count pas answer
    split at done
    · obtain ⟨rfl, rfl⟩ := mk.inj done
      exact ⟨holds, counts⟩
    obtain ⟨middle, list, loop, holdsMiddle, counters, changed⟩ :=
      @reclaimLoop_spec config dev (getFunction funcId ecFunction) pas count.toInt32.toInt.toNat held holds
    rw [loop] at done
    obtain ⟨rfl, rfl⟩ := mk.inj done
    exact ⟨holdsMiddle.countPages _ _ _, (counts.of_same counters).countPages changed⟩
  · obtain ⟨rfl, rfl⟩ := mk.inj done
    exact ⟨holds, counts⟩

theorem Holds.count_function {held} (holds : Holds config dev held) (fn) :
    (held.filter fun chunk => chunk.1 = fn).length =
      ((dev.live fn).map fun fp => config.num4kInPage - (dev.page fp).freeCount).sum := by
  rw [← chunkList_length holds.sound, ← length_map (f := Prod.snd)]
  apply Perm.length_eq
  refine (perm_ext_iff_of_nodup ?_ (chunkList_nodup holds.sound fn)).mpr ?_
  · refine Nodup.map_on ?_ (holds.nodup.filter _)
    intro left leftIn right rightIn same
    rw [mem_filter, decide_eq_true_eq] at leftIn rightIn
    exact Prod.ext (leftIn.2.trans rightIn.2.symm) same
  intro addr
  rw [mem_chunkList, ← holds.member, mem_map]
  constructor
  · rintro ⟨chunk, member, rfl⟩
    rw [mem_filter, decide_eq_true_eq] at member
    obtain ⟨isHeld, rfl⟩ := member
    exact isHeld
  · intro isHeld
    exact ⟨(fn, addr), mem_filter.mpr ⟨isHeld, decide_eq_true rfl⟩, rfl⟩

private theorem releaseAllPages_spec {held} (holds : Holds config dev held)
    (counts : Counts config dev held) (funcId ecFunction) :
    Holds config (releaseAllPages config dev funcId ecFunction)
        (held.filter fun chunk => chunk.1 ≠ getFunction funcId ecFunction) ∧
      Counts config (releaseAllPages config dev funcId ecFunction)
        (held.filter fun chunk => chunk.1 ≠ getFunction funcId ecFunction) := by
  generalize functionIs : getFunction funcId ecFunction = fn
  unfold releaseAllPages
  rw [functionIs]
  cases known : dev.pageRoot fn with
  | none =>
    have noneHeld : held.filter (fun chunk => chunk.1 ≠ fn) = held := by
      rw [filter_eq_self]
      intro chunk member
      rw [decide_eq_true_eq]
      rintro rfl
      obtain ⟨fp, live, -⟩ := (holds.member chunk.1 chunk.2).mp member
      obtain ⟨root, isRoot, -⟩ := PageDev.mem_live.mp live
      rw [known] at isRoot
      exact absurd isRoot (by simp)
    rw [noneHeld]
    exact ⟨holds, counts⟩
  | some root =>
    have isLive : dev.live fn = root.toList := by
      unfold PageDev.live
      rw [known]
      rfl
    obtain ⟨after, folded, sound, page, counters, live⟩ := releaseLoop_spec root.toList 0 holds.sound isLive
    simp only
    rw [folded, zero_add, ← isLive, ← holds.count_function]
    have holdsAfter : Holds config after (held.filter fun chunk => chunk.1 ≠ fn) := by
      constructor
      case sound => exact sound
      case noIdle =>
        intro asked fp member
        rw [live] at member
        split at member
        · exact absurd member not_mem_nil
        · rw [page]
          exact holds.noIdle asked fp member
      case nodup => exact holds.nodup.filter _
      case member =>
        intro asked addr
        rw [mem_filter, holds.member, decide_eq_true_eq]
        unfold Outstanding PageDev.addr
        rw [live, page]
        by_cases here : asked = fn
        · simp [here]
        · simp [here]
    refine ⟨holdsAfter.countPages _ _ _, (counts.of_same counters).countPages ?_⟩
    intro counted
    have parts := countP_function counted fn held
    rw [functionIs]
    split
    · rename_i isCounted
      rw [if_pos isCounted] at parts
      omega
    · rename_i notCounted
      rw [if_neg notCounted] at parts
      omega

theorem PageStep.keeps {run next} (step : PageStep config run next)
    (holds : Holds config run.dev run.held) (counts : Counts config run.dev run.held) :
    Holds config next.dev next.held ∧ Counts config next.dev next.held := by
  cases step with
  | give env funcId npages ecFunction fresh done =>
    obtain ⟨after, counted, -⟩ := givePages_spec holds counts fresh done
    exact ⟨after, counted⟩
  | reclaim memory isDown reply funcId npages ecFunction done =>
    exact reclaimPages_spec holds counts done
  | release funcId ecFunction => exact releaseAllPages_spec holds counts funcId ecFunction

private theorem empty_holds (config) : Holds config PageDev.empty [] ∧ Counts config PageDev.empty [] := by
  refine ⟨⟨?_, ?_, nodup_nil, ?_⟩, ⟨rfl, rfl, ?_⟩⟩
  · constructor
    case sorted => exact fun _ _ never => absurd never (by simp [PageDev.empty])
    case function => exact fun _ _ mem => absurd mem not_mem_nil
    case distinct => exact fun _ _ _ mem => absurd mem not_mem_nil
    case aligned => exact fun _ _ mem => absurd mem not_mem_nil
    case nodup => exact nodup_nil
    case listed =>
      intro fp
      constructor
      · exact fun mem => absurd mem not_mem_nil
      · rintro ⟨⟨function, mem⟩, -⟩
        exact absurd mem not_mem_nil
    case counted => exact fun _ _ mem => absurd mem not_mem_nil
  · exact fun _ _ mem => absurd mem not_mem_nil
  · intro function addr
    constructor
    · exact fun mem => absurd mem not_mem_nil
    · rintro ⟨fp, mem, -⟩
      exact absurd mem not_mem_nil
  · split <;> rfl

theorem PageReachable.holds {run} (reachable : PageReachable config run) :
    Holds config run.dev run.held ∧ Counts config run.dev run.held := by
  induction reachable with
  | refl => exact empty_holds config
  | tail _ step ih => exact step.keeps ih.1 ih.2

/-- What accounting promises of a device and the chunks that firmware holds. -/
structure PageRun.Exact (config : PageConfig) (run : PageRun) : Prop where
  pages : ∀ function, ∀ fp ∈ run.dev.live function,
    (run.dev.page fp).freeCount = ((range config.num4kInPage).filter
        fun n => (run.dev.page fp).bitmask.testBit n).length ∧
      (fp ∈ run.dev.freeList ↔ 0 < (run.dev.page fp).freeCount) ∧
      findFwPage run.dev (run.dev.addr fp) function = some fp ∧
      (run.dev.page fp).freeCount < config.num4kInPage
  held : ∀ function addr, (function, addr) ∈ run.held ↔ Outstanding config run.dev function addr
  once : (run.held.map snd).Nodup
  counters : Counts config run.dev run.held
  undone : ∀ env funcId npages ecFunction after err, Fresh config run.dev env.memory →
    givePages config run.dev env funcId npages ecFunction = (after, .error err) →
      SameCounters run.dev after ∧ ∀ function addr,
        Outstanding config after function addr ↔ Outstanding config run.dev function addr

/-- Page accounting is exact in every state that requests lead to. -/
theorem page_accounting (config : PageConfig) (run : PageRun)
    (reachable : PageReachable config run) : run.Exact config := by
  obtain ⟨holds, counts⟩ := reachable.holds
  have sound := holds.sound
  constructor
  case pages =>
    intro function fp live
    refine ⟨?_, ?_, sound.found.mpr ⟨live, rfl⟩, holds.noIdle function fp live⟩
    · exact (sound.counted function fp live).length
    · rw [sound.listed]
      exact and_iff_right ⟨function, live⟩
  case held => exact holds.member
  case once =>
    refine Nodup.map_on ?_ holds.nodup
    rintro ⟨left, addr⟩ leftIn ⟨right, other⟩ rightIn same
    obtain rfl : addr = other := same
    obtain ⟨fp, live, n, inside, clear, rfl⟩ := (holds.member left addr).mp leftIn
    have functions := ((sound.outstanding_iff live inside).mp ((holds.member right _).mp rightIn)).1
    rw [functions]
  case counters => exact counts
  case undone =>
    intro env funcId npages ecFunction after err fresh failed
    obtain ⟨after, -, counters⟩ := givePages_spec holds counts fresh failed
    refine ⟨counters err rfl, ?_⟩
    intro function addr
    rw [← after.member, ← holds.member]
    rfl

def config64k : PageConfig := ⟨16, false, SearchTree.Balance.right, by decide, by decide⟩

def pageAt (addr node : Nat) : SystemPage := ⟨true, [some addr], true, some node⟩

def onePage : GiveEnv := ⟨true, fun _ => false, [pageAt 65536 7], true⟩

/-- Three chunks of one page for virtual function 1. -/
theorem page_accounting_three : ∃ run, PageReachable config64k run ∧
      run.held = [(1, 65536), (1, 69632), (1, 73728)] ∧ run.Exact config64k := by
  have fresh : Fresh config64k PageDev.empty [pageAt 65536 7] := by
    constructor
    case mapped =>
      intro page member addr mapped
      rw [mem_singleton.mp member] at mapped
      obtain rfl : addr = 65536 := Option.some.inj (mem_singleton.mp mapped)
      exact ⟨by decide, by decide, by decide, fun _ _ live => absurd live not_mem_nil⟩
    case nodes => exact fun _ _ _ _ _ live => absurd live not_mem_nil
    case apart => exact pairwise_singleton _ _
  have step := @PageStep.give config64k ⟨PageDev.empty, []⟩
    (givePages config64k PageDev.empty onePage 1 3 false).1
    (givePages config64k PageDev.empty onePage 1 3 false).2 onePage 1 3 false fresh mk.eta.symm
  have reachable : PageReachable config64k _ := .single step
  exact ⟨_, reachable, by decide +kernel, page_accounting config64k _ reachable⟩

end MlnxOfed.PageAlloc
