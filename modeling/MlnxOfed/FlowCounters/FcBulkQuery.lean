/-
The periodic refresh of the counters (fs_counters.c): bulk queries along the list, each from the next
counter's id rounded down to a multiple of four.

Ids and lengths have 32 bits, the lengths with a sign. The shift in `get_max_bulk_query_len` takes its count
modulo 32, as the processor does.
-/

import Mathlib.Data.List.Basic
import Mathlib.Data.List.Pairwise
import Mathlib.Tactic.IntervalCases

namespace MlnxOfed.FlowCounters

open Function List

def u32Of (n : Int) : Nat :=
  (n % 2 ^ 32).toNat

def intOf (n : Nat) : Int :=
  if n < 2 ^ 31 then n else n - 2 ^ 32

/-- `ALIGN(n, 4)` of a 32 bit word. -/
def align4 (n : Nat) : Nat :=
  (n + 3) / 4 * 4 % 2 ^ 32

structure Traffic where
  packets : Nat
  octets : Nat

structure FcCache where
  packets : Nat
  bytes : Nat
  lastuse : Nat

/-- One call of `update_counter_cache`, with the query whose reply it reads. -/
structure BulkUpdate where
  id : Nat
  query : Nat
  base : Nat
  len : Int
  index : Int

/-- The device's capability, the traffic of each counter at each query, and the buffer outside a reply. -/
structure BulkDevice where
  logMaxFlowCounterBulk : Nat
  traffic : Nat → Nat → Traffic
  outside : Nat → Int → Traffic

/-- The caches by id of the counter, the updates so far and the number of queries. -/
structure BulkState where
  caches : Nat → FcCache
  updates : List BulkUpdate
  queries : Nat

def mlx5SwMaxCountersBulk : Int := 2 ^ 15

def getMaxBulkQueryLen (log : Nat) : Int :=
  min mlx5SwMaxCountersBulk (intOf (2 ^ (log % 32)))

/-- `update_counter_cache`, where the entry has been found. -/
def updateCounterCache (now : Nat) (stats : Traffic) (cache : FcCache) : FcCache :=
  if cache.packets = stats.packets then cache else ⟨stats.packets, stats.octets, now⟩

def replyEntry (dev : BulkDevice) (query base : Nat) (len index : Int) : Traffic :=
  if 0 ≤ index ∧ index < len then dev.traffic query (base + index.toNat)
  else dev.outside query index

def bulkBaseId (id : Nat) : Nat :=
  id - id % 4

def bulkLen (log base lastId : Nat) : Int :=
  min (getMaxBulkQueryLen log) (intOf (align4 (u32Of (lastId - base + 1))))

def readCounter (dev : BulkDevice) (now base : Nat) (len : Int) (id : Nat) (s : BulkState) : BulkState :=
  let index := intOf (u32Of (id - base))
  { s with
    caches := update s.caches id
      (updateCounterCache now (replyEntry dev s.queries base len index) (s.caches id))
    updates := s.updates ++ [⟨id, s.queries, base, len, index⟩] }

def readCounters (dev : BulkDevice) (now base : Nat) (len : Int) : List Nat → BulkState → List Nat × BulkState
  | [], s => ([], s)
  | id :: rest, s =>
    if u32Of (base + len) ≤ id then (id :: rest, s)
    else readCounters dev now base len rest (readCounter dev now base len id s)

def queryLoop (dev : BulkDevice) (now lastId : Nat) : Nat → List Nat → BulkState → Option BulkState
  | 0, _, _ => none
  | _ + 1, [], s => some s
  | fuel + 1, id :: rest, s =>
    let base := bulkBaseId id
    let len := bulkLen dev.logMaxFlowCounterBulk base lastId
    let read := readCounters dev now base len (id :: rest) { s with queries := s.queries + 1 }
    queryLoop dev now lastId fuel read.1 read.2

/-- `mlx5_fc_stats_query_counter_range`, from the first counter of the list. -/
def mlx5FcStatsQueryCounterRange (dev : BulkDevice) (now lastId fuel : Nat) (counters : List Nat)
    (s : BulkState) : Option BulkState :=
  match counters with
  | [] => some s
  | first :: _ =>
    if first ≤ lastId then queryLoop dev now lastId fuel counters s else some s

/-- Every counter is updated once, in order, from the entry of its own id in a reply. -/
structure Refreshed (dev : BulkDevice) (now : Nat) (counters : List Nat) (s t : BulkState) :
    Prop where
  once : ∃ new, t.updates = s.updates ++ new ∧ new.map BulkUpdate.id = counters ∧
    ∀ update ∈ new, 0 ≤ update.index ∧ update.index < update.len ∧ update.base + update.index = update.id ∧
        t.caches update.id = updateCounterCache now (dev.traffic update.query update.id) (s.caches update.id)
  others : ∀ id, id ∉ counters → t.caches id = s.caches id

/-- From a multiple of four a query reaches each id that follows it, and nothing wraps. -/
def BulkFits (log : Nat) (counters : List Nat) (first last : Nat) : Prop :=
  (∀ id ∈ counters, (id % 4 : Nat) < getMaxBulkQueryLen log) ∧
    last / 4 - first / 4 + 1 < 2 ^ 29 ∧ (last < 2 ^ 32 - 4 ∨ getMaxBulkQueryLen log < 4)

variable {dev : BulkDevice} {now lastId : Nat} {counters : List Nat} {s t : BulkState}

structure Made (dev : BulkDevice) (now lastId : Nat) (counters : List Nat) (s t : BulkState)
    (update : BulkUpdate) : Prop where
  head : ∃ head ∈ counters, head ≤ update.id ∧ update.base = bulkBaseId head
  len : update.len = bulkLen dev.logMaxFlowCounterBulk update.base lastId
  below : update.id < u32Of (update.base + update.len)
  index : update.index = intOf (u32Of (update.id - update.base))
  cache : t.caches update.id = updateCounterCache now
    (replyEntry dev update.query update.base update.len update.index) (s.caches update.id)

theorem readCounters_spec (base len) (nodup : counters.Nodup) (s) :
    ∃ new rest t, readCounters dev now base len counters s = (rest, t) ∧
      counters = new.map BulkUpdate.id ++ rest ∧ t.updates = s.updates ++ new ∧
      (∀ update ∈ new, update.base = base ∧ update.len = len ∧ update.id < u32Of (base + len) ∧
        update.index = intOf (u32Of (update.id - base)) ∧
        t.caches update.id = updateCounterCache now
          (replyEntry dev update.query base len update.index) (s.caches update.id)) ∧
      (∀ id, id ∉ new.map BulkUpdate.id → t.caches id = s.caches id) ∧
      ∀ head, rest.head? = some head → u32Of (base + len) ≤ head := by
  induction counters generalizing s with
  | nil => exact ⟨[], [], s, rfl, rfl, (append_nil _).symm, nofun, fun _ _ => rfl, nofun⟩
  | cons id rest ih =>
    rw [nodup_cons] at nodup
    by_cases behind : u32Of (base + len) ≤ id
    · refine ⟨[], id :: rest, s, ?_, rfl, (append_nil _).symm, nofun, fun _ _ => rfl, ?_⟩
      · rw [readCounters, if_pos behind]
      · intro head isHead
        cases isHead
        exact behind
    obtain ⟨new, left, t, res, split, updates, made, others, stop⟩ :=
      ih nodup.2 (readCounter dev now base len id s)
    have notLater : id ∉ new.map BulkUpdate.id := by
      intro mem
      rw [split] at nodup
      exact nodup.1 (mem_append_left _ mem)
    refine ⟨⟨id, s.queries, base, len, intOf (u32Of (id - base))⟩ :: new, left, t, ?_, ?_, ?_, ?_, ?_, stop⟩
    · rw [readCounters, if_neg behind]
      exact res
    · rw [map_cons, cons_append, ← split]
    · rw [updates]
      exact append_assoc _ _ _
    · intro update mem
      rcases mem_cons.mp mem with rfl | inNew
      · refine ⟨rfl, rfl, Nat.lt_of_not_le behind, rfl, ?_⟩
        rw [others id notLater]
        exact update_self _ _ _
      obtain ⟨sameBase, sameLen, below, index, cache⟩ := made update inNew
      refine ⟨sameBase, sameLen, below, index, ?_⟩
      have apart : update.id ≠ id := by
        intro same
        exact notLater (mem_map.mpr ⟨update, inNew, same⟩)
      rw [cache]
      unfold readCounter
      dsimp only
      rw [update_of_ne apart]
    · intro other notMember
      rw [map_cons, mem_cons, not_or] at notMember
      rw [others other notMember.2]
      exact update_of_ne notMember.1 _ _

private theorem queryLoop_made {fuel} (sorted : counters.Pairwise (· < ·))
    (res : queryLoop dev now lastId fuel counters s = some t) :
    ∃ new, t.updates = s.updates ++ new ∧ new.map BulkUpdate.id = counters ∧
      (∀ update ∈ new, Made dev now lastId counters s t update) ∧
      ∀ id, id ∉ counters → t.caches id = s.caches id := by
  induction fuel generalizing counters s with
  | zero => cases res
  | succ fuel ih =>
    cases counters with
    | nil =>
      cases res
      exact ⟨[], (append_nil _).symm, rfl, nofun, fun _ _ => rfl⟩
    | cons id rest =>
      have nodup : (id :: rest).Nodup := sorted.imp fun less => Nat.ne_of_lt less
      rw [queryLoop] at res
      obtain ⟨new, left, middle, read, split, updates, made, others, -⟩ :=
        readCounters_spec (bulkBaseId id) (bulkLen dev.logMaxFlowCounterBulk (bulkBaseId id) lastId) nodup
          { s with queries := s.queries + 1 }
      rw [read] at res
      have sortedLeft : left.Pairwise (· < ·) := by
        rw [split] at sorted
        exact (pairwise_append.mp sorted).2.1
      obtain ⟨more, moreUpdates, moreIds, moreMade, moreOthers⟩ := ih sortedLeft res
      have apart : ∀ other ∈ new.map BulkUpdate.id, other ∉ left := by
        intro other inNew inLeft
        rw [split] at nodup
        exact (nodup_append.mp nodup).2.2 other inNew other inLeft rfl
      have first other (mem : other ∈ id :: rest) : id ≤ other := by
        rcases mem_cons.mp mem with rfl | inRest
        · exact le_rfl
        · exact le_of_lt ((pairwise_cons.mp sorted).1 other inRest)
      refine ⟨new ++ more, ?_, ?_, ?_, ?_⟩
      · rw [moreUpdates, updates, append_assoc]
      · rw [map_append, moreIds, ← split]
      · intro update mem
        rcases mem_append.mp mem with inNew | inMore
        · obtain ⟨sameBase, sameLen, below, index, cache⟩ := made update inNew
          have isId : update.id ∈ new.map BulkUpdate.id := mem_map_of_mem inNew
          have inAll : update.id ∈ id :: rest := by
            rw [split]
            exact mem_append_left _ isId
          refine ⟨⟨id, .head _, first _ inAll, sameBase⟩, ?_, ?_, ?_, ?_⟩
          · rw [sameBase]
            exact sameLen
          · rw [sameBase, sameLen]
            exact below
          · rw [sameBase]
            exact index
          · rw [sameBase, sameLen, moreOthers _ (apart _ isId)]
            exact cache
        · obtain ⟨⟨head, headMember, under, sameBase⟩, sameLen, below, index, cache⟩ := moreMade update inMore
          have isId : update.id ∈ left := by
            rw [← moreIds]
            exact mem_map_of_mem inMore
          refine ⟨⟨head, ?_, under, sameBase⟩, sameLen, below, index, ?_⟩
          · rw [split]
            exact mem_append_right _ headMember
          · rw [cache, others]
            exact fun inNew => apart _ inNew isId
      · intro other absent
        rw [split, mem_append, not_or] at absent
        rw [moreOthers other absent.2, others other absent.1]

theorem bulkBaseId_mod (id) : bulkBaseId id % 4 = 0 := by
  unfold bulkBaseId
  omega

theorem getMaxBulkQueryLen_cases (log) : getMaxBulkQueryLen log < 0 ∨
    getMaxBulkQueryLen log = 1 ∨ getMaxBulkQueryLen log = 2 ∨
      4 ≤ getMaxBulkQueryLen log ∧ getMaxBulkQueryLen log % 4 = 0 ∧ getMaxBulkQueryLen log ≤ 2 ^ 15 := by
  unfold getMaxBulkQueryLen
  have below : log % 32 < 32 := Nat.mod_lt _ (by decide)
  generalize log % 32 = count at below
  interval_cases count <;> decide

theorem align4_span {base last : Nat} (aligned : base % 4 = 0) (le : base ≤ last) (small : last < 2 ^ 32) :
    align4 (u32Of (last - base + 1)) = (last / 4 - base / 4 + 1) * 4 % 2 ^ 32 := by
  unfold align4 u32Of
  omega

/-- The length of a query, while the counters up to the last one fit an `int`. -/
theorem bulkLen_eq (log) {base last : Nat} (aligned : base % 4 = 0) (le : base ≤ last)
    (small : last < 2 ^ 32) (span : last / 4 - base / 4 + 1 < 2 ^ 29) :
    bulkLen log base last = min (getMaxBulkQueryLen log) ((last / 4 - base / 4 + 1) * 4 : Nat) := by
  have whole : (last / 4 - base / 4 + 1) * 4 % 2 ^ 32 = (last / 4 - base / 4 + 1) * 4 := by omega
  unfold bulkLen
  rw [align4_span aligned le small, whole, intOf, if_pos (by omega)]

variable {log head last : Nat}

theorem bulkLen_reaches (le : head ≤ last) (small : last < 2 ^ 32)
    (near : (head % 4 : Nat) < getMaxBulkQueryLen log) (span : last / 4 - head / 4 + 1 < 2 ^ 29)
    (wraps : last < 2 ^ 32 - 4 ∨ getMaxBulkQueryLen log < 4) :
    (head) < bulkBaseId head + bulkLen log (bulkBaseId head) last ∧
      bulkBaseId head + bulkLen log (bulkBaseId head) last < 2 ^ 32 ∧
        bulkLen log (bulkBaseId head) last ≤ 2 ^ 15 := by
  have base : bulkBaseId head = head / 4 * 4 := by
    unfold bulkBaseId
    omega
  have len := bulkLen_eq log (bulkBaseId_mod head) (by omega) small (by rw [base]; omega)
  have most := getMaxBulkQueryLen_cases log
  rw [len, base]
  omega

/-! ### The whole refresh -/

private theorem queryLoop_ends {fuel} (enough : counters.length < fuel)
    (sorted : counters.Pairwise (· < ·)) (small : lastId < 2 ^ 32)
    (ahead : ∀ id ∈ counters, id ≤ lastId ∧ (id % 4 : Nat) < getMaxBulkQueryLen
      dev.logMaxFlowCounterBulk ∧ lastId / 4 - id / 4 + 1 < 2 ^ 29)
    (wraps : lastId < 2 ^ 32 - 4 ∨ getMaxBulkQueryLen dev.logMaxFlowCounterBulk < 4) :
    ∃ t, queryLoop dev now lastId fuel counters s = some t := by
  induction fuel generalizing counters s with
  | zero => exact absurd enough (Nat.not_lt_zero _)
  | succ fuel ih =>
    cases counters with
    | nil => exact ⟨s, rfl⟩
    | cons id rest =>
      have nodup : (id :: rest).Nodup := sorted.imp fun less => Nat.ne_of_lt less
      obtain ⟨le, near, span⟩ := ahead id (.head _)
      obtain ⟨reaches, ends, -⟩ := bulkLen_reaches le small near span wraps
      obtain ⟨new, left, middle, read, split, -, -, -, stop⟩ :=
        @readCounters_spec dev now _ (bulkBaseId id)
          (bulkLen dev.logMaxFlowCounterBulk (bulkBaseId id) lastId) nodup
          { s with queries := s.queries + 1 }
      have moved : new ≠ [] := by
        rintro rfl
        have isLeft : left = id :: rest := split.symm
        have behind := stop id (by rw [isLeft]; rfl)
        unfold u32Of at behind
        omega
      have shorter : left.length < (id :: rest).length := by
        rw [split, length_append, length_map]
        have := length_pos_iff.mpr moved
        omega
      have suffix other (mem : other ∈ left) : other ∈ id :: rest := by
        rw [split]
        exact mem_append_right _ mem
      have sortedLeft : left.Pairwise (· < ·) := by
        rw [split] at sorted
        exact (pairwise_append.mp sorted).2.1
      have fewer : left.length < fuel := by omega
      rw [queryLoop, read]
      exact ih fewer sortedLeft fun other mem => ahead other (suffix other mem)

theorem Made.own {update} (made : Made dev now lastId counters s t update)
    (small : lastId < 2 ^ 32) (isLe : ∀ id ∈ counters, id ≤ lastId)
    (ahead : ∀ id ∈ counters, (id % 4 : Nat) < getMaxBulkQueryLen dev.logMaxFlowCounterBulk ∧
      lastId / 4 - id / 4 + 1 < 2 ^ 29)
    (wraps : lastId < 2 ^ 32 - 4 ∨ getMaxBulkQueryLen dev.logMaxFlowCounterBulk < 4) :
    0 ≤ update.index ∧ update.index < update.len ∧ update.base + update.index = update.id ∧
      t.caches update.id = updateCounterCache now (dev.traffic update.query update.id)
        (s.caches update.id) := by
  obtain ⟨head, mem, under, base⟩ := made.head
  obtain ⟨near, span⟩ := ahead head mem
  obtain ⟨reaches, ends, short⟩ := bulkLen_reaches (isLe head mem) small near span wraps
  have len := made.len
  have below := made.below
  have index := made.index
  have baseLe : update.base ≤ head := by
    rw [base]
    exact Nat.sub_le _ _
  rw [base] at len
  rw [← len, ← base] at reaches ends
  rw [← len] at short
  have inRange : u32Of (update.base + update.len) = update.base + update.len := by
    unfold u32Of
    omega
  have isIndex : update.index = update.id - update.base := by
    rw [index, u32Of, intOf]
    omega
  have bounds : 0 ≤ update.index ∧ update.index < update.len := by omega
  refine ⟨bounds.1, bounds.2, by omega, ?_⟩
  have own : update.base + update.index.toNat = update.id := by omega
  rw [made.cache, replyEntry, if_pos bounds, own]

private theorem index_near {log id head last : Nat} {index len : Int} (base : bulkBaseId head + index = id)
    (low : 0 ≤ index) (high : index < len) (isLen : len = bulkLen log (bulkBaseId head) last) :
    (id % 4 : Nat) < getMaxBulkQueryLen log := by
  have aligned := bulkBaseId_mod head
  have most : len ≤ getMaxBulkQueryLen log := by
    rw [isLen]
    exact min_le_left _ _
  omega

/-- The first query has a positive length only if the number of counters fits an `int`. -/
private theorem first_span {log first last : Nat} (le : first ≤ last) (small : last < 2 ^ 32)
    (pos : 0 < bulkLen log (bulkBaseId first) last) : last / 4 - first / 4 + 1 < 2 ^ 29 := by
  have base : bulkBaseId first / 4 = first / 4 := by
    unfold bulkBaseId
    omega
  have most : bulkLen log (bulkBaseId first) last ≤
      intOf (align4 (u32Of (last - bulkBaseId first + 1))) := min_le_right _ _
  have baseLe : bulkBaseId first ≤ last := by
    unfold bulkBaseId
    omega
  rw [align4_span (bulkBaseId_mod first) baseLe small, base, intOf] at most
  split at most <;> omega

/-- A query over the last counter ends within a word only below the last four ids, or when too short to span
it. -/
private theorem last_wraps (le : head ≤ last) (small : last < 2 ^ 32) (span : last / 4 - head / 4 + 1 < 2 ^ 29)
    (reaches : (last) < bulkBaseId head + bulkLen log (bulkBaseId head) last)
    (below : last < u32Of (bulkBaseId head + bulkLen log (bulkBaseId head) last)) :
    last < 2 ^ 32 - 4 ∨ getMaxBulkQueryLen log < 4 := by
  have base : bulkBaseId head = head / 4 * 4 := by
    unfold bulkBaseId
    omega
  have len := bulkLen_eq log (bulkBaseId_mod head) (by omega) small (by rw [base]; omega)
  have most := getMaxBulkQueryLen_cases log
  rw [len, base] at reaches below
  unfold u32Of at below
  omega

/-- A refresh of sorted counters ends with each updated once, from its own entry, exactly when the queries
fit. -/
theorem query_counter_range_iff {first : Nat}
    (sorted : counters.Pairwise (· < ·)) (isFirst : counters.head? = some first)
    (isLast : counters.getLast? = some lastId) (small : lastId < 2 ^ 32) :
    (∃ fuel t, mlx5FcStatsQueryCounterRange dev now lastId fuel counters s = some t ∧
        Refreshed dev now counters s t) ↔
      BulkFits dev.logMaxFlowCounterBulk counters first lastId := by
  have firstIn : first ∈ counters := mem_of_head? isFirst
  have lastIn : lastId ∈ counters := mem_of_getLast? isLast
  have leLast id (member : id ∈ counters) : id ≤ lastId := by
    obtain ⟨nonempty, rfl⟩ := mem_getLast?_eq_getLast isLast
    exact (sorted.imp le_of_lt).rel_getLast member
  have fromFirst id (member : id ∈ counters) : first ≤ id := by
    obtain ⟨rest, rfl⟩ := head?_eq_some_iff.mp isFirst
    exact (sorted.imp le_of_lt).rel_head member
  have inLoop fuel : mlx5FcStatsQueryCounterRange dev now lastId fuel counters s = queryLoop dev now lastId
      fuel counters s := by
    cases counters with
    | nil => cases isFirst
    | cons head rest =>
      cases isFirst
      exact if_pos (leLast _ (.head _))
  constructor
  · rintro ⟨fuel, t, result, refreshed⟩
    rw [inLoop] at result
    obtain ⟨new, updates, ids, made, -⟩ := queryLoop_made sorted result
    obtain ⟨same, sameUpdates, -, own⟩ := refreshed.once
    obtain rfl : new = same := append_cancel_left (updates.symm.trans sameUpdates)
    have updated id (member : id ∈ counters) : ∃ update ∈ new, update.id = id := by
      rw [← ids] at member
      exact mem_map.mp member
    have span : lastId / 4 - first / 4 + 1 < 2 ^ 29 := by
      obtain ⟨update, inNew, isId⟩ := updated first firstIn
      obtain ⟨head, headIn, under, base⟩ := (made update inNew).head
      obtain ⟨low, high, -, -⟩ := own update inNew
      have sameHead : head = first := le_antisymm (isId ▸ under) (fromFirst head headIn)
      have len := (made update inNew).len
      rw [base, sameHead] at len
      have pos : 0 < bulkLen dev.logMaxFlowCounterBulk (bulkBaseId first) lastId := by omega
      exact first_span (leLast first firstIn) small pos
    refine ⟨?_, span, ?_⟩
    · intro id member
      obtain ⟨update, inNew, rfl⟩ := updated id member
      obtain ⟨head, -, -, base⟩ := (made update inNew).head
      obtain ⟨low, high, sum, -⟩ := own update inNew
      have len := (made update inNew).len
      rw [base] at sum len
      exact index_near sum low high len
    obtain ⟨update, inNew, isId⟩ := updated lastId lastIn
    obtain ⟨head, headIn, -, base⟩ := (made update inNew).head
    obtain ⟨-, high, sum, -⟩ := own update inNew
    have len := (made update inNew).len
    have below := (made update inNew).below
    have later := fromFirst head headIn
    rw [base] at sum len
    rw [len, isId, base] at below
    exact last_wraps (leLast head headIn) small (by omega) (by omega) below
  · rintro ⟨near, span, wraps⟩
    have ahead id (member : id ∈ counters) : (id % 4 : Nat) < getMaxBulkQueryLen dev.logMaxFlowCounterBulk ∧
        lastId / 4 - id / 4 + 1 < 2 ^ 29 := by
      have later := fromFirst id member
      exact ⟨near id member, by omega⟩
    obtain ⟨t, result⟩ := @queryLoop_ends dev now lastId counters s _ (Nat.lt_succ_self _) sorted small
      (fun id member => ⟨leLast id member, ahead id member⟩) wraps
    obtain ⟨new, updates, ids, made, others⟩ := queryLoop_made sorted result
    refine ⟨_, t, (inLoop _).trans result, ⟨⟨new, updates, ids, ?_⟩, others⟩⟩
    intro update member
    exact (made update member).own small leLast ahead wraps

/-- A device with one packet for each counter that answers one counter, or 2 ^ 15. -/
def oneCounterBulk : BulkDevice :=
  ⟨0, fun _ _ => ⟨1, 64⟩, fun _ _ => ⟨0, 0⟩⟩

def wholeBulk : BulkDevice :=
  { oneCounterBulk with logMaxFlowCounterBulk := 15 }

def nothingRead : BulkState :=
  ⟨fun _ => ⟨0, 0, 0⟩, [], 0⟩

theorem query_counter_range_wholeBulk :
    ∃ fuel t, mlx5FcStatsQueryCounterRange wholeBulk 7 40000 fuel [5, 9, 40000] nothingRead =
      some t ∧ Refreshed wholeBulk 7 [5, 9, 40000] nothingRead t := by
  have isFirst : [5, 9, 40000].head? = some 5 := rfl
  refine (query_counter_range_iff (by decide) isFirst rfl (by decide)).mpr ⟨?_, by decide, ?_⟩
  · decide
  · exact .inl (by decide)

/-- Answering one counter at a time, the query for an id that is no multiple of four never reaches it. -/
theorem never_reached :
    ¬ ∃ fuel t, mlx5FcStatsQueryCounterRange oneCounterBulk 7 5 fuel [5] nothingRead = some t ∧
      Refreshed oneCounterBulk 7 [5] nothingRead t := by
  rintro ⟨fuel, t, result, -⟩
  have stuck fuel : ∀ s, queryLoop oneCounterBulk 7 5 fuel [5] s = none := by
    induction fuel with
    | zero => exact fun _ => rfl
    | succ fuel ih =>
      intro s
      rw [queryLoop]
      exact ih _
  have looped : queryLoop oneCounterBulk 7 5 fuel [5] nothingRead = some t := result
  rw [stuck fuel nothingRead] at looped
  cases looped

end MlnxOfed.FlowCounters
