/-
Messages over the life of the command interface: whatever was done to the cached chains before, a message
handed out has a chain of linked blocks long enough for its length.
-/

import MlnxOfed.Command.MailboxCodec

namespace MlnxOfed.Command

open Prod Option List Lib CmdMsgCache MsgCaches

private theorem newBox_blockNum (dma head) {number} (token)
    (small : number < 2 ^ 32) : (newBox dma head number token).blockNum = number := by
  unfold CmdMailbox.blockNum newBox
  simp only
  rw [readBe_congr fun byte lower upper => setByte_other (show byte ≠ 573 by omega),
    readBe_writeBe _ _ _ _ small]

private theorem newBox_next (dma head number token) : (newBox dma head number token).next =
      ((head[0]?.map CmdMailbox.dma).getD 0).toNat := by
  unfold CmdMailbox.next newBox
  simp only
  rw [readBe_congr fun byte lower upper => setByte_other (show byte ≠ 573 by omega),
    readBe_congr fun byte lower upper => writeBe_outside (.inl (show byte < 568 by omega)),
    readBe_writeBe _ _ _ _ (UInt64.toNat_lt _), head?_eq_getElem?]

variable {memory : MsgMemory}

private theorem allocBoxes_linked {n token} (small : n < 2 ^ 32) {i} (rounds : i ≤ n)
    {head} (done : allocBoxes memory n token i = some head) :
    head.length = i ∧ ∀ (j) (box), head[j]? = some box →
      box.blockNum = n - i + j ∧ box.next = ((head[j + 1]?.map CmdMailbox.dma).getD 0).toNat := by
  induction i generalizing head with
  | zero =>
    rw [allocBoxes, some.injEq] at done
    subst done
    exact ⟨rfl, fun j box found => by simp at found⟩
  | succ i ih =>
    rw [allocBoxes, bind_eq_some_iff] at done
    obtain ⟨rest, old, made⟩ := done
    obtain ⟨dma, -, rfl⟩ := map_eq_some_iff.mp made
    obtain ⟨length, blocks⟩ := ih (by omega) old
    refine ⟨by rw [length_cons, length], ?_⟩
    intro j box found
    cases j with
    | zero =>
      rw [getElem?_cons_zero, some.injEq] at found
      subst found
      rw [newBox_blockNum _ _ _ (by omega), newBox_next]
      exact ⟨by omega, rfl⟩
    | succ j =>
      rw [getElem?_cons_succ] at found
      obtain ⟨number, next⟩ := blocks j box found
      exact ⟨by omega, next⟩

private theorem calcCmdBlocks_lt (len) : (calcCmdBlocks len).toNat < 2 ^ 32 := by
  unfold calcCmdBlocks
  simp only
  generalize wrapInt len - min 16 (wrapInt len) + (512 - 1) = sum
  have upper : wrapInt sum < 2 ^ 31 := by
    unfold wrapInt
    have bound := @Int.bmod_lt sum (2 ^ 32) (by decide)
    omega
  by_cases negative : wrapInt sum ≤ 0
  · have nonneg : 0 ≤ (-wrapInt sum).tdiv 512 := Int.tdiv_nonneg (by omega) (by omega)
    rw [Int.neg_tdiv] at nonneg
    omega
  · have pos : (wrapInt sum).tdiv 512 ≤ wrapInt sum := Int.tdiv_le_self _ (by omega)
    omega

theorem allocCmdMsg_spec {size token msg} (made : allocCmdMsg memory size token = some msg) :
    msg.parent = none ∧ msg.len = size ∧ Linked msg.next ∧ msg.next.length = (calcCmdBlocks size).toNat := by
  unfold allocCmdMsg at made
  split at made
  · obtain ⟨head, boxes, rfl⟩ := map_eq_some_iff.mp made
    obtain ⟨length, blocks⟩ := allocBoxes_linked (calcCmdBlocks_lt size) le_rfl boxes
    refine ⟨rfl, rfl, ?_, length⟩
    intro i box found
    obtain ⟨number, next⟩ := blocks i box found
    exact ⟨by omega, next⟩
  · exact absurd made (by simp)

/-! ### Steps -/

inductive CacheStep : MsgCaches → MsgCaches → Prop
  | alloc {caches next : MsgCaches} {msg : CmdMsg} (memory : MsgMemory) (inSize : Nat)
      (given : allocMsg caches memory inSize = (next, some msg)) :
      CacheStep caches { next with taken := msg :: next.taken }
  | allocFailed {caches next : MsgCaches} (memory : MsgMemory) (inSize : Nat)
      (refused : allocMsg caches memory inSize = (next, none)) : CacheStep caches next
  | copy {caches : MsgCaches} {left right : List CmdMsg} {msg written : CmdMsg}
      (bytes : List UInt8) (token : UInt8) (taken : caches.taken = left ++ msg :: right)
      (length : bytes.length = msg.len) (copied : copyToMsg msg bytes token = some written) :
      CacheStep caches { caches with taken := left ++ written :: right }
  | sign {caches : MsgCaches} {left right : List CmdMsg} {msg : CmdMsg}
      (taken : caches.taken = left ++ msg :: right) :
      CacheStep caches { caches with taken := left ++ calcChainSig msg :: right }
  | free {caches : MsgCaches} {left right : List CmdMsg} {msg : CmdMsg}
      (taken : caches.taken = left ++ msg :: right) :
      CacheStep caches
        { caches with cache := freeMsg caches.cache msg, taken := left ++ right }
  | numEnt {caches : MsgCaches} (index var : Nat) (memory : Nat → MsgMemory) : CacheStep caches
        { caches with
          cache := caches.cache.modify index fun ch => numEntStore index ch var memory }

def CachesReachable (isSf : Bool) (memory : Nat → Nat → MsgMemory) : MsgCaches → Prop :=
  Relation.ReflTransGen CacheStep (createMsgCache isSf memory)

structure CmdMsgCache.Wf (index : Nat) (ch : CmdMsgCache) : Prop where
  size : ch.maxInboxSize ≤ 16 + 512 * 512
  msgs : ∀ msg ∈ ch.head, msg.parent = some index ∧ Linked msg.next ∧
    msg.next.length = blockCount ch.maxInboxSize

def CmdMsg.Fits (msg : CmdMsg) (cache : List CmdMsgCache) : Prop :=
  Linked msg.next ∧ ∀ index ch, msg.parent = some index → cache[index]? = some ch →
    msg.next.length = blockCount ch.maxInboxSize

structure MsgCaches.Wf (caches : MsgCaches) : Prop where
  cached : ∀ (index : Nat) (ch : CmdMsgCache), caches.cache[index]? = some ch → ch.Wf index
  taken : ∀ msg ∈ caches.taken, msg.Fits caches.cache

theorem CmdMsg.Fits.of_sizes {msg : CmdMsg} {cache other : List CmdMsgCache} (fits : msg.Fits cache)
    (sizes : ∀ index : Nat, (other[index]?).map maxInboxSize =
      (cache[index]?).map maxInboxSize) : msg.Fits other := by
  refine ⟨fits.1, ?_⟩
  intro index ch parent found
  have size := sizes index
  rw [found, map_some] at size
  obtain ⟨old, known, same⟩ := map_eq_some_iff.mp size.symm
  rw [fits.2 index old parent known, same]

/-- What the loop over the caches may do: messages are only taken out, and one that is found was in a cache
of its size. -/
structure Searched (inSize : Nat) (cache : List CmdMsgCache)
    (result : List CmdMsgCache × Option CmdMsg) : Prop where
  sizes : ∀ index : Nat, (result.1[index]?).map maxInboxSize = (cache[index]?).map maxInboxSize
  heads : ∀ (index : Nat) (ch : CmdMsgCache), result.1[index]? = some ch →
    ∃ old : CmdMsgCache, cache[index]? = some old ∧ ∀ msg ∈ ch.head, msg ∈ old.head
  found : ∀ msg : CmdMsg, result.2 = some msg →
    ∃ (index : Nat) (ch : CmdMsgCache) (old : CmdMsg), cache[index]? = some ch ∧
      old ∈ ch.head ∧ msg = { old with len := inSize } ∧ inSize ≤ ch.maxInboxSize

theorem Searched.skip {inSize rest res} (searched : Searched inSize rest res) {first ch}
    (size : ch.maxInboxSize = first.maxInboxSize) (head : ch.head = first.head) :
    Searched inSize (first :: rest) (ch :: res.1, res.2) := by
  constructor
  case sizes =>
    intro index
    cases index with
    | zero => exact congrArg some size
    | succ index => exact searched.sizes index
  case heads =>
    intro index found known
    cases index with
    | zero =>
      rw [getElem?_cons_zero, some.injEq] at known
      subst known
      exact ⟨first, rfl, fun msg mem => head ▸ mem⟩
    | succ index => exact searched.heads index found known
  case found =>
    intro msg back
    obtain ⟨index, ch, old, known, mem, same, fits⟩ := searched.found msg back
    exact ⟨index + 1, ch, old, known, mem, same, fits⟩

private theorem takeCached_searched (inSize cache total miss) :
    Searched inSize cache (takeCached inSize cache total miss) := by
  induction cache generalizing total miss with
  | nil =>
    constructor
    case sizes => exact fun index => rfl
    case heads => exact fun index ch known => absurd known (by simp [takeCached])
    case found => exact fun msg back => absurd back (by simp [takeCached])
  | cons first rest ih =>
    rw [takeCached]
    split
    · exact (ih total miss).skip rfl rfl
    rename_i large
    have counted : (if total = true then first
        else { first with totalCommands := first.totalCommands + 1 }).head = first.head ∧
        (if total = true then first
          else { first with totalCommands := first.totalCommands + 1 }).maxInboxSize =
            first.maxInboxSize := by
      cases total <;> exact ⟨rfl, rfl⟩
    simp only
    split
    · rename_i empty
      refine (ih true true).skip ?_ ?_
      · cases miss <;> exact counted.2
      · cases miss <;> exact counted.1
    rename_i msg others listed
    rw [counted.1] at listed
    constructor
    case sizes =>
      intro index
      cases index with
      | zero => exact congrArg some counted.2
      | succ index => rfl
    case heads =>
      intro index ch known
      cases index with
      | zero =>
        rw [getElem?_cons_zero, some.injEq] at known
        subst known
        refine ⟨first, rfl, ?_⟩
        intro other mem
        rw [listed]
        exact mem_cons_of_mem msg mem
      | succ index => exact ⟨ch, known, fun other mem => mem⟩
    case found =>
      intro given back
      rw [some.injEq] at back
      subst back
      refine ⟨0, first, msg, rfl, ?_, rfl, Nat.le_of_not_lt large⟩
      rw [listed]
      exact .head _

private theorem blockCount_mono {small large} (le : small ≤ large) : blockCount small ≤ blockCount large := by
  unfold blockCount
  omega

theorem CmdMsgCache.Wf.of_heads {index : Nat} {ch old : CmdMsgCache} (wf : old.Wf index)
    (size : ch.maxInboxSize = old.maxInboxSize) (heads : ∀ msg ∈ ch.head, msg ∈ old.head) :
    ch.Wf index := by
  constructor
  case size => rw [size]; exact wf.size
  case msgs =>
    intro msg mem
    rw [size]
    exact wf.msgs msg (heads msg mem)

/-- What a message given out by `alloc_msg` is good for. -/
theorem allocMsg_spec {caches next} (wf : caches.Wf) {inSize given}
    (returned : allocMsg caches memory inSize = (next, given)) :
    next.Wf ∧ ∀ msg, given = some msg → msg.Fits next.cache ∧ msg.len = inSize ∧
      (inSize ≤ 2 ^ 31 - 496 → blockCount inSize ≤ msg.next.length) ∧
      (msg.parent = none → msg.next.length = (calcCmdBlocks inSize).toNat) := by
  -- A message of its own fits any caches, for it has none to go back to.
  have fresh {cache : List CmdMsgCache} {msg : CmdMsg}
      (made : allocCmdMsg memory inSize 0 = some msg) : msg.Fits cache ∧ msg.len = inSize ∧
        (inSize ≤ 2 ^ 31 - 496 → blockCount inSize ≤ msg.next.length) ∧
        (msg.parent = none → msg.next.length = (calcCmdBlocks inSize).toNat) := by
    obtain ⟨parent, len, linked, length⟩ := allocCmdMsg_spec made
    refine ⟨⟨linked, ?_⟩, len, ?_, fun _ => length⟩
    · intro index ch known
      rw [parent] at known
      exact absurd known (by simp)
    · intro fits
      rw [length, calcCmdBlocks_eq fits, Int.toNat_natCast]
  unfold allocMsg at returned
  split at returned
  · obtain ⟨rfl, rfl⟩ := mk.inj returned
    exact ⟨wf, fun msg made => fresh made⟩
  have searched := takeCached_searched inSize caches.cache false false
  have kept {realMiss : Nat} : Wf
      ⟨(takeCached inSize caches.cache false false).1, realMiss, caches.taken⟩ := by
    constructor
    case cached =>
      intro index ch known
      obtain ⟨old, before, heads⟩ := searched.heads index ch known
      have size := searched.sizes index
      rw [known, before, map_some, map_some, some.injEq] at size
      exact (wf.cached index old before).of_heads size heads
    case taken =>
      intro msg mem
      exact (wf.taken msg mem).of_sizes searched.sizes
  split at returned
  · rename_i cache msg res
    rw [res] at searched kept
    obtain ⟨rfl, rfl⟩ := mk.inj returned
    refine ⟨kept, ?_⟩
    intro other same
    rw [some.injEq] at same
    subst same
    obtain ⟨index, ch, old, known, mem, rfl, fits⟩ := searched.found msg rfl
    obtain ⟨parent, linked, length⟩ := (wf.cached index ch known).msgs old mem
    refine ⟨?_, rfl, fun _ => ?_, ?_⟩
    · have before : ({ old with len := inSize } : CmdMsg).Fits caches.cache := by
        refine ⟨linked, ?_⟩
        intro other otherCh named found
        have same : index = other := some.inj (parent.symm.trans named)
        subst same
        rw [known, some.injEq] at found
        subst found
        exact length
      exact before.of_sizes searched.sizes
    · simp only
      rw [length]
      exact blockCount_mono fits
    · intro orphan
      have none : old.parent = none := orphan
      rw [parent] at none
      exact absurd none (by simp)
  · rename_i cache res
    rw [res] at searched kept
    obtain ⟨rfl, rfl⟩ := mk.inj returned
    exact ⟨kept, fun msg made => fresh made⟩

/-! ### Every history -/

theorem allocCacheMsgs_spec {memory size} (fits : size ≤ 2 ^ 31 - 496) {i count} :
    ∀ msg ∈ allocCacheMsgs memory size i count, Linked msg.next ∧ msg.next.length = blockCount size := by
  induction count generalizing i with
  | zero => exact fun msg mem => absurd mem not_mem_nil
  | succ count ih =>
    intro msg mem
    rw [allocCacheMsgs] at mem
    split at mem
    · exact absurd mem not_mem_nil
    rename_i made res
    rcases mem_cons.mp mem with same | later
    · subst same
      obtain ⟨-, -, linked, length⟩ := allocCmdMsg_spec res
      rw [calcCmdBlocks_eq fits, Int.toNat_natCast] at length
      exact ⟨linked, length⟩
    · exact ih msg later

private theorem createCache_wf (memory index numEnt) {maxInboxSize}
    (size : maxInboxSize ≤ 16 + 512 * 512) : (createCache memory index numEnt maxInboxSize).Wf index := by
  constructor
  case size => exact size
  case msgs =>
    intro msg mem
    obtain ⟨old, made, rfl⟩ := mem_map.mp mem
    exact ⟨rfl, allocCacheMsgs_spec (show maxInboxSize ≤ 2 ^ 31 - 496 by omega) old made⟩

private theorem createMsgCache_wf (isSf) (memory : Nat → Nat → MsgMemory) : (createMsgCache isSf memory).Wf := by
  constructor
  case cached =>
    intro index ch known
    unfold createMsgCache at known
    simp only at known
    split at known
    · rw [getElem?_map, map_eq_some_iff] at known
      obtain ⟨-, -, rfl⟩ := known
      exact ⟨Nat.zero_le _, fun msg mem => absurd mem not_mem_nil⟩
    rw [getElem?_mapIdx, map_eq_some_iff] at known
    obtain ⟨entry, listed, rfl⟩ := known
    apply createCache_wf
    have sizes : ∀ entry ∈ cmdCacheNumEnt.zip cmdCacheEntSize, entry.2 ≤ 16 + 512 * 512 := by decide
    exact sizes entry (mem_of_getElem? listed)
  case taken => exact fun msg mem => absurd mem not_mem_nil

private theorem numEntStore_wf {index ch} (wf : ch.Wf index) (var)
    (memory) : (numEntStore index ch var memory).Wf index := by
  have size := wf.size
  unfold numEntStore
  split
  · refine @Wf.of_heads index _ ch wf rfl ?_
    intro msg mem
    exact mem_of_mem_drop mem
  constructor
  case size => exact size
  case msgs =>
    intro msg mem
    rcases mem_append.mp mem with old | new
    · exact wf.msgs msg old
    · obtain ⟨made, listed, rfl⟩ := mem_map.mp new
      exact ⟨rfl, allocCacheMsgs_spec (show ch.maxInboxSize ≤ 2 ^ 31 - 496 by omega) made
        (mem_reverse.mp listed)⟩

private theorem numEntStore_size (index ch var memory) :
    (numEntStore index ch var memory).maxInboxSize = ch.maxInboxSize := by
  unfold numEntStore
  split <;> rfl

variable {caches : MsgCaches}

theorem MsgCaches.Wf.modify (wf : caches.Wf) {index change}
    (size : ∀ ch, (change ch).maxInboxSize = ch.maxInboxSize)
    (keeps : ∀ ch, caches.cache[index]? = some ch → (change ch).Wf index) {taken}
    (users : ∀ msg ∈ taken, msg ∈ caches.taken) :
    Wf { caches with cache := caches.cache.modify index change, taken := taken } := by
  constructor
  case cached =>
    intro other ch known
    by_cases same : index = other
    · subst same
      rw [getElem?_modify_eq] at known
      obtain ⟨old, before, rfl⟩ := map_eq_some_iff.mp known
      exact keeps old before
    · rw [getElem?_modify_ne _ _ same] at known
      exact wf.cached other ch known
  case taken =>
    intro msg mem
    apply (wf.taken msg (users msg mem)).of_sizes
    intro other
    by_cases same : index = other
    · subst same
      rw [getElem?_modify_eq]
      cases caches.cache[index]? with
      | none => rfl
      | some ch => exact congrArg some (size ch)
    · rw [getElem?_modify_ne _ _ same]

variable {msg after : CmdMsg}

theorem MsgCaches.Wf.replace (wf : caches.Wf) {left right}
    (taken : caches.taken = left ++ msg :: right) (fits : after.Fits caches.cache) :
    Wf { caches with taken := left ++ after :: right } := by
  refine ⟨wf.cached, ?_⟩
  intro other mem
  rcases mem_append.mp mem with old | rest
  · exact wf.taken other (by rw [taken]; exact mem_append_left _ old)
  · rcases mem_cons.mp rest with same | behind
    · subst same
      exact fits
    · exact wf.taken other (by rw [taken]; exact mem_append_right _ (.tail _ behind))

theorem CmdMsg.Fits.of_chain {cache} (fits : msg.Fits cache)
    (parent : after.parent = msg.parent) (same : Forall₂ SameLinks after.next msg.next) : after.Fits cache := by
  refine ⟨fits.1.of_sameLinks same, ?_⟩
  intro index ch named known
  rw [same.length_eq]
  exact fits.2 index ch (parent.symm.trans named) known

private theorem calcChainSig_sameLinks (msg) : Forall₂ SameLinks (calcChainSig msg).next msg.next := by
  unfold calcChainSig
  generalize (calcCmdBlocks msg.len).toNat = n
  exact signBlocks_sameLinks n msg.next

theorem calcChainSig_parent (msg) : (calcChainSig msg).parent = msg.parent := by
  unfold calcChainSig
  generalize (calcCmdBlocks msg.len).toNat = n
  rfl

theorem CacheStep.wf {caches next} (step : CacheStep caches next) (wf : caches.Wf) : next.Wf := by
  cases step with
  | alloc memory inSize given =>
    obtain ⟨kept, spec⟩ := allocMsg_spec wf given
    refine ⟨kept.cached, ?_⟩
    intro msg mem
    rcases mem_cons.mp mem with same | before
    · subst same
      exact (spec msg rfl).1
    · exact kept.taken msg before
  | allocFailed memory inSize refused => exact (allocMsg_spec wf refused).1
  | copy bytes token taken length copied =>
    obtain ⟨filled, done, rfl⟩ := map_eq_some_iff.mp copied
    have fits := wf.taken _ (by rw [taken]; exact mem_append_right _ (.head _))
    exact wf.replace taken (fits.of_chain rfl (copyToBlocks_sameLinks done))
  | sign taken =>
    have fits := wf.taken _ (by rw [taken]; exact mem_append_right _ (.head _))
    exact wf.replace taken (fits.of_chain (calcChainSig_parent _) (calcChainSig_sameLinks _))
  | @free left right msg taken =>
    have fits := wf.taken msg (by rw [taken]; exact mem_append_right _ (.head _))
    have users other (mem : other ∈ left ++ right) : other ∈ caches.taken := by
      rw [taken]
      rcases mem_append.mp mem with before | behind
      · exact mem_append_left _ before
      · exact mem_append_right _ (.tail _ behind)
    unfold freeMsg
    cases parent : msg.parent with
    | none => exact ⟨wf.cached, fun other mem => wf.taken other (users other mem)⟩
    | some index =>
      refine @Wf.modify caches wf index (putBack msg) (fun ch => rfl) ?_ _ users
      intro ch known
      have old := wf.cached index ch known
      constructor
      case size => exact old.size
      case msgs =>
        intro other mem
        rcases mem_append.mp mem with before | last
        · exact old.msgs other before
        · rw [mem_singleton.mp last]
          exact ⟨parent, fits.1, fits.2 index ch parent known⟩
  | numEnt index var memory =>
    exact wf.modify (numEntStore_size index · var memory)
      (fun ch known => numEntStore_wf (wf.cached index ch known) var memory)
      (fun msg mem => mem)

theorem CachesReachable.wf {isSf memory} (reachable : CachesReachable isSf memory caches) : caches.Wf := by
  induction reachable with
  | refl => exact createMsgCache_wf isSf memory
  | tail _ step ih => exact step.wf ih

/-- A message for a length: a new one, or one of `alloc_msg` after some history. -/
inductive Obtained (msg : CmdMsg) (len : Nat) : Prop
  | fresh (memory : MsgMemory) (token : UInt8) (made : allocCmdMsg memory len token = some msg)
  | taken (isSf : Bool) (pages : Nat → Nat → MsgMemory) (caches next : MsgCaches)
      (reachable : CachesReachable isSf pages caches) (memory : MsgMemory)
      (given : allocMsg caches memory len = (next, some msg))

theorem Obtained.spec {msg len} (obtained : Obtained msg len) (fits : len ≤ 2 ^ 31 - 496) :
    msg.len = len ∧ msg.Wf ∧ (msg.parent = none → msg.next.length = blockCount len) := by
  cases obtained with
  | fresh memory token made =>
    obtain ⟨-, rfl, linked, length⟩ := allocCmdMsg_spec made
    rw [calcCmdBlocks_eq fits, Int.toNat_natCast] at length
    exact ⟨rfl, ⟨linked, le_of_eq length.symm⟩, fun _ => length⟩
  | taken isSf pages caches next reachable memory given =>
    obtain ⟨-, spec⟩ := allocMsg_spec reachable.wf given
    obtain ⟨chain, rfl, room, length⟩ := spec msg rfl
    rw [calcCmdBlocks_eq fits, Int.toNat_natCast] at length
    exact ⟨rfl, ⟨chain.1, room fits⟩, length⟩

/-- Every message handed out takes the bytes of its length and gives them back, in the first blocks of its
chain, and signing makes exactly these valid and tamper evident. Only one from a cache has others. -/
theorem mailbox_encoding {msg : CmdMsg} {len : Nat} (obtained : Obtained msg len) (fits : len ≤ 2 ^ 31 - 496)
    (bytes : List UInt8) (length : bytes.length = len) (token : UInt8) :
    ∃ after, copyToMsg msg bytes token = some after ∧ calcCmdBlocks len = blockCount len ∧
      Encoded msg after bytes token ∧ Signed after (calcChainSig after) (blockCount len) ∧
      (msg.parent = none → after.next.length = blockCount len) := by
  obtain ⟨sameLen, wf, own⟩ := obtained.spec fits
  obtain ⟨after, copied, encoded⟩ := copyToMsg_encoded wf bytes (length.trans sameLen.symm) token
  have afterLen : after.len = len := encoded.len.trans sameLen
  have signed := @calcChainSig_signed after (by rw [afterLen]; exact fits)
  rw [afterLen] at signed
  refine ⟨after, copied, calcCmdBlocks_eq fits, encoded, signed, ?_⟩
  intro orphan
  rw [encoded.length]
  exact own orphan

/-- The guarantee for a new message of two blocks. -/
theorem mailbox_encoding_fresh :
    ∃ msg after, allocCmdMsg ⟨true, fun i => some (UInt64.ofNat (1024 * (i + 1)))⟩ 1000 7 =
        some msg ∧ copyToMsg msg (replicate 1000 5) 9 = some after ∧
      Encoded msg after (replicate 1000 5) 9 ∧ Signed after (calcChainSig after) 2 := by
  have made : (allocCmdMsg ⟨true, fun i => some (UInt64.ofNat (1024 * (i + 1)))⟩ 1000 7).isSome =
      true := by decide +kernel
  obtain ⟨msg, made⟩ := isSome_iff_exists.mp made
  obtain ⟨after, copied, -, encoded, signed, -⟩ := mailbox_encoding (Obtained.fresh _ _ made)
    (by decide) (replicate 1000 5) length_replicate 9
  exact ⟨msg, after, made, copied, encoded, signed⟩

def oneMessage : Nat → Nat → MsgMemory := fun k i =>
  ⟨k == 1 && i == 0, fun j => some (UInt64.ofNat (1024 * (j + 1)))⟩

def noMemory : MsgMemory := ⟨false, fun _ => none⟩

private theorem allocMsg_putBack {small large rest}
    {realMiss msg} (parent : msg.parent = some 1) (noSmall : small.head = [])
    (noLarge : large.head = []) (sizes : small.maxInboxSize = 528 ∧ large.maxInboxSize = 1040) :
    ∃ next, allocMsg ⟨freeMsg (small :: large :: rest) msg, realMiss, []⟩ noMemory 100 =
      (next, some { msg with len := 100 }) := by
  have freed : freeMsg (small :: large :: rest) msg = small :: putBack msg large :: rest := by
    unfold freeMsg
    rw [parent]
    rfl
  have head : (putBack msg large).head = [msg] := by
    unfold putBack
    rw [noLarge]
    rfl
  have fits : (putBack msg large).maxInboxSize = 1040 := sizes.2
  rw [freed]
  simp [allocMsg, takeCached, noSmall, head, fits, sizes.1]

private theorem stale_block :
    ∃ msg, Obtained msg 100 ∧ ∃ box, msg.next[1]? = some box ∧ verifyBlockSig box.buf = 0 := by
  obtain ⟨small, large, rest, realMiss, msg, given, noSmall, noLarge, sizes, parent, len⟩ :
      ∃ small large rest realMiss msg, allocMsg (createMsgCache false oneMessage) noMemory 1040 =
            (⟨small :: large :: rest, realMiss, []⟩, some msg) ∧
          small.head = [] ∧ large.head = [] ∧ (small.maxInboxSize = 528 ∧ large.maxInboxSize = 1040) ∧
              msg.parent = some 1 ∧ msg.len = 1040 :=
    ⟨_, _, _, _, _, rfl, rfl, rfl, ⟨rfl, rfl⟩, rfl, rfl⟩
  obtain ⟨after, copied, -, encoded, signed, -⟩ := mailbox_encoding
    (Obtained.taken _ _ _ _ .refl _ given) (by decide)
    (replicate 1040 0) length_replicate 1
  have taken : CachesReachable false oneMessage _ := .single (CacheStep.alloc noMemory 1040 given)
  have written := taken.tail (@CacheStep.copy _ [] [] msg after (replicate 1040 0) 1 rfl
    (by rw [length_replicate, len]) copied)
  have valid := written.tail (@CacheStep.sign _ [] [] after rfl)
  have home : (calcChainSig after).parent = some 1 := by rw [calcChainSig_parent, encoded.parent, parent]
  generalize calcChainSig after = final at valid home signed
  have freed := valid.tail (@CacheStep.free _ [] [] final rfl)
  obtain ⟨next, again⟩ := @allocMsg_putBack small large rest realMiss final home noSmall noLarge sizes
  have room : 1 < final.next.length := by
    obtain ⟨-, wf, -⟩ := Obtained.spec (Obtained.taken _ _ _ _ .refl _ given) (by decide)
    have enough := wf.room
    rw [len] at enough
    rw [signed.length, encoded.length]
    exact enough
  obtain ⟨box, known⟩ : ∃ box, final.next[1]? = some box := ⟨_, getElem?_eq_getElem room⟩
  exact ⟨_, Obtained.taken _ _ _ next freed noMemory again, box, known, signed.accepted 1 box (by decide) known⟩

private theorem copyToMsg_none {msg} (noBlocks : msg.next = []) {bytes}
    (long : 16 < bytes.length) (token) : copyToMsg msg bytes token = none := by
  unfold copyToMsg
  rw [noBlocks]
  cases remaining : bytes.drop 16 with
  | nil =>
    have short := congrArg length remaining
    rw [length_drop, length_nil] at short
    omega
  | cons byte more => rfl

/-- A block behind those a message takes may pass the check too, and a message of nearly 2 GiB gets no
blocks. -/
theorem encoding_limits : (∃ msg, Obtained msg 100 ∧ calcCmdBlocks 100 = 1 ∧
      ∃ after, copyToMsg msg (replicate 100 0) 2 = some after ∧
        ∃ box, (calcChainSig after).next[1]? = some box ∧ verifyBlockSig box.buf = 0) ∧
      ∃ msg, Obtained msg (2 ^ 31 - 1) ∧
        copyToMsg msg (replicate (2 ^ 31 - 1) 0) 2 = none := by
  constructor
  · obtain ⟨msg, obtained, box, known, valid⟩ := stale_block
    obtain ⟨after, copied, blocks, encoded, signed, -⟩ := mailbox_encoding obtained (by decide)
      (replicate 100 0) length_replicate 2
    refine ⟨msg, obtained, blocks, after, copied, box, ?_, valid⟩
    rw [signed.kept 1 (by decide), encoded.kept 1 (by rw [length_replicate]; decide), known]
  have noBlocks : (calcCmdBlocks (2 ^ 31 - 1)).toNat = 0 :=
    calcCmdBlocks_overflow (by decide) (by decide)
  refine ⟨⟨none, 2 ^ 31 - 1, fun _ => 0, []⟩, ?_, ?_⟩
  · apply Obtained.fresh ⟨true, fun _ => none⟩ 0
    unfold allocCmdMsg
    rw [if_pos rfl]
    rw [noBlocks]
    rfl
  · apply copyToMsg_none rfl
    rw [length_replicate]
    decide

end MlnxOfed.Command
