/-
Flow control of the send ring over runs of driver and device.

The k-th posted request is signalled exactly when k is a multiple of the threshold, building blocks follow
one another, and at most every second request of a stretch is a staged write. With at most 15 requests
pending when the next is filled, neither queue nor staging buffer is overrun.
-/

import MlnxOfed.Steering.SendRing

namespace MlnxOfed.Steering

open List RingSystem SendRing RingPhase PostsendInfo RingStep

/-! ### The history of posted requests -/

def DmaAddr.inRing : DmaAddr → Bool
  | .ringMr _ => true
  | _ => false

def Wqe.isStaged (wqe : Wqe) : Bool := wqe.opcode = .rdmaWrite && wqe.data.addr.inRing

def signalledCount (wqes : List Wqe) : Nat := wqes.countP fun wqe => wqe.data.signaled

def stagedCount (wqes : List Wqe) : Nat := wqes.countP Wqe.isStaged

def blockCount (wqes : List Wqe) : Nat := (wqes.map Wqe.blocks).sum

def Wqe.StagedAt (wqe : Wqe) (offset : Nat) : Prop :=
  wqe.opcode = .rdmaWrite ∧ wqe.data.addr = .ringMr offset

/-- Signals, building blocks and staging slots follow the order of posting. -/
structure History (posted : List Wqe) : Prop where
  signals : ∀ k ≤ posted.length, signalledCount (posted.take k) = k / 8
  blocks : ∀ (i : Nat) (wqe : Wqe), posted[i]? = some wqe → 1 ≤ wqe.blocks ∧ wqe.blocks ≤ 2
  idx : ∀ (i : Nat) (wqe : Wqe), posted[i]? = some wqe → wqe.idx = blockCount (posted.take i) % 128
  inside : ∀ (i : Nat) (wqe : Wqe), posted[i]? = some wqe → wqe.idx + wqe.blocks ≤ 128
  staged : ∀ (i : Nat) (wqe : Wqe) (offset : Nat), posted[i]? = some wqe → wqe.StagedAt offset →
    offset = stagedCount (posted.take i) % 8 * 65536

structure Paired (posted : List Wqe) : Prop where
  even : blockCount posted % 2 = 0
  sparse : ∀ i ≤ posted.length, 2 * stagedCount (posted.drop i) ≤ posted.length - i

variable (left right : List Wqe)

private theorem signalledCount_append : signalledCount (left ++ right) = signalledCount left + signalledCount right :=
  countP_append

theorem stagedCount_append : stagedCount (left ++ right) = stagedCount left + stagedCount right :=
  countP_append

theorem blockCount_append : blockCount (left ++ right) = blockCount left + blockCount right := by
  simp [blockCount]

private theorem signalledCount_singleton (wqe) : signalledCount [wqe] = if wqe.data.signaled then 1 else 0 := by
  simp [signalledCount, countP_cons]

theorem stagedCount_singleton (wqe) : stagedCount [wqe] = if wqe.isStaged then 1 else 0 := by
  simp [stagedCount, countP_cons]

theorem Wqe.StagedAt.isStaged {wqe : Wqe} {offset : Nat} (staged : wqe.StagedAt offset) :
    wqe.isStaged = true := by
  simp [Wqe.isStaged, staged.1, staged.2, DmaAddr.inRing]

theorem History.nil : History [] where
  signals k bound := by
    have zero : k = 0 := Nat.le_zero.mp bound
    subst zero
    rfl
  blocks := nofun
  idx := nofun
  inside := nofun
  staged := nofun

theorem Paired.nil : Paired [] where
  even := rfl
  sparse i _ := by simp [stagedCount]

theorem History.append {posted} (history : History posted) {wqe}
    (signal : wqe.data.signaled = true ↔ (posted.length + 1) % 8 = 0) (size : 1 ≤ wqe.blocks ∧ wqe.blocks ≤ 2)
    (place : wqe.idx = blockCount posted % 128) (fits : wqe.idx + wqe.blocks ≤ 128)
    (slot : ∀ offset, wqe.StagedAt offset → offset = stagedCount posted % 8 * 65536) :
    History (posted ++ [wqe]) := by
  have old i item (found : (posted ++ [wqe])[i]? = some item) : (i < posted.length ∧ posted[i]? = some item) ∨
      (i = posted.length ∧ item = wqe) := by
    by_cases inside : i < posted.length
    · rw [getElem?_append_left inside] at found
      exact .inl ⟨inside, found⟩
    · rw [getElem?_append_right (by omega), getElem?_singleton] at found
      split at found
      · exact .inr ⟨by omega, (Option.some.inj found).symm⟩
      · cases found
  have takeOld i (bound : i ≤ posted.length) : (posted ++ [wqe]).take i = posted.take i :=
      take_append_of_le_length bound
  refine ⟨?_, ?_, ?_, ?_, ?_⟩
  · intro k bound
    rw [length_append, length_singleton] at bound
    by_cases inside : k ≤ posted.length
    · rw [takeOld k inside]
      exact history.signals k inside
    have last : k = (posted ++ [wqe]).length := by
      rw [length_append, length_singleton]
      omega
    have whole := history.signals posted.length le_rfl
    rw [take_length] at whole
    rw [last, take_length, signalledCount_append, signalledCount_singleton, whole,
      length_append, length_singleton]
    split_ifs with isSignal
    · have multiple := signal.mp isSignal
      omega
    · have notMultiple : ¬ (posted.length + 1) % 8 = 0 := fun same => isSignal (signal.mpr same)
      omega
  · intro i item found
    rcases old i item found with ⟨_, early⟩ | ⟨_, rfl⟩
    · exact history.blocks i item early
    · exact size
  · intro i item found
    rcases old i item found with ⟨inside, early⟩ | ⟨rfl, rfl⟩
    · rw [takeOld i (le_of_lt inside)]
      exact history.idx i item early
    · rw [takeOld _ le_rfl, take_length]
      exact place
  · intro i item found
    rcases old i item found with ⟨_, early⟩ | ⟨_, rfl⟩
    · exact history.inside i item early
    · exact fits
  · intro i item offset found isStaged
    rcases old i item found with ⟨inside, early⟩ | ⟨rfl, rfl⟩
    · rw [takeOld i (le_of_lt inside)]
      exact history.staged i item offset early isStaged
    · rw [takeOld _ le_rfl, take_length]
      exact slot offset isStaged

theorem History.blockCount_le {posted} (history : History posted) (i length) :
    blockCount ((posted.drop i).take length) ≤ 2 * length := by
  induction length generalizing i with
  | zero => simp [blockCount]
  | succ length ih =>
    cases found : posted[i]? with
    | none =>
      rw [List.getElem?_eq_none_iff] at found
      rw [drop_eq_nil_of_le found]
      simp [blockCount]
    | some wqe =>
      obtain ⟨bound, same⟩ := List.getElem?_eq_some_iff.mp found
      rw [drop_eq_getElem_cons bound, take_succ_cons, same]
      have rest := ih (i + 1)
      have size := (history.blocks i wqe found).2
      simp only [blockCount, map_cons, sum_cons] at rest ⊢
      omega

private theorem blockCount_take_add (posted : List Wqe) (i length : Nat) : blockCount (posted.take (i + length)) =
      blockCount (posted.take i) + blockCount ((posted.drop i).take length) := by
  rw [take_add, blockCount_append]

theorem History.slots_disjoint {posted} (history : History posted) {i j left right}
    (leftAt : posted[i]? = some left) (rightAt : posted[j]? = some right) (old : i < j) (near : j < i + 64) :
    Disjoint (Set.Ico left.idx (left.idx + left.blocks)) (Set.Ico right.idx (right.idx + right.blocks)) := by
  obtain ⟨iBound, leftSame⟩ := List.getElem?_eq_some_iff.mp leftAt
  have leftSize := history.blocks i left leftAt
  have rightSize := history.blocks j right rightAt
  have leftIdx := history.idx i left leftAt
  have rightIdx := history.idx j right rightAt
  have leftIn := history.inside i left leftAt
  have rightIn := history.inside j right rightAt
  have first : blockCount (posted.take (i + 1)) = blockCount (posted.take i) + left.blocks := by
    rw [blockCount_take_add, drop_eq_getElem_cons iBound, leftSame]
    simp [blockCount]
  have later := blockCount_take_add posted (i + 1) (j - (i + 1))
  have room := history.blockCount_le (i + 1) (j - (i + 1))
  rw [show i + 1 + (j - (i + 1)) = j by omega] at later
  rw [Set.disjoint_left]
  intro slot inLeft inRight
  rw [Set.mem_Ico] at inLeft inRight
  omega

/-- Requests counted by `pending_wqe` but not yet in the queue. -/
def RingPhase.unposted : RingPhase → Nat
  | .post info => if info.type = .writeIcm then 2 else 1
  | _ => 0

def PostsendInfo.isStaged (info : PostsendInfo) : Bool :=
  info.type = .writeIcm && info.write.addr.inRing

def RingPhase.stagedAhead : RingPhase → Nat
  | .post info => if info.isStaged then 1 else 0
  | _ => 0

def RingPhase.Bounded (pending : Nat) : RingPhase → Prop
  | .polling false _ => pending ≤ 15
  | .fill _ => pending ≤ 15
  | _ => pending ≤ 17

def RingPhase.toFill : RingPhase → Option PostsendInfo
  | .polling _ next => next
  | .fill info => some info
  | _ => none

def RingPhase.toPost : RingPhase → Option PostsendInfo
  | .post info => some info
  | _ => none

def PostsendInfo.Prepared (info : PostsendInfo) : Prop :=
  ∃ addr, info.write.addr = .caller addr

/-- A filled request agrees with the place it will take in the history. -/
structure PostsendInfo.Filled (posted : List Wqe) (info : PostsendInfo) : Prop where
  write : info.write.signaled = true ↔ (posted.length + 1) % 8 = 0
  read : info.type = .writeIcm → (info.read.signaled = true ↔ (posted.length + 2) % 8 = 0)
  slot : ∀ offset, info.type = .writeIcm → info.write.addr = .ringMr offset →
    offset = stagedCount posted % 8 * 65536

/-- `lost` counts the error entries: they are consumed without lowering
`pending_wqe`. -/
structure RingSystem.Valid (system : RingSystem) : Prop where
  signalTh : system.ring.signalTh = 8
  maxPostSendSize : system.ring.maxPostSendSize = 65536
  sqWqeCnt : system.ring.sqWqeCnt = 128
  history : History system.posted
  paired : Paired system.posted
  sqPc : system.ring.sqPc = blockCount system.posted % 2 ^ 32
  txHead : system.ring.txHead = (stagedCount system.posted + system.phase.stagedAhead) % 2 ^ 32
  completed : system.completed ≤ system.posted.length
  reported : system.cqes.length ≤ signalledCount (system.posted.take system.completed)
  polled : system.polled ≤ system.cqes.length
  account : ∃ lost, system.ring.pendingWqe + 8 * system.polled =
    system.posted.length + system.phase.unposted + 8 * lost
  bounded : system.phase.Bounded system.ring.pendingWqe
  prepared : ∀ info, system.phase.toFill = some info → info.Prepared
  filled : ∀ info, system.phase.toPost = some info → info.Filled system.posted

theorem RingSystem.start_valid : start.Valid where
  signalTh := rfl
  maxPostSendSize := rfl
  sqWqeCnt := by decide
  history := History.nil
  paired := Paired.nil
  sqPc := rfl
  txHead := rfl
  completed := le_rfl
  reported := le_rfl
  polled := le_rfl
  account := ⟨0, rfl⟩
  bounded := Nat.zero_le _
  prepared := nofun
  filled := nofun

section Invariant

variable {system : RingSystem}

section

variable (valid : system.Valid)

include valid

theorem RingSystem.Valid.reported_le : 8 * system.cqes.length ≤ system.completed := by
  have reported := valid.reported
  rw [valid.history.signals system.completed valid.completed] at reported
  omega

theorem RingSystem.Valid.unpolled_le :
    system.cqes.length - system.polled ≤ system.ring.pendingWqe / system.ring.signalTh := by
  have reported := valid.reported_le
  have completed := valid.completed
  obtain ⟨lost, account⟩ := valid.account
  rw [valid.signalTh]
  omega

theorem RingSystem.Valid.inFlight_le : system.posted.length - system.completed ≤ system.ring.pendingWqe := by
  have reported := valid.reported_le
  have polled := valid.polled
  obtain ⟨lost, account⟩ := valid.account
  omega

variable {phase : RingPhase}

omit valid in
theorem RingPhase.Bounded.le {pending} (bounded : phase.Bounded pending) : pending ≤ 17 := by
  cases phase with
  | idle => exact bounded
  | polling isDrain next =>
    cases isDrain with
    | false =>
      have tight : pending ≤ 15 := bounded
      omega
    | true => exact bounded
  | fill info =>
    have tight : pending ≤ 15 := bounded
    omega
  | post info => exact bounded

/-! ### Steps of the driver -/

theorem RingSystem.Valid.rephase (unfilled : system.phase.toPost = none) (stillUnfilled : phase.toPost = none)
    (bounded : phase.Bounded system.ring.pendingWqe)
    (prepared : ∀ info, phase.toFill = some info → info.Prepared) :
    ({ system with phase := phase } : RingSystem).Valid := by
  have noneLeft (other : RingPhase) (empty : other.toPost = none) : other.unposted = 0 ∧ other.stagedAhead =
      0 := by
    cases other with
    | post info => cases empty
    | idle => exact ⟨rfl, rfl⟩
    | polling isDrain next => exact ⟨rfl, rfl⟩
    | fill info => exact ⟨rfl, rfl⟩
  have txHead := valid.txHead
  have account := valid.account
  rw [(noneLeft _ unfilled).2] at txHead
  rw [(noneLeft _ unfilled).1] at account
  refine { valid with txHead := ?_, account := ?_, bounded := bounded, prepared := prepared, filled := ?_ }
  · change system.ring.txHead = (stagedCount system.posted + phase.stagedAhead) % 2 ^ 32
    rw [(noneLeft _ stillUnfilled).2]
    exact txHead
  · change ∃ lost, system.ring.pendingWqe + 8 * system.polled = system.posted.length + phase.unposted + 8 * lost
    rw [(noneLeft _ stillUnfilled).1]
    exact account
  · intro info posting
    rw [stillUnfilled] at posting
    cases posting

variable (next : Option PostsendInfo)

omit valid in
theorem afterPolling_toPost : (afterPolling next).toPost = none := by
  cases next <;> rfl

omit valid in
theorem afterPolling_toFill : (afterPolling next).toFill = next := by
  cases next <;> rfl

omit valid in
theorem afterPolling_bounded {pending} (next) (small : pending ≤ 15) :
    (afterPolling next).Bounded pending := by
  cases next with
  | none =>
    change pending ≤ 17
    omega
  | some info => exact small

theorem RingSystem.Valid.handlePendingWc (outside : system.phase = .idle)
    {next} (prepared : ∀ info, next = some info → info.Prepared) :
    ({ system with phase := drHandlePendingWc system.ring next } : RingSystem).Valid := by
  have most := valid.bounded.le
  have threshold := valid.signalTh
  have unfilled : system.phase.toPost = none := by rw [outside]; rfl
  unfold drHandlePendingWc
  split
  · apply valid.rephase unfilled (afterPolling_toPost next)
    · apply afterPolling_bounded
      omega
    · rw [afterPolling_toFill]
      exact prepared
  refine valid.rephase unfilled rfl ?_ prepared
  by_cases drains : system.ring.pendingWqe ≥ system.ring.signalTh * thNumsToDrain
  · rw [decide_eq_true drains]
    exact most
  · rw [decide_eq_false drains]
    change system.ring.pendingWqe ≤ 15
    simp only [threshold, thNumsToDrain] at drains
    omega

theorem RingSystem.Valid.disabled (unfilled : system.phase.toPost = none) :
    ({ system with ring := { system.ring with errState := true }, phase := .idle } : RingSystem).Valid := by
  have idle : ({ system with phase := .idle } : RingSystem).Valid :=
    valid.rephase unfilled rfl valid.bounded.le nofun
  exact { idle with }

theorem RingSystem.Valid.lostEntry (here : system.polled < system.cqes.length) :
    ({ system with polled := system.polled + 1 } : RingSystem).Valid := by
  obtain ⟨lost, account⟩ := valid.account
  refine { valid with polled := here, account := ⟨lost + 1, ?_⟩ }
  change system.ring.pendingWqe + 8 * (system.polled + 1) = _
  change _ = system.posted.length + system.phase.unposted + 8 * (lost + 1)
  omega

theorem RingSystem.Valid.consumed (here : system.polled < system.cqes.length) : ({ system with
      polled := system.polled + 1
      ring := { system.ring with
        pendingWqe := wrapSubU32 system.ring.pendingWqe system.ring.signalTh } } :
      RingSystem).Valid := by
  have reported := valid.reported_le
  have completed := valid.completed
  have most := valid.bounded.le
  obtain ⟨lost, account⟩ := valid.account
  have enough : 8 ≤ system.ring.pendingWqe := by omega
  have lowered : wrapSubU32 system.ring.pendingWqe system.ring.signalTh = system.ring.pendingWqe - 8 := by
    rw [wrapSubU32, valid.signalTh]
    omega
  rw [lowered]
  refine { valid with polled := here, account := ⟨lost, ?_⟩, bounded := ?_ }
  · change system.ring.pendingWqe - 8 + 8 * (system.polled + 1) =
      system.posted.length + system.phase.unposted + 8 * lost
    omega
  have small : system.ring.pendingWqe - 8 ≤ 9 := by omega
  generalize system.phase = phase
  cases phase with
  | idle => exact le_trans small (by decide)
  | polling isDrain next => cases isDrain <;> exact le_trans small (by decide)
  | fill info => exact le_trans small (by decide)
  | post info => exact le_trans small (by decide)

theorem RingSystem.Valid.turn {isDrain next}
    (polling : system.phase = .polling isDrain next) : (drHandlePendingWcTurn system isDrain next).Valid := by
  have unfilled : system.phase.toPost = none := by rw [polling]; rfl
  have bounded := valid.bounded
  have prepared := valid.prepared
  rw [polling] at bounded prepared
  unfold drHandlePendingWcTurn drCqPollOne
  cases found : system.cqes[system.polled]? with
  | none =>
    simp only
    split_ifs
    · exact valid.disabled unfilled
    simp only
    split
    · exact valid.rephase unfilled rfl bounded prepared
    rename_i leaves
    apply valid.rephase unfilled (afterPolling_toPost next)
    · apply afterPolling_bounded
      cases isDrain with
      | false => exact bounded
      | true =>
        rw [valid.signalTh] at leaves
        simp only [true_and] at leaves
        omega
    · rw [afterPolling_toFill]
      exact prepared
  | some code =>
    obtain ⟨here, _⟩ := List.getElem?_eq_some_iff.mp found
    cases code with
    | ok =>
      have consumed := valid.consumed here
      refine consumed.rephase unfilled rfl ?_ prepared
      have same := consumed.bounded
      change system.phase.Bounded _ at same
      rw [polling] at same
      exact same
    | reqErr => exact (valid.lostEntry here).disabled unfilled
    | respErr => exact (valid.lostEntry here).disabled unfilled

theorem RingSystem.Valid.buffOffset (unfilled : system.phase.toPost = none) :
    system.ring.buffOffset = stagedCount system.posted % 8 * 65536 := by
  have ahead : system.phase.stagedAhead = 0 := by
    cases phase : system.phase with
    | post info => rw [phase] at unfilled; cases unfilled
    | idle => rfl
    | polling isDrain next => rfl
    | fill info => rfl
  have mask : system.ring.txHead &&& (2 ^ 3 - 1) = system.ring.txHead % 2 ^ 3 :=
    Nat.and_two_pow_sub_one_eq_mod _ 3
  have txHead := valid.txHead
  rw [ahead] at txHead
  rw [SendRing.buffOffset, valid.signalTh, valid.maxPostSendSize]
  change (system.ring.txHead &&& (2 ^ 3 - 1)) * 65536 = _
  rw [mask, txHead]
  omega

omit valid in
theorem SendRing.countWqe_eq (ring : SendRing) (few : ring.pendingWqe ≤ 17) :
    ring.countWqe = { ring with pendingWqe := ring.pendingWqe + 1 } := by
  have unwrapped : addU32 ring.pendingWqe 1 = ring.pendingWqe + 1 := by
    rw [addU32]
    omega
  rw [countWqe, unwrapped]

variable {info : PostsendInfo}

theorem RingSystem.Valid.fillArgs (filling : system.phase = .fill info) (isArg : info.type ≠ .writeIcm) :
    ({ system with
      ring := (drFillWriteArgsSegs system.ring info).1
      phase := .post (drFillWriteArgsSegs system.ring info).2 } : RingSystem).Valid := by
  have few := valid.bounded
  obtain ⟨lost, account⟩ := valid.account
  have txHead := valid.txHead
  rw [filling] at few account txHead
  change system.ring.pendingWqe ≤ 15 at few
  change _ = system.posted.length + 0 + 8 * lost at account
  have counted := system.ring.countWqe_eq (by omega)
  unfold drFillWriteArgsSegs
  rw [counted]
  refine { valid with txHead := ?_, account := ⟨lost, ?_⟩, bounded := ?_, prepared := ?_, filled := ?_ }
  · simp only [stagedAhead, isStaged, isArg, decide_false, Bool.false_and]
    exact txHead
  · simp only [unposted, isArg, if_false]
    omega
  · change system.ring.pendingWqe + 1 ≤ 17
    omega
  · intro other never
    cases never
  · intro other same
    cases same
    refine ⟨?_, fun isWrite => absurd isWrite isArg, fun _ isWrite => absurd isWrite isArg⟩
    simp only [signals, valid.signalTh, decide_eq_true_eq]
    omega

theorem RingSystem.Valid.fillWrite (filling : system.phase = .fill info) (isWrite : info.type = .writeIcm)
    {txHead addr}
    (head : txHead = (stagedCount system.posted + if addr.inRing then 1 else 0) % 2 ^ 32)
    (slot : ∀ offset, addr = .ringMr offset → offset = stagedCount system.posted % 8 * 65536) :
    let ring := { system.ring with txHead := txHead }.countWqe
    ({ system with
      ring := ring.countWqe
      phase := .post { info with
        write := { info.write with addr := addr, signaled := ring.signals }
        read := ⟨.syncMr, info.write.length, ring.countWqe.signals⟩ } } : RingSystem).Valid := by
  have few := valid.bounded
  obtain ⟨lost, account⟩ := valid.account
  rw [filling] at few account
  change system.ring.pendingWqe ≤ 15 at few
  change _ = system.posted.length + 0 + 8 * lost at account
  have first := countWqe_eq { system.ring with txHead := txHead } (le_trans few (by decide))
  intro ring
  simp only [ring]
  rw [first]
  have second := countWqe_eq
    { system.ring with txHead := txHead, pendingWqe := system.ring.pendingWqe + 1 }
    (le_trans (Nat.succ_le_succ few) (by decide))
  simp only at second ⊢
  rw [second]
  refine { valid with txHead := ?_, account := ⟨lost, ?_⟩, bounded := ?_, prepared := ?_, filled := ?_ }
  · simp only [stagedAhead, isStaged, isWrite, decide_true, Bool.true_and]
    exact head
  · simp only [unposted, isWrite, if_true]
    omega
  · change system.ring.pendingWqe + 1 + 1 ≤ 17
    omega
  · intro other never
    cases never
  intro other same
  cases same
  refine ⟨?_, fun _ => ?_, fun offset _ same => slot offset same⟩
  · simp only [signals, valid.signalTh, decide_eq_true_eq]
    omega
  · simp only [signals, valid.signalTh, decide_eq_true_eq]
    omega

theorem RingSystem.Valid.fill (filling : system.phase = .fill info) (maxInlineSize) : ({ system with
      ring := (drFillDataSegs maxInlineSize system.ring info).1
      phase := .post (drFillDataSegs maxInlineSize system.ring info).2 } : RingSystem).Valid := by
  have offset := valid.buffOffset (by rw [filling]; rfl)
  obtain ⟨caller, prepared⟩ := valid.prepared info (by rw [filling]; rfl)
  have txHead := valid.txHead
  rw [filling] at txHead
  change system.ring.txHead = (stagedCount system.posted + 0) % 2 ^ 32 at txHead
  unfold drFillDataSegs
  split_ifs with isWrite
  · unfold drFillWriteIcmSegs
    by_cases staged : info.write.length > maxInlineSize
    · simp only [if_pos staged]
      apply valid.fillWrite filling isWrite
      · change addU32 system.ring.txHead 1 = (stagedCount system.posted + 1) % 2 ^ 32
        rw [addU32, txHead]
        omega
      · intro other same
        cases same
        exact offset
    · simp only [if_neg staged]
      refine valid.fillWrite filling isWrite ?_ ?_
      · rw [prepared]
        exact txHead
      · intro other same
        rw [prepared] at same
        cases same
  · exact valid.fillArgs filling isWrite

/-! ### Posting -/

omit valid in
private theorem block_of_counter (count) : (count % 2 ^ 32) &&& (128 - 1) = count % 128 := by
  have mask : (count % 2 ^ 32) &&& (2 ^ 7 - 1) = count % 2 ^ 32 % 2 ^ 7 := Nat.and_two_pow_sub_one_eq_mod _ 7
  change (count % 2 ^ 32) &&& (2 ^ 7 - 1) = _
  rw [mask]
  omega

omit valid in
theorem Paired.appendArg {posted} (paired : Paired posted) {arg}
    (blocks : arg.blocks = 2) (unstaged : arg.isStaged = false) : Paired (posted ++ [arg]) where
  even := by
    have even := paired.even
    rw [blockCount_append]
    simp only [blockCount, map_cons, map_nil, sum_cons, sum_nil, blocks] at even ⊢
    omega
  sparse i bound := by
    rw [length_append, length_singleton] at bound ⊢
    have none : stagedCount [arg] = 0 := by rw [stagedCount_singleton, unstaged]; rfl
    by_cases inside : i ≤ posted.length
    · rw [drop_append_of_le_length inside, stagedCount_append, none]
      have sparse := paired.sparse i inside
      omega
    · rw [drop_eq_nil_of_le (by rw [length_append, length_singleton]; omega)]
      simp [stagedCount]

omit valid in
theorem Paired.appendWrite {posted} (paired : Paired posted) {write read}
    (writeBlocks : write.blocks = 1) (readBlocks : read.blocks = 1)
    (unstaged : read.isStaged = false) : Paired (posted ++ [write] ++ [read]) where
  even := by
    have even := paired.even
    rw [blockCount_append, blockCount_append]
    simp only [blockCount, map_cons, map_nil, sum_cons, sum_nil, writeBlocks, readBlocks] at even ⊢
    omega
  sparse i bound := by
    simp only [length_append, length_singleton] at bound ⊢
    have none : stagedCount [read] = 0 := by rw [stagedCount_singleton, unstaged]; rfl
    have one : stagedCount [write] ≤ 1 := by rw [stagedCount_singleton]; split <;> decide
    by_cases inside : i ≤ posted.length
    · rw [append_assoc, drop_append_of_le_length inside, stagedCount_append, stagedCount_append, none]
      have sparse := paired.sparse i inside
      omega
    by_cases between : i = posted.length + 1
    · have last : (posted ++ [write] ++ [read]).drop i = [read] := by
        rw [between]
        simp
      rw [last, none]
      omega
    · rw [drop_eq_nil_of_le (by simp only [length_append, length_singleton]; omega)]
      simp [stagedCount]

theorem RingSystem.Valid.posted {sqPc wqes}
    (history : History (system.posted ++ wqes)) (paired : Paired (system.posted ++ wqes))
    (counter : sqPc = blockCount (system.posted ++ wqes) % 2 ^ 32)
    (staged : stagedCount wqes = system.phase.stagedAhead)
    (length : wqes.length = system.phase.unposted) :
    ({ system with
      ring := { system.ring with sqPc := sqPc }
      phase := .idle
      posted := system.posted ++ wqes } : RingSystem).Valid := by
  obtain ⟨lost, account⟩ := valid.account
  refine
    { valid with
      history := history, paired := paired, sqPc := counter, txHead := ?_, completed := ?_
      reported := ?_, account := ⟨lost, ?_⟩, bounded := valid.bounded.le, prepared := ?_
      filled := ?_ }
  · change system.ring.txHead = (stagedCount (system.posted ++ wqes) + 0) % 2 ^ 32
    rw [stagedCount_append, staged]
    exact valid.txHead
  · change system.completed ≤ (system.posted ++ wqes).length
    rw [length_append]
    exact Nat.le_add_right_of_le valid.completed
  · change _ ≤ signalledCount ((system.posted ++ wqes).take system.completed)
    rw [take_append_of_le_length valid.completed]
    exact valid.reported
  · change _ = (system.posted ++ wqes).length + 0 + 8 * lost
    rw [length_append, length]
    exact account
  · intro other never
    cases never
  · intro other never
    cases never

theorem RingSystem.Valid.post (posting : system.phase = .post info) : ({ system with
      ring := (drPostSend system.ring info).1
      phase := .idle
      posted := system.posted ++ (drPostSend system.ring info).2 } : RingSystem).Valid := by
  have filled := valid.filled info (by rw [posting]; rfl)
  have even := valid.paired.even
  have place : system.ring.sqPc &&& (system.ring.sqWqeCnt - 1) = blockCount system.posted % 128 := by
    rw [valid.sqWqeCnt, valid.sqPc, block_of_counter]
  unfold drPostSend
  split_ifs with isWrite
  · simp only [drRdmaSegments]
    let write : Wqe := ⟨.rdmaWrite, system.ring.sqPc &&& (system.ring.sqWqeCnt - 1), 1, info.write⟩
    let read : Wqe := ⟨.rdmaRead, addU32 system.ring.sqPc 1 &&& (system.ring.sqWqeCnt - 1), 1, info.read⟩
    have afterWrite : blockCount (system.posted ++ [write]) = blockCount system.posted + 1 :=
      blockCount_append _ _
    have secondCounter : addU32 system.ring.sqPc 1 = (blockCount system.posted + 1) % 2 ^ 32 := by
      rw [addU32, valid.sqPc]
      omega
    have secondPlace : addU32 system.ring.sqPc 1 &&& (system.ring.sqWqeCnt - 1) =
        (blockCount system.posted + 1) % 128 := by
      rw [valid.sqWqeCnt, secondCounter, block_of_counter]
    have first : History (system.posted ++ [write]) := by
      refine valid.history.append filled.write ⟨le_rfl, Nat.le_succ 1⟩ place ?_ ?_
      · have inside : blockCount system.posted % 128 + 1 ≤ 128 := by omega
        rw [← place] at inside
        exact inside
      · intro offset staged
        exact filled.slot offset isWrite staged.2
    have both : History (system.posted ++ [write] ++ [read]) := by
      refine first.append ?_ ⟨le_rfl, Nat.le_succ 1⟩ ?_ ?_ ?_
      · rw [length_append]
        exact filled.read isWrite
      · rw [afterWrite]
        exact secondPlace
      · have inside : (blockCount system.posted + 1) % 128 + 1 ≤ 128 := by omega
        rw [← secondPlace] at inside
        exact inside
      · intro offset staged
        cases staged.1
    have pairs : Paired (system.posted ++ [write] ++ [read]) := valid.paired.appendWrite rfl rfl rfl
    rw [append_assoc] at both pairs
    refine valid.posted both pairs ?_ ?_ ?_
    · rw [blockCount_append]
      change addU32 (addU32 system.ring.sqPc 1) 1 = (blockCount system.posted + (1 + (1 + 0))) % 2 ^ 32
      rw [secondCounter, addU32]
      omega
    · rw [posting]
      simp [stagedCount, countP_cons, Wqe.isStaged, stagedAhead, isStaged, isWrite]
    · rw [posting]
      simp [unposted, isWrite]
  · simp only [drRdmaSegments]
    let arg : Wqe := ⟨.flowTblAccess, system.ring.sqPc &&& (system.ring.sqWqeCnt - 1), 2, info.write⟩
    have history : History (system.posted ++ [arg]) := by
      refine valid.history.append filled.write ⟨Nat.le_succ 1, le_rfl⟩ place ?_ ?_
      · have inside : blockCount system.posted % 128 + 2 ≤ 128 := by omega
        rw [← place] at inside
        exact inside
      · intro offset staged
        cases staged.1
    refine valid.posted history (valid.paired.appendArg rfl rfl) ?_ ?_ ?_
    · rw [blockCount_append]
      change addU32 system.ring.sqPc 2 = (blockCount system.posted + 2) % 2 ^ 32
      rw [addU32, valid.sqPc]
      omega
    · rw [posting]
      simp [stagedCount, Wqe.isStaged, stagedAhead, isStaged, isWrite]
    · rw [posting]
      simp [unposted, isWrite]

end

theorem RingStep.valid {maxInlineSize after}
    (step : RingStep maxInlineSize system after) (valid : system.Valid) : after.Valid := by
  cases step with
  | call type addr length outside =>
    unfold drPostsendIcmData
    split
    · exact valid
    · apply valid.handlePendingWc outside
      intro info same
      cases same
      exact ⟨addr, rfl⟩
  | drain outside => exact valid.handlePendingWc outside nofun
  | poll isDrain next polling => exact valid.turn polling
  | fill info filling => exact valid.fill filling maxInlineSize
  | post info posting => exact valid.post posting
  | complete waiting =>
    refine { valid with completed := waiting, reported := ?_ }
    have earlier := valid.history.signals _ valid.completed
    have later := valid.history.signals _ waiting
    have reported := valid.reported
    rw [earlier] at reported
    rw [later]
    exact le_trans reported (Nat.div_le_div_right (Nat.le_succ _))
  | report opcode owed =>
    refine { valid with reported := ?_, polled := ?_ }
    · change (system.cqes ++ [opcode]).length ≤ _
      rw [length_append]
      exact owed
    · change system.polled ≤ (system.cqes ++ [opcode]).length
      rw [length_append]
      exact Nat.le_add_right_of_le valid.polled
  | fail => exact { valid with }

end Invariant

theorem RingReachable.valid {maxInlineSize system}
    (reachable : RingReachable maxInlineSize system) : system.Valid := by
  induction reachable with
  | refl => exact start_valid
  | tail _ step ih => exact step.valid ih

/-- Flow control: an entry is polled only when a threshold of requests is pending, unpolled entries are
covered, requests in flight lie in different building blocks, and a write about to be staged goes to a slot
no write in flight reads. -/
structure RingSystem.Safe (maxInlineSize : Nat) (system : RingSystem) : Prop where
  noUnderflow : system.polled < system.cqes.length → system.ring.signalTh ≤ system.ring.pendingWqe
  unpolled : system.cqes.length - system.polled ≤ system.ring.pendingWqe / system.ring.signalTh
  inQueue : ∀ wqe ∈ system.inFlight, wqe.idx + wqe.blocks ≤ system.ring.sqWqeCnt
  separate : system.inFlight.Pairwise fun left right =>
    Disjoint (Set.Ico left.idx (left.idx + left.blocks)) (Set.Ico right.idx (right.idx + right.blocks))
  staging : ∀ info, system.phase = .fill info → info.type = .writeIcm →
    info.write.length > maxInlineSize → ∀ wqe ∈ system.inFlight, wqe.opcode = .rdmaWrite →
      wqe.data.addr ≠ .ringMr system.ring.buffOffset

theorem RingSystem.Valid.inFlight_position {system : RingSystem} (valid : system.Valid) {wqe : Wqe}
    (mem : wqe ∈ system.inFlight) :
    ∃ i, system.posted[i]? = some wqe ∧ system.posted.length ≤ i + system.ring.pendingWqe := by
  obtain ⟨k, bound, same⟩ := mem_iff_getElem.mp mem
  have few := valid.inFlight_le
  rw [inFlight, length_drop] at bound
  refine ⟨system.completed + k, ?_, by omega⟩
  rw [List.getElem?_eq_some_iff]
  refine ⟨by omega, ?_⟩
  rw [← same]
  simp [inFlight]

theorem ring_reachable_safe (maxInlineSize : Nat) (system : RingSystem)
    (reachable : RingReachable maxInlineSize system) : system.Safe maxInlineSize := by
  have valid := reachable.valid
  have threshold := valid.signalTh
  have unpolled := valid.unpolled_le
  refine ⟨?_, unpolled, ?_, ?_, ?_⟩
  · intro present
    rw [threshold] at unpolled ⊢
    omega
  · intro wqe member
    obtain ⟨i, found, _⟩ := valid.inFlight_position member
    rw [valid.sqWqeCnt]
    exact valid.history.inside i wqe found
  · have most := valid.bounded.le
    have few := valid.inFlight_le
    rw [inFlight, pairwise_iff_getElem]
    intro i j iBound jBound before
    rw [length_drop] at iBound jBound
    rw [getElem_drop, getElem_drop]
    exact valid.history.slots_disjoint (getElem?_eq_getElem _) (getElem?_eq_getElem _)
      (Nat.add_lt_add_left before _) (by omega)
  intro info filling isWrite large wqe member writes same
  obtain ⟨i, found, recent⟩ := valid.inFlight_position member
  have offset := valid.buffOffset (by rw [filling]; rfl)
  have slot := valid.history.staged i wqe _ found ⟨writes, same⟩
  have few := valid.bounded
  rw [filling] at few
  change system.ring.pendingWqe ≤ 15 at few
  -- Equal slots mean eight staged writes from this one on, that is 16 requests.
  obtain ⟨bound, here⟩ := List.getElem?_eq_some_iff.mp found
  have sparse := valid.paired.sparse i (le_of_lt bound)
  have split : stagedCount system.posted =
      stagedCount (system.posted.take i) + stagedCount (system.posted.drop i) := by
    rw [← stagedCount_append, take_append_drop]
  have counted : 1 ≤ stagedCount (system.posted.drop i) := by
    rw [drop_eq_getElem_cons bound, here, ← singleton_append, stagedCount_append,
      stagedCount_singleton, if_pos (Wqe.StagedAt.isStaged ⟨writes, same⟩)]
    exact Nat.le_add_right 1 _
  rw [offset] at slot
  omega

/-- A staged write is posted and completed, and the next is about to be filled. -/
theorem ring_reachable_safe_second_write :
    ∃ system, RingReachable 0 system ∧ system.posted.length = 2 ∧ system.completed = 1 ∧
      system.phase = .fill (postsendInfo .writeIcm 4096 64) ∧ system.Safe 0 := by
  have filling : RingReachable 0 _ :=
    Relation.ReflTransGen.refl.tail (call start .writeIcm 4096 64 rfl)
  have posted := (filling.tail (fill _ _ rfl)).tail (post _ _ rfl)
  have reached := (posted.tail (complete _ (by decide))).tail (call _ .writeIcm 4096 64 rfl)
  exact ⟨_, reached, rfl, rfl, rfl, ring_reachable_safe 0 _ reached⟩

end MlnxOfed.Steering
