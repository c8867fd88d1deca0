/-
The receive side hands out exactly the uncompressed sequence. A session in progress is described by how many
of its completions are handed out; budget, ring end and owner sweep only move that number and the position.
-/

import MlnxOfed.Ethernet.CqeEntries

namespace MlnxOfed.Ethernet

open Function Prod List Lib Session

namespace RxCq

private theorem updateOwner_apply (slots ci own count ix) : updateOwner slots ci own count ix =
      if ci ≤ ix ∧ ix < ci + count then setOpOwn (slots ix) own else slots ix := by
  induction count generalizing slots ci with
  | zero =>
    rw [if_neg (by omega)]
    rfl
  | succ count ih =>
    rw [updateOwner, ih]
    by_cases here : ix = ci
    · subst here
      rw [if_neg (by omega), if_pos (by omega), update_self]
    · rw [update_of_ne here]
      split
      · rw [if_pos (by omega)]
      · rw [if_neg (by omega)]

variable {position n : Nat}

theorem cqesUpdateOwner_slots {wq} (narrow : wq.logSz < 32)
    (cc : wq.cc = position % 2 ^ 32) (fits : n ≤ 2 ^ wq.logSz) (ix) :
    (cqesUpdateOwner wq n).slots ix = if ix < ringSlot wq.logSz position + n - 2 ^ wq.logSz then
        setOpOwn (wq.slots ix) (UInt8.ofNat (1 - ringLap wq.logSz position))
      else if ringSlot wq.logSz position ≤ ix ∧ ix < ringSlot wq.logSz position + n ∧ ix < 2 ^ wq.logSz then
        setOpOwn (wq.slots ix) (UInt8.ofNat (ringLap wq.logSz position))
      else wq.slots ix := by
  have below := ringSlot_lt wq.logSz position
  have half : 2 ^ wq.logSz ≤ 2 ^ 31 := Nat.pow_le_pow_right (by decide) (by omega)
  have index : wq.ctr2ix wq.cc = ringSlot wq.logSz position := by
    rw [cc]
    exact counter_and_mask (le_of_lt narrow)
  have lap : wq.getCtrWrapCnt wq.cc &&& 1 = ringLap wq.logSz position := by
    rw [cc, Nat.and_one_is_mod]
    exact counter_shift_lap narrow
  have size : wq.getSize = 2 ^ wq.logSz := by
    unfold Cqwq.getSize
    omega
  have noWrap : (ringSlot wq.logSz position + n) % 2 ^ 32 = ringSlot wq.logSz position + n :=
    Nat.mod_eq_of_lt (by omega)
  unfold cqesUpdateOwner
  simp only [index, lap, size, noWrap]
  rcases Nat.lt_or_ge (ringSlot wq.logSz position + n) (2 ^ wq.logSz) with short | past
  · rw [Nat.min_eq_right (le_of_lt short), Nat.max_eq_right (by omega), if_neg (by omega)]
    change updateOwner _ _ _ _ ix = _
    rw [updateOwner_apply, Nat.add_sub_cancel_left]
    split
    · rw [if_neg (by omega), if_pos (by omega)]
    · rw [if_neg (by omega), if_neg (by omega)]
  rw [Nat.min_eq_left past, Nat.max_eq_right (by omega), if_pos rfl]
  change updateOwner _ _ _ _ ix = _
  rw [updateOwner_apply]
  have rest : n - (2 ^ wq.logSz - ringSlot wq.logSz position) =
      ringSlot wq.logSz position + n - 2 ^ wq.logSz := by omega
  rw [rest, zero_add]
  simp only [Nat.zero_le, true_and]
  split
  · rw [updateOwner_apply, if_neg (by omega)]
  · rw [updateOwner_apply]
    by_cases inside : ringSlot wq.logSz position ≤ ix ∧ ix < 2 ^ wq.logSz
    · rw [if_pos (by omega), if_pos (by omega)]
    · rw [if_neg (by omega), if_neg (by omega)]

private theorem cqesUpdateOwner_swept {wq} (narrow : wq.logSz < 32) (cc : wq.cc = pos % 2 ^ 32)
    (fits : n ≤ 2 ^ wq.logSz) {offset} (inside : offset < n) : (cqesUpdateOwner wq n).slots
    (ringSlot wq.logSz (pos + offset)) = setOpOwn (wq.slots (ringSlot wq.logSz (pos + offset)))
        (UInt8.ofNat (ringLap wq.logSz (pos + offset))) := by
  have below := ringSlot_lt wq.logSz pos
  rw [cqesUpdateOwner_slots narrow cc fits]
  rcases Nat.lt_or_ge (ringSlot wq.logSz pos + offset) (2 ^ wq.logSz) with short | past
  · rw [ringSlot_add short, ringLap_add short, if_neg (by omega), if_pos (by omega)]
  · rw [ringSlot_add_past past (by omega), ringLap_add_past past (by omega), if_pos (by omega)]

theorem cqesUpdateOwner_kept {wq} (narrow : wq.logSz < 32) (cc : wq.cc = pos % 2 ^ 32)
    (fits : n ≤ 2 ^ wq.logSz) {other} (after : pos + n ≤ other)
    (near : other < pos + 2 ^ wq.logSz) : (cqesUpdateOwner wq n).slots (ringSlot wq.logSz other) =
      wq.slots (ringSlot wq.logSz other) := by
  obtain ⟨offset, rfl⟩ := Nat.exists_eq_add_of_le (le_trans (Nat.le_add_right _ _) after)
  have below := ringSlot_lt wq.logSz pos
  rw [cqesUpdateOwner_slots narrow cc fits]
  rcases Nat.lt_or_ge (ringSlot wq.logSz pos + offset) (2 ^ wq.logSz) with short | past
  · rw [ringSlot_add short, if_neg (by omega), if_neg (by omega)]
  · rw [ringSlot_add_past past (by omega), if_neg (by omega), if_neg (by omega)]

theorem cqesUpdateOwner_logSz (wq n) : (cqesUpdateOwner wq n).logSz = wq.logSz := by
  unfold cqesUpdateOwner
  simp only
  split <;> rfl

/-! ### One completion -/

def Rewritten (b : Nat) : Prop :=
  b = 63 ∨ (44 ≤ b ∧ b < 48) ∨ (20 ≤ b ∧ b < 22) ∨ (60 ≤ b ∧ b < 62)

/-- The decompressor has produced a session's completions below `index`: its title still has the session's
fields, and the next counter. -/
structure Carries (rq : RqParams) (session : Session) (index : Nat) (cqd : CqDecomp) : Prop where
  title : ∀ b, ¬ Rewritten b → ¬ (12 ≤ b ∧ b < 17) → cqd.title b = session.title b
  opcode : opOwn cqd.title &&& 0xf0 = opOwn session.title &&& 0xf0
  counter : rq.miniCqeHwStridx = false → cqd.wqeCounter = session.counter rq index

structure Ready (rq : RqParams) (session : Session) (index : Nat) (cqd : CqDecomp) : Prop
    extends Carries rq session index cqd where
  arr : cqd.miniArr = session.array (index / 8)
  idx : cqd.miniArrIdx = index % 8

/-- Its mini array is that of the last completion, and may be used up. -/
structure Between (rq : RqParams) (session : Session) (index : Nat) (cqd : CqDecomp) : Prop
    extends Carries rq session index cqd where
  arr : cqd.miniArr = session.array ((index - 1) / 8)
  idx : cqd.miniArrIdx = (index - 1) % 8 + 1

section Completion

variable {rq : RqParams} {session : Session} {index : Nat} {cqd : CqDecomp}

theorem Ready.mini (ready : Ready rq session index cqd) {byte} (small : byte < 8) :
    cqd.miniArr (8 * cqd.miniArrIdx + byte) = session.mini index byte := by
  rw [ready.arr, ready.idx]
  unfold array
  congr 1 <;> omega

private def retitle (wq : Cqwq) (cqcc : Nat) (cqd : CqDecomp) : CqeBytes := fun b =>
  if b = 63 then opOwn cqd.title &&& 0xf0 ||| UInt8.ofNat (0x01 &&& wq.getCtrWrapCnt cqcc)
  else if 20 ≤ b ∧ b < 22 then cqd.miniArr (8 * cqd.miniArrIdx + (b - 20))
  else if 44 ≤ b ∧ b < 48 then cqd.miniArr (8 * cqd.miniArrIdx + (b - 40))
  else cqd.title b

private theorem decompressCqe_title (rq wq cqcc cqd) :
    (decompressCqe rq wq cqcc cqd).title = if rq.miniCqeHwStridx then
        copyBytes (retitle wq cqcc cqd) 60 cqd.miniArr (8 * cqd.miniArrIdx + 2) 2
      else putBe16 (retitle wq cqcc cqd) 60 cqd.wqeCounter := by
  have same : setOpOwn (setOpOwn (copyBytes (copyBytes cqd.title 44 cqd.miniArr
      (8 * cqd.miniArrIdx + 4) 4) 20 cqd.miniArr (8 * cqd.miniArrIdx) 2) (opOwn cqd.title &&& 0xf0))
      (opOwn cqd.title &&& 0xf0 ||| UInt8.ofNat (0x01 &&& wq.getCtrWrapCnt cqcc)) = retitle wq cqcc cqd := by
    funext b
    unfold retitle
    rw [setOpOwn_apply, setOpOwn_apply]
    by_cases own : b = 63
    · rw [if_pos own, if_pos own]
    rw [if_neg own, if_neg own, if_neg own]
    unfold copyBytes
    by_cases sum : 20 ≤ b ∧ b < 22
    · rw [if_pos (by omega), if_pos sum]
    rw [if_neg (by omega), if_neg sum]
    by_cases bytes : 44 ≤ b ∧ b < 48
    · rw [if_pos (by omega), if_pos bytes]
      congr 1
      omega
    · rw [if_neg (by omega), if_neg bytes]
  unfold decompressCqe
  simp only [opOwn_setOpOwn]
  rw [← same]
  split
  · rfl
  · rfl

theorem decompressCqe_kept (rq wq cqcc cqd) {b}
    (kept : ¬ Rewritten b) : (decompressCqe rq wq cqcc cqd).title b = cqd.title b := by
  unfold Rewritten at kept
  have title : retitle wq cqcc cqd b = cqd.title b := by
    unfold retitle
    rw [if_neg (by omega), if_neg (by omega), if_neg (by omega)]
  rw [decompressCqe_title]
  split
  · unfold copyBytes
    rw [if_neg (by omega), title]
  · unfold putBe16
    rw [if_neg (by omega), if_neg (by omega), title]

variable {wq : Cqwq}

theorem Ready.decompressCqe_rewritten (ready : Ready rq session index cqd) (narrow : wq.logSz < 32) (base)
    {b} (rewritten : Rewritten b) : (decompressCqe rq wq ((base + index) % 2 ^ 32) cqd).title b =
      session.rxEntry rq wq.logSz base index b := by
  have lap : UInt8.ofNat (0x01 &&& wq.getCtrWrapCnt ((base + index) % 2 ^ 32)) =
      UInt8.ofNat (ringLap wq.logSz (base + index)) := by
    rw [Nat.and_comm, Nat.and_one_is_mod]
    exact congrArg _ (counter_shift_lap narrow)
  -- outside the counter both ways of writing it leave the same bytes
  have apart (away : ¬ (60 ≤ b ∧ b < 62)) : (decompressCqe rq wq ((base + index) % 2 ^ 32) cqd).title b =
        retitle wq ((base + index) % 2 ^ 32) cqd b := by
    rw [decompressCqe_title]
    split
    · unfold copyBytes
      rw [if_neg (by omega)]
    · unfold putBe16
      rw [if_neg (by omega), if_neg (by omega)]
  unfold rxEntry
  rcases rewritten with rfl | byteCnt | checkSum | wqeCounter
  · rw [apart (by omega), if_pos rfl]
    unfold retitle opOwnAt
    rw [if_pos rfl, lap, ready.opcode]
  · rw [apart (by omega), if_neg (by omega), if_pos byteCnt]
    unfold retitle
    rw [if_neg (by omega), if_neg (by omega), if_pos byteCnt, ready.mini (by omega)]
  · rw [apart (by omega), if_neg (by omega), if_neg (by omega), if_pos checkSum]
    unfold retitle
    rw [if_neg (by omega), if_pos checkSum, ready.mini (by omega)]
  rw [if_neg (by omega), if_neg (by omega), if_neg (by omega), if_pos wqeCounter, decompressCqe_title]
  by_cases stridx : rq.miniCqeHwStridx = true
  · rw [if_pos stridx, if_pos stridx, ← ready.mini (show b - 58 < 8 by omega)]
    unfold copyBytes
    rw [if_pos (by omega)]
    congr 1
    omega
  · rw [if_neg stridx, if_neg stridx, ready.counter ((Bool.not_eq_true _).mp stridx)]
    unfold putBe16
    by_cases high : b = 60
    · rw [if_pos high, if_pos high]
    · rw [if_neg high, if_neg high, if_pos (by omega)]

theorem Session.counter_stride (striding : rq.stridingRq = true) :
    session.counter rq (index + 1) = (session.counter rq index + session.strides index) % 2 ^ 16 := by
  unfold counter
  rw [if_pos striding, if_pos striding, range_succ, map_append, sum_append, Nat.mod_add_mod, add_assoc]
  rfl

theorem Session.counter_cyclic (cyclic : ¬ rq.stridingRq = true) : session.counter rq (index + 1) =
      (session.counter rq index + 1) % 2 ^ 16 &&& (2 ^ rq.wqLogSz - 1) := by
  have modMod (value : Nat) : value % 2 ^ 16 % 2 ^ rq.wqLogSz = value % 2 ^ min rq.wqLogSz 16 := by
    rcases Nat.le_total rq.wqLogSz 16 with small | large
    · rw [Nat.min_eq_left small]
      exact Nat.mod_mod_of_dvd _ (Nat.pow_dvd_pow 2 small)
    · rw [Nat.min_eq_right large]
      refine Nat.mod_eq_of_lt (lt_of_lt_of_le (Nat.mod_lt _ (by decide)) ?_)
      exact Nat.pow_le_pow_right (by decide) large
  rw [Nat.and_two_pow_sub_one_eq_mod, modMod]
  unfold counter
  rw [if_neg cyclic, if_neg cyclic, if_neg (Nat.succ_ne_zero index)]
  by_cases first : index = 0
  · subst first
    rw [if_pos rfl]
  · rw [if_neg first, Nat.mod_add_mod, add_assoc]

theorem decompressCqe_frame (rq wq cqcc cqd) : (decompressCqe rq wq cqcc cqd).miniArr = cqd.miniArr ∧
      (decompressCqe rq wq cqcc cqd).miniArrIdx = cqd.miniArrIdx ∧
      (decompressCqe rq wq cqcc cqd).left = cqd.left := by
  unfold decompressCqe
  simp only
  split
  · exact ⟨rfl, rfl, rfl⟩
  · exact ⟨rfl, rfl, rfl⟩

theorem Ready.carries (ready : Ready rq session index cqd) (narrow : wq.logSz < 32) (base) :
    Carries rq session (index + 1) (decompressCqe rq wq ((base + index) % 2 ^ 32) cqd) where
  title b kept other := by
    rw [decompressCqe_kept rq wq _ cqd kept]
    exact ready.title b kept other
  opcode := by
    unfold opOwn
    rw [ready.decompressCqe_rewritten narrow base (.inl rfl)]
    unfold Session.rxEntry Session.opOwnAt
    rw [if_pos rfl]
    exact forall_byte_lap (P := fun byte lap =>
      ((byte &&& 0xf0) ||| UInt8.ofNat lap) &&& 0xf0 = byte &&& 0xf0)
      (by decide +kernel) (by decide +kernel) _ _ _
  counter plain := by
    have strides : consumedStrides (decompressCqe rq wq ((base + index) % 2 ^ 32) cqd).title =
        session.strides index := by
      unfold consumedStrides Session.strides be16
      rw [ready.decompressCqe_rewritten narrow base (.inr (.inl (by decide))),
        ready.decompressCqe_rewritten narrow base (.inr (.inl (by decide)))]
      rfl
    have off : ¬ rq.miniCqeHwStridx = true := (Bool.not_eq_true _).mpr plain
    rw [decompressCqe_title, if_neg off] at strides
    have next : (decompressCqe rq wq ((base + index) % 2 ^ 32) cqd).wqeCounter =
        if rq.stridingRq then (cqd.wqeCounter + consumedStrides
          (putBe16 (retitle wq ((base + index) % 2 ^ 32) cqd) 60 cqd.wqeCounter)) % 2 ^ 16
        else (cqd.wqeCounter + 1) % 2 ^ 16 &&& (2 ^ rq.wqLogSz - 1) := by
      have title := decompressCqe_title rq wq ((base + index) % 2 ^ 32) cqd
      rw [if_neg off] at title
      rw [← title]
      unfold decompressCqe
      simp only [if_neg off]
    rw [next, strides, ready.counter plain]
    split_ifs with striding
    · rw [Session.counter_stride striding]
    · rw [Session.counter_cyclic striding]

theorem Ready.between (ready : Ready rq session index cqd) {after}
    (carries : Carries rq session (index + 1) after) (arr : after.miniArr = cqd.miniArr)
    (idx : after.miniArrIdx = cqd.miniArrIdx) :
    Between rq session (index + 1) { after with miniArrIdx := (after.miniArrIdx + 1) % 2 ^ 8 } :=
  { carries with
    arr := arr.trans ready.arr
    idx := by
      change (after.miniArrIdx + 1) % 2 ^ 8 = _
      rw [idx, ready.idx]
      omega }

theorem Ready.decompressCqe_first (ready : Ready rq session 0 cqd) (narrow : wq.logSz < 32) (base)
    (hash : ∀ b, 12 ≤ b ∧ b < 17 → cqd.title b = session.title b) :
    (decompressCqe rq wq (base % 2 ^ 32) cqd).title = session.rxEntry rq wq.logSz base 0 := by
  funext b
  by_cases rewritten : Rewritten b
  · exact ready.decompressCqe_rewritten narrow base rewritten
  rw [decompressCqe_kept rq wq _ cqd rewritten]
  unfold Rewritten at rewritten
  unfold rxEntry
  rw [if_neg (by omega), if_neg (by omega), if_neg (by omega), if_neg (by omega), if_neg (by omega)]
  by_cases inHash : 12 ≤ b ∧ b < 17
  · exact hash b inHash
  · exact ready.title b (by unfold Rewritten; omega) inHash

theorem decompressCqeNoHash_apply (rq wq cqcc cqd b) : (decompressCqeNoHash rq wq cqcc cqd).title b =
      if 12 ≤ b ∧ b < 17 then 0 else (decompressCqe rq wq cqcc cqd).title b := by
  unfold decompressCqeNoHash putBe32 putBe16
  simp only
  by_cases hash : 12 ≤ b ∧ b < 17
  · rw [if_pos hash]
    obtain rfl | rfl | rfl | rfl | rfl : b = 12 ∨ b = 13 ∨ b = 14 ∨ b = 15 ∨ b = 16 := by omega
    all_goals rfl
  · rw [if_neg hash, if_neg (by omega), if_neg (by omega), if_neg (by omega), if_neg (by omega),
      update_of_ne (by omega)]

theorem Ready.decompressCqeNoHash_entry (ready : Ready rq session index cqd) (narrow : wq.logSz < 32)
    (base) (later : index ≠ 0) : (decompressCqeNoHash rq wq ((base + index) % 2 ^ 32) cqd).title =
      session.rxEntry rq wq.logSz base index := by
  funext b
  rw [decompressCqeNoHash_apply]
  by_cases rewritten : Rewritten b
  · rw [if_neg (by unfold Rewritten at rewritten; omega), ready.decompressCqe_rewritten narrow base rewritten]
  have kept := decompressCqe_kept rq wq ((base + index) % 2 ^ 32) cqd rewritten
  have same := ready.title b rewritten
  unfold Rewritten at rewritten
  unfold rxEntry
  rw [if_neg (show ¬ b = 63 by omega), if_neg (show ¬ (44 ≤ b ∧ b < 48) by omega),
    if_neg (show ¬ (20 ≤ b ∧ b < 22) by omega), if_neg (show ¬ (60 ≤ b ∧ b < 62) by omega)]
  by_cases hash : 12 ≤ b ∧ b < 17
  · rw [if_pos hash, if_pos ⟨hash, later⟩]
  · rw [if_neg hash, if_neg (by tauto), kept, same hash]

theorem Ready.carriesNoHash (ready : Ready rq session index cqd) (narrow : wq.logSz < 32) (base) :
    Carries rq session (index + 1) (decompressCqeNoHash rq wq ((base + index) % 2 ^ 32) cqd) where
  title b kept other := by
    rw [decompressCqeNoHash_apply, if_neg other]
    exact (ready.carries narrow base).title b kept other
  opcode := by
    have own := (ready.carries narrow base).opcode
    unfold opOwn at own ⊢
    rw [decompressCqeNoHash_apply, if_neg (by decide)]
    exact own
  counter := (ready.carries narrow base).counter

end Completion

/-! ### A run of completions of one session -/

def ArraysFrom (log : Nat) (slots : Nat → CqeBytes) (session : Session) (base index : Nat) : Prop :=
  ∀ offset, index ≤ offset → offset < session.count → offset % 8 = 0 →
    slots (ringSlot log (base + offset)) = session.array (offset / 8)

theorem Between.fetch {rq session base index cqd wq}
    (between : Between rq session index cqd) (later : 0 < index) (more : index < session.count)
    (narrow : wq.logSz < 32) (arrays : ArraysFrom wq.logSz wq.slots session base index) :
    Ready rq session index (if cqd.miniArrIdx = miniCqeArraySize then
        readMiniArrSlot wq ((base + index) % 2 ^ 32) cqd else cqd) := by
  have idx := between.idx
  have carries := between.toCarries
  unfold miniCqeArraySize
  by_cases used : cqd.miniArrIdx = 8
  · have slot : readCqeSlot wq ((base + index) % 2 ^ 32) = session.array (index / 8) := by
      unfold readCqeSlot Cqwq.ctr2ix
      rw [counter_and_mask (le_of_lt narrow)]
      exact arrays index le_rfl more (by omega)
    rw [if_pos used]
    exact {
      title := carries.title
      opcode := carries.opcode
      counter := carries.counter
      arr := slot
      idx := show 0 = index % 8 by omega }
  rw [if_neg used]
  exact {
    title := carries.title
    opcode := carries.opcode
    counter := carries.counter
    arr := by
      rw [between.arr]
      congr 1
      omega
    idx := by omega }

/-- The loop has produced the completions from `index` on for some steps. -/
structure LoopDone (rq : RqParams) (session : Session) (base index steps : Nat) (rx : RxCq)
    (result : Nat × RxCq) : Prop where
  cqcc : result.1 = (base + (index + steps)) % 2 ^ 32
  ring : result.2.ring = rx.ring
  left : result.2.cqd.left = rx.cqd.left
  between : Between rq session (index + steps) result.2.cqd
  handled : result.2.handled.map fst = rx.handled.map fst ++
    (range' index steps).map (session.rxEntry rq rx.ring.wq.logSz base)

private theorem decompressLoop_spec {rq session base index steps}
    {rx} (between : Between rq session index rx.cqd) (later : 0 < index)
    (fits : index + steps ≤ session.count) (narrow : rx.ring.wq.logSz < 32)
    (arrays : ArraysFrom rx.ring.wq.logSz rx.ring.wq.slots session base index) :
    LoopDone rq session base index steps rx (decompressLoop rq steps ((base + index) % 2 ^ 32) rx) := by
  induction steps generalizing index rx with
  | zero =>
    exact {
      cqcc := rfl
      ring := rfl
      left := rfl
      between := between
      handled := (append_nil _).symm }
  | succ steps ih =>
    have ready := between.fetch later (by omega) narrow arrays
    have left : (if rx.cqd.miniArrIdx = miniCqeArraySize then
        readMiniArrSlot rx.ring.wq ((base + index) % 2 ^ 32) rx.cqd else rx.cqd).left =
        rx.cqd.left := by
      split
      · rfl
      · rfl
    rw [decompressLoop]
    generalize (if rx.cqd.miniArrIdx = miniCqeArraySize then
      readMiniArrSlot rx.ring.wq ((base + index) % 2 ^ 32) rx.cqd else rx.cqd) = cqd at ready left ⊢
    have frame := decompressCqe_frame rq rx.ring.wq ((base + index) % 2 ^ 32) cqd
    have entry := ready.decompressCqeNoHash_entry narrow base (Nat.ne_of_gt later)
    have next := ready.between (ready.carriesNoHash narrow base) frame.1 frame.2.1
    have counter : ((base + index) % 2 ^ 32 + 1) % 2 ^ 32 = (base + (index + 1)) % 2 ^ 32 := by
      rw [Nat.mod_add_mod, add_assoc]
    simp only [counter]
    have done := @ih (index + 1)
      { rx with
        cqd := { decompressCqeNoHash rq rx.ring.wq ((base + index) % 2 ^ 32) cqd with
          miniArrIdx := ((decompressCqeNoHash rq rx.ring.wq ((base + index) % 2 ^ 32)
            cqd).miniArrIdx + 1) % 2 ^ 8 }
        handled := rx.handled ++ [((decompressCqeNoHash rq rx.ring.wq ((base + index) % 2 ^ 32)
          cqd).title, decide (steps ≠ 0))] }
      next (Nat.succ_pos _) (by omega) narrow
      fun offset reached => arrays offset (Nat.le_of_succ_le reached)
    exact {
      cqcc := by rw [done.cqcc]; congr 2; omega
      ring := done.ring
      left := done.left.trans (frame.2.2.trans left)
      between := by
        have shifted : index + 1 + steps = index + (steps + 1) := by omega
        rw [← shifted]
        exact done.between
      handled := by
        rw [done.handled, map_append, append_assoc, range'_succ, map_cons]
        simp only [map_cons, map_nil, entry]
        rfl }

/-- A stretch of `done` completions from `index` on, `skipped` of them before. The slots behind are swept,
those ahead as they were. -/
structure ContDone (limit : Nat) (rq : RqParams) (session : Session)
    (base index skipped done : Nat) (rx : RxCq) (result : Nat × RxCq) : Prop where
  count : result.1 = done
  inv : RingInv limit result.2.ring (base + (index + done))
  left : result.2.cqd.left = session.count - (index + done)
  between : Between rq session (index + done) result.2.cqd
  logSz : result.2.ring.wq.logSz = rx.ring.wq.logSz
  produced : result.2.ring.produced = rx.ring.produced
  written : result.2.ring.written = rx.ring.written
  kept : ∀ q, base + (index + done) ≤ q → q < base + index + 2 ^ rx.ring.wq.logSz →
    result.2.ring.wq.slots (ringSlot rx.ring.wq.logSz q) = rx.ring.wq.slots (ringSlot rx.ring.wq.logSz q)
  handled : result.2.handled.map fst = rx.handled.map fst ++
    (range' (index + skipped) (done - skipped)).map (session.rxEntry rq rx.ring.wq.logSz base)

private theorem swept_stale {limit ring pos count}
    (inv : RingInv limit ring pos) (ahead : pos + count ≤ ring.produced) :
    RingInv limit
      { ring with wq := { cqesUpdateOwner ring.wq count with
        cc := (pos + count) % 2 ^ 32 } } (pos + count) := by
  have room := inv.room
  have released := inv.released
  have logSz := cqesUpdateOwner_logSz ring.wq count
  have fits : count ≤ 2 ^ ring.wq.logSz := by omega
  exact {
    narrow := by rw [logSz]; exact inv.narrow
    cc := rfl
    released := le_trans released (Nat.le_add_right _ _)
    consumed := ahead
    room := by rw [logSz]; exact room
    stale := by
      simp only [logSz]
      intro q low high
      rcases Nat.lt_or_ge q (pos + 2 ^ ring.wq.logSz) with old | fresh
      · have kept := cqesUpdateOwner_kept inv.narrow inv.cc fits (le_trans ahead low) old
        rw [kept]
        exact inv.stale q low old
      -- one round above a slot that has just been swept
      obtain ⟨offset, rfl⟩ := Nat.exists_eq_add_of_le fresh
      have shift : pos + 2 ^ ring.wq.logSz + offset = pos + offset + 2 ^ ring.wq.logSz := by omega
      have swept := cqesUpdateOwner_swept inv.narrow inv.cc fits (show offset < count by omega)
      rw [shift, ringSlot_add_round, swept]
      unfold cqeOwner
      rw [opOwn_setOpOwn]
      have bit : (UInt8.ofNat (ringLap ring.wq.logSz (pos + offset))).toNat &&& 1 =
          ringLap ring.wq.logSz (pos + offset) :=
        forall_byte_lap (P := fun _ lap => (UInt8.ofNat lap).toNat &&& 1 = lap)
          (fun _ => rfl) (fun _ => rfl) 0 _ _
      rw [bit]
      exact (ringLap_add_round_ne _ _).symm
    allowed := by rw [logSz]; exact inv.allowed }

theorem decompressCqesCont_spec {limit rq session base index skipped}
    {rx} (inv : RingInv limit rx.ring (base + index)) (fits : base + session.count ≤ rx.ring.produced)
    (between : Between rq session (index + skipped) rx.cqd)
    (arrays : ArraysFrom rx.ring.wq.logSz rx.ring.wq.slots session base (index + skipped))
    (left : rx.cqd.left = session.count - index) (unfinished : index < session.count)
    (started : 0 < index + skipped) (atMostOne : skipped ≤ 1) {budget} (pos : 0 < budget)
    (range : budget < 2 ^ 31) :
    ContDone limit rq session base index skipped (min (session.count - index) budget) rx
      (decompressCqesCont rq skipped budget rx) := by
  have room := inv.room
  have released := inv.released
  have power : 2 ^ rx.ring.wq.logSz ≤ 2 ^ 31 :=
    Nat.pow_le_pow_right (by decide) (Nat.le_of_lt_succ inv.narrow)
  have budgetNat : ((budget : Int) % 2 ^ 32).toNat = budget := by omega
  generalize doneEq : min (session.count - index) budget = done
  have doneLe : done ≤ session.count - index := by omega
  have donePos : 1 ≤ done := by omega
  have start : (rx.ring.wq.cc + skipped) % 2 ^ 32 = (base + (index + skipped)) % 2 ^ 32 := by
    rw [inv.cc, Nat.mod_add_mod, add_assoc]
  have loop : LoopDone rq session base (index + skipped) (done - skipped) rx
      (decompressLoop rq (done - skipped) ((base + (index + skipped)) % 2 ^ 32) rx) :=
    decompressLoop_spec between started (by omega) inv.narrow arrays
  have reached : index + skipped + (done - skipped) = index + done := by omega
  have distance : ((base + (index + done)) % 2 ^ 32 + 2 ^ 32 - rx.ring.wq.cc) % 2 ^ 32 = done := by
    rw [inv.cc, ← add_assoc]
    exact counter_distance (by omega)
  have swept := swept_stale inv (show base + index + done ≤ rx.ring.produced by omega)
  unfold decompressCqesCont
  simp only [left, budgetNat, doneEq, start]
  generalize decompressLoop rq (done - skipped) ((base + (index + skipped)) % 2 ^ 32) rx = res at loop
  have cqcc := loop.cqcc
  have betweenAfter := loop.between
  rw [reached] at cqcc betweenAfter
  simp only [cqcc, loop.ring, distance]
  rw [add_assoc] at swept
  exact {
    count := rfl
    inv := swept
    left := by
      change res.2.cqd.left - done = _
      rw [loop.left, left]
      omega
    between := { betweenAfter with }
    logSz := cqesUpdateOwner_logSz _ _
    produced := rfl
    written := rfl
    kept q low high :=
      cqesUpdateOwner_kept inv.narrow inv.cc (by omega) (by omega) high
    handled := loop.handled }

end RxCq

end MlnxOfed.Ethernet
