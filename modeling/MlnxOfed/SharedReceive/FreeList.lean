/-
The free list of a shared receive queue over every sequence of posts and completions.
-/

import Mathlib.Data.List.Range
import MlnxOfed.SharedReceive.SrqWqes

namespace MlnxOfed.SharedReceive

open Prod Option Function List Lib
open Qp (toInt toSizeT)

structure SrqSize.Fits (size : SrqSize) : Prop where
  pow : ∃ log ≤ 16, size.max = 2 ^ log
  gs : wqeSrqNextSeg + size.maxGs * wqeDataSeg ≤ 2 ^ size.wqeShift
  gather : wqeSrqNextSeg + size.maxAvailGather * wqeDataSeg ≤ 2 ^ size.wqeShift

variable {size : SrqSize}

/-- The free WQEs in the order of their links, from `head` to `tail`. -/
structure FreePath (srq : Srq) (front : List Nat) : Prop where
  head : (front ++ [srq.tail]).head? = some srq.head
  linked : Linked srq.nextWqeIndex (front ++ [srq.tail])
  distinct : (front ++ [srq.tail]).Nodup
  free : ∀ index, index ∈ front ++ [srq.tail] ↔ index < srq.size.max ∧ index ∉ srq.outstanding.map fst

structure Sound (srq : Srq) : Prop where
  size : srq.size.Fits
  path : ∃ front, FreePath srq front
  once : (srq.outstanding.map fst).Nodup
  below : ∀ index ∈ srq.outstanding.map fst, index < srq.size.max
  ids : ∀ wqe ∈ srq.outstanding, srq.wrid wqe.1 = wqe.2
  scat : ∀ index i, srq.scat index i ≠ none → wqeSrqNextSeg + (i + 1) * wqeDataSeg ≤ 2 ^ srq.size.wqeShift

variable {srq next : Srq}

theorem SrqSize.Fits.pos (fits : size.Fits) : 0 < size.max ∧ size.max ≤ 2 ^ 16 := by
  obtain ⟨log, narrow, pow⟩ := fits.pow
  rw [pow]
  exact ⟨Nat.two_pow_pos log, Nat.pow_le_pow_right (by decide) narrow⟩

theorem FreePath.count {front} (path : FreePath srq front) (sound : Sound srq) :
    front.length + 1 + srq.outstanding.length = srq.size.max := by
  have all : ((front ++ [srq.tail]) ++ srq.outstanding.map fst).Perm (range srq.size.max) := by
    refine (perm_ext_iff_of_nodup ?_ nodup_range).mpr ?_
    · refine Nodup.append path.distinct sound.once ?_
      intro index free taken
      exact ((path.free index).mp free).2 taken
    intro index
    rw [mem_append, path.free, mem_range]
    constructor
    · rintro (free | taken)
      · exact free.1
      · exact sound.below index taken
    · intro less
      by_cases taken : index ∈ srq.outstanding.map fst
      · exact .inr taken
      · exact .inl ⟨less, taken⟩
  have length := all.length_eq
  rw [length_append, length_append, length_singleton, length_map, length_range] at length
  exact length

private theorem createSrqKernel_sound (fits : size.Fits) : Sound (createSrqKernel size) := by
  obtain ⟨log, narrow, pow⟩ := fits.pow
  obtain ⟨pos, small⟩ := fits.pos
  have all : range (size.max - 1) ++ [size.max - 1] = range size.max := by
    rw [← range_succ, Nat.succ_eq_add_one, Nat.sub_add_cancel pos]
  refine ⟨fits, ⟨range (size.max - 1), ?_, ?_, ?_, ?_⟩, nodup_nil, by simp [createSrqKernel],
    by simp [createSrqKernel], by simp [createSrqKernel]⟩
  · simp only [createSrqKernel, all]
    rw [head?_range, if_neg (by omega)]
  · simp only [createSrqKernel, all]
    refine (isChain_range _ _).mpr ?_
    intro index less
    dsimp only
    rw [pow, Nat.and_two_pow_sub_one_eq_mod, Nat.mod_eq_of_lt (by omega), Nat.mod_eq_of_lt (by omega)]
  · simp only [createSrqKernel, all]
    exact nodup_range
  · intro index
    simp only [createSrqKernel, all]
    simp

variable {wr : RecvWr}

private theorem writeScat_within {old} (fits : srq.size.Fits) (few : ¬ srq.size.maxGs < toSizeT wr.numSge.toInt)
    (before : ∀ i, old i ≠ none → wqeSrqNextSeg + (i + 1) * wqeDataSeg ≤ 2 ^ srq.size.wqeShift) {i}
    (written : writeScat srq wr old i ≠ none) : wqeSrqNextSeg + (i + 1) * wqeDataSeg ≤ 2 ^ srq.size.wqeShift := by
  have gs := fits.gs
  have gather := fits.gather
  have count : wr.count ≤ srq.size.maxGs := by
    have high := wr.numSge.toInt_lt
    have low := wr.numSge.le_toInt
    unfold toSizeT at few
    unfold RecvWr.count
    omega
  unfold writeScat at written
  unfold wqeDataSeg at *
  split at written
  next inList => omega
  next =>
    split at written
    next atEnd => omega
    next => exact before i written

theorem postOne_ok (posted : postOne srq wr = .ok next) :
    ¬ srq.size.maxGs < toSizeT wr.numSge.toInt ∧ srq.head ≠ srq.tail ∧ next = { srq with
        wrid := update srq.wrid srq.head wr.wrId
        head := srq.nextWqeIndex srq.head
        scat := update srq.scat srq.head (writeScat srq wr (srq.scat srq.head))
        outstanding := (srq.head, wr.wrId) :: srq.outstanding
        accepted := srq.accepted + 1 } := by
  unfold postOne at posted
  split at posted
  next => cases posted
  next few =>
    split at posted
    next => cases posted
    next more =>
      cases posted
      exact ⟨few, more, rfl⟩

theorem Sound.postOne (sound : Sound srq) (posted : postOne srq wr = .ok next) : Sound next := by
  obtain ⟨few, more, rfl⟩ := postOne_ok posted
  obtain ⟨front, path⟩ := sound.path
  cases front with
  | nil =>
    have same := path.head
    simp only [nil_append, head?_cons, some.injEq] at same
    exact absurd same.symm more
  | cons first rest =>
    have isHead : first = srq.head := by
      have same := path.head
      simpa using same
    subst isHead
    have isFree : srq.head < srq.size.max ∧ srq.head ∉ srq.outstanding.map fst := (path.free _).mp (by simp)
    have linked := path.linked
    have distinct := path.distinct
    rw [cons_append] at linked distinct
    obtain ⟨notLater, distinctRest⟩ := nodup_cons.mp distinct
    refine ⟨sound.size, ⟨rest, ?_, linked.tail, distinctRest, ?_⟩, ?_, ?_, ?_, ?_⟩
    · dsimp only
      cases rest with
      | nil =>
        rw [nil_append] at linked ⊢
        rw [linked.second]
        rfl
      | cons second rest =>
        rw [cons_append] at linked ⊢
        rw [linked.second]
        rfl
    · intro index
      have before := path.free index
      rw [cons_append, mem_cons] at before
      rw [map_cons, mem_cons, not_or]
      constructor
      · intro later
        have free := before.mp (.inr later)
        refine ⟨free.1, ?_, free.2⟩
        intro same
        have isHead : index = srq.head := same
        exact notLater (isHead ▸ later)
      · intro free
        rcases before.mpr ⟨free.1, free.2.2⟩ with same | later
        · exact absurd same free.2.1
        · exact later
    · dsimp only
      rw [map_cons]
      exact nodup_cons.mpr ⟨isFree.2, sound.once⟩
    · intro index taken
      rw [map_cons, mem_cons] at taken
      rcases taken with same | before
      · rw [same]
        exact isFree.1
      · exact sound.below index before
    · intro wqe isOut
      dsimp only at isOut ⊢
      rcases mem_cons.mp isOut with same | before
      · rw [same, update_self]
      · have other : wqe.1 ≠ srq.head := by
          intro same
          exact isFree.2 (same ▸ mem_map_of_mem before)
        rw [update_of_ne other]
        exact sound.ids wqe before
    · intro index i written
      dsimp only at written ⊢
      by_cases same : index = srq.head
      · rw [same, update_self] at written
        exact writeScat_within sound.size few (sound.scat srq.head) written
      · rw [update_of_ne same] at written
        exact sound.scat index i written

variable {wrs : List RecvWr}

theorem Sound.postLoop {nreq count err} (sound : Sound srq)
    (ran : postLoop srq wrs nreq = (next, count, err)) :
    Sound next ∧ (err = some .enomem → next.outstanding.length + 1 = next.size.max) ∧
      next.accepted + nreq = srq.accepted + count ∧ next.wqeCtr = srq.wqeCtr := by
  induction wrs generalizing srq nreq with
  | nil =>
    cases ran
    exact ⟨sound, nofun, rfl, rfl⟩
  | cons wr wrs ih =>
    unfold SharedReceive.postLoop at ran
    split at ran
    next code failed =>
      simp only [mk.injEq] at ran
      obtain ⟨same, isCount, isErr⟩ := ran
      rw [← same, ← isCount, ← isErr]
      refine ⟨sound, ?_, rfl, rfl⟩
      intro isNomem
      rw [some.inj isNomem] at failed
      have full : srq.head = srq.tail := by
        unfold SharedReceive.postOne at failed
        split at failed
        next => cases failed
        next =>
          split at failed
          next same => exact same
          next => cases failed
      obtain ⟨front, path⟩ := sound.path
      have count := path.count sound
      have empty : front = [] := by
        cases front with
        | nil => rfl
        | cons first rest =>
          have isHead : first = srq.head := by simpa using path.head
          have distinct := path.distinct
          rw [isHead, full, cons_append] at distinct
          exact absurd (by simp) (nodup_cons.mp distinct).1
      rw [empty] at count
      simp only [length_nil] at count
      omega
    next posted accepted =>
      obtain ⟨after, full, counted, same⟩ := ih (sound.postOne accepted) ran
      obtain ⟨_few, _more, rfl⟩ := postOne_ok accepted
      refine ⟨after, full, ?_, same⟩
      dsimp only at counted
      omega

theorem Sound.postSrqRecv (sound : Sound srq) (counted : srq.wqeCtr = srq.accepted % 2 ^ 16) (down wrs) :
    Sound (postSrqRecv srq down wrs).1 ∧ ((postSrqRecv srq down wrs).2 = some .enomem →
        (postSrqRecv srq down wrs).1.outstanding.length + 1 = (postSrqRecv srq down wrs).1.size.max) ∧
      (postSrqRecv srq down wrs).1.wqeCtr = (postSrqRecv srq down wrs).1.accepted % 2 ^ 16 := by
  unfold SharedReceive.postSrqRecv
  split
  next => exact ⟨sound, nofun, counted⟩
  next =>
    rcases ran : SharedReceive.postLoop srq wrs 0 with ⟨next, nreq, err⟩
    obtain ⟨after, full, accepted, same⟩ := sound.postLoop ran
    dsimp only
    split
    next none =>
      refine ⟨after, full, ?_⟩
      rw [same, counted]
      congr 1
      omega
    next =>
      obtain ⟨front, path⟩ := after.path
      refine ⟨{ after with
        path := ⟨front, path.head, path.linked, path.distinct, path.free⟩ }, full, ?_⟩
      dsimp only
      rw [same, counted, Nat.mod_add_mod]
      congr 1
      omega

theorem mem_complete {wqeIndex wqe} :
    wqe ∈ (srq.complete wqeIndex).outstanding ↔ wqe ∈ srq.outstanding ∧ wqe.1 ≠ wqeIndex := by
  simp [Srq.complete]

private theorem mem_complete_index {wqeIndex index} : index ∈ (srq.complete wqeIndex).outstanding.map fst ↔
      index ∈ srq.outstanding.map fst ∧ index ≠ wqeIndex := by
  constructor
  · intro inside
    obtain ⟨wqe, isWqe, same⟩ := mem_map.mp inside
    obtain ⟨old, other⟩ := mem_complete.mp isWqe
    rw [← same]
    exact ⟨mem_map_of_mem old, other⟩
  · rintro ⟨inside, other⟩
    obtain ⟨wqe, isWqe, same⟩ := mem_map.mp inside
    rw [← same] at other ⊢
    exact mem_map_of_mem (mem_complete.mpr ⟨isWqe, other⟩)

theorem Sound.freeSrqWqe {wqeIndex} (sound : Sound srq) (taken : wqeIndex ∈ srq.outstanding.map fst) :
    Sound (freeSrqWqe (srq.complete wqeIndex) wqeIndex) := by
  obtain ⟨front, path⟩ := sound.path
  have less := sound.below wqeIndex taken
  have fits : wqeIndex % 2 ^ 16 = wqeIndex := Nat.mod_eq_of_lt (lt_of_lt_of_le less sound.size.pos.2)
  have fresh : wqeIndex ∉ front ++ [srq.tail] := by
    intro free
    exact ((path.free wqeIndex).mp free).2 taken
  have once : ((srq.complete wqeIndex).outstanding.map fst).Nodup :=
    Nodup.sublist (Sublist.map _ filter_sublist) sound.once
  refine ⟨sound.size, ⟨front ++ [srq.tail], ?_, ?_, ?_, ?_⟩, once, ?_, ?_, sound.scat⟩
  · show ((front ++ [srq.tail]) ++ [wqeIndex]).head? = some srq.head
    rw [head?_append, path.head]
    rfl
  · show Linked (update srq.nextWqeIndex srq.tail (wqeIndex % 2 ^ 16)) (front ++ [srq.tail] ++ [wqeIndex])
    rw [fits]
    exact path.linked.append path.distinct wqeIndex
  · show ((front ++ [srq.tail]) ++ [wqeIndex]).Nodup
    refine Nodup.append path.distinct (nodup_singleton _) ?_
    intro index free isNew
    rw [mem_singleton.mp isNew] at free
    exact fresh free
  · intro index
    show index ∈ (front ++ [srq.tail]) ++ [wqeIndex] ↔
      index < srq.size.max ∧ index ∉ (srq.complete wqeIndex).outstanding.map fst
    rw [mem_append, mem_singleton, path.free, mem_complete_index]
    constructor
    · rintro (free | same)
      · exact ⟨free.1, fun inside => free.2 inside.1⟩
      · rw [same]
        exact ⟨less, fun inside => inside.2 rfl⟩
    · rintro ⟨below, notTaken⟩
      by_cases same : index = wqeIndex
      · exact .inr same
      · exact Or.inl ⟨below, fun inside => notTaken ⟨inside, same⟩⟩
  · intro index inside
    exact sound.below index (mem_complete_index.mp inside).1
  · intro wqe isWqe
    exact sound.ids wqe (mem_complete.mp isWqe).1

def Move.Returns : Move → Prop
  | .poll cqe => (cqe.isError && cqe.xrc) = false
  | _ => True

/-- The links from `head` lead to `tail` over all WQEs not outstanding, once each; refusals for want of a
WQE, the `wr_id` of completions, the count of requests and the segments are right. -/
structure Exact (srq : Srq) : Prop where
  path : ∃ path : List Nat, path.head? = some srq.head ∧ path.getLast? = some srq.tail ∧
    Linked srq.nextWqeIndex path ∧ path.Nodup ∧
    ∀ index, index ∈ path ↔ index < srq.size.max ∧ index ∉ srq.outstanding.map fst
  enomem : ∀ down wrs, (postSrqRecv srq down wrs).2 = some .enomem →
    (postSrqRecv srq down wrs).1.outstanding.length = srq.size.max - 1
  wrid : ∀ cqe wrId, Move.Returns (.poll cqe) → (cqe.wqeCounter, wrId) ∈ srq.outstanding →
    (pollOne (srq.complete cqe.wqeCounter) cqe).2 = some wrId
  counted : srq.wqeCtr = srq.accepted % 2 ^ 16
  scat : ∀ index i, srq.scat index i ≠ none → wqeSrqNextSeg + (i + 1) * wqeDataSeg ≤ 2 ^ srq.size.wqeShift

private theorem postLoop_size {nreq} : (postLoop srq wrs nreq).1.size = srq.size := by
  induction wrs generalizing srq nreq with
  | nil => rfl
  | cons wr wrs ih =>
    unfold postLoop
    split
    next => rfl
    next posted ok =>
      obtain ⟨_few, _more, rfl⟩ := postOne_ok ok
      rw [ih]

private theorem postSrqRecv_size (down wrs) : (postSrqRecv srq down wrs).1.size = srq.size := by
  unfold postSrqRecv
  split
  next => rfl
  next =>
    dsimp only
    split
    next => exact postLoop_size
    next => exact postLoop_size

theorem Sound.exact (sound : Sound srq) (counted : srq.wqeCtr = srq.accepted % 2 ^ 16) : Exact srq := by
  obtain ⟨front, path⟩ := sound.path
  refine ⟨⟨front ++ [srq.tail], path.head, getLast?_concat, path.linked, path.distinct, path.free⟩, ?_, ?_,
    counted, sound.scat⟩
  · intro down wrs failed
    obtain ⟨_after, full, _counted⟩ := sound.postSrqRecv counted down wrs
    have all := full failed
    rw [postSrqRecv_size] at all
    omega
  · intro cqe wrId kind isOut
    unfold pollOne
    rw [if_neg (by rw [show (cqe.isError && cqe.xrc) = false from kind]; decide)]
    exact congrArg some (sound.ids _ isOut)

theorem Reachable.sound (fits : size.Fits) (reachable : Reachable Move.Returns size srq) :
    Sound srq ∧ srq.wqeCtr = srq.accepted % 2 ^ 16 := by
  induction reachable with
  | create => exact ⟨createSrqKernel_sound fits, rfl⟩
  | @step srq next move _before kind moved ih =>
    obtain ⟨sound, counted⟩ := ih
    cases move with
    | post down wrs =>
      rw [← some.inj moved]
      obtain ⟨after, _full, kept⟩ := sound.postSrqRecv counted down wrs
      exact ⟨after, kept⟩
    | poll cqe =>
      simp only [SharedReceive.step] at moved
      split at moved
      next taken =>
        rw [← some.inj moved]
        unfold pollOne
        rw [if_neg (by rw [show (cqe.isError && cqe.xrc) = false from kind]; decide)]
        exact ⟨sound.freeSrqWqe taken, counted⟩
      next => cases moved
    | clean wqeIndex =>
      simp only [SharedReceive.step] at moved
      split at moved
      next taken =>
        rw [← some.inj moved]
        exact ⟨sound.freeSrqWqe taken, counted⟩
      next => cases moved

end MlnxOfed.SharedReceive
