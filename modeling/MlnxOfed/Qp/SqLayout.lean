/-
How the WQEs lie in the ring while a request is posted: they follow one another, every request has at most
the room `calc_sq_size` kept for it, and the slots of the requests not completed hold what `finish_wqe`
stored.
-/

import MlnxOfed.Lib.CyclicRing
import MlnxOfed.Qp.SendFits

namespace MlnxOfed.Qp

open List Lib Sq

def share (qp : Qp) : Nat := qp.size.wqeSize / 64

/-- The blocks taken by the requests from number `first` on. -/
def takenFrom (wqes : List Wqe) (first : Nat) : Nat :=
  ((wqes.filter fun wqe => decide (first ≤ wqe.wr)).map Wqe.blocks).sum

/-- The slot of a WQE holds what `finish_wqe` stored for it. -/
def Sq.Holds (qp : Qp) (sq : Sq) (wqe : Wqe) : Prop :=
  sq.wrid (slot qp wqe.start) = wqe.wrId ∧ sq.wqeHead (slot qp wqe.start) = wqe.wr % 2 ^ 32 ∧
    sq.wListNext (slot qp wqe.start) = (wqe.start + wqe.blocks) % 2 ^ 16

/-- `used` counts the blocks that the request being posted has taken so far. -/
structure Laid (qp : Qp) (sq : Sq) (used : Nat) : Prop where
  post : sq.curPost = sq.finish % 2 ^ 16
  ends : ∀ wqe ∈ sq.wqes, wqe.start + wqe.blocks ≤ sq.finish
  some : ∀ wqe ∈ sq.wqes, 0 < wqe.blocks ∧ wqe.touched ≤ wqe.blocks
  order : sq.wqes.Pairwise fun left right => left.start + left.blocks ≤ right.start ∧ left.wr ≤ right.wr
  numbered : ∀ wqe ∈ sq.wqes, wqe.wr ≤ sq.accepted
  reach : ∀ wqe ∈ sq.wqes, sq.finish ≤ wqe.start + (sq.accepted - wqe.wr) * share qp + used
  taken : ∀ first, first ≤ sq.accepted → takenFrom sq.wqes first ≤ (sq.accepted - first) * share qp + used
  holds : ∀ wqe ∈ sq.wqes, sq.completed ≤ wqe.wr → sq.Holds qp wqe

/-- `head` counts the requests of the calls that ended, `tail` those that completed. -/
structure Counted (qp : Qp) (sq : Sq) : Prop where
  head : sq.head = (sq.accepted - sq.nreq) % 2 ^ 32
  tail : sq.tail = sq.completed % 2 ^ 32
  ended : sq.completed + sq.nreq ≤ sq.accepted
  limit : sq.accepted ≤ sq.completed + qp.size.maxPost

variable {qp : Qp} {sq : Sq} {used : Nat}

theorem slot_eq (roomy : qp.size.Roomy) : ∃ log, log ≤ 16 ∧ qp.size.wqeCnt = 2 ^ log ∧
    ∀ position, slot qp position = ringSlot log position := by
  obtain ⟨log, narrow, pow⟩ := roomy.pow
  refine ⟨log, narrow, pow, ?_⟩
  intro position
  unfold slot
  rw [pow, Nat.and_two_pow_sub_one_eq_mod]
  rfl

theorem slot_counter (roomy : qp.size.Roomy) (position) : slot qp (position % 2 ^ 16) = slot qp position := by
  obtain ⟨log, narrow, _pow, slot⟩ := slot_eq roomy
  rw [slot, slot]
  exact Nat.mod_mod_of_dvd _ (Nat.pow_dvd_pow 2 narrow)

theorem slot_ne (roomy : qp.size.Roomy) {left right} (order : left < right)
    (near : right < left + qp.size.wqeCnt) : slot qp left ≠ slot qp right := by
  obtain ⟨log, _narrow, pow, slot⟩ := slot_eq roomy
  rw [slot, slot]
  exact ringSlot_ne order (pow ▸ near)

theorem wqOverflow_eq (counted : Counted qp sq) (few : qp.size.maxPost < 2 ^ 31) :
    wqOverflow qp sq = decide (qp.size.maxPost ≤ sq.accepted - sq.completed) := by
  have ended := counted.ended
  have limit := counted.limit
  have far : (sq.head + 2 ^ 32 - sq.tail) % 2 ^ 32 = sq.accepted - sq.nreq - sq.completed := by
    rw [counted.head, counted.tail]
    have sum : sq.accepted - sq.nreq = sq.completed + (sq.accepted - sq.nreq - sq.completed) := by omega
    have small : sq.accepted - sq.nreq - sq.completed < 2 ^ 32 := by omega
    have distance : ((sq.completed + (sq.accepted - sq.nreq - sq.completed)) % 2 ^ 32 + 2 ^ 32 -
        sq.completed % 2 ^ 32) % 2 ^ 32 = sq.accepted - sq.nreq - sq.completed := counter_distance small
    rw [← sum] at distance
    exact distance
  unfold wqOverflow
  rw [far]
  congr 2
  omega

private theorem finishWqe_finish (qp sq wr draft) : (finishWqe qp sq wr draft).finish = sq.finish + draft.blocks := by
  simp [finish, finishWqe]

private theorem takenFrom_append (wqes new first) :
    takenFrom (wqes ++ new) first = takenFrom wqes first + takenFrom new first := by
  simp [takenFrom, filter_append]

private theorem takenFrom_singleton (wqe first) : takenFrom [wqe] first ≤ wqe.blocks := by
  unfold takenFrom
  by_cases later : first ≤ wqe.wr
  · simp [later]
  · simp [later]

theorem Laid.finishWqe (laid : Laid qp sq used) (counted : Counted qp sq) (roomy : qp.size.Roomy) (wr)
    {draft} (within : 0 < draft.blocks ∧ blocksOf draft.touched ≤ draft.blocks)
    (free : sq.accepted < sq.completed + qp.size.maxPost) (room : used + draft.blocks ≤ share qp) :
    Laid qp (finishWqe qp sq wr draft) (used + draft.blocks) := by
  have atFinish : slot qp sq.curPost = slot qp sq.finish := by
    rw [laid.post]
    exact slot_counter roomy _
  have finish := finishWqe_finish qp sq wr draft
  have ended := counted.ended
  -- the blocks of the requests that have not completed and of this WQE are fewer than the ring has
  have window : (sq.accepted - sq.completed) * share qp + share qp ≤ qp.size.wqeCnt := by
    have all : (sq.accepted - sq.completed + 1) * share qp ≤ qp.size.maxPost * share qp :=
      Nat.mul_le_mul_right _ (by omega)
    rw [Nat.add_mul, one_mul] at all
    exact le_trans all roomy.room
  have apart wqe (isWqe : wqe ∈ sq.wqes) (notDone : sq.completed ≤ wqe.wr) : slot qp wqe.start ≠ slot qp
      sq.finish := by
    have ends := laid.ends wqe isWqe
    have some := (laid.some wqe isWqe).1
    have reach := laid.reach wqe isWqe
    have fewer : (sq.accepted - wqe.wr) * share qp ≤ (sq.accepted - sq.completed) * share qp :=
      Nat.mul_le_mul_right _ (by omega)
    exact slot_ne roomy (by omega) (by omega)
  refine ⟨?_, ?_, ?_, ?_, ?_, ?_, ?_, ?_⟩
  · rw [finish]
    show (sq.curPost + draft.blocks) % 2 ^ 16 = _
    rw [laid.post, Nat.mod_add_mod]
  · intro wqe isWqe
    rw [finish]
    rcases mem_append.mp isWqe with old | new
    · have ends := laid.ends wqe old
      omega
    · rw [mem_singleton.mp new]
  · intro wqe isWqe
    rcases mem_append.mp isWqe with old | new
    · exact laid.some wqe old
    · rw [mem_singleton.mp new]
      exact within
  · refine pairwise_append.mpr ⟨laid.order, pairwise_singleton _ _, ?_⟩
    intro left old right new
    rw [mem_singleton.mp new]
    exact ⟨laid.ends left old, laid.numbered left old⟩
  · intro wqe isWqe
    rcases mem_append.mp isWqe with old | new
    · exact laid.numbered wqe old
    · rw [mem_singleton.mp new]
      exact le_rfl
  · intro wqe isWqe
    rw [finish]
    show _ ≤ wqe.start + (sq.accepted - wqe.wr) * share qp + (used + draft.blocks)
    rcases mem_append.mp isWqe with old | new
    · have reach := laid.reach wqe old
      omega
    · rw [mem_singleton.mp new]
      dsimp only
      omega
  · intro first below
    have old := laid.taken first below
    unfold Qp.finishWqe
    dsimp only
    rw [takenFrom_append]
    refine le_trans (Nat.add_le_add old (takenFrom_singleton _ _)) ?_
    dsimp only
    omega
  · intro wqe isWqe notDone
    unfold Sq.Holds Qp.finishWqe
    dsimp only
    rw [atFinish]
    rcases mem_append.mp isWqe with old | new
    · have other := apart wqe old notDone
      have before := laid.holds wqe old notDone
      simp only [setAt, if_neg other]
      exact before
    · rw [mem_singleton.mp new]
      simp only [setAt, if_true]
      refine ⟨trivial, ?_, ?_⟩
      · rw [counted.head, Nat.mod_add_mod, Nat.sub_add_cancel (by omega)]
      · rw [laid.post, Nat.mod_add_mod]

/-- Only the arrays and `cur_post` change, and `new` follows the WQEs that were there. -/
def Sq.Extends (sq next : Sq) (new : List Wqe) : Prop :=
  next = { sq with
    wrid := next.wrid
    wqeHead := next.wqeHead
    curPost := next.curPost
    wListNext := next.wListNext
    wqes := sq.wqes ++ new }

theorem Sq.Extends.trans {sq middle next : Sq} {first second : List Wqe} (old : sq.Extends middle first)
    (after : middle.Extends next second) : sq.Extends next (first ++ second) := by
  unfold Extends at old after ⊢
  rw [after, old]
  simp

theorem finishWqe_extends (qp) (sq : Sq) (wr draft) : sq.Extends (finishWqe qp sq wr draft)
      [{ wr := sq.accepted, wrId := wr.wrId, start := sq.finish, blocks := draft.blocks
         touched := blocksOf draft.touched, signaled := draft.signaled || qp.attr.signalAll }] := rfl

theorem Counted.extends {next new} (counted : Counted qp sq) (more : sq.Extends next new) :
    Counted qp next := by
  rw [more]
  exact { counted with }

theorem Laid.finishAll (laid : Laid qp sq used) (counted : Counted qp sq) (roomy : qp.size.Roomy) (wr)
    {drafts : List Draft} (within : ∀ draft ∈ drafts, 0 < draft.blocks ∧ blocksOf draft.touched ≤ draft.blocks)
    (free : sq.accepted < sq.completed + qp.size.maxPost)
    (room : used + (drafts.map Draft.blocks).sum ≤ share qp) :
    ∃ next new, drafts.foldl (fun sq draft => Qp.finishWqe qp sq wr draft) sq = next ∧ sq.Extends next new ∧
      Laid qp next (used + (drafts.map Draft.blocks).sum) ∧ new.length = drafts.length ∧
      (∀ wqe ∈ new, wqe.wr = sq.accepted) ∧
      ∀ wqe ∈ new, ∃ draft ∈ drafts, wqe.signaled = (draft.signaled || qp.attr.signalAll) := by
  induction drafts generalizing sq used with
  | nil => exact ⟨sq, [], rfl, by simp [Extends], laid, rfl, by simp, by simp⟩
  | cons draft drafts ih =>
    rw [map_cons, sum_cons] at room
    have one := laid.finishWqe counted roomy wr (within draft (.head _)) free (by omega)
    have first := finishWqe_extends qp sq wr draft
    obtain ⟨next, new, eq, more, kept, length, numbered, signals⟩ :=
      ih one (counted.extends first) (fun other later => within other (.tail _ later)) free (by omega)
    refine ⟨next, _, eq, first.trans more, ?_, ?_, ?_, ?_⟩
    · rw [map_cons, sum_cons, ← add_assoc]
      exact kept
    · simp [length]
    · intro wqe isWqe
      rcases mem_cons.mp isWqe with same | later
      · rw [same]
      · exact numbered wqe later
    · intro wqe isWqe
      rcases mem_cons.mp isWqe with same | later
      · exact ⟨draft, .head _, by rw [same]⟩
      · obtain ⟨other, isOther, eq⟩ := signals wqe later
        exact ⟨other, mem_cons_of_mem _ isOther, eq⟩

end MlnxOfed.Qp
