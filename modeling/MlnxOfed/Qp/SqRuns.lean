/-
A send queue in every run whose requests fit: the blocks of the requests not completed never outgrow the
ring, and the device has no WQE left of a completed one.
-/

import MlnxOfed.Qp.SqLayout

namespace MlnxOfed.Qp

open List Option Lib Sq

def Sq.wrAt (sq : Sq) (index : Nat) : Nat := ((sq.wqes[index]?).map Wqe.wr).getD 0

/-- A completion stands for its request and those before. Unless the QP has failed, the device is past all
their WQEs. -/
structure Answered (sq : Sq) : Prop where
  executed : sq.executed ≤ sq.rung
  rung : sq.rung ≤ sq.wqes.length
  ended : ∀ index < sq.rung, sq.wrAt index + sq.nreq < sq.accepted
  single : ∀ index wqe, sq.wqes[index]? = some wqe → wqe.signaled = true →
    ∀ other, other < sq.wqes.length → sq.wrAt other = wqe.wr → other = index
  cqes : ∀ cqe ∈ sq.cqes, cqe.wqe < sq.rung ∧ sq.completed ≤ sq.wrAt cqe.wqe
  sorted : sq.cqes.Pairwise fun left right => sq.wrAt left.wqe < sq.wrAt right.wqe
  ahead : sq.failed = false → ∀ index, sq.executed ≤ index → index < sq.wqes.length →
    sq.completed ≤ sq.wrAt index ∧ ∀ cqe ∈ sq.cqes, sq.wrAt cqe.wqe < sq.wrAt index
  behind : sq.failed = true → sq.completed ≤ sq.answered ∧ ∀ cqe ∈ sq.cqes, sq.wrAt cqe.wqe < sq.answered

structure Sound (qp : Qp) (sq : Sq) : Prop where
  laid : Laid qp sq 0
  counted : Counted qp sq
  answered : Answered sq
  scratch : sq.scratch ≤ share qp
  margin : sq.scratch ≠ 0 → sq.accepted < sq.completed + qp.size.maxPost

variable {qp : Qp} {sq next : Sq} {index : Nat}

theorem wrAt_of_get {wqe} (get : sq.wqes[index]? = some wqe) : sq.wrAt index = wqe.wr := by simp [wrAt, get]

theorem exists_wqe (below : index < sq.wqes.length) :
    ∃ wqe, sq.wqes[index]? = some wqe ∧ wqe ∈ sq.wqes ∧ sq.wrAt index = wqe.wr := by
  refine ⟨sq.wqes[index], getElem?_eq_getElem below, getElem_mem below, ?_⟩
  exact wrAt_of_get (getElem?_eq_getElem below)

variable {used : Nat}

theorem Laid.wrAt_mono (laid : Laid qp sq used) {left right} (order : left ≤ right)
    (below : right < sq.wqes.length) : sq.wrAt left ≤ sq.wrAt right := by
  rcases Nat.lt_or_ge left right with less | same
  · have pair := (pairwise_iff_getElem.mp laid.order left right (by omega) below less).2
    rw [wrAt_of_get (getElem?_eq_getElem (by omega)), wrAt_of_get (getElem?_eq_getElem below)]
    exact pair
  · rw [le_antisymm order same]

theorem Laid.finished (laid : Laid qp sq 0) (below : index < sq.wqes.length) : sq.wrAt index < sq.accepted := by
  obtain ⟨wqe, _get, isWqe, eq⟩ := exists_wqe below
  have ends := laid.ends wqe isWqe
  have some := (laid.some wqe isWqe).1
  have reach := laid.reach wqe isWqe
  have atMost := laid.numbered wqe isWqe
  rcases Nat.lt_or_ge wqe.wr sq.accepted with less | same
  · omega
  · rw [show sq.accepted - wqe.wr = 0 by omega, Nat.zero_mul] at reach
    omega

theorem Laid.of_same (laid : Laid qp sq used) (wqes : next.wqes = sq.wqes)
    (curPost : next.curPost = sq.curPost) (accepted : next.accepted = sq.accepted)
    (completed : sq.completed ≤ next.completed) (wrid : next.wrid = sq.wrid) (wqeHead : next.wqeHead = sq.wqeHead)
    (wListNext : next.wListNext = sq.wListNext) : Laid qp next used := by
  cases next
  cases wqes
  cases curPost
  cases accepted
  cases wrid
  cases wqeHead
  cases wListNext
  exact { laid with
    holds wqe isWqe notDone := laid.holds wqe isWqe (le_trans completed notDone) }

theorem Laid.accept (laid : Laid qp sq used) (room : used ≤ share qp) :
    Laid qp { sq with nreq := sq.nreq + 1, accepted := sq.accepted + 1 } 0 := by
  have more first (below : first ≤ sq.accepted) : (sq.accepted - first) * share qp + used ≤
      (sq.accepted + 1 - first) * share qp + 0 := by
    have split : sq.accepted + 1 - first = sq.accepted - first + 1 := by omega
    rw [split, Nat.add_mul, one_mul]
    omega
  refine { laid with numbered := ?_, reach := ?_, taken := ?_ }
  · intro wqe isWqe
    exact Nat.le_succ_of_le (laid.numbered wqe isWqe)
  · intro wqe isWqe
    have reach := laid.reach wqe isWqe
    have below := more wqe.wr (laid.numbered wqe isWqe)
    show sq.finish ≤ wqe.start + (sq.accepted + 1 - wqe.wr) * share qp + 0
    omega
  intro first below
  rcases Nat.lt_or_ge sq.accepted first with beyond | within
  · have none : takenFrom sq.wqes first = 0 := by
      unfold takenFrom
      rw [filter_eq_nil_iff.mpr]
      · rfl
      · intro wqe isWqe
        have numbered := laid.numbered wqe isWqe
        simp only [decide_eq_true_eq]
        omega
    show takenFrom sq.wqes first ≤ _
    omega
  · exact le_trans (laid.taken first within) (more first within)

/-! ### Posting -/

variable {new : List Wqe}

private theorem wrAt_extends (more : sq.Extends next new) (below : index < sq.wqes.length) :
    next.wrAt index = sq.wrAt index := by
  unfold wrAt
  rw [more]
  dsimp only
  rw [getElem?_append_left below]

private theorem wrAt_new (more : sq.Extends next new) (numbered : ∀ wqe ∈ new, wqe.wr = sq.accepted)
    (above : sq.wqes.length ≤ index) (below : index < next.wqes.length) :
    next.wrAt index = sq.accepted := by
  obtain ⟨wqe, get, _isWqe, eq⟩ := exists_wqe below
  rw [eq]
  rw [more] at get
  rw [getElem?_append_right above] at get
  exact numbered wqe (mem_of_getElem? get)

theorem Answered.accept (answered : Answered sq) (laid : Laid qp sq 0) (counted : Counted qp sq)
    (more : sq.Extends next new) (numbered : ∀ wqe ∈ new, wqe.wr = sq.accepted)
    (single : new.length = 1 ∨ ∀ wqe ∈ new, wqe.signaled = false) :
    Answered { next with nreq := next.nreq + 1, accepted := next.accepted + 1 } := by
  have older : ∀ {index}, index < sq.wqes.length → next.wrAt index = sq.wrAt index := wrAt_extends more
  have newer : ∀ {index}, sq.wqes.length ≤ index → index < next.wqes.length → next.wrAt index = sq.accepted :=
    wrAt_new more numbered
  have finished : ∀ {index}, index < sq.wqes.length → sq.wrAt index < sq.accepted := laid.finished
  have rung := answered.rung
  have ended := counted.ended
  have eq := more
  have length : next.wqes.length = sq.wqes.length + new.length := by
    rw [eq]
    simp
  have sameNreq : next.nreq = sq.nreq := by rw [eq]
  have sameAccepted : next.accepted = sq.accepted := by rw [eq]
  have sameRung : next.rung = sq.rung := by rw [eq]
  have sameCqes : next.cqes = sq.cqes := by rw [eq]
  have sameExecuted : next.executed = sq.executed := by rw [eq]
  have sameCompleted : next.completed = sq.completed := by rw [eq]
  have sameFailed : next.failed = sq.failed := by rw [eq]
  have sameAnswered : next.answered = sq.answered := by rw [eq]
  have pending cqe (isCqe : cqe ∈ sq.cqes) : next.wrAt cqe.wqe = sq.wrAt cqe.wqe := by
    have below := (answered.cqes cqe isCqe).1
    exact older (by omega)
  refine ⟨?_, ?_, ?_, ?_, ?_, ?_, ?_, ?_⟩
  · show next.executed ≤ next.rung
    rw [sameExecuted, sameRung]
    exact answered.executed
  · show next.rung ≤ next.wqes.length
    omega
  · intro index below
    show next.wrAt index + (next.nreq + 1) < next.accepted + 1
    replace below : index < sq.rung := sameRung ▸ below
    have before := answered.ended index below
    rw [older (by omega)]
    omega
  · intro index wqe get isSignaled other below same
    replace same : next.wrAt other = wqe.wr := same
    replace get : next.wqes[index]? = some wqe := get
    replace below : other < next.wqes.length := below
    have number := wrAt_of_get get
    have inside : index < next.wqes.length := (List.getElem?_eq_some_iff.mp get).1
    rcases Nat.lt_or_ge index sq.wqes.length with old | fresh
    · have oldGet : sq.wqes[index]? = some wqe := by
        rw [eq] at get
        rw [← get]
        exact (getElem?_append_left old).symm
      rw [older old] at number
      have less := finished old
      rcases Nat.lt_or_ge other sq.wqes.length with oldOther | freshOther
      · rw [older oldOther] at same
        exact answered.single index wqe oldGet isSignaled other oldOther same
      · rw [newer freshOther below] at same
        omega
    have isNew : wqe ∈ new := by
      rw [eq] at get
      rw [getElem?_append_right fresh] at get
      exact mem_of_getElem? get
    rcases single with one | quiet
    · rcases Nat.lt_or_ge other sq.wqes.length with oldOther | freshOther
      · have less := finished oldOther
        rw [older oldOther] at same
        rw [newer fresh inside] at number
        omega
      · omega
    · rw [quiet wqe isNew] at isSignaled
      cases isSignaled
  · intro cqe isCqe
    replace isCqe : cqe ∈ sq.cqes := sameCqes ▸ isCqe
    show cqe.wqe < next.rung ∧ next.completed ≤ next.wrAt cqe.wqe
    rw [pending cqe isCqe, sameRung, sameCompleted]
    exact answered.cqes cqe isCqe
  · show next.cqes.Pairwise fun left right => next.wrAt left.wqe < next.wrAt right.wqe
    rw [sameCqes]
    refine answered.sorted.imp_of_mem ?_
    intro left right isLeft isRight less
    rw [pending left isLeft, pending right isRight]
    exact less
  · intro running index above below
    replace running : sq.failed = false := sameFailed ▸ running
    replace above : sq.executed ≤ index := sameExecuted ▸ above
    show next.completed ≤ next.wrAt index ∧ ∀ cqe ∈ next.cqes, next.wrAt cqe.wqe < next.wrAt index
    rw [sameCompleted, sameCqes]
    rcases Nat.lt_or_ge index sq.wqes.length with old | fresh
    · obtain ⟨notDone, before⟩ := answered.ahead running index above old
      rw [older old]
      refine ⟨notDone, ?_⟩
      intro cqe isCqe
      rw [pending cqe isCqe]
      exact before cqe isCqe
    · rw [newer fresh below]
      refine ⟨by omega, ?_⟩
      intro cqe isCqe
      rw [pending cqe isCqe]
      have below := (answered.cqes cqe isCqe).1
      exact finished (by omega)
  · intro stopped
    replace stopped : sq.failed = true := sameFailed ▸ stopped
    obtain ⟨notDone, before⟩ := answered.behind stopped
    show next.completed ≤ next.answered ∧ ∀ cqe ∈ next.cqes, next.wrAt cqe.wqe < next.answered
    rw [sameCompleted, sameCqes, sameAnswered]
    refine ⟨notDone, ?_⟩
    intro cqe isCqe
    rw [pending cqe isCqe]
    exact before cqe isCqe

section

variable (sound : Sound qp sq)

include sound

theorem Sound.postSendOut : Sound qp (postSendOut sq) := by
  unfold Qp.postSendOut
  split
  · exact sound
  have counted := sound.counted
  have answered := sound.answered
  have ended := counted.ended
  refine ⟨sound.laid.of_same rfl rfl rfl le_rfl rfl rfl rfl, ⟨?_, counted.tail, ?_, counted.limit⟩, ?_,
    sound.scratch, sound.margin⟩
  · show (sq.head + sq.nreq) % 2 ^ 32 = (sq.accepted - 0) % 2 ^ 32
    rw [counted.head, Nat.mod_add_mod]
    congr 1
    omega
  · show sq.completed + 0 ≤ sq.accepted
    omega
  refine { answered with executed := ?_, rung := le_rfl, ended := ?_, cqes := ?_ }
  · exact le_trans answered.executed answered.rung
  · intro index below
    exact sound.laid.finished below
  · intro cqe isCqe
    obtain ⟨below, notDone⟩ := answered.cqes cqe isCqe
    exact ⟨lt_of_lt_of_le below answered.rung, notDone⟩

theorem Sound.clear : Sound qp { sq with scratch := 0 } := by
  obtain ⟨laid, counted, answered, _scratch, _margin⟩ := sound
  exact ⟨laid.of_same rfl rfl rfl le_rfl rfl rfl rfl, { counted with },
    { answered with }, Nat.zero_le _, fun nonzero => absurd rfl nonzero⟩

theorem Sound.postSendOne {wr} (roomy : qp.size.Roomy)
    (fit : 0 ≤ qp.size.maxGs → qp.size.Fitting qp.attr) (plain : qp.attr.Plain) (fits : wr.Fits qp) :
    Sound qp (postSendOne qp sq wr) := by
  have clear := sound.clear
  unfold Qp.postSendOne
  dsimp only
  split
  · exact clear.postSendOut
  next going =>
    simp only [Bool.or_eq_true, Bool.not_eq_true', not_or, Bool.not_eq_true, Bool.not_eq_false] at going
    obtain ⟨listed, room⟩ := going
    have gs : 0 ≤ qp.size.maxGs := by
      unfold wrListed at listed
      simp only [Bool.and_eq_true, decide_eq_true_eq] at listed
      omega
    have built := buildWr_fit (fit gs) plain listed fits
    rw [wqOverflow_eq clear.counted roomy.few, decide_eq_false_iff_not] at room
    have free : sq.accepted < sq.completed + qp.size.maxPost := by
      dsimp only at room
      omega
    have within := built.room
    split
    next accepted =>
      obtain ⟨next, new, eq, more, laid, length, numbered, signals⟩ :=
        clear.laid.finishAll clear.counted roomy wr built.within free (by unfold share; omega)
      rw [eq]
      have counted := clear.counted.extends more
      have single : new.length = 1 ∨ ∀ wqe ∈ new, wqe.signaled = false := by
        rcases built.single with ⟨draft, one⟩ | quiet
        · left
          rw [length, one]
          rfl
        · right
          intro wqe isNew
          obtain ⟨draft, isDraft, same⟩ := signals wqe isNew
          rw [same]
          exact quiet draft isDraft
      have answered := clear.answered.accept clear.laid clear.counted more numbered single
      have ended := counted.ended
      have sameAccepted : next.accepted = sq.accepted := by rw [more]
      have sameCompleted : next.completed = sq.completed := by rw [more]
      have sameScratch : next.scratch = 0 := by rw [more]
      refine ⟨laid.accept (by unfold share; omega), ⟨?_, counted.tail, ?_, ?_⟩, answered, ?_, ?_⟩
      · show next.head = (next.accepted + 1 - (next.nreq + 1)) % 2 ^ 32
        rw [counted.head]
        congr 1
        omega
      · show next.completed + (next.nreq + 1) ≤ next.accepted + 1
        omega
      · show next.accepted + 1 ≤ next.completed + qp.size.maxPost
        omega
      · show next.scratch ≤ share qp
        omega
      · intro nonzero
        exact absurd sameScratch nonzero
    next rejected =>
      have none := built.whole (by simpa using rejected)
      rw [none] at within ⊢
      refine Sound.postSendOut ?_
      obtain ⟨laid, counted, answered, _scratch, _margin⟩ := sound
      refine ⟨laid.of_same rfl rfl rfl le_rfl rfl rfl rfl, { counted with },
        { answered with }, ?_, fun _ => free⟩
      simp only [map_nil, sum_nil, zero_add] at within
      exact within

omit sound in
theorem sorted_append (cqe : Cqe) (answered : Answered sq)
    (last : ∀ other ∈ sq.cqes, sq.wrAt other.wqe < sq.wrAt cqe.wqe) :
    (sq.cqes ++ [cqe]).Pairwise fun left right => sq.wrAt left.wqe < sq.wrAt right.wqe := by
  refine pairwise_append.mpr ⟨answered.sorted, pairwise_singleton _ _, ?_⟩
  intro left isLeft right isRight
  rw [mem_singleton.mp isRight]
  exact last left isLeft

omit sound in
theorem cqes_append (cqe) (answered : Answered sq) (below : cqe.wqe < sq.rung)
    (notDone : sq.completed ≤ sq.wrAt cqe.wqe) (other) (isOther : other ∈ sq.cqes ++ [cqe]) : other.wqe <
    sq.rung ∧ sq.completed ≤ sq.wrAt other.wqe := by
  rcases mem_append.mp isOther with old | new
  · exact answered.cqes other old
  · rw [mem_singleton.mp new]
    exact ⟨below, notDone⟩

theorem Sound.execute {fails} (moved : step qp sq (.execute fails) = some next) : Sound qp next := by
  simp only [step] at moved
  split at moved
  next wqe get =>
    split at moved
    next able =>
      obtain ⟨laid, counted, answered, scratch, margin⟩ := sound
      have running : sq.failed = false := by simpa using able.2
      have inside := lt_of_lt_of_le able.1 answered.rung
      have number := wrAt_of_get get
      obtain ⟨notDone, last⟩ := answered.ahead running sq.executed le_rfl inside
      rw [← some.inj moved]
      refine ⟨laid.of_same rfl rfl rfl le_rfl rfl rfl rfl, { counted with }, ?_, scratch, margin⟩
      by_cases reported : fails = true ∨ wqe.signaled = true
      · simp only [if_pos reported]
        refine ⟨able.1, answered.rung, answered.ended, answered.single,
          cqes_append ⟨sq.executed, fails⟩ answered able.1 notDone,
          sorted_append ⟨sq.executed, fails⟩ answered last, ?_, ?_⟩
        · intro noFail index above below
          have isSignaled : wqe.signaled = true := by
            rcases reported with failed | signaled
            · exact absurd failed (by simpa using noFail)
            · exact signaled
          obtain ⟨later, before⟩ := answered.ahead running index (Nat.le_of_succ_le above) below
          refine ⟨later, ?_⟩
          intro cqe isCqe
          rcases mem_append.mp isCqe with old | new
          · exact before cqe old
          rw [mem_singleton.mp new]
          -- a signaled WQE is the only one of its request
          have mono := laid.wrAt_mono (Nat.le_of_succ_le above) below
          refine Nat.lt_of_le_of_ne mono ?_
          intro same
          have alone := answered.single sq.executed wqe get isSignaled index below
            (Eq.trans (Eq.symm same) number)
          dsimp only at above
          omega
        · intro failed
          have isFail : fails = true := failed
          dsimp only
          rw [if_pos isFail, ← number]
          refine ⟨by show sq.completed ≤ _; omega, ?_⟩
          intro cqe isCqe
          rcases mem_append.mp isCqe with old | new
          · exact Nat.lt_succ_of_lt (last cqe old)
          · rw [mem_singleton.mp new]
            exact Nat.lt_succ_self _
      · simp only [if_neg reported]
        refine { answered with executed := able.1, ahead := ?_, behind := ?_ }
        · intro _noFail index above below
          exact answered.ahead running index (Nat.le_of_succ_le above) below
        · intro failed
          exact absurd (.inl failed) reported
    next => cases moved
  next => cases moved

theorem Sound.flush (moved : step qp sq (.flush index) = some next) : Sound qp next := by
  simp only [step] at moved
  split at moved
  next wqe get =>
    split at moved
    next able =>
      obtain ⟨laid, counted, answered, scratch, margin⟩ := sound
      obtain ⟨below, failed, later⟩ := able
      have number := wrAt_of_get get
      obtain ⟨notDone, before⟩ := answered.behind failed
      rw [← some.inj moved]
      refine ⟨laid.of_same rfl rfl rfl le_rfl rfl rfl rfl, { counted with }, ?_, scratch, margin⟩
      refine ⟨answered.executed, answered.rung, answered.ended, answered.single,
        cqes_append ⟨index, true⟩ answered below (by show sq.completed ≤ sq.wrAt index; omega),
        sorted_append ⟨index, true⟩ answered ?_,
        ?_, ?_⟩
      · intro other isOther
        have less := before other isOther
        show sq.wrAt other.wqe < sq.wrAt index
        omega
      · intro running
        exact absurd (Eq.trans (Eq.symm failed) running) (by decide)
      intro _failed
      refine ⟨by show sq.completed ≤ wqe.wr + 1; omega, ?_⟩
      intro cqe isCqe
      show sq.wrAt cqe.wqe < wqe.wr + 1
      rcases mem_append.mp isCqe with old | new
      · have less := before cqe old
        omega
      · rw [mem_singleton.mp new]
        show sq.wrAt index < wqe.wr + 1
        omega
    next => cases moved
  next => cases moved

omit sound in
private theorem pollOne_eq {cqe wqe rest} (polled : pollOne qp sq cqe wqe rest = some next) :
    ∃ lastPoll, next = { sq with
      tail := (sq.wqeHead (slot qp (wqe.start % 2 ^ 16)) + 1) % 2 ^ 32
      completed := wqe.wr + 1
      cqes := rest
      lastPoll := lastPoll } := by
  unfold pollOne at polled
  dsimp only at polled
  split at polled
  · exact ⟨sq.lastPoll, (some.inj polled).symm⟩
  · obtain ⟨lastPoll, _walk, eq⟩ := map_eq_some_iff.mp polled
    exact ⟨lastPoll, eq.symm⟩

theorem Sound.poll (roomy : qp.size.Roomy) (moved : step qp sq .poll = some next) : Sound qp next := by
  simp only [step] at moved
  split at moved
  next => cases moved
  next cqe rest isCqes =>
    split at moved
    next wqe get =>
      obtain ⟨lastPoll, rfl⟩ := pollOne_eq moved
      obtain ⟨laid, counted, answered, scratch, margin⟩ := sound
      have number := wrAt_of_get get
      have isWqe : wqe ∈ sq.wqes := mem_of_getElem? get
      obtain ⟨below, notDone⟩ := answered.cqes cqe (by rw [isCqes]; exact .head _)
      rw [number] at notDone
      have ended := answered.ended cqe.wqe below
      rw [number] at ended
      have limit := counted.limit
      have sorted := answered.sorted
      rw [isCqes] at sorted
      obtain ⟨first, sortedRest⟩ := pairwise_cons.mp sorted
      rw [number] at first
      refine ⟨laid.of_same rfl rfl rfl (by show sq.completed ≤ wqe.wr + 1; omega) rfl rfl rfl, ⟨counted.head, ?_, ?_, ?_⟩,
        { answered with cqes := ?_, sorted := sortedRest, ahead := ?_, behind := ?_ }, scratch, ?_⟩
      · dsimp only
        rw [slot_counter roomy, (laid.holds wqe isWqe notDone).2.1, Nat.mod_add_mod]
      · show wqe.wr + 1 + sq.nreq ≤ sq.accepted
        omega
      · show sq.accepted ≤ wqe.wr + 1 + qp.size.maxPost
        omega
      · intro other isOther
        have before := answered.cqes other (by rw [isCqes]; exact .tail _ isOther)
        exact ⟨before.1, first other isOther⟩
      · intro running index above inside
        obtain ⟨_later, before⟩ := answered.ahead running index above inside
        rw [isCqes] at before
        have atFirst := before cqe (.head _)
        rw [number] at atFirst
        exact ⟨atFirst, fun other isOther => before other (.tail _ isOther)⟩
      · intro failed
        obtain ⟨_later, before⟩ := answered.behind failed
        rw [isCqes] at before
        have atFirst := before cqe (.head _)
        rw [number] at atFirst
        exact ⟨atFirst, fun other isOther => before other (.tail _ isOther)⟩
      · intro nonzero
        have free := margin nonzero
        show sq.accepted < wqe.wr + 1 + qp.size.maxPost
        omega
    next => cases moved

omit sound in
def Move.Fits (qp : Qp) : Move → Prop
  | .post wr => wr.Fits qp
  | _ => True

omit sound in
theorem Sound.initial (qp) : Sound qp Sq.initial := by
  refine ⟨⟨rfl, ?_, ?_, .nil, ?_, ?_, ?_, ?_⟩, ⟨rfl, rfl, le_rfl, Nat.zero_le _⟩,
    ⟨le_rfl, le_rfl, ?_, ?_, ?_, .nil, ?_, ?_⟩, Nat.zero_le _, fun nonzero => absurd rfl nonzero⟩
  all_goals simp [Sq.initial, takenFrom]

theorem Sound.step {move} (roomy : qp.size.Roomy) (fit : 0 ≤ qp.size.maxGs → qp.size.Fitting qp.attr)
    (plain : qp.attr.Plain) (fits : move.Fits qp) (moved : Qp.step qp sq move = some next) : Sound qp next := by
  cases move with
  | post wr =>
    rw [← some.inj moved]
    exact sound.postSendOne roomy fit plain fits
  | out =>
    rw [← some.inj moved]
    exact sound.postSendOut
  | execute fails => exact sound.execute moved
  | flush index => exact sound.flush moved
  | poll => exact sound.poll roomy moved

omit sound in
/-- The requests not completed fit the ring, with what a rejected one has written after them; the device
executes no other WQE; their blocks are apart from those of later WQEs; and `wrid`, `wqe_head` and `w_list`
still hold theirs. -/
structure Safe (qp : Qp) (sq : Sq) : Prop where
  room : takenFrom sq.wqes sq.completed + sq.scratch ≤ qp.size.wqeCnt
  device : sq.failed = false → ∀ index wqe, sq.executed ≤ index → sq.wqes[index]? = some wqe → sq.completed ≤ wqe.wr
  within : ∀ wqe ∈ sq.wqes, sq.completed ≤ wqe.wr → wqe.touched ≤ wqe.blocks
  apart : sq.wqes.Pairwise fun left right => sq.completed ≤ left.wr →
    ∀ i < left.blocks, ∀ j < right.blocks, slot qp (left.start + i) ≠ slot qp (right.start + j)
  scratch : ∀ wqe ∈ sq.wqes, sq.completed ≤ wqe.wr →
    ∀ i < wqe.blocks, ∀ j < sq.scratch, slot qp (wqe.start + i) ≠ slot qp (sq.finish + j)
  holds : ∀ wqe ∈ sq.wqes, sq.completed ≤ wqe.wr → sq.Holds qp wqe

theorem Sound.window (roomy : qp.size.Roomy) :
    (sq.accepted - sq.completed) * share qp + sq.scratch ≤ qp.size.wqeCnt := by
  have limit := sound.counted.limit
  have ended := sound.counted.ended
  have scratch := sound.scratch
  have room := roomy.room
  by_cases none : sq.scratch = 0
  · rw [none]
    exact le_trans (Nat.mul_le_mul_right _ (by omega)) room
  · have free := sound.margin none
    have all : (sq.accepted - sq.completed + 1) * share qp ≤ qp.size.maxPost * share qp :=
      Nat.mul_le_mul_right _ (by omega)
    rw [Nat.add_mul, one_mul] at all
    exact le_trans (le_trans (Nat.add_le_add_left scratch _) all) room

theorem Sound.safe (roomy : qp.size.Roomy) : Safe qp sq := by
  have window := sound.window roomy
  have ended := sound.counted.ended
  have reach wqe (isWqe : wqe ∈ sq.wqes) (notDone : sq.completed ≤ wqe.wr) : sq.finish + sq.scratch ≤
      wqe.start + qp.size.wqeCnt := by
    have reach := sound.laid.reach wqe isWqe
    have fewer : (sq.accepted - wqe.wr) * share qp ≤ (sq.accepted - sq.completed) * share qp :=
      Nat.mul_le_mul_right _ (by omega)
    omega
  refine ⟨?_, ?_, ?_, ?_, ?_, sound.laid.holds⟩
  · have taken := sound.laid.taken sq.completed (by omega)
    omega
  · intro running index wqe above get
    have ahead := sound.answered.ahead running index above (List.getElem?_eq_some_iff.mp get).1
    rw [← wrAt_of_get get]
    exact ahead.1
  · intro wqe isWqe _notDone
    exact (sound.laid.some wqe isWqe).2
  · refine sound.laid.order.imp_of_mem ?_
    intro left right isLeft isRight order notDone i inLeft j inRight
    have near := reach left isLeft notDone
    have ends := sound.laid.ends right isRight
    exact slot_ne roomy (by omega) (by omega)
  · intro wqe isWqe notDone i inWqe j inScratch
    have near := reach wqe isWqe notDone
    have ends := sound.laid.ends wqe isWqe
    exact slot_ne roomy (by omega) (by omega)

end

structure Idle (sq : Sq) : Prop where
  wqes : sq.wqes = []
  scratch : sq.scratch = 0
  nreq : sq.nreq = 0
  cqes : sq.cqes = []

theorem Idle.step {move} (idle : Idle sq) (none : qp.size.maxPost = 0)
    (moved : Qp.step qp sq move = some next) : Idle next := by
  obtain ⟨wqes, scratch, nreq, cqes⟩ := idle
  cases move with
  | post wr =>
    rw [← some.inj moved]
    have full : wqOverflow qp { sq with scratch := 0 } = true := by simp [wqOverflow, none]
    unfold postSendOne
    dsimp only
    rw [full, Bool.or_true, if_pos rfl]
    unfold postSendOut
    rw [if_pos nreq]
    exact ⟨wqes, rfl, nreq, cqes⟩
  | out =>
    rw [← some.inj moved]
    unfold postSendOut
    rw [if_pos nreq]
    exact ⟨wqes, scratch, nreq, cqes⟩
  | execute fails => simp [Qp.step, wqes] at moved
  | flush index => simp [Qp.step, wqes] at moved
  | poll => simp [Qp.step, cqes] at moved

theorem Idle.safe (idle : Idle sq) : Safe qp sq := by
  obtain ⟨wqes, scratch, _nreq, _cqes⟩ := idle
  refine ⟨?_, ?_, ?_, ?_, ?_, ?_⟩
  all_goals simp [wqes, scratch, takenFrom]

theorem Reachable.idle {ok} (none : qp.size.maxPost = 0) (reachable : Reachable qp ok sq) :
    Idle sq := by
  induction reachable with
  | initial => exact ⟨rfl, rfl, rfl, rfl⟩
  | step _before _kind moved ih => exact ih.step none moved

theorem Reachable.sound (roomy : qp.size.Roomy) (fit : 0 ≤ qp.size.maxGs → qp.size.Fitting qp.attr)
    (plain : qp.attr.Plain) (reachable : Reachable qp (Move.Fits qp) sq) : Sound qp sq := by
  induction reachable with
  | initial => exact Sound.initial qp
  | step _before kind moved ih => exact ih.step roomy fit plain kind moved

private theorem calcSqSize_usable {caps} (sized : calcSqSize qp.attr caps = some qp.size) (plain : qp.attr.Plain)
    (narrow : caps.Narrow) :
    qp.size.maxPost = 0 ∨ qp.size.Roomy ∧ (0 ≤ qp.size.maxGs → qp.size.Fitting qp.attr) := by
  by_cases asked : qp.attr.maxSendWr = 0
  · simp only [calcSqSize, asked, if_true] at sized
    rw [← some.inj sized]
    exact .inl rfl
  · rcases calcSqSize_roomy sized plain narrow with none | roomy
    · exact Or.inl none
    · exact Or.inr ⟨roomy, calcSqSize_fitting sized plain narrow asked⟩

theorem send_queue_safe (caps : SqCaps) (sized : calcSqSize qp.attr caps = some qp.size) (plain : qp.attr.Plain)
    (narrow : caps.Narrow) (reachable : Reachable qp (Move.Fits qp) sq) : Safe qp sq := by
  rcases calcSqSize_usable sized plain narrow with none | ⟨roomy, fit⟩
  · exact (reachable.idle none).safe
  · exact (reachable.sound roomy fit plain).safe roomy

def plainWr (wrId : Nat) (opcode : Opcode) : SendWr :=
  { wrId := wrId, opcode := opcode, sgList := [], isInline := false, signaled := false, sigPipelined := false
    hlen := 0, mr := ⟨1, 0, 8⟩, canUseUmr := true, accessAtomic := false, piMr := none, hasSig := false
    sigStatusChecked := false, strided := false, memType := .none, wireType := .none, mkeyMaskAllowed := false }

def rcQp (integrityEn : Bool) (size : SqSize) : Qp :=
  { attr := { qpType := .rc, maxSendWr := 1, maxSendSge := 1, maxInlineData := 0, integrityEn := integrityEn
              ipoibUdLso := false, signalAll := false }
    size := size, signaturePipeline := false, hasSmi := false }

/-- A registration completes and the next one takes its blocks. -/
theorem send_queue_safe_reused : ∃ sq, run (rcQp false ⟨192, 4, 1, 10, 56⟩) initial
      [.post { plainWr 7 .regMr with signaled := true }, .out, .execute false, .poll,
        .post { plainWr 8 .regMr with signaled := true }, .out] = some sq ∧
      sq.wqes.length = 2 ∧ Safe (rcQp false ⟨192, 4, 1, 10, 56⟩) sq := by
  have ran : (run (rcQp false ⟨192, 4, 1, 10, 56⟩) initial
      [.post { plainWr 7 .regMr with signaled := true }, .out, .execute false, .poll,
        .post { plainWr 8 .regMr with signaled := true }, .out]).map (fun sq => sq.wqes.length) = some 2 := by decide +kernel
  obtain ⟨sq, ran, length⟩ := map_eq_some_iff.mp ran
  refine ⟨sq, ran, length, ?_⟩
  refine send_queue_safe ⟨1024, 15⟩ (by decide +kernel) (by decide) ⟨by decide, by decide⟩
    (Reachable.initial.run ?_ ran)
  intro move isMove
  simp only [mem_cons, not_mem_nil, or_false] at isMove
  rcases isMove with rfl | rfl | rfl | rfl | rfl | rfl
  · exact ⟨fun _ => trivial, by decide, fun _ is => absurd is (by decide)⟩
  · trivial
  · trivial
  · trivial
  · exact ⟨fun _ => trivial, by decide, fun _ is => absurd is (by decide)⟩
  · trivial

/-- One registration with integrity takes nine blocks of a queue of eight. -/
theorem integrity_outgrows_queue : ¬ ∀ (qp : Qp) (caps : SqCaps) (sq : Sq), calcSqSize qp.attr caps = some qp.size →
    qp.attr.Plain → caps.Narrow → Reachable qp (fun _ => True) sq →
      takenFrom sq.wqes sq.completed ≤ qp.size.wqeCnt := by
  intro all
  have ran : (run (rcQp true ⟨512, 8, 1, 30, 376⟩) initial
      [.post { plainWr 7 .regMrIntegrity with
        piMr := some ⟨1, 1, 8⟩, hasSig := true, sigStatusChecked := true, memType := .t10Dif, wireType := .t10Dif },
        .out]).map (fun sq => takenFrom sq.wqes sq.completed) = some 9 := by decide +kernel
  obtain ⟨sq, ran, nine⟩ := map_eq_some_iff.mp ran
  have most := all (rcQp true ⟨512, 8, 1, 30, 376⟩) ⟨1024, 15⟩ sq (by decide +kernel) (by decide)
    ⟨by decide, by decide⟩ (Reachable.initial.run (fun _ _ => trivial) ran)
  rw [nine] at most
  exact absurd most (by decide)

end MlnxOfed.Qp
