/-
Polling a receive completion queue: between polls it is at the start of an item or inside a session, whose
remaining completions come first; a poll goes on from there within its budget.
-/

import MlnxOfed.Ethernet.RxDecompress

namespace MlnxOfed.Ethernet

open Prod List Lib

namespace RxCq

def rxEntries (rq : RqParams) (log : Nat) : EntryOf := fun session =>
  session.rxEntry rq log

structure Fresh (rq : RqParams) (limit start : Nat) (rx : RxCq) (items : List CqItem) : Prop where
  left : rx.cqd.left = 0
  ring : RingInv limit rx.ring (start + rx.handled.length)
  laid : Laid rx.ring.wq.logSz limit rx.ring.wq.slots (start + rx.handled.length) items
    rx.ring.produced
  sequence : rx.handled.map fst ++
      entriesFrom rx.ring.wq.logSz (rxEntries rq rx.ring.wq.logSz) (start + rx.handled.length) items =
    rx.ring.uncompressed (rxEntries rq rx.ring.wq.logSz)

/-- A session is open with its completions below `index` handed out. -/
structure Partway (rq : RqParams) (limit start : Nat) (rx : RxCq) (session : Session)
    (base index : Nat) (items : List CqItem) : Prop where
  position : start + rx.handled.length = base + index
  started : 0 < index
  unfinished : index < session.count
  left : rx.cqd.left = session.count - index
  ring : RingInv limit rx.ring (base + index)
  between : Between rq session index rx.cqd
  arrays : ArraysFrom rx.ring.wq.logSz rx.ring.wq.slots session base index
  laid : Laid rx.ring.wq.logSz limit rx.ring.wq.slots (base + session.count) items rx.ring.produced
  sequence : rx.handled.map fst ++
      ((range' index (session.count - index)).map (session.rxEntry rq rx.ring.wq.logSz base) ++
        entriesFrom rx.ring.wq.logSz (rxEntries rq rx.ring.wq.logSz) (base + session.count) items) =
    rx.ring.uncompressed (rxEntries rq rx.ring.wq.logSz)

inductive RxInv (rq : RqParams) (limit start : Nat) (rx : RxCq) : Prop
  | fresh (items : List CqItem) (fresh : Fresh rq limit start rx items)
  | partway (session : Session) (base index : Nat) (items : List CqItem)
      (partway : Partway rq limit start rx session base index items)

section Poll

variable {rq : RqParams} {limit start : Nat} {rx : RxCq} {items : List CqItem} {more : List CqItem}

theorem Fresh.grow (fresh : Fresh rq limit start rx items) {after}
    (grows : Grows limit rx.ring after more) (ring : RingInv limit after (start + rx.handled.length)) :
    Fresh rq limit start { rx with ring := after } (items ++ more) := by
  have laid := fresh.ring.laid_grow grows le_rfl fresh.laid
  have counted := grows.uncompressed (rxEntries rq rx.ring.wq.logSz) fresh.laid
  refine ⟨fresh.left, ring, laid, ?_⟩
  simp only [grows.logSz]
  rw [counted.1, counted.2, ← append_assoc, fresh.sequence]

theorem Fresh.getCqe (fresh : Fresh rq limit start rx items) :
    ∃ more, Fresh rq limit start { rx with ring := rx.ring.getCqe.2 } (items ++ more) ∧
      rx.ring.getCqe.1 = handedOver rx.ring.wq.logSz (start + rx.handled.length) (items ++ more) ∧
      Grows limit rx.ring rx.ring.getCqe.2 more := by
  obtain ⟨more, grows, ring⟩ := fresh.ring.getCqe_grows
  have grown := fresh.grow grows ring
  refine ⟨more, grown, ?_, grows⟩
  rw [← grows.logSz]
  exact ring.look grown.laid

variable {session : Session} {base index : Nat}

variable (partway : Partway rq limit start rx session base index items)

include partway

theorem Partway.grow {after} (grows : Grows limit rx.ring after more)
    (ring : RingInv limit after (base + index)) :
    Partway rq limit start { rx with ring := after } session base index (items ++ more) := by
  have unfinished := partway.unfinished
  have laid := partway.ring.laid_grow grows (by omega) partway.laid
  have counted := grows.uncompressed (rxEntries rq rx.ring.wq.logSz) partway.laid
  have reach := partway.laid.le
  have arrays : ArraysFrom after.wq.logSz after.wq.slots session base index := by
    rw [grows.logSz]
    intro offset reached below mini
    have kept := grows.keep_pending (q := base + offset) partway.ring.room
      (le_trans partway.ring.released (by omega)) (by omega)
    rw [kept]
    exact partway.arrays offset reached below mini
  refine { partway with ring := ring, arrays := arrays, laid := laid, sequence := ?_ }
  simp only [grows.logSz]
  rw [counted.1, counted.2, ← partway.sequence]
  simp

theorem Partway.getCqe : ∃ more, Partway rq limit start { rx with ring := rx.ring.getCqe.2 } session base index
      (items ++ more) ∧ Grows limit rx.ring rx.ring.getCqe.2 more := by
  obtain ⟨more, grows, ring⟩ := partway.ring.getCqe_grows
  exact ⟨more, partway.grow grows ring, grows⟩

/-! ### Sessions -/

omit partway in
/-- After a stretch the session is finished or still open, and the sequence goes on there. -/
theorem ContDone.settle {base index skipped done result}
    (cont : ContDone limit rq session base index skipped done rx result)
    (inv : RingInv limit rx.ring (base + index))
    (position : start + rx.handled.length = base + (index + skipped))
    (within : index + done ≤ session.count) (skip : skipped ≤ done) (progress : 0 < done)
    (arrays : ArraysFrom rx.ring.wq.logSz rx.ring.wq.slots session base (index + skipped))
    (laid : Laid rx.ring.wq.logSz limit rx.ring.wq.slots (base + session.count) items rx.ring.produced)
    (sequence : rx.handled.map fst ++ ((range' (index + skipped) (session.count - (index + skipped))).map
            (session.rxEntry rq rx.ring.wq.logSz base) ++
          entriesFrom rx.ring.wq.logSz (rxEntries rq rx.ring.wq.logSz) (base + session.count) items) =
      rx.ring.uncompressed (rxEntries rq rx.ring.wq.logSz)) :
    result.2.handled.length = rx.handled.length + (done - skipped) ∧
      (index + done = session.count → Fresh rq limit start result.2 items) ∧
      (index + done < session.count → Partway rq limit start result.2 session base (index + done) items) := by
  have length : result.2.handled.length = rx.handled.length + (done - skipped) := by
    have counted := congrArg length cont.handled
    simpa only [length_map, length_append, length_range'] using counted
  have reach := laid.le
  have room := inv.room
  have released := inv.released
  have laidAfter : Laid rx.ring.wq.logSz limit result.2.ring.wq.slots (base + session.count) items
      rx.ring.produced :=
    laid.congr fun q low high => cont.kept q (by omega) (by omega)
  have uncompressed : result.2.ring.uncompressed (rxEntries rq rx.ring.wq.logSz) =
      rx.ring.uncompressed (rxEntries rq rx.ring.wq.logSz) := by
    unfold CqRing.uncompressed
    rw [cont.written, cont.logSz]
  have split : range' (index + skipped) (session.count - (index + skipped)) =
      range' (index + skipped) (done - skipped) ++
        range' (index + done) (session.count - (index + done)) := by
    have middle : index + done = index + skipped + (done - skipped) := by omega
    rw [middle, range'_append_1]
    congr 1
    omega
  rw [split, map_append] at sequence
  have goesOn : result.2.handled.map fst ++ ((range' (index + done) (session.count - (index + done))).map
          (session.rxEntry rq rx.ring.wq.logSz base) ++
        entriesFrom rx.ring.wq.logSz (rxEntries rq rx.ring.wq.logSz) (base + session.count)
          items) = rx.ring.uncompressed (rxEntries rq rx.ring.wq.logSz) := by
    rw [cont.handled, ← sequence]
    simp
  have inv' := cont.inv
  refine ⟨length, ?_, ?_⟩
  · intro finished
    rw [finished] at inv'
    have here : start + result.2.handled.length = base + session.count := by omega
    rw [finished, Nat.sub_self] at goesOn
    exact {
      left := by rw [cont.left, finished, Nat.sub_self]
      ring := by rw [here]; exact inv'
      laid := by rw [cont.logSz, here, cont.produced]; exact laidAfter
      sequence := by rw [cont.logSz, here, uncompressed]; exact goesOn }
  intro unfinished
  exact {
    position := by omega
    started := by omega
    unfinished := unfinished
    left := cont.left
    ring := inv'
    between := cont.between
    arrays := by
      rw [cont.logSz]
      intro offset reached below mini
      rw [cont.kept _ (by omega) (by omega)]
      exact arrays offset (by omega) below mini
    laid := by rw [cont.logSz, cont.produced]; exact laidAfter
    sequence := by rw [cont.logSz, uncompressed]; exact goesOn }

theorem Partway.resume {budget : Nat} (pos : 0 < budget) (range : budget < 2 ^ 31) :
    (decompressCqesCont rq 0 budget rx).1 = min (session.count - index) budget ∧
    (decompressCqesCont rq 0 budget rx).2.handled.length =
      rx.handled.length + min (session.count - index) budget ∧
    (decompressCqesCont rq 0 budget rx).2.ring.wq.logSz = rx.ring.wq.logSz ∧
    (session.count - index ≤ budget → Fresh rq limit start (decompressCqesCont rq 0 budget rx).2 items) ∧
    (budget < session.count - index →
      Partway rq limit start (decompressCqesCont rq 0 budget rx).2 session base (index + budget) items) := by
  have started := partway.started
  have unfinished := partway.unfinished
  have cont : ContDone limit rq session base index 0 (min (session.count - index) budget) rx
      (decompressCqesCont rq 0 budget rx) :=
    @decompressCqesCont_spec limit rq session base index 0 rx partway.ring partway.laid.le
      partway.between partway.arrays partway.left unfinished started (Nat.zero_le _) budget
      pos range
  obtain ⟨length, finished, further⟩ := cont.settle partway.ring partway.position (by omega)
    (Nat.zero_le _) (by omega) partway.arrays partway.laid partway.sequence
  refine ⟨cont.count, length, cont.logSz, ?_, ?_⟩
  · intro enough
    exact finished (by omega)
  · intro short
    have cut : min (session.count - index) budget = budget := Nat.min_eq_right (le_of_lt short)
    rw [cut] at further
    exact further (by omega)

omit partway

private theorem be16_lt (bytes offset) : be16 bytes offset < 2 ^ 16 := by
  have high := (bytes offset).toNat_lt
  have low := (bytes (offset + 1)).toNat_lt
  unfold be16
  omega

theorem Session.counter_zero (session : Session) (rq : RqParams) :
    session.counter rq 0 = be16 session.title 60 := by
  unfold Session.counter
  split
  · rw [range_zero, map_nil, sum_nil, add_zero]
    exact Nat.mod_eq_of_lt (be16_lt _ _)
  · rfl

theorem Fresh.ready (fresh : Fresh rq limit start rx (.session session :: items)) (small : limit < 2 ^ 16) :
    Ready rq session 0 (readMiniArrSlot rx.ring.wq ((rx.ring.wq.cc + 1) % 2 ^ 32)
        (readTitleSlot rx.ring.wq rx.ring.wq.cc rx.cqd)) ∧
    (readTitleSlot rx.ring.wq rx.ring.wq.cc rx.cqd).title =
      session.titleSlot rx.ring.wq.logSz (start + rx.handled.length) ∧
    (readTitleSlot rx.ring.wq rx.ring.wq.cc rx.cqd).left = session.count := by
  obtain ⟨ok, stands, later⟩ := fresh.laid
  have title : readCqeSlot rx.ring.wq rx.ring.wq.cc =
      session.titleSlot rx.ring.wq.logSz (start + rx.handled.length) := by
    unfold readCqeSlot
    rw [fresh.ring.cc, fresh.ring.ctr2ix]
    exact stands.1
  have array : readCqeSlot rx.ring.wq ((rx.ring.wq.cc + 1) % 2 ^ 32) = session.array 0 := by
    unfold readCqeSlot
    rw [fresh.ring.cc, Nat.mod_add_mod, fresh.ring.ctr2ix]
    exact stands.2 1 Nat.one_pos (lt_of_lt_of_le (by decide) ok.1) (.inl rfl)
  have count : session.count < 2 ^ 16 := lt_of_le_of_lt ok.2.2 small
  unfold readMiniArrSlot readTitleSlot
  simp only [title, array]
  refine ⟨{ title := ?_, opcode := ?_, counter := ?_, arr := rfl, idx := rfl }, trivial, ?_⟩
  · intro b kept other
    unfold Rewritten at kept
    exact session.titleSlot_apply (by omega) (by omega)
  · exact session.titleSlot_opcode _ _
  · intro plain
    rw [Session.counter_zero]
    unfold be16
    rw [session.titleSlot_apply (by decide) (by decide), session.titleSlot_apply (by decide) (by decide)]
  · exact session.titleSlot_count count

theorem Fresh.opens (fresh : Fresh rq limit start rx (.session session :: items)) (small : limit < 2 ^ 16)
    {budget : Nat} (pos : 0 < budget) (range : budget < 2 ^ 31) :
    (decompressCqesStart rq budget rx).1 = (min session.count budget : Nat) - (1) ∧
    (decompressCqesStart rq budget rx).2.handled.length = rx.handled.length + min session.count budget ∧
    (decompressCqesStart rq budget rx).2.ring.wq.logSz = rx.ring.wq.logSz ∧
    (session.count ≤ budget → Fresh rq limit start (decompressCqesStart rq budget rx).2 items) ∧
    (budget < session.count → Partway rq limit start (decompressCqesStart rq budget rx).2 session
        (start + rx.handled.length) budget items) := by
  obtain ⟨ready, title, left⟩ := fresh.ready small
  obtain ⟨ok, stands, later⟩ := fresh.laid
  have two : 2 ≤ session.count := ok.1
  unfold decompressCqesStart
  simp only
  generalize cqdEq : readMiniArrSlot rx.ring.wq ((rx.ring.wq.cc + 1) % 2 ^ 32)
    (readTitleSlot rx.ring.wq rx.ring.wq.cc rx.cqd) = cqd at ready
  have cqdTitle : cqd.title = session.titleSlot rx.ring.wq.logSz (start + rx.handled.length) := by
    rw [← cqdEq]
    exact title
  have cqdLeft : cqd.left = session.count := by
    rw [← cqdEq]
    exact left
  have narrow := fresh.ring.narrow
  have counter : rx.ring.wq.cc = (start + rx.handled.length + 0) % 2 ^ 32 := fresh.ring.cc
  have entry : (decompressCqe rq rx.ring.wq rx.ring.wq.cc cqd).title =
      session.rxEntry rq rx.ring.wq.logSz (start + rx.handled.length) 0 := by
    rw [fresh.ring.cc]
    refine ready.decompressCqe_first narrow _ fun b hash => ?_
    rw [cqdTitle]
    exact session.titleSlot_apply (by omega) (by omega)
  have frame := decompressCqe_frame rq rx.ring.wq rx.ring.wq.cc cqd
  have carries := ready.carries narrow (start + rx.handled.length)
  rw [← counter] at carries
  have between := ready.between carries frame.1 frame.2.1
  generalize decompressCqe rq rx.ring.wq rx.ring.wq.cc cqd = after at entry frame between
  have arrays : ArraysFrom rx.ring.wq.logSz rx.ring.wq.slots session (start + rx.handled.length)
      (0 + 1) := fun offset reached below mini => stands.2 offset reached below (.inr mini)
  have first : List.range session.count = 0 :: List.range' 1 (session.count - 1) := by
    obtain ⟨below, count⟩ := Nat.exists_eq_add_of_lt (lt_of_lt_of_le Nat.zero_lt_two two)
    rw [count, List.range_eq_range', List.range'_succ]
    congr 2
  have sequence := fresh.sequence
  unfold entriesFrom placed at sequence
  rw [List.flatMap_cons, CqItem.entries, first, map_cons] at sequence
  generalize openedEq : RxCq.mk rx.ring { after with miniArrIdx := (after.miniArrIdx + 1) % 2 ^ 8 }
    (rx.handled ++ [(after.title, true)]) = opened
  have ring : opened.ring = rx.ring := by rw [← openedEq]
  have cont : ContDone limit rq session (start + rx.handled.length) 0 1
      (min (session.count - 0) budget) opened (decompressCqesCont rq 1 budget opened) := by
    refine @decompressCqesCont_spec limit rq session (start + rx.handled.length) 0 1 opened ?_ ?_ ?_
      ?_ ?_ (by omega) Nat.one_pos le_rfl budget pos range
    · rw [ring]
      exact fresh.ring
    · rw [ring]
      exact later.le
    · rw [← openedEq]
      exact between
    · rw [ring]
      exact arrays
    · rw [← openedEq]
      exact frame.2.2.trans cqdLeft
  have handled : opened.handled.length = rx.handled.length + 1 := by
    rw [← openedEq]
    exact length_append
  have laid : Laid opened.ring.wq.logSz limit opened.ring.wq.slots
      (start + rx.handled.length + session.count) items opened.ring.produced := by
    rw [ring]
    exact later
  have invOpened : RingInv limit opened.ring (start + rx.handled.length + 0) := by
    rw [ring]
    exact fresh.ring
  obtain ⟨length, finished, further⟩ := cont.settle invOpened
    (show start + opened.handled.length = start + rx.handled.length + (0 + 1) by omega) (by omega)
    (by omega) (by omega) (by rw [ring]; exact arrays) laid (by
      rw [ring, ← openedEq, ← sequence]
      simp only [map_append, map_cons, map_nil, append_assoc, List.cons_append, List.nil_append, entry]
      rfl)
  refine ⟨?_, ?_, ?_, ?_, ?_⟩
  · rw [cont.count, Nat.sub_zero]
  · rw [length, handled]
    omega
  · rw [cont.logSz, ring]
  · intro enough
    exact finished (by omega)
  · intro short
    have cut : 0 + min (session.count - 0) budget = budget := by omega
    rw [cut] at further
    exact further short

/-! ### The poll loop -/

structure PollDone (rq : RqParams) (limit start budget workDone : Nat) (rx : RxCq)
    (result : Int × RxCq) : Prop where
  inv : RxInv rq limit start result.2
  count : result.1 + rx.handled.length = workDone + result.2.handled.length
  within : result.1 ≤ budget
  drained : result.1 < budget → result.2.handled.map fst =
    result.2.ring.uncompressed (rxEntries rq rx.ring.wq.logSz)
  logSz : result.2.ring.wq.logSz = rx.ring.wq.logSz

theorem Fresh.drained (fresh : Fresh rq limit start rx []) :
    rx.handled.map fst = rx.ring.uncompressed (rxEntries rq rx.ring.wq.logSz) := by
  rw [← fresh.sequence]
  exact (append_nil _).symm

theorem Fresh.pops {cqe} (fresh : Fresh rq limit start rx (.plain cqe :: items)) (hint) :
    ∃ more, Fresh rq limit start
        { rx with
          ring := rx.ring.pop.getCqe.2
          handled := rx.handled ++ [(rx.ring.pop.getCqe.2.wq.slots
            (ringSlot rx.ring.wq.logSz (start + rx.handled.length)), hint)] } (items ++ more) ∧
      rx.ring.pop.getCqe.1 = handedOver rx.ring.wq.logSz (start + rx.handled.length + 1) (items ++ more) ∧
      rx.ring.pop.getCqe.2.wq.logSz = rx.ring.wq.logSz := by
  obtain ⟨ok, stands, later⟩ := fresh.laid
  have pending : start + rx.handled.length < rx.ring.produced := later.le
  have length : start + (rx.handled ++ [(rx.ring.wq.slots
      (ringSlot rx.ring.wq.logSz (start + rx.handled.length)), hint)]).length =
        start + rx.handled.length + 1 := by
    rw [length_append]
    rfl
  have popped : Fresh rq limit start
      { rx with
        ring := rx.ring.pop
        handled := rx.handled ++ [(rx.ring.wq.slots
          (ringSlot rx.ring.wq.logSz (start + rx.handled.length)), hint)] } items := {
    left := fresh.left
    ring := by
      simp only [length]
      exact fresh.ring.pop pending stands.owner
    laid := by
      simp only [length]
      exact later
    sequence := by
      have entry : rx.ring.wq.slots (ringSlot rx.ring.wq.logSz (start + rx.handled.length)) =
          stampOwner rx.ring.wq.logSz (start + rx.handled.length) cqe := stands
      have sequence := fresh.sequence
      unfold entriesFrom placed at sequence
      rw [flatMap_cons, CqItem.entries] at sequence
      simp only [length]
      simp only [map_append, map_cons, map_nil, append_assoc, entry]
      exact sequence }
  obtain ⟨more, grown, found, grows⟩ := popped.getCqe
  have kept := grows.keep_pending fresh.ring.room fresh.ring.released pending
  refine ⟨more, ?_, ?_, grows.logSz⟩
  · change rx.ring.pop.getCqe.2.wq.slots (ringSlot rx.ring.wq.logSz (start + rx.handled.length)) =
      rx.ring.wq.slots _ at kept
    rw [kept]
    exact grown
  · simp only [length] at found
    exact found

theorem Fresh.pollWhile {old budget workDone done again cqe} (fresh : Fresh rq limit start rx items)
    (found : cqe = handedOver rx.ring.wq.logSz (start + rx.handled.length) items)
    (logSz : rx.ring.wq.logSz = old.ring.wq.logSz)
    (count : done + old.handled.length = workDone + rx.handled.length)
    (within : done ≤ budget)
    (next : done < budget → items ≠ [] →
      ∃ result, again (ringSlot rx.ring.wq.logSz (start + rx.handled.length)) = some result ∧
        PollDone rq limit start budget done rx result) :
    ∃ result, RxCq.pollWhile budget done cqe rx again = some result ∧
      PollDone rq limit start budget workDone old result := by
  unfold RxCq.pollWhile
  have stop (drained : done < budget → items = []) :
      PollDone rq limit start budget workDone old ((done : Int), rx) := {
    inv := .fresh items fresh
    count := by
      change (done : Int) + _ = _
      exact_mod_cast count
    within := Int.ofNat_le.mpr within
    drained short := by
      have empty := drained (Int.ofNat_lt.mp short)
      rw [empty] at fresh
      rw [← logSz]
      exact fresh.drained
    logSz := logSz }
  by_cases more : done < budget
  · rw [if_pos (by exact_mod_cast more), found]
    cases pending : items with
    | nil => exact ⟨_, rfl, stop fun _ => pending⟩
    | cons item rest =>
      obtain ⟨result, ran, fine⟩ := next more (by rw [pending]; exact cons_ne_nil _ _)
      refine ⟨result, ran, { fine with count := ?_, drained := ?_, logSz := ?_ }⟩
      · have := fine.count
        omega
      · rw [← logSz]
        exact fine.drained
      · exact fine.logSz.trans logSz
  · rw [if_neg (by exact_mod_cast more)]
    exact ⟨_, rfl, stop fun short => absurd short more⟩

variable {budget workDone fuel : Nat}

theorem Fresh.pollLoop {item} (fresh : Fresh rq limit start rx (item :: items)) (small : limit < 2 ^ 16)
    (less : workDone < budget) (range : budget < 2 ^ 31) (enough : budget - workDone ≤ fuel) :
    ∃ result, RxCq.pollLoop rq budget fuel workDone
        (ringSlot rx.ring.wq.logSz (start + rx.handled.length)) rx = some result ∧
      PollDone rq limit start budget workDone rx result := by
  induction fuel generalizing workDone rx item items with
  | zero => omega
  | succ fuel ih =>
    have again {after : RxCq} {pending : List CqItem} {done : Nat}
        (freshAfter : Fresh rq limit start after pending) (progress : workDone < done)
        (more : done < budget) (nonempty : pending ≠ []) :
        ∃ result, RxCq.pollLoop rq budget fuel done
            (ringSlot after.ring.wq.logSz (start + after.handled.length)) after = some result ∧
          PollDone rq limit start budget done after result := by
      obtain ⟨head, rest, rfl⟩ := exists_cons_of_ne_nil nonempty
      exact ih freshAfter more (by omega)
    obtain ⟨ok, stands, later⟩ := fresh.laid
    rw [RxCq.pollLoop]
    cases item with
    | plain cqe =>
      have entry : rx.ring.wq.slots (ringSlot rx.ring.wq.logSz (start + rx.handled.length)) =
          stampOwner rx.ring.wq.logSz (start + rx.handled.length) cqe := stands
      have format : ¬ mlx5GetCqeFormat (rx.ring.wq.slots
          (ringSlot rx.ring.wq.logSz (start + rx.handled.length))) = mlx5Compressed := by
        rw [entry, stampOwner_format]
        exact ok
      rw [if_neg format]
      obtain ⟨more, after, found, logSz⟩ := fresh.pops
        (rx.ring.pop.getCqe.1.isSome && decide ((workDone : Int) % 16 ≠ 0))
      have length : (rx.handled ++ [(rx.ring.pop.getCqe.2.wq.slots
          (ringSlot rx.ring.wq.logSz (start + rx.handled.length)),
          rx.ring.pop.getCqe.1.isSome && decide ((workDone : Int) % 16 ≠ 0))]).length =
            rx.handled.length + 1 := length_append
      refine after.pollWhile ?_ logSz ?_ less ?_
      · simp only [length, logSz]
        exact found
      · simp only [length]
        omega
      · exact again after (Nat.lt_succ_self _)
    | session session =>
      have format : mlx5GetCqeFormat (rx.ring.wq.slots
          (ringSlot rx.ring.wq.logSz (start + rx.handled.length))) = mlx5Compressed := by
        rw [stands.1]
        exact session.titleSlot_compressed _ _
      have remaining : (budget : Int) - workDone = (budget - workDone : Nat) := by omega
      obtain ⟨count, length, logSz, finished, further⟩ := fresh.opens small
        (show 0 < budget - workDone by omega) (by omega)
      have two : 2 ≤ session.count := ok.1
      rw [if_pos format, remaining]
      generalize decompressCqesStart rq (budget - workDone : Nat) rx = started
        at count length logSz finished further
      have notFull : ¬ ((workDone : Int) + started.1 = budget) := by omega
      simp only
      rw [if_neg notFull]
      have work : (workDone : Int) + started.1 + 1 =
          (workDone + min session.count (budget - workDone) : Nat) := by omega
      rw [work]
      rcases Nat.lt_or_ge (budget - workDone) session.count with cut | whole
      · -- the budget ends inside the session
        obtain ⟨more, after, grows⟩ := (further cut).getCqe
        have all : workDone + min session.count (budget - workDone) = budget := by omega
        unfold RxCq.pollWhile
        rw [all, if_neg (Int.lt_irrefl _)]
        refine ⟨_, rfl, {
          inv := .partway _ _ _ _ after
          count := ?_
          within := Int.le_refl _
          drained short := absurd short (Int.lt_irrefl _)
          logSz := grows.logSz.trans logSz }⟩
        change (budget : Int) + _ = _ + (started.2.handled.length : Int)
        omega
      · obtain ⟨more, after, found, grows⟩ := (finished whole).getCqe
        refine after.pollWhile ?_ (grows.logSz.trans logSz) ?_ (by omega) ?_
        · simp only [grows.logSz]
          exact found
        · simp only
          omega
        · exact again after (by omega)

theorem RxInv.out {workDone} (inv : RxInv rq limit start rx) :
    RxInv rq limit start (RxCq.out (workDone, rx)).2 := by
  cases inv with
  | fresh items fresh => exact .fresh items { fresh with ring := fresh.ring.updateDbRecord }
  | partway session base index items partway =>
    exact .partway session base index items { partway with ring := partway.ring.updateDbRecord }

theorem PollDone.out {budget workDone res} (done : PollDone rq limit start budget workDone rx res) :
    PollDone rq limit start budget workDone rx (RxCq.out res) :=
  { done with inv := done.inv.out }

theorem Fresh.pollFresh {old} (fresh : Fresh rq limit start rx items) (small : limit < 2 ^ 16)
    (less : workDone < budget) (range : budget < 2 ^ 31) (enough : budget ≤ fuel)
    (count : workDone + old.handled.length = rx.handled.length)
    (logSz : rx.ring.wq.logSz = old.ring.wq.logSz) :
    ∃ result, RxCq.pollFresh rq fuel budget workDone rx = some result ∧
      PollDone rq limit start budget 0 old result := by
  obtain ⟨more, after, found, grows⟩ := fresh.getCqe
  have sizes : rx.ring.getCqe.2.wq.logSz = old.ring.wq.logSz := grows.logSz.trans logSz
  unfold RxCq.pollFresh
  rw [show rx.ring.getCqe = (rx.ring.getCqe.1, rx.ring.getCqe.2) from rfl]
  cases pending : items ++ more with
  | nil =>
    rw [pending] at found after
    have done : PollDone rq limit start budget 0 old
        ((workDone : Int), { rx with ring := rx.ring.getCqe.2 }) := {
      inv := .fresh [] after
      count := by
        change (workDone : Int) + _ = 0 + (rx.handled.length : Int)
        omega
      within := Int.ofNat_le.mpr (le_of_lt less)
      drained short := by
        rw [← sizes]
        exact after.drained
      logSz := sizes }
    simp only [found, handedOver]
    split_ifs with worked
    · exact ⟨_, rfl, done.out⟩
    · have zero : (workDone : Int) = 0 := not_not.mp worked
      rw [zero] at done
      exact ⟨_, rfl, done⟩
  | cons item rest =>
    rw [pending] at found after
    obtain ⟨result, ran, done⟩ := after.pollLoop small less range (le_trans (Nat.sub_le _ _) enough)
    simp only [grows.logSz] at ran
    simp only [found, handedOver, ran, Option.map_some]
    refine ⟨_, rfl, PollDone.out { done with count := ?_, drained := ?_, logSz := ?_ }⟩
    · have counted := done.count
      change result.1 + (rx.handled.length : Int) = _ at counted
      omega
    · rw [← sizes]
      exact done.drained
    · exact done.logSz.trans sizes

theorem RxInv.pollRxCq (inv : RxInv rq limit start rx) (small : limit < 2 ^ 16)
    {budget fuel} (pos : 0 < budget) (range : budget < 2 ^ 31) (enough : budget ≤ fuel) :
    ∃ result, RxCq.pollRxCq rq true fuel budget rx = some result ∧
      PollDone rq limit start budget 0 rx result := by
  unfold RxCq.pollRxCq
  rw [Bool.not_true, if_neg Bool.false_ne_true]
  cases inv with
  | fresh items fresh =>
    rw [if_neg (not_not.mpr fresh.left)]
    exact fresh.pollFresh small pos range enough (zero_add _) rfl
  | partway session base index items partway =>
    have unfinished := partway.unfinished
    have left : rx.cqd.left ≠ 0 := by
      rw [partway.left]
      omega
    rw [if_pos left]
    obtain ⟨count, length, logSz, finished, further⟩ := partway.resume pos range
    generalize decompressCqesCont rq 0 budget rx = resumed at count length logSz finished further
    simp only
    rcases Nat.lt_or_ge budget (session.count - index) with cut | whole
    · -- the budget ends inside the session
      have after := further cut
      have still : resumed.2.cqd.left ≠ 0 := by
        rw [after.left]
        omega
      rw [if_pos (.inl still)]
      have all : resumed.1 = budget := by omega
      refine ⟨_, rfl, PollDone.out {
        inv := .partway _ _ _ _ after
        count := ?_
        within := ?_
        drained short := absurd short ?_
        logSz := logSz }⟩
      · simp only
        omega
      · exact Int.ofNat_le.mpr (le_of_eq all)
      · rw [all]
        exact Int.lt_irrefl _
    · have after := finished whole
      by_cases used : (resumed.1 : Int) ≥ budget
      · rw [if_pos (.inr used)]
        refine ⟨_, rfl, PollDone.out {
          inv := .fresh _ after
          count := ?_
          within := ?_
          drained short := absurd short (Int.not_lt.mpr used)
          logSz := logSz }⟩
        · simp only
          omega
        · simp only
          omega
      · rw [if_neg (not_or.mpr ⟨not_not.mpr after.left, used⟩)]
        exact after.pollFresh small (by omega) range enough (by omega) logSz

end Poll

end RxCq

end MlnxOfed.Ethernet
