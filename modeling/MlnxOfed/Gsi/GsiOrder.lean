/-
The completions of the GSI QP over every run: which entry belongs to which request, and what the CQ's
consumer has seen.
-/

import Mathlib.Data.List.Nodup
import MlnxOfed.Gsi.GsiSends
import MlnxOfed.Lib.CyclicRing

namespace MlnxOfed.Gsi

open Option List Function GsiQp

def GsiQp.entryOf (gsi : GsiQp) (number : Nat) : Nat := number % 2 ^ 32 % gsi.maxSendWr

def GsiQp.reported (gsi : GsiQp) : List Nat :=
  gsi.polled.map Wc.wrId ++ gsi.wcList.map fun entry => (gsi.wrs entry).wc.wrId

/-- The `wr_id`s of the signalled requests among the first ones. -/
def GsiQp.signalled (gsi : GsiQp) (count : Nat) : List Nat :=
  ((gsi.posted.take count).filter fun wr => gsi.sigAll || wr.signaled).map UdWr.wrId

/-- A request is outstanding from when it is posted until `outstanding_ci` passes it. -/
def GsiQp.Outstanding (gsi : GsiQp) (number : Nat) : Prop :=
  gsi.retired ≤ number ∧ number < gsi.posted.length

structure Live (gsi : GsiQp) : Prop where
  cap : 0 < gsi.maxSendWr ∧ gsi.maxSendWr < 2 ^ 32
  pi : gsi.pi = gsi.posted.length % 2 ^ 32
  ci : gsi.ci = gsi.retired % 2 ^ 32
  window : gsi.retired ≤ gsi.posted.length ∧ gsi.posted.length ≤ gsi.retired + gsi.maxSendWr
  distinct : ∀ left right, gsi.Outstanding left → gsi.Outstanding right → gsi.entryOf left = gsi.entryOf right →
    left = right
  wrId : ∀ number wr, gsi.Outstanding number → gsi.posted[number]? = some wr →
    (gsi.wrs (gsi.entryOf number)).wc.wrId = wr.wrId
  completed : ∀ number, gsi.Outstanding number →
    ((gsi.wrs (gsi.entryOf number)).completed = false ↔ number ∈ gsi.flights.map Flight.number)
  clear : ∀ entry, (∀ number, gsi.Outstanding number → gsi.entryOf number ≠ entry) →
    (gsi.wrs entry).completed = false
  flights : ∀ flight ∈ gsi.flights, gsi.Outstanding flight.number ∧ flight.entry = gsi.entryOf flight.number
  once : (gsi.flights.map Flight.number).Nodup
  inUse : ∀ entry, (gsi.wrs entry).inUse = true ↔ entry ∈ gsi.wcList
  listed : gsi.wcList.Nodup
  apart : ∀ number, gsi.Outstanding number → gsi.entryOf number ∉ gsi.wcList
  flags : ∀ entry, (gsi.wrs entry).signaled = false
  kind : gsi.sigAll = true ∨ ∀ wr ∈ gsi.posted, wr.signaled = false
  reports : gsi.reported = gsi.signalled gsi.retired

/-- Nothing completed waits to be reported, but behind an older request. -/
structure Settled (gsi : GsiQp) : Prop where
  live : Live gsi
  first : gsi.retired = gsi.posted.length ∨ gsi.retired ∈ gsi.flights.map Flight.number

variable {gsi next : GsiQp}

theorem Live.entry_pi (live : Live gsi) : gsi.pi % gsi.maxSendWr = gsi.entryOf gsi.posted.length := by
  rw [live.pi]
  rfl

theorem Live.entry_ci (live : Live gsi) : gsi.ci % gsi.maxSendWr = gsi.entryOf gsi.retired := by
  rw [live.ci]
  rfl

private theorem entryOf_ne {left right} (order : left < right) (near : right < left + gsi.maxSendWr)
    (cap : gsi.maxSendWr < 2 ^ 32) (whole : gsi.maxSendWr ∣ 2 ^ 32 ∨ left % 2 ^ 32 ≤ right % 2 ^ 32) :
    gsi.entryOf left ≠ gsi.entryOf right := by
  unfold entryOf
  intro same
  have apart (low high : Nat) (below : low < high) (close : high < low + gsi.maxSendWr) : low % gsi.maxSendWr
      ≠ high % gsi.maxSendWr := by
    intro equal
    have divides : gsi.maxSendWr ∣ high - low := Nat.dvd_of_mod_eq_zero (Nat.sub_mod_eq_zero_of_mod_eq equal.symm)
    have zero := Nat.eq_zero_of_dvd_of_lt divides (by omega)
    omega
  rcases whole with divides | unwrapped
  · rw [Nat.mod_mod_of_dvd _ divides, Nat.mod_mod_of_dvd _ divides] at same
    exact apart left right order near same
  · exact apart (left % 2 ^ 32) (right % 2 ^ 32) (by omega) (by omega) same

theorem Live.ci_eq_pi (live : Live gsi) : gsi.ci = gsi.pi ↔ gsi.retired = gsi.posted.length := by
  obtain ⟨low, high⟩ := live.window
  have cap := live.cap.2
  rw [live.ci, live.pi]
  constructor
  · intro same
    omega
  · intro same
    rw [same]

theorem Live.distance (live : Live gsi) :
    (gsi.pi + 2 ^ 32 - gsi.ci) % 2 ^ 32 = gsi.posted.length - gsi.retired := by
  obtain ⟨low, high⟩ := live.window
  have cap := live.cap.2
  rw [live.ci, live.pi]
  omega

/-! ### One completion is reported -/

variable (live : Live gsi)

include live

theorem retire_eq : retire gsi = { gsi with
      wcList := gsi.wcList ++ if gsi.sigAll then [gsi.entryOf gsi.retired] else []
      wrs := update gsi.wrs (gsi.entryOf gsi.retired)
        { gsi.wrs (gsi.entryOf gsi.retired) with
          inUse := (gsi.wrs (gsi.entryOf gsi.retired)).inUse || gsi.sigAll
          completed := false }
      ci := (gsi.ci + 1) % 2 ^ 32
      retired := gsi.retired + 1 } := by
  have unsignaled : (gsi.wrs (gsi.entryOf gsi.retired)).signaled = false := live.flags _
  unfold retire
  rw [live.entry_ci]
  cases all : gsi.sigAll with
  | true =>
    simp [generateWc, all]
  | false =>
    simp [unsignaled, all]

variable {wr : UdWr}

private theorem signalled_succ (get : gsi.posted[gsi.retired]? = some wr) :
    gsi.signalled (gsi.retired + 1) = gsi.signalled gsi.retired ++ if gsi.sigAll then [wr.wrId] else [] := by
  unfold signalled
  rw [take_add_one, get]
  simp only [toList_some, filter_append, map_append]
  congr 1
  rcases live.kind with all | none
  · simp [all]
  · have unsignaled := none wr (mem_of_getElem? get)
    cases gsi.sigAll <;> simp [unsignaled]

theorem Live.retire (more : gsi.retired < gsi.posted.length)
    (done : (gsi.wrs (gsi.entryOf gsi.retired)).completed = true) : Live (retire gsi) := by
  have eq := retire_eq live
  have now : gsi.Outstanding gsi.retired := ⟨le_rfl, more⟩
  have notFlying : gsi.retired ∉ gsi.flights.map Flight.number := by
    intro flying
    rw [(live.completed _ now).mpr flying] at done
    cases done
  have unlisted := live.apart _ now
  have unused : (gsi.wrs (gsi.entryOf gsi.retired)).inUse = false := by
    cases isUsed : (gsi.wrs (gsi.entryOf gsi.retired)).inUse with
    | false => rfl
    | true => exact absurd ((live.inUse _).mp isUsed) unlisted
  have later {number} (outstanding : gsi.retired + 1 ≤ number ∧ number < gsi.posted.length) : gsi.Outstanding
      number ∧ gsi.entryOf number ≠ gsi.entryOf gsi.retired := by
    have before : gsi.Outstanding number := ⟨by omega, outstanding.2⟩
    refine ⟨before, ?_⟩
    intro same
    have equal := live.distinct _ _ before now same
    omega
  obtain ⟨wr, get⟩ : ∃ wr, gsi.posted[gsi.retired]? = some wr := ⟨_, getElem?_eq_getElem more⟩
  rw [eq]
  refine ⟨live.cap, live.pi, ?_, ?_, ?_, ?_, ?_, ?_, ?_, live.once, ?_, ?_, ?_, ?_, live.kind, ?_⟩
  · show (gsi.ci + 1) % 2 ^ 32 = (gsi.retired + 1) % 2 ^ 32
    rw [live.ci, Nat.mod_add_mod]
  · have window := live.window
    show gsi.retired + 1 ≤ gsi.posted.length ∧ gsi.posted.length ≤ gsi.retired + 1 + gsi.maxSendWr
    omega
  · intro left right isLeft isRight same
    exact live.distinct left right (later isLeft).1 (later isRight).1 same
  · intro number wr outstanding isWr
    obtain ⟨before, other⟩ := later outstanding
    show (update gsi.wrs _ _ (gsi.entryOf number)).wc.wrId = wr.wrId
    rw [update_of_ne other]
    exact live.wrId number wr before isWr
  · intro number outstanding
    obtain ⟨before, other⟩ := later outstanding
    show (update gsi.wrs _ _ (gsi.entryOf number)).completed = false ↔ _
    rw [update_of_ne other]
    exact live.completed number before
  · intro entry nobody
    dsimp only
    by_cases same : entry = gsi.entryOf gsi.retired
    · rw [same, update_self]
    rw [update_of_ne same]
    refine live.clear entry ?_
    intro number outstanding isEntry
    rcases Nat.lt_or_ge gsi.retired number with after | atMost
    · exact nobody number ⟨after, outstanding.2⟩ isEntry
    · have isFirst : number = gsi.retired := le_antisymm atMost outstanding.1
      rw [isFirst] at isEntry
      exact same isEntry.symm
  · intro flight isFlight
    obtain ⟨outstanding, entry⟩ := live.flights flight isFlight
    have other : flight.number ≠ gsi.retired := by
      intro same
      exact notFlying (same ▸ mem_map_of_mem isFlight)
    exact ⟨⟨Nat.lt_of_le_of_ne outstanding.1 other.symm, outstanding.2⟩, entry⟩
  · intro entry
    dsimp only
    by_cases same : entry = gsi.entryOf gsi.retired
    · rw [same, update_self, unused]
      cases gsi.sigAll <;> simp [unlisted]
    · rw [update_of_ne same, live.inUse]
      cases gsi.sigAll <;> simp [same]
  · dsimp only
    cases gsi.sigAll with
    | false => simpa using live.listed
    | true =>
      refine Nodup.append live.listed (nodup_singleton _) ?_
      intro entry isListed isNew
      rw [mem_singleton.mp isNew] at isListed
      exact unlisted isListed
  · intro number outstanding
    obtain ⟨before, other⟩ := later outstanding
    have notListed := live.apart number before
    show gsi.entryOf number ∉ gsi.wcList ++ _
    cases gsi.sigAll <;> simp [notListed, other]
  · intro entry
    dsimp only
    by_cases same : entry = gsi.entryOf gsi.retired
    · rw [same, update_self]
      exact live.flags _
    · rw [update_of_ne same]
      exact live.flags entry
  · have contents : ∀ entry, (update gsi.wrs (gsi.entryOf gsi.retired)
        { gsi.wrs (gsi.entryOf gsi.retired) with
          inUse := (gsi.wrs (gsi.entryOf gsi.retired)).inUse || gsi.sigAll
          completed := false } entry).wc = (gsi.wrs entry).wc := by
      intro entry
      by_cases same : entry = gsi.entryOf gsi.retired
      · rw [same, update_self]
      · rw [update_of_ne same]
    have before := live.reports
    have grown := signalled_succ live get
    have first := live.wrId _ wr now get
    unfold reported at before ⊢
    simp only [contents, map_append, ← append_assoc]
    rw [before]
    refine Eq.trans ?_ grown.symm
    cases gsi.sigAll <;> simp [first]

theorem Live.generateLoop {turns} (enough : gsi.posted.length - gsi.retired ≤ turns) :
    Settled (generateLoop turns gsi) := by
  induction turns generalizing gsi with
  | zero =>
    have window := live.window
    exact ⟨live, .inl (by show gsi.retired = gsi.posted.length; omega)⟩
  | succ turns ih =>
    unfold Gsi.generateLoop
    split
    next same => exact ⟨live, .inl (live.ci_eq_pi.mp same)⟩
    next notSame =>
      have window := live.window
      have more : gsi.retired < gsi.posted.length :=
        Nat.lt_of_le_of_ne window.1 (fun same => notSame (live.ci_eq_pi.mpr same))
      rw [live.entry_ci]
      split
      next waiting =>
        refine ⟨live, .inr ((live.completed _ ⟨le_rfl, more⟩).mp ?_)⟩
        simpa using waiting
      next done =>
        have after := live.retire more (by simpa using done)
        refine ih after ?_
        rw [retire_eq live]
        dsimp only
        omega

theorem Live.generateCompletions : Settled (generateCompletions gsi) := by
  unfold Gsi.generateCompletions
  rw [live.distance]
  exact live.generateLoop le_rfl

theorem Live.complete {flight status} (isFlight : flight ∈ gsi.flights) :
    Settled (handleSingleCompletion { gsi with flights := gsi.flights.erase flight } flight.entry status) := by
  obtain ⟨now, isEntry⟩ := live.flights flight isFlight
  have remaining {number} : number ∈ (gsi.flights.erase flight).map Flight.number ↔ number ∈ gsi.flights.map
      Flight.number ∧ number ≠ flight.number := by
    have split : (gsi.flights.map Flight.number).Perm
        (flight.number :: (gsi.flights.erase flight).map Flight.number) :=
      (perm_cons_erase isFlight).map Flight.number
    have distinct := split.nodup_iff.mp live.once
    rw [split.mem_iff, mem_cons]
    constructor
    · intro inside
      refine ⟨.inr inside, ?_⟩
      intro same
      exact (nodup_cons.mp distinct).1 (same ▸ inside)
    · rintro ⟨same | inside, other⟩
      · exact absurd same other
      · exact inside
  have otherEntry {number} (outstanding : gsi.Outstanding number) (other : number ≠ flight.number) :
      gsi.entryOf number ≠ gsi.entryOf flight.number := by
    intro same
    exact other (live.distinct _ _ outstanding now same)
  refine Live.generateCompletions ?_
  rw [isEntry]
  refine ⟨live.cap, live.pi, live.ci, live.window, live.distinct, ?_, ?_, ?_, ?_, ?_, ?_, live.listed, live.apart, ?_,
    live.kind, ?_⟩
  · intro number wr outstanding isWr
    show (update gsi.wrs _ _ (gsi.entryOf number)).wc.wrId = wr.wrId
    by_cases same : number = flight.number
    · rw [same] at isWr ⊢
      rw [update_self]
      exact live.wrId _ wr now isWr
    · rw [update_of_ne (otherEntry outstanding same)]
      exact live.wrId number wr outstanding isWr
  · intro number outstanding
    show (update gsi.wrs _ _ (gsi.entryOf number)).completed = false ↔
      number ∈ (gsi.flights.erase flight).map Flight.number
    rw [remaining]
    by_cases same : number = flight.number
    · rw [same, update_self]
      simp
    · rw [update_of_ne (otherEntry outstanding same), live.completed number outstanding]
      simp [same]
  · intro entry nobody
    have other : entry ≠ gsi.entryOf flight.number := by
      intro same
      exact nobody flight.number now same.symm
    dsimp only
    rw [update_of_ne other]
    exact live.clear entry nobody
  · intro other isOther
    exact live.flights other (mem_of_mem_erase isOther)
  · exact Nodup.sublist (Sublist.map _ erase_sublist) live.once
  · intro entry
    dsimp only
    rw [← live.inUse]
    by_cases same : entry = gsi.entryOf flight.number
    · rw [same, update_self]
    · rw [update_of_ne same]
  · intro entry
    dsimp only
    by_cases same : entry = gsi.entryOf flight.number
    · rw [same, update_self]
      exact live.flags _
    · rw [update_of_ne same]
      exact live.flags entry
  · have before := live.reports
    unfold reported at before ⊢
    refine Eq.trans ?_ before
    dsimp only
    congr 1
    refine map_congr_left ?_
    intro entry _listed
    by_cases same : entry = gsi.entryOf flight.number
    · rw [same, update_self]
    · rw [update_of_ne same]

omit live

/-! ### Posting -/

private theorem addOutstandingWr_eq {wc} (added : addOutstandingWr gsi wr wc = some next) :
    gsi.pi ≠ (gsi.ci + gsi.maxSendWr) % 2 ^ 32 ∧ (gsi.wrs (gsi.pi % gsi.maxSendWr)).inUse = false ∧
      next = { gsi with
        pi := (gsi.pi + 1) % 2 ^ 32
        wrs := update gsi.wrs (gsi.pi % gsi.maxSendWr) (fillEntry wr wc (gsi.wrs (gsi.pi % gsi.maxSendWr)))
        posted := gsi.posted ++ [wr] } := by
  unfold addOutstandingWr at added
  split at added
  next => cases added
  next room =>
    dsimp only at added
    split at added
    next => cases added
    next unused =>
      refine ⟨room, by simpa using unused, ?_⟩
      exact (some.inj added).symm

theorem Live.freshEntry (live : Live gsi) (room : gsi.pi ≠ (gsi.ci + gsi.maxSendWr) % 2 ^ 32)
    (whole : gsi.maxSendWr ∣ 2 ^ 32 ∨ gsi.ci ≤ gsi.pi) :
    gsi.posted.length < gsi.retired + gsi.maxSendWr ∧
      ∀ number, gsi.Outstanding number → gsi.entryOf number ≠ gsi.entryOf gsi.posted.length := by
  obtain ⟨low, high⟩ := live.window
  have cap := live.cap.2
  have below : gsi.posted.length < gsi.retired + gsi.maxSendWr := by
    refine Nat.lt_of_le_of_ne high ?_
    intro full
    refine room ?_
    rw [live.pi, live.ci, Nat.mod_add_mod, full]
  refine ⟨below, ?_⟩
  intro number outstanding
  obtain ⟨above, less⟩ := outstanding
  refine entryOf_ne less (by omega) cap ?_
  rcases whole with divides | unwrapped
  · exact .inl divides
  · rw [live.ci, live.pi] at unwrapped
    right
    omega

section

variable (live : Live gsi)

include live

/-- An entry that holds no completion is written; what the others say stays. -/
theorem Live.write_unlisted {entry w} (unused : (gsi.wrs entry).inUse = false)
    (inUse : w.inUse = (gsi.wrs entry).inUse) (signaled : w.signaled = (gsi.wrs entry).signaled) :
    (∀ other, (update gsi.wrs entry w other).inUse = true ↔ other ∈ gsi.wcList) ∧
      (∀ other, (update gsi.wrs entry w other).signaled = false) ∧ entry ∉ gsi.wcList ∧
      GsiQp.reported { gsi with wrs := update gsi.wrs entry w } = gsi.reported := by
  have unlisted : entry ∉ gsi.wcList := by
    intro isListed
    rw [(live.inUse _).mpr isListed] at unused
    cases unused
  refine ⟨fun other => ?_, fun other => ?_, unlisted, ?_⟩
  · rw [← live.inUse]
    by_cases same : other = entry
    · rw [same, update_self, inUse]
    · rw [update_of_ne same]
  · by_cases same : other = entry
    · rw [same, update_self, signaled]
      exact live.flags _
    · rw [update_of_ne same]
      exact live.flags other
  · unfold reported
    dsimp only
    congr 1
    refine map_congr_left ?_
    intro other isListed
    have apart : other ≠ entry := by
      intro same
      exact unlisted (same ▸ isListed)
    rw [update_of_ne apart]

theorem Live.posted_unsent : gsi.posted.length ∉ gsi.flights.map Flight.number := by
  intro flying
  obtain ⟨flight, isFlight, same⟩ := mem_map.mp flying
  have outstanding := (live.flights flight isFlight).1.2
  omega

omit live in
theorem outstanding_append {number} (outstanding : gsi.retired ≤ number ∧ number < (gsi.posted ++ [wr]).length) :
    gsi.Outstanding number ∨ number = gsi.posted.length := by
  obtain ⟨above, less⟩ := outstanding
  rw [length_append, length_singleton] at less
  rcases Nat.lt_or_ge number gsi.posted.length with old | new
  · exact .inl ⟨above, old⟩
  · exact .inr (by omega)

/-- The new request has a flight unless it is dropped, in which case it is complete. -/
theorem Live.completed_add {dropped w} (isDropped : w.completed = dropped)
    (fresh : ∀ number, gsi.Outstanding number → gsi.entryOf number ≠ gsi.entryOf gsi.posted.length)
    {number} (outstanding : gsi.Outstanding number ∨ number = gsi.posted.length) :
    (update gsi.wrs (gsi.entryOf gsi.posted.length) w (gsi.entryOf number)).completed = false ↔
      number ∈ map Flight.number (gsi.flights ++ if dropped then [] else
        [⟨gsi.posted.length, gsi.entryOf gsi.posted.length⟩]) := by
  rw [map_append, mem_append]
  rcases outstanding with old | rfl
  · have less := old.2
    rw [update_of_ne (fresh number old), live.completed number old]
    cases dropped with
    | true => simp
    | false =>
      have other : number ≠ gsi.posted.length := by omega
      simp [other]
  · rw [update_self, isDropped]
    cases dropped with
    | true => simpa using live.posted_unsent
    | false => simp

theorem Live.flights_add (dropped : Bool) {flight} (isFlight : flight ∈ gsi.flights ++ if dropped then [] else
      [⟨gsi.posted.length, gsi.entryOf gsi.posted.length⟩]) :
    (gsi.retired ≤ flight.number ∧ flight.number < gsi.posted.length + 1) ∧
      flight.entry = gsi.entryOf flight.number := by
  rcases mem_append.mp isFlight with before | new
  · obtain ⟨outstanding, entry⟩ := live.flights flight before
    have less := outstanding.2
    exact ⟨⟨outstanding.1, by omega⟩, entry⟩
  · cases dropped with
    | true => cases new
    | false =>
      obtain rfl := mem_singleton.mp new
      exact ⟨⟨live.window.1, Nat.lt_succ_self _⟩, rfl⟩

theorem Live.once_add (dropped : Bool) : (map Flight.number (gsi.flights ++ if dropped then [] else
    [⟨gsi.posted.length, gsi.entryOf gsi.posted.length⟩])).Nodup := by
  rw [map_append]
  cases dropped with
  | true => simpa using live.once
  | false =>
    refine Nodup.append live.once (by simp) ?_
    intro number before new
    have isNew : number = gsi.posted.length := by simpa using new
    exact live.posted_unsent (isNew ▸ before)

/-- A request is added: it is dropped and so complete at once, or a transmit QP has it. -/
theorem Live.add (wc dropped) (below : gsi.posted.length < gsi.retired + gsi.maxSendWr)
    (fresh : ∀ number, gsi.Outstanding number → gsi.entryOf number ≠ gsi.entryOf gsi.posted.length)
    (unused : (gsi.wrs (gsi.entryOf gsi.posted.length)).inUse = false)
    (kind : gsi.sigAll = true ∨ wr.signaled = false) (isWr : wc.wrId = wr.wrId) :
    Live { gsi with
      pi := (gsi.pi + 1) % 2 ^ 32
      wrs := update gsi.wrs (gsi.entryOf gsi.posted.length)
        { gsi.wrs (gsi.entryOf gsi.posted.length) with wc := wc, completed := dropped }
      posted := gsi.posted ++ [wr]
      flights := gsi.flights ++
        if dropped then [] else [⟨gsi.posted.length, gsi.entryOf gsi.posted.length⟩] } := by
  have split {number} (outstanding : gsi.retired ≤ number ∧ number < (gsi.posted ++ [wr]).length) :=
    outstanding_append outstanding
  have grown : (gsi.posted ++ [wr]).length = gsi.posted.length + 1 := by simp
  obtain ⟨inUse, flags, unlisted, reports⟩ := live.write_unlisted unused
    (w := { gsi.wrs (gsi.entryOf gsi.posted.length) with wc := wc, completed := dropped }) rfl rfl
  refine ⟨live.cap, ?_, live.ci, ?_, ?_, ?_, ?_, ?_, ?_, live.once_add dropped, inUse, live.listed, ?_, flags,
    ?_, ?_⟩
  · dsimp only
    rw [grown, live.pi, Nat.mod_add_mod]
  · have window := live.window
    dsimp only
    rw [grown]
    omega
  · intro left right isLeft isRight same
    replace same : gsi.entryOf left = gsi.entryOf right := same
    rcases split isLeft with oldLeft | newLeft
    · rcases split isRight with oldRight | newRight
      · exact live.distinct left right oldLeft oldRight same
      · rw [newRight] at same
        exact absurd same (fresh left oldLeft)
    · rcases split isRight with oldRight | newRight
      · rw [newLeft] at same
        exact absurd same.symm (fresh right oldRight)
      · rw [newLeft, newRight]
  · intro number other outstanding get
    show (update gsi.wrs _ _ (gsi.entryOf number)).wc.wrId = other.wrId
    rcases split outstanding with old | new
    · rw [update_of_ne (fresh number old)]
      refine live.wrId number other old ?_
      rw [← get]
      exact (getElem?_append_left old.2).symm
    · rw [new] at get ⊢
      rw [update_self]
      have isLast : (gsi.posted ++ [wr])[gsi.posted.length]? = some wr := by simp
      rw [some.inj (get.symm.trans isLast)]
      exact isWr
  · exact fun number outstanding => live.completed_add rfl fresh (split outstanding)
  · intro entry nobody
    have notNew : gsi.entryOf gsi.posted.length ≠ entry := by
      refine nobody gsi.posted.length ⟨live.window.1, ?_⟩
      dsimp only
      omega
    dsimp only
    rw [update_of_ne notNew.symm]
    refine live.clear entry ?_
    intro number outstanding
    refine nobody number ⟨outstanding.1, ?_⟩
    have less := outstanding.2
    dsimp only
    omega
  · intro flight isFlight
    obtain ⟨outstanding, entry⟩ := live.flights_add dropped isFlight
    exact ⟨⟨outstanding.1, lt_of_lt_of_eq outstanding.2 grown.symm⟩, entry⟩
  · intro number outstanding
    rcases split outstanding with old | new
    · exact live.apart number old
    · rw [new]
      exact unlisted
  · rcases live.kind with all | none
    · exact .inl all
    rcases kind with all | unsignaled
    · exact .inl all
    right
    intro other isPosted
    rcases mem_append.mp isPosted with old | new
    · exact none other old
    · rw [mem_singleton.mp new]
      exact unsignaled
  · refine (reports.trans live.reports).trans ?_
    unfold signalled
    dsimp only
    rw [take_append_of_le_length live.window.1]

theorem Live.overwrite {wc}
    (fresh : ∀ number, gsi.Outstanding number → gsi.entryOf number ≠ gsi.entryOf gsi.posted.length)
    (unused : (gsi.wrs (gsi.entryOf gsi.posted.length)).inUse = false) :
    Live { gsi with
      wrs := update gsi.wrs (gsi.entryOf gsi.posted.length)
        { gsi.wrs (gsi.entryOf gsi.posted.length) with wc := wc } } := by
  obtain ⟨inUse, flags, -, reports⟩ := live.write_unlisted unused
    (w := { gsi.wrs (gsi.entryOf gsi.posted.length) with wc := wc }) rfl rfl
  refine { live with
    wrId := ?_
    completed := ?_
    clear := ?_
    inUse := inUse
    flags := flags
    reports := reports.trans live.reports }
  · intro number wr outstanding isWr
    show (update gsi.wrs _ _ (gsi.entryOf number)).wc.wrId = wr.wrId
    rw [update_of_ne (fresh number outstanding)]
    exact live.wrId number wr outstanding isWr
  · intro number outstanding
    show (update gsi.wrs _ _ (gsi.entryOf number)).completed = false ↔ _
    rw [update_of_ne (fresh number outstanding)]
    exact live.completed number outstanding
  · intro entry nobody
    have before := live.clear entry nobody
    dsimp only
    by_cases same : entry = gsi.entryOf gsi.posted.length
    · rw [same] at before ⊢
      rw [update_self]
      exact before
    · rw [update_of_ne same]
      exact before

end

/-- A signalled request is posted only where all are, and none while the outstanding ones stand on both
sides of 2^32, unless the ring divides it. -/
def Move.Safe (gsi : GsiQp) : Move → Prop
  | .post wr _ => (gsi.sigAll = true ∨ wr.signaled = false) ∧ (gsi.maxSendWr ∣ 2 ^ 32 ∨ gsi.ci ≤ gsi.pi)
  | _ => True

instance (gsi : GsiQp) : (move : Move) → Decidable (move.Safe gsi)
  | .post _ _ => inferInstanceAs (Decidable (_ ∧ _))
  | .setup _ => isTrue trivial
  | .complete _ _ => isTrue trivial
  | .poll _ _ => isTrue trivial

theorem Settled.gsiPostSend {sent} (settled : Settled gsi)
    (safe : Move.Safe gsi (.post wr sent)) : Settled (gsiPostSend gsi wr sent) := by
  obtain ⟨kind, whole⟩ := safe
  have live := settled.live
  unfold Gsi.gsiPostSend
  split
  next =>
    cases added : addOutstandingWr gsi wr (some ⟨wr.wrId, .success⟩) with
    | none => exact settled
    | some next =>
      obtain ⟨room, unused, rfl⟩ := addOutstandingWr_eq added
      obtain ⟨below, fresh⟩ := live.freshEntry room whole
      rw [live.entry_pi] at unused ⊢
      have after := live.add ⟨wr.wrId, .success⟩ true below fresh unused kind rfl
      rw [if_pos rfl, append_nil] at after
      exact after.generateCompletions
  next =>
    cases added : addOutstandingWr gsi wr none with
    | none => exact settled
    | some next =>
      obtain ⟨room, unused, rfl⟩ := addOutstandingWr_eq added
      obtain ⟨below, fresh⟩ := live.freshEntry room whole
      rw [live.entry_pi] at unused ⊢
      dsimp only
      split
      next =>
        have after := live.add ⟨wr.wrId, .success⟩ false below fresh unused kind rfl
        have incomplete := live.clear _ fresh
        refine ⟨?_, ?_⟩
        · unfold fillEntry
          rw [if_neg (by decide)] at after
          rw [← incomplete] at after
          exact after
        right
        dsimp only
        rw [map_append, mem_append]
        rcases settled.first with none | first
        · exact .inr (by simp [none])
        · exact .inl first
      next =>
        have back : ((gsi.pi + 1) % 2 ^ 32 + 2 ^ 32 - 1) % 2 ^ 32 = gsi.pi := by
          have small : gsi.pi < 2 ^ 32 := by
            rw [live.pi]
            exact Nat.mod_lt _ (by decide)
          omega
        rw [back]
        exact ⟨live.overwrite fresh unused, settled.first⟩

theorem Settled.pollSoftWc {isFatalErr numEntries} (settled : Settled gsi) :
    Settled (pollSoftWc isFatalErr numEntries gsi) := by
  induction numEntries generalizing gsi with
  | zero => exact settled
  | succ numEntries ih =>
    unfold Gsi.pollSoftWc
    split
    next => exact settled
    next entry rest isList =>
      refine ih ?_
      have live := settled.live
      have listed : entry ∈ gsi.wcList := by
        rw [isList]
        exact .head _
      have distinct := live.listed
      rw [isList] at distinct
      obtain ⟨notLater, distinctRest⟩ := nodup_cons.mp distinct
      have otherEntry {number} (outstanding : gsi.Outstanding number) : gsi.entryOf number ≠ entry := by
        intro same
        exact live.apart number outstanding (same ▸ listed)
      have sameId : (if isFatalErr = true then { (gsi.wrs entry).wc with status := .flushErr }
          else (gsi.wrs entry).wc).wrId = (gsi.wrs entry).wc.wrId := by
        cases isFatalErr <;> rfl
      refine ⟨⟨live.cap, live.pi, live.ci, live.window, live.distinct, ?_, ?_, ?_, live.flights, live.once, ?_,
        distinctRest, ?_, ?_, live.kind, ?_⟩, settled.first⟩
      · intro number wr outstanding isWr
        show (update gsi.wrs _ _ (gsi.entryOf number)).wc.wrId = wr.wrId
        rw [update_of_ne (otherEntry outstanding)]
        exact live.wrId number wr outstanding isWr
      · intro number outstanding
        show (update gsi.wrs _ _ (gsi.entryOf number)).completed = false ↔ _
        rw [update_of_ne (otherEntry outstanding)]
        exact live.completed number outstanding
      · intro other nobody
        have before := live.clear other nobody
        dsimp only
        by_cases same : other = entry
        · rw [same] at before ⊢
          rw [update_self]
          exact before
        · rw [update_of_ne same]
          exact before
      · intro other
        have before := live.inUse other
        rw [isList, mem_cons] at before
        dsimp only
        by_cases same : other = entry
        · rw [same, update_self]
          simp [notLater]
        · rw [update_of_ne same, before]
          simp [same]
      · intro number outstanding inRest
        refine live.apart number outstanding ?_
        rw [isList]
        exact .tail _ inRest
      · intro other
        dsimp only
        by_cases same : other = entry
        · rw [same, update_self]
          exact live.flags _
        · rw [update_of_ne same]
          exact live.flags other
      · have before := live.reports
        unfold reported at before ⊢
        refine Eq.trans ?_ before
        dsimp only
        rw [isList, map_append, append_assoc, map_singleton, map_cons, sameId, singleton_append]
        congr 2
        refine map_congr_left ?_
        intro other inRest
        have apart : other ≠ entry := by
          intro same
          exact notLater (same ▸ inRest)
        rw [update_of_ne apart]

private theorem gsiCreateQp_settled {maxSendWr numQps sigAll lagActive} (some : 1 ≤ maxSendWr)
    (u32 : maxSendWr < 2 ^ 32) : Settled (gsiCreateQp maxSendWr sigAll numQps lagActive) := by
  have none number : ¬ (gsiCreateQp maxSendWr sigAll numQps lagActive).Outstanding number := by
    intro outstanding
    exact absurd outstanding.2 (Nat.not_lt_zero _)
  refine ⟨⟨⟨some, u32⟩, rfl, rfl, ⟨le_rfl, Nat.zero_le _⟩, ?_, ?_, ?_, ?_, ?_, nodup_nil, ?_, nodup_nil,
    ?_, ?_, ?_, rfl⟩, .inl rfl⟩
  · intro left _right isLeft
    exact absurd isLeft (none left)
  · intro number _wr outstanding
    exact absurd outstanding (none number)
  · intro number outstanding
    exact absurd outstanding (none number)
  · intro entry _nobody
    rfl
  · intro flight isFlight
    cases isFlight
  · intro entry
    simp [gsiCreateQp]
  · intro number outstanding
    exact absurd outstanding (none number)
  · intro entry
    rfl
  · right
    intro wr isPosted
    cases isPosted

theorem Settled.step {move} (settled : Settled gsi) (safe : move.Safe gsi)
    (moved : step gsi move = some next) : Settled next := by
  cases move with
  | setup index =>
    rw [← some.inj moved]
    have live := settled.live
    exact ⟨{ live with }, settled.first⟩
  | post wr sent =>
    rw [← some.inj moved]
    exact settled.gsiPostSend safe
  | complete flight status =>
    simp only [Gsi.step] at moved
    split at moved
    next able =>
      rw [← some.inj moved]
      exact settled.live.complete able.1
    next => cases moved
  | poll isFatalErr numEntries =>
    rw [← some.inj moved]
    exact settled.pollSoftWc

/-- The consumer has seen, or finds on the CQ's list, the `wr_id`s of the signalled requests before
`outstanding_ci`, once and in order; it waits for a request its transmit QP has not completed; and no entry
serves two requests, or a request and a completion. -/
structure InOrder (gsi : GsiQp) : Prop where
  reports : gsi.reported = gsi.signalled gsi.retired
  first : gsi.retired = gsi.posted.length ∨ gsi.retired ∈ gsi.flights.map Flight.number
  distinct : ∀ left right, gsi.Outstanding left → gsi.Outstanding right → gsi.entryOf left = gsi.entryOf right →
    left = right
  listed : gsi.wcList.Nodup
  apart : ∀ number, gsi.Outstanding number → gsi.entryOf number ∉ gsi.wcList
  flights : ∀ flight ∈ gsi.flights, gsi.Outstanding flight.number ∧ flight.entry = gsi.entryOf flight.number

theorem gsi_sends_in_order {maxSendWr numQps : Nat} {sigAll lagActive : Bool} (some : 1 ≤ maxSendWr)
    (u32 : maxSendWr < 2 ^ 32)
    (reachable : Reachable (fun gsi move => move.Safe gsi) maxSendWr sigAll numQps lagActive gsi) : InOrder gsi := by
  have settled : Settled gsi := by
    induction reachable with
    | create => exact gsiCreateQp_settled some u32
    | step _before kind moved ih => exact ih.step kind moved
  have live := settled.live
  exact { live with first := settled.first }

def sendWr (wrId : Nat) (signaled : Bool) (pkeyIndex : Nat) : UdWr := ⟨wrId, signaled, pkeyIndex, 0⟩

/-- Two transmit QPs complete the other way round, and a third request is dropped. -/
theorem gsi_sends_in_order_across_qps : ∃ gsi, run (fun gsi move => move.Safe gsi) (gsiCreateQp 3 true 2 false)
      [.setup 0, .setup 1, .post (sendWr 7 true 0) true, .post (sendWr 8 true 1) true, .post (sendWr 9 true 5) true,
        .complete ⟨1, 1⟩ .success, .complete ⟨0, 0⟩ .success, .poll false 3] = some gsi ∧
      gsi.polled.map Wc.wrId = [7, 8, 9] ∧ InOrder gsi := by
  have ran : (run (fun gsi move => move.Safe gsi) (gsiCreateQp 3 true 2 false)
      [.setup 0, .setup 1, .post (sendWr 7 true 0) true, .post (sendWr 8 true 1) true, .post (sendWr 9 true 5) true,
        .complete ⟨1, 1⟩ .success, .complete ⟨0, 0⟩ .success, .poll false 3]).map
      (fun gsi => gsi.polled.map Wc.wrId) = some [7, 8, 9] := by decide +kernel
  obtain ⟨gsi, ran, polled⟩ := map_eq_some_iff.mp ran
  exact ⟨gsi, ran, polled, gsi_sends_in_order (by decide) (by decide) (Reachable.create.run ran)⟩

/-- A signalled request completes among unsignalled ones, and nothing is reported. -/
theorem signalled_send_unreported : ¬ ∀ (maxSendWr numQps : Nat) (sigAll lagActive : Bool) (gsi : GsiQp),
    1 ≤ maxSendWr → maxSendWr < 2 ^ 32 →
    Reachable (fun _ _ => True) maxSendWr sigAll numQps lagActive gsi → gsi.reported = gsi.signalled gsi.retired := by
  intro all
  have ran : (run (fun _ _ => True) (gsiCreateQp 4 false 0 false)
      [.post (sendWr 7 true 0) true, .complete ⟨0, 0⟩ .success]).map
      (fun gsi => (gsi.reported, gsi.signalled gsi.retired)) = some ([], [7]) := by decide +kernel
  obtain ⟨gsi, ran, same⟩ := map_eq_some_iff.mp ran
  simp only [Prod.mk.injEq] at same
  have equal := all 4 0 false false gsi (by decide) (by decide) (Reachable.create.run ran)
  rw [same.1, same.2] at equal
  exact absurd equal (by decide)

end MlnxOfed.Gsi
