/-
Runs of a completion queue: the device writes items at any time and the driver polls with any budgets.
Compression is invisible in every state reached, as long as the decompressor's 16 bit count holds the length
of a session.
-/

import MlnxOfed.Ethernet.RxPoll
import MlnxOfed.Ethernet.TxDecompress

namespace MlnxOfed.Ethernet

open Prod Option List Lib

/-- A queue nothing has been written to since its consumer counter was last moved. -/
structure CqRing.Idle (ring : CqRing) : Prop where
  narrow : ring.wq.logSz < 32
  cc : ring.wq.cc < 2 ^ 32
  produced : ring.produced = ring.wq.cc
  released : ring.released = ring.wq.cc
  written : ring.written = []
  arrivals : ring.arrivals = []
  stale : ∀ q, ring.wq.cc ≤ q → q < ring.wq.cc + 2 ^ ring.wq.logSz →
    cqeOwner (ring.wq.slots (ringSlot ring.wq.logSz q)) ≠ ringLap ring.wq.logSz q

def CqRing.expecting (ring : CqRing) (arrivals : List (List CqItem)) : CqRing :=
  { ring with arrivals := arrivals }

def AllAllowed (log limit : Nat) (arrivals : List (List CqItem)) : Prop :=
  ∀ batch ∈ arrivals, ∀ item ∈ batch, item.Allowed log limit

/-- Slots taken and not written again carry the owner bit of the lap they were taken in. -/
def CqRing.OwnersOfLap (ring : CqRing) (position : Nat) : Prop :=
  ∀ q, q < position → ring.produced ≤ q + 2 ^ ring.wq.logSz →
    cqeOwner (ring.wq.slots (ringSlot ring.wq.logSz q)) = ringLap ring.wq.logSz q

inductive RxStep (rq : RqParams) (limit : Nat) : RxCq → RxCq → Prop
  | device (rx : RxCq) (items : List CqItem) (allowed : ∀ item ∈ items, item.Allowed rx.ring.wq.logSz limit) :
      RxStep rq limit rx { rx with ring := rx.ring.writeAll items }
  | poll (rx : RxCq) (arrivals : List (List CqItem))
      (allowed : AllAllowed rx.ring.wq.logSz limit arrivals) (enabled : Bool)
      (fuel budget : Nat) (positive : 0 < budget) (range : budget < 2 ^ 31) (enough : budget ≤ fuel)
      (result : Int × RxCq)
      (ran : RxCq.pollRxCq rq enabled fuel budget { rx with ring := rx.ring.expecting arrivals } =
        some result) :
      RxStep rq limit rx result.2

/-- What a receive queue owes to the uncompressed sequence, and its next poll. -/
structure RxFaithful (rq : RqParams) (limit start : Nat) (rx : RxCq) : Prop where
  entries : rx.handled.map fst =
    (rx.ring.uncompressed (RxCq.rxEntries rq rx.ring.wq.logSz)).take rx.handled.length
  cc : rx.ring.wq.cc = (start + rx.handled.length) % 2 ^ 32
  owners : rx.ring.OwnersOfLap (start + rx.handled.length)
  polls : ∀ (arrivals : List (List CqItem)) (budget fuel : Nat),
    AllAllowed rx.ring.wq.logSz limit arrivals → 0 < budget → budget < 2 ^ 31 → budget ≤ fuel →
    ∃ count result, RxCq.pollRxCq rq true fuel budget { rx with ring := rx.ring.expecting arrivals } =
        some (count, result) ∧
      (result.handled.length : Int) = rx.handled.length + count ∧ count ≤ budget ∧
      (count < budget → result.handled.map fst = result.ring.uncompressed (RxCq.rxEntries rq rx.ring.wq.logSz))

inductive TxStep (limit : Nat) : TxCq → TxCq → Prop
  | device (tx : TxCq) (items : List CqItem) (allowed : ∀ item ∈ items, item.Allowed tx.ring.wq.logSz limit) :
      TxStep limit tx { tx with ring := tx.ring.writeAll items }
  | poll (tx : TxCq) (arrivals : List (List CqItem))
      (allowed : AllAllowed tx.ring.wq.logSz limit arrivals) (enabled : Bool) :
      TxStep limit tx (TxCq.pollTxCq enabled { tx with ring := tx.ring.expecting arrivals })

structure TxFaithful (limit start : Nat) (tx : TxCq) : Prop where
  entries : tx.acted = (tx.ring.uncompressed (TxCq.txEntries tx.ring.wq.logSz)).take tx.acted.length
  cc : tx.ring.wq.cc = (start + tx.acted.length) % 2 ^ 32
  owners : tx.ring.OwnersOfLap (start + tx.acted.length)
  polls : ∀ arrivals : List (List CqItem), AllAllowed tx.ring.wq.logSz limit arrivals →
    (TxCq.pollTxCq true { tx with ring := tx.ring.expecting arrivals }).acted.length <
        tx.acted.length + TxCq.txCqPollBudget →
      (TxCq.pollTxCq true { tx with ring := tx.ring.expecting arrivals }).acted =
        (TxCq.pollTxCq true { tx with ring := tx.ring.expecting arrivals }).ring.uncompressed
          (TxCq.txEntries tx.ring.wq.logSz)

/-- Runs of a queue whose sessions have at most `limit` entries are faithful, on either side. -/
def DecompressionExact (limit : Nat) : Prop :=
  (∀ (rq : RqParams) (first rx : RxCq), first.ring.Idle → first.cqd.left = 0 →
    first.handled = [] → Relation.ReflTransGen (RxStep rq limit) first rx →
      RxFaithful rq limit first.ring.wq.cc rx) ∧
  (∀ first tx : TxCq, first.ring.Idle → first.acted = [] →
    Relation.ReflTransGen (TxStep limit) first tx → TxFaithful limit first.ring.wq.cc tx)

/-! ### One step -/

section Steps

variable {limit start : Nat} {ring : CqRing} {position : Nat}

theorem CqRing.Idle.inv (idle : ring.Idle) : RingInv limit ring ring.wq.cc where
  narrow := idle.narrow
  cc := (Nat.mod_eq_of_lt idle.cc).symm
  released := le_of_eq idle.released
  consumed := le_of_eq idle.produced.symm
  room := by
    rw [idle.produced, idle.released]
    exact Nat.le_add_right _ _
  stale := by
    rw [idle.produced]
    exact idle.stale
  allowed := by
    rw [idle.arrivals]
    exact fun batch listed => absurd listed not_mem_nil

theorem RingInv.expecting (inv : RingInv limit ring position) {arrivals}
    (ok : AllAllowed ring.wq.logSz limit arrivals) :
    RingInv limit (ring.expecting arrivals) position :=
  { inv with allowed := ok }

theorem RingInv.owners (inv : RingInv limit ring position) : ring.OwnersOfLap position := by
  intro q taken near
  have stale := inv.stale (q + 2 ^ ring.wq.logSz) near (by omega)
  rw [ringSlot_add_round, ringLap_add_round] at stale
  have bit : cqeOwner (ring.wq.slots (ringSlot ring.wq.logSz q)) < 2 := by
    unfold cqeOwner
    rw [Nat.and_one_is_mod]
    exact Nat.mod_lt _ (by decide)
  have lap := ringLap_lt ring.wq.logSz q
  omega

end Steps

section RxRuns

open RxCq

variable {rq : RqParams} {limit start : Nat} {rx after : RxCq}

theorem RxCq.RxInv.expecting (inv : RxInv rq limit start rx) {arrivals}
    (ok : AllAllowed rx.ring.wq.logSz limit arrivals) :
    RxInv rq limit start { rx with ring := rx.ring.expecting arrivals } := by
  cases inv with
  | fresh items fresh => exact .fresh items { fresh with ring := fresh.ring.expecting ok }
  | partway session base index items partway =>
    exact .partway session base index items
      { partway with ring := partway.ring.expecting ok }

theorem RxStep.keeps (step : RxStep rq limit rx after) (small : limit < 2 ^ 16)
    (inv : RxInv rq limit start rx) : RxInv rq limit start after := by
  cases step with
  | device items ok =>
    cases inv with
    | fresh pending fresh =>
      obtain ⟨more, grows, ring⟩ := fresh.ring.writeAll_grows ok
      exact .fresh _ (fresh.grow grows ring)
    | partway session base index pending partway =>
      obtain ⟨more, grows, ring⟩ := partway.ring.writeAll_grows ok
      exact .partway _ _ _ _ (partway.grow grows ring)
  | poll arrivals ok enabled fuel budget pos range enough res ran =>
    have expecting := inv.expecting ok
    cases enabled with
    | false =>
      have same := some.inj ran
      rw [← same]
      exact expecting
    | true =>
      obtain ⟨done, ranTo, fine⟩ := expecting.pollRxCq small pos range enough
      rw [ranTo] at ran
      rw [← some.inj ran]
      exact fine.inv

theorem RxCq.RxInv.faithful (inv : RxInv rq limit start rx) (small : limit < 2 ^ 16) :
    RxFaithful rq limit start rx := by
  have polls (arrivals : List (List CqItem)) (budget fuel : Nat)
      (ok : AllAllowed rx.ring.wq.logSz limit arrivals) (pos : 0 < budget)
      (range : budget < 2 ^ 31) (enough : budget ≤ fuel) :
      ∃ count res, RxCq.pollRxCq rq true fuel budget { rx with ring := rx.ring.expecting arrivals } =
          some (count, res) ∧
        (res.handled.length : Int) = rx.handled.length + count ∧ count ≤ budget ∧
        (count < budget → res.handled.map fst =
          res.ring.uncompressed (rxEntries rq rx.ring.wq.logSz)) := by
    obtain ⟨⟨count, res⟩, ran, done⟩ := (inv.expecting ok).pollRxCq small pos range enough
    refine ⟨count, res, ran, ?_, done.within, done.drained⟩
    have counted := done.count
    simp only at counted
    omega
  cases inv with
  | fresh items fresh =>
    exact {
      entries := by
        rw [← fresh.sequence]
        exact (take_left' (length_map _)).symm
      cc := fresh.ring.cc
      owners := fresh.ring.owners
      polls := polls }
  | partway session base index items partway =>
    exact {
      entries := by
        rw [← partway.sequence]
        exact (take_left' (length_map _)).symm
      cc := by
        rw [partway.position]
        exact partway.ring.cc
      owners := by
        rw [partway.position]
        exact partway.ring.owners
      polls := polls }

theorem rx_run_faithful {first} (idle : first.ring.Idle) (closed : first.cqd.left = 0)
    (still : first.handled = []) (small : limit < 2 ^ 16)
    (run : Relation.ReflTransGen (RxStep rq limit) first rx) :
    RxInv rq limit first.ring.wq.cc rx := by
  induction run with
  | refl =>
    have length : first.ring.wq.cc + first.handled.length = first.ring.wq.cc := by
      rw [still]
      rfl
    refine .fresh [] ⟨closed, ?_, ?_, ?_⟩
    · rw [length]
      exact idle.inv
    · rw [length]
      exact idle.produced.symm
    · rw [still]
      unfold CqRing.uncompressed
      rw [idle.written]
      rfl
  | tail _ step ih => exact step.keeps small ih

end RxRuns

section TxRuns

open TxCq

variable {limit start : Nat} {tx after : TxCq} {items : List CqItem}

theorem TxCq.Pending.expecting (pending : Pending limit start tx items)
    {arrivals} (ok : AllAllowed tx.ring.wq.logSz limit arrivals) :
    Pending limit start { tx with ring := tx.ring.expecting arrivals } items :=
  { pending with ring := pending.ring.expecting ok }

theorem TxStep.keeps (step : TxStep limit tx after) (small : limit < 2 ^ 16)
    (inv : ∃ items, Pending limit start tx items) : ∃ items, Pending limit start after items := by
  obtain ⟨items, pending⟩ := inv
  cases step with
  | device written ok =>
    obtain ⟨more, grows, ring⟩ := pending.ring.writeAll_grows ok
    exact ⟨_, pending.grow grows ring⟩
  | poll arrivals ok enabled =>
    cases enabled with
    | false => exact ⟨items, pending.expecting ok⟩
    | true => exact ((pending.expecting ok).pollTxCq small).inv

theorem TxCq.Pending.faithful (pending : Pending limit start tx items) (small : limit < 2 ^ 16) :
    TxFaithful limit start tx where
  entries := by
    rw [← pending.sequence]
    exact (take_left' rfl).symm
  cc := pending.ring.cc
  owners := pending.ring.owners
  polls arrivals allowed := ((pending.expecting allowed).pollTxCq small).drained

theorem tx_run_pending {first} (idle : first.ring.Idle) (still : first.acted = [])
    (small : limit < 2 ^ 16) (run : Relation.ReflTransGen (TxStep limit) first tx) :
    ∃ items, Pending limit first.ring.wq.cc tx items := by
  induction run with
  | refl =>
    have length : first.ring.wq.cc + first.acted.length = first.ring.wq.cc := by
      rw [still]
      rfl
    refine ⟨[], ?_, ?_, ?_⟩
    · rw [length]
      exact idle.inv
    · rw [length]
      exact idle.produced.symm
    · rw [still]
      unfold CqRing.uncompressed
      rw [idle.written]
      rfl
  | tail _ step ih => exact step.keeps small ih

end TxRuns

/-- Sessions that fit the 16 bit count of the decompressor are handed out exactly. -/
theorem decompression_exact (limit : Nat) (small : limit < 2 ^ 16) : DecompressionExact limit := by
  constructor
  · intro rq first rx idle closed untouched run
    exact (rx_run_faithful idle closed untouched small run).faithful small
  · intro first tx idle untouched run
    obtain ⟨items, pending⟩ := tx_run_pending idle untouched small run
    exact pending.faithful small

/-- A session of 2 ^ 16 entries in a queue of that size; zero mini entries, so the slot of the first array
shows the owner bit of the lap. -/
def longSession : Session where
  title := fun b => if b = 63 then 0x20 else 0
  count := 65536
  mini := fun _ _ => 0

def cyclicRq : RqParams where
  miniCqeHwStridx := false
  stridingRq := false
  wqLogSz := 10

/-- A queue as created: every slot carries the owner bit of the lap before. -/
def createdRing (log : Nat) : CqRing where
  wq := { logSz := log, slots := fun _ b => if b = 63 then 0xf1 else 0, cc := 0, db := 0 }
  produced := 0
  released := 0
  written := []
  arrivals := []

def createdRx (log : Nat) : RxCq where
  ring := createdRing log
  cqd := { title := fun _ => 0, miniArr := fun _ => 0, miniArrIdx := 0, left := 0, wqeCounter := 0 }
  handled := []

theorem createdRing_idle {log} (narrow : log < 32) : (createdRing log).Idle where
  narrow := narrow
  cc := Nat.two_pow_pos 32
  produced := rfl
  released := rfl
  written := rfl
  arrivals := rfl
  stale q _ below := by
    have first : ringLap log q = 0 := by
      unfold ringLap
      change q < 0 + 2 ^ log at below
      rw [Nat.div_eq_of_lt (by omega)]
    change (0xf1 : UInt8).toNat &&& 1 ≠ ringLap log q
    rw [first]
    decide

def shortSession : Session :=
  { longSession with count := 3 }

/-- A session of three entries in a queue of eight slots, polled with a budget of two. -/
theorem decompression_exact_short : AllAllowed 3 8 [[.session shortSession]] ∧ ∃ count result,
      RxCq.pollRxCq cyclicRq true 2 (2 : Nat)
        { createdRx 3 with ring := (createdRx 3).ring.expecting [[.session shortSession]] } =
          some (count, result) ∧
      (result.handled.length : Int) = (createdRx 3).handled.length + count ∧ count ≤ (2 : Nat) ∧
      (count < (2 : Nat) → result.handled.map fst =
        result.ring.uncompressed (RxCq.rxEntries cyclicRq (createdRx 3).ring.wq.logSz)) := by
  have allowed : AllAllowed 3 8 [[.session shortSession]] := by
    intro batch listed item inside
    rw [mem_singleton.mp listed] at inside
    rw [mem_singleton.mp inside]
    exact ⟨by decide, by decide, by decide⟩
  exact ⟨allowed, ((decompression_exact 8 (by decide)).1 cyclicRq (createdRx 3) (createdRx 3)
    (createdRing_idle (by decide)) rfl rfl .refl).polls
      [[.session shortSession]] 2 2 allowed (by decide) (by decide) (by decide)⟩

private theorem long_session_miscounted : (RxCq.pollRxCq cyclicRq true 2 2 { createdRx 16 with
          ring := (createdRx 16).ring.expecting [[.session longSession]] }).map
      (fun res => (res.1, res.2.handled.length)) = some (1, 2) := by
  rfl

theorem decompression_long_session : ¬ ∀ limit, DecompressionExact limit := by
  intro exact_
  have faithful := (exact_ 65536).1 cyclicRq (createdRx 16) (createdRx 16)
    (createdRing_idle (by decide)) rfl rfl .refl
  have allowed : AllAllowed 16 65536 [[.session longSession]] := by
    intro batch listed item inside
    rw [mem_singleton.mp listed] at inside
    rw [mem_singleton.mp inside]
    exact ⟨by decide, by decide, by decide⟩
  obtain ⟨count, result, ran, counted, -⟩ := faithful.polls [[.session longSession]] 2 2 allowed
    (by decide) (by decide) (by decide)
  have evaluated := long_session_miscounted
  rw [show ((2 : Nat) : Int) = 2 from rfl] at ran
  rw [ran] at evaluated
  have pair := some.inj evaluated
  have returned : count = 1 := congrArg fst pair
  have handed : result.handled.length = 2 := congrArg snd pair
  rw [returned, handed] at counted
  exact absurd counted (by decide)

end MlnxOfed.Ethernet
