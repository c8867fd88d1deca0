/-
Sends of the GSI QP (`gsi.c`): requests are spread over several transmit QPs, whose completions come in any
order, and are reported in order through the software completions of the CQ (`cq.c`).
-/

import Mathlib.Algebra.Order.Ring.Int

namespace MlnxOfed.Gsi

open Option Function

inductive WcStatus where
  | success | flushErr | other
  deriving DecidableEq

structure Wc where
  wrId : Nat
  status : WcStatus

/-- An entry of `outstanding_wrs`: `signaled` is the bit of its `send_flags`, `inUse` that of its `mwc`. -/
structure GsiWr where
  wc : Wc
  signaled : Bool
  completed : Bool
  inUse : Bool

/-- `xmitPort` is that of the address handle. -/
structure UdWr where
  wrId : Nat
  signaled : Bool
  pkeyIndex : Nat
  xmitPort : Nat

/-- A request at a transmit QP: its number and the entry of its `wr_cqe`. -/
structure Flight where
  number : Nat
  entry : Nat
  deriving DecidableEq

/-- `wcList` is the CQ's list of software completions, by entry. The last four are a record: requests
accepted, those `outstanding_ci` has passed, those at the transmit QPs, and completions polled. -/
structure GsiQp where
  maxSendWr : Nat
  sigAll : Bool
  numQps : Nat
  lagActive : Bool
  txQps : Nat → Bool
  pi : Nat
  ci : Nat
  wrs : Nat → GsiWr
  wcList : List Nat
  posted : List UdWr
  retired : Nat
  flights : List Flight
  polled : List Wc

/-- `outstanding_wrs` is zeroed. -/
def gsiCreateQp (maxSendWr : Nat) (sigAll : Bool) (numQps : Nat) (lagActive : Bool) : GsiQp :=
  { maxSendWr := maxSendWr
    sigAll := sigAll
    numQps := numQps
    lagActive := lagActive
    txQps := fun _ => false
    pi := 0
    ci := 0
    wrs := fun _ => ⟨⟨0, .success⟩, false, false, false⟩
    wcList := []
    posted := []
    retired := 0
    flights := []
    polled := [] }

variable (gsi : GsiQp)

def generateWc (entry : Nat) : GsiQp :=
  { gsi with
    wcList := gsi.wcList ++ [entry]
    wrs := update gsi.wrs entry { gsi.wrs entry with inUse := true } }

/-- A turn of `generate_completions`; the index is in `outstanding_ci`, not read under the lock. -/
def retire : GsiQp :=
  let entry := gsi.ci % gsi.maxSendWr
  let gsi := if gsi.sigAll || (gsi.wrs entry).signaled then generateWc gsi entry else gsi
  { gsi with
    wrs := update gsi.wrs entry { gsi.wrs entry with completed := false }
    ci := (gsi.ci + 1) % 2 ^ 32
    retired := gsi.retired + 1 }

def generateLoop : Nat → GsiQp → GsiQp
  | 0, gsi => gsi
  | turns + 1, gsi =>
    if gsi.ci = gsi.pi then gsi
    else if !(gsi.wrs (gsi.ci % gsi.maxSendWr)).completed then gsi
    else generateLoop turns (retire gsi)

/-- The loop takes at most as many turns as there are entries up to `outstanding_pi`. -/
def generateCompletions : GsiQp := generateLoop ((gsi.pi + 2 ^ 32 - gsi.ci) % 2 ^ 32) gsi

def handleSingleCompletion (entry : Nat) (status : WcStatus) : GsiQp :=
  let wr := gsi.wrs entry
  generateCompletions
    { gsi with wrs := update gsi.wrs entry { wr with completed := true, wc := ⟨wr.wc.wrId, status⟩ } }

/-- A `wc` is given for a request that is dropped. -/
def fillEntry (wr : UdWr) (wc : Option Wc) (old : GsiWr) : GsiWr :=
  match wc with
  | none => { old with wc := ⟨wr.wrId, .success⟩ }
  | some wc => { old with wc := wc, completed := true }

/-- `none` is `-ENOMEM`. -/
def addOutstandingWr (wr : UdWr) (wc : Option Wc) : Option GsiQp :=
  if gsi.pi = (gsi.ci + gsi.maxSendWr) % 2 ^ 32 then none
  else
    let entry := gsi.pi % gsi.maxSendWr
    if (gsi.wrs entry).inUse then none
    else
      some { gsi with
        pi := (gsi.pi + 1) % 2 ^ 32
        wrs := update gsi.wrs entry (fillEntry wr wc (gsi.wrs entry))
        posted := gsi.posted ++ [wr] }

def getTxQp (wr : UdWr) : Bool :=
  if gsi.numQps = 0 then true
  else
    let qpIndex := if gsi.lagActive && wr.xmitPort != 0 then wr.xmitPort - 1 else wr.pkeyIndex
    if gsi.numQps ≤ qpIndex then false else gsi.txQps qpIndex

/-- One turn of `mlx5_ib_gsi_post_send`; `sent` is that `ib_post_send` succeeds. -/
def gsiPostSend (wr : UdWr) (sent : Bool) : GsiQp :=
  if !getTxQp gsi wr then
    match addOutstandingWr gsi wr (some ⟨wr.wrId, .success⟩) with
    | none => gsi
    | some gsi => generateCompletions gsi
  else
    match addOutstandingWr gsi wr none with
    | none => gsi
    | some added =>
      if sent then
        { added with flights := added.flights ++ [⟨gsi.posted.length, gsi.pi % gsi.maxSendWr⟩] }
      else { added with pi := (added.pi + 2 ^ 32 - 1) % 2 ^ 32, posted := gsi.posted }

def pollSoftWc (isFatalErr : Bool) : Nat → GsiQp → GsiQp
  | 0, gsi => gsi
  | entries + 1, gsi =>
    match gsi.wcList with
    | [] => gsi
    | entry :: rest =>
      let wr := gsi.wrs entry
      let wc := if isFatalErr then { wr.wc with status := .flushErr } else wr.wc
      pollSoftWc isFatalErr entries
        { gsi with
          wcList := rest
          wrs := update gsi.wrs entry { wr with wc := wc, inUse := false }
          polled := gsi.polled ++ [wc] }

/-- A transmit QP completes a request that is signaled, or that failed. -/
inductive Move where
  | setup (index : Nat)
  | post (wr : UdWr) (sent : Bool)
  | complete (flight : Flight) (status : WcStatus)
  | poll (isFatalErr : Bool) (numEntries : Nat)

def signaledAt (number : Nat) : Bool :=
  gsi.sigAll || ((gsi.posted[number]?).map UdWr.signaled).getD false

def step : Move → Option GsiQp
  | .setup index => some { gsi with txQps := update gsi.txQps index true }
  | .post wr sent => some (gsiPostSend gsi wr sent)
  | .complete flight status =>
    if flight ∈ gsi.flights ∧ (signaledAt gsi flight.number ∨ status ≠ .success) then
      some (handleSingleCompletion { gsi with flights := gsi.flights.erase flight } flight.entry status)
    else none
  | .poll isFatalErr numEntries => some (pollSoftWc isFatalErr numEntries gsi)

inductive Reachable (allowed : GsiQp → Move → Prop) (maxSendWr : Nat) (sigAll : Bool) (numQps : Nat)
    (lagActive : Bool) : GsiQp → Prop where
  | create : Reachable allowed maxSendWr sigAll numQps lagActive (gsiCreateQp maxSendWr sigAll numQps lagActive)
  | step {gsi next : GsiQp} {move : Move} (before : Reachable allowed maxSendWr sigAll numQps lagActive gsi)
      (kind : allowed gsi move) (moved : step gsi move = some next) :
      Reachable allowed maxSendWr sigAll numQps lagActive next

def run (allowed : GsiQp → Move → Prop) [∀ gsi move, Decidable (allowed gsi move)] : GsiQp → List Move → Option GsiQp
  | gsi, [] => some gsi
  | gsi, move :: moves => if allowed gsi move then (step gsi move).bind fun next => run allowed next moves else none

theorem Reachable.run {ok} [∀ gsi move, Decidable (ok gsi move)] {maxSendWr}
    {sigAll numQps lagActive gsi last}
    (old : Reachable ok maxSendWr sigAll numQps lagActive gsi) {moves}
    (ran : run ok gsi moves = some last) : Reachable ok maxSendWr sigAll numQps lagActive last := by
  induction moves generalizing gsi with
  | nil => exact some.inj ran ▸ old
  | cons move moves ih =>
    unfold Gsi.run at ran
    split at ran
    next kind =>
      obtain ⟨next, moved, rest⟩ := bind_eq_some_iff.mp ran
      exact ih (old.step kind moved) rest
    next => cases ran

end MlnxOfed.Gsi
