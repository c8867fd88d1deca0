/-
The stages of a send request, and what the port holds of it in each: its lists, pending tasks, references
and handler calls so far.
-/

import MlnxOfed.Lib.CountBelow
import MlnxOfed.Mad.Sends

namespace MlnxOfed.Mad

open List Function
open Lib (Filed Tracks fileLast unfile count_swap count_extend count_congr_below)

/-- Where the work request of a posted send is. -/
inductive Place
  | device
  | overflow
  | sent
  deriving DecidableEq

inductive Stage
  /-- Not posted yet, refused, or over. -/
  | idle
  /-- Waits for its turn in the queue of the congestion control. -/
  | queued
  /-- Passed the congestion control, but is not on the send list yet. -/
  | transit
  /-- On the send list, and about to be posted. -/
  | sending
  /-- On the send list, though it could not be posted. -/
  | unposting
  /-- Waits for room in the window of SMPs. -/
  | stalled
  /-- Left the wait for the window, but could not be posted. -/
  | failed
  | posted (place : Place)
  /-- On the wait list. -/
  | waiting
  /-- Its work request is done, a response being delivered; on the done list or not. -/
  | responding (moved : Bool)
  /-- Off all lists, before the window or the congestion control learn of it. -/
  | finishing
  /-- Nothing but the call of `send_handler` is left. -/
  | notifying
  /-- Reported by `cancel_mads`, but still on the send list. -/
  | swept
  deriving DecidableEq

def Stage.agentList : Stage → Option AgentList
  | .sending | .unposting | .stalled | .failed | .posted _ | .responding false | .swept => some .send
  | .waiting => some .wait
  | .responding true => some .done
  | .idle | .queued | .transit | .finishing | .notifying => none

def Stage.madList (qp : Qp) : Stage → Option MadList
  | .posted .device => some (.queue qp)
  | .posted .overflow => some (.overflow qp)
  | .stalled => some .smpOverflow
  | _ => none

def Stage.inWindow : Stage → Bool
  | .posted _ | .waiting | .responding _ | .finishing => true
  | _ => false

def Stage.inControl : Stage → Bool
  | .idle | .queued | .notifying => false
  | _ => true

def Wr.slot (w : Wr) (stage : Stage) : Nat :=
  if w.isSaCcMad then (if stage.inControl then 1 else 0) else 0

def Wr.place (w : Wr) (stage : Stage) : Nat :=
  if w.isSmpMad then (if stage.inWindow then 1 else 0) else 0

def Wr.expects (w : Wr) : Nat := if w.status = .success ∧ w.timeout ≠ 0 then 1 else 0

/-- `send_handler` has not been called. -/
structure Wr.Open (w : Wr) : Prop where
  answers : (w.resps = [] ∧ (w.log = [] ∨ w.log = [.recv])) ∨
    (w.resps = [.deliver] ∧ w.log = []) ∨ (w.resps = [.complete] ∧ w.log = [.recv])
  unanswered : w.expects = 1 → w.resps = [] ∧ w.log = []
  timed : w.expects = 1 → w.timeoutMs ≠ 0

/-- `send_handler` was called once, after the response if there was one. -/
def Wr.Closed (w : Wr) : Prop := ∃ status, w.log = [.send status] ∨ w.log = [.recv, .send status]

structure Wr.Carried (w : Wr) : Prop extends Wr.Open w where
  refs : w.refcount = 1 + w.resps.length + w.expects

def Wr.smpClass (w : Wr) : Prop :=
  (w.mgmtClass = classSubnLidRouted ∨ w.mgmtClass = classSubnDirectedRoute) ∧
    (w.method = methodGet ∨ w.method = methodSet)

def Wr.Noted (w : Wr) : Prop := w.expects = 1 → w.smpClass → w.isSmpMad = true

structure Wr.Controlled (w : Wr) : Prop where
  resps : w.resps = []
  log : w.log = []
  cc : w.isSaCcMad = true
  smp : w.isSmpMad = false
  status : w.status = .success
  timed : w.timeoutMs ≠ 0

/-- `ib_post_send_mad` returned 0 unless it is the one that sends. -/
def Wr.From (w : Wr) : Caller → Prop
  | .post => w.accepted = false
  | .queue => w.accepted = true ∧ w.isSaCcMad = true

def Wr.Fits (w : Wr) : Stage → Prop
  | .idle => w.tasks = [] ∧ w.resps = [] ∧
      (w.accepted = false ∧ (w.log = [] ∨ w.log = [.recv]) ∨ w.accepted = true ∧ w.Closed)
  | .queued => w.tasks = [] ∧ w.accepted = true ∧ w.Controlled
  | .transit => ∃ timeoutMs retries caller, w.tasks = [.ccSend timeoutMs retries caller] ∧
      w.From caller ∧ w.Controlled
  | .sending => ∃ caller, w.tasks = [.send caller] ∧ w.From caller ∧ w.isSmpMad = false ∧ w.Carried
  | .unposting => ∃ caller error, w.tasks = [.unpost caller error] ∧ w.From caller ∧ w.Carried
  | .stalled => w.tasks = [] ∧ w.accepted = true ∧ w.isSmpMad = true ∧ w.Carried
  | .failed => w.tasks = [.failed] ∧ w.accepted = true ∧ w.isSmpMad = true ∧ w.Carried
  | .posted .device => (w.tasks = [] ∨ w.tasks = [.repost]) ∧ w.accepted = true ∧ w.Noted ∧ w.Carried
  | .posted .overflow => w.tasks = [] ∧ w.accepted = true ∧ w.Noted ∧ w.Carried
  | .posted .sent => (∃ status, w.tasks = [.sent status]) ∧ w.accepted = true ∧ w.Noted ∧ w.Carried
  | .waiting => w.tasks = [] ∧ w.accepted = true ∧ w.Noted ∧ w.resps = [] ∧ w.Open ∧
      (w.expects = 1 ∧ w.refcount = 1 ∨ w.status ≠ .success ∧ w.refcount = 0)
  | .responding _ => w.tasks = [] ∧ w.accepted = true ∧ w.Open ∧ w.resps.length = 1 ∧
      w.refcount = 1 ∧ w.expects = 0
  | .finishing => ((∃ status, w.tasks = [.done status]) ∨ w.tasks = [.cancelled]) ∧
      w.accepted = true ∧ w.resps = [] ∧ w.Open
  | .notifying => ((∃ status, w.tasks = [.notify status]) ∨
      (∃ response, w.tasks = [.localDone response] ∧ w.log = [])) ∧
      w.accepted = true ∧ w.resps = [] ∧ w.Open
  | .swept => w.tasks = [] ∧ w.resps = [] ∧ w.accepted = true ∧ w.Closed ∧ w.expects = 0

structure Wr.Typed (config : Config) (w : Wr) : Prop where
  smp : w.isSmpMad = true → w.smpClass
  qp : w.isSmpMad = true → config.qpOf w.agent = .smi
  cc : w.isSaCcMad = true → w.mgmtClass = classSubnAdm

/-- After `cancel_mads` no request of the agent waits for a response. -/
def Shut (closed : Nat → Bool) (w : Wr) (stage : Stage) : Prop :=
  closed w.agent = true → stage ≠ .waiting ∧ (stage.agentList = some .send → w.expects = 0)

def agentHome (port : Port) (stage : Nat → Stage) (x : Nat) : Option (Nat × AgentList) :=
  (stage x).agentList.map fun list => ((port.wr x).agent, list)

def madHome (config : Config) (port : Port) (stage : Nat → Stage) (x : Nat) : Option MadList :=
  (stage x).madList (config.qpOf (port.wr x).agent)

def holdsSmp (port : Port) (stage : Nat → Stage) (x : Nat) : Prop :=
  (port.wr x).isSmpMad = true ∧ (stage x).inWindow = true

def holdsCc (port : Port) (stage : Nat → Stage) (x : Nat) : Prop :=
  (port.wr x).isSaCcMad = true ∧ (stage x).inControl = true

instance (port : Port) (stage : Nat → Stage) : DecidablePred (holdsSmp port stage) :=
  fun x => inferInstanceAs (Decidable ((port.wr x).isSmpMad = true ∧ (stage x).inWindow = true))

instance (port : Port) (stage : Nat → Stage) : DecidablePred (holdsCc port stage) :=
  fun x => inferInstanceAs (Decidable ((port.wr x).isSaCcMad = true ∧ (stage x).inControl = true))

/-- The slots are in use or about to be passed on, and nobody waits for a free one. -/
structure Controls (config : Config) (port : Port) (stage : Nat → Stage) : Prop where
  slots : port.ccOutstanding = Nat.count (holdsCc port stage) port.next + port.ccDone
  most : port.ccOutstanding ≤ config.ccMaxOutstanding
  full : ∀ x ∈ port.fifo, (port.wr x).canceled = false → port.ccOutstanding = config.ccMaxOutstanding

/-- The window counts the SMPs posted and not finished, and nobody waits for a free place. -/
structure Windowed (config : Config) (port : Port) (stage : Nat → Stage) : Prop where
  slots : port.queues.outstanding = Nat.count (holdsSmp port stage) port.next
  most : port.queues.outstanding ≤ config.maxOutstanding
  full : port.queues.lists .smpOverflow ≠ [] → port.queues.outstanding = config.maxOutstanding
  posted : ∀ x, stage x ≠ .failed
  calm : port.smpRetries = []

structure Core (config : Config) (port : Port) (stage : Nat → Stage) : Prop where
  fits : ∀ x, (port.wr x).Fits (stage x)
  typed : ∀ x, (port.wr x).Typed config
  shut : ∀ x, Shut port.sendListClosed (port.wr x) (stage x)
  fresh : ∀ x, port.next ≤ x → stage x = .idle ∧ port.wr x = {}
  leaves : ∀ a, port.sendListClosed a = true → port.leaving a = true
  sweeps : ∀ a ∈ port.sweeps, port.sendListClosed a = true
  retries : ∀ qp ∈ port.smpRetries, qp = .smi
  stuck : ∀ a, port.stuck a = false
  sound : port.corrupted = false

/-- The port is as its requests' stages say, and with `exact` the window of SMPs is too. -/
structure Link (config : Config) (exact : Bool) (port : Port) (stage : Nat → Stage) : Prop
    extends Core config port stage where
  agents : Filed port.agentLists (agentHome port stage)
  queues : port.queues.Kept config.toParams (madHome config port stage)
  fifo : Tracks port.fifo fun x => stage x = .queued
  toList : port.toList.Perm port.fifo
  timer : ∀ a, port.agentLists (a, .wait) ≠ [] → port.timedWork a = true
  tfTimer : port.fifo ≠ [] → port.tfArmed = true
  controls : Controls config port stage
  window : exact = true → Windowed config port stage

variable {config : Config} {exact : Bool} {port after : Port} {stage : Nat → Stage} {x : Nat} {w : Wr} {s : Stage}

theorem Link.init (config exact) : Link config exact Port.init fun _ => .idle where
  fits _ := ⟨rfl, rfl, .inl ⟨rfl, .inl rfl⟩⟩
  typed _ := ⟨nofun, nofun, nofun⟩
  shut _ never := by cases never
  agents _ := ⟨nodup_nil, fun _ => ⟨fun inside => absurd inside not_mem_nil, nofun⟩⟩
  queues := Queues.Kept.init
  fifo := ⟨nodup_nil, fun _ => ⟨fun inside => absurd inside not_mem_nil, nofun⟩⟩
  toList := .refl _
  fresh _ _ := ⟨rfl, rfl⟩
  leaves _ never := by cases never
  sweeps _ inside := absurd inside not_mem_nil
  retries _ inside := absurd inside not_mem_nil
  stuck _ := rfl
  sound := rfl
  timer _ never := absurd rfl never
  tfTimer never := absurd rfl never
  controls := ⟨rfl, Nat.zero_le _, fun _ inside => absurd inside not_mem_nil⟩
  window _ := ⟨rfl, Nat.zero_le _, fun never => absurd rfl never, fun _ never => (by cases never), rfl⟩

theorem Link.known (link : Link config exact port stage) (busy : stage x ≠ .idle) : x < port.next := by
  by_contra outside
  exact busy (link.fresh x (Nat.le_of_not_lt outside)).1

/-! ### One request changes -/

theorem agentHome_update (wr : after.wr = update port.wr x w) : agentHome after (update stage x s) =
      update (agentHome port stage) x (s.agentList.map fun list => (w.agent, list)) := by
  funext y
  unfold agentHome
  by_cases same : y = x
  · subst same
    rw [wr, update_self, update_self, update_self]
  · rw [wr, update_of_ne same, update_of_ne same, update_of_ne same]

theorem madHome_update (wr : after.wr = update port.wr x w) : madHome config after (update stage x s) =
      update (madHome config port stage) x (s.madList (config.qpOf w.agent)) := by
  funext y
  unfold madHome
  by_cases same : y = x
  · subst same
    rw [wr, update_self, update_self, update_self]
  · rw [wr, update_of_ne same, update_of_ne same, update_of_ne same]

private theorem each_update {P : Wr → Stage → Prop} (wr : after.wr = update port.wr x w)
    (old : ∀ y, P (port.wr y) (stage y)) (new : P w s) (y) :
    P (after.wr y) (update stage x s y) := by
  by_cases same : y = x
  · subst same
    rw [wr, update_self, update_self]
    exact new
  · rw [wr, update_of_ne same, update_of_ne same]
    exact old y

/-- The parts of the port that a change of one request leaves alone. -/
structure Quiet (port after : Port) : Prop where
  sendListClosed : after.sendListClosed = port.sendListClosed
  leaving : after.leaving = port.leaving
  sweeps : ∀ a ∈ after.sweeps, a ∈ port.sweeps
  retries : ∀ qp ∈ after.smpRetries, qp ∈ port.smpRetries ∨ qp = .smi
  stuck : after.stuck = port.stuck
  corrupted : after.corrupted = port.corrupted

theorem Core.change (core : Core config port stage) (quiet : Quiet port after)
    (wr : after.wr = update port.wr x w) (next : port.next ≤ after.next)
    (below : x < after.next) (fits : w.Fits s) (typed : w.Typed config)
    (shut : Shut port.sendListClosed w s) : Core config after (update stage x s) := by
  obtain ⟨sendListClosed, leaving, sweeps, retries, stuck, corrupted⟩ := quiet
  cases after
  cases sendListClosed
  cases leaving
  cases stuck
  cases corrupted
  exact { core with
    fits := each_update wr core.fits fits
    typed := wr ▸ (forall_update_iff _ fun _ => Wr.Typed config).mpr ⟨typed, fun y _ => core.typed y⟩
    shut := each_update wr core.shut shut
    fresh y outside := by
      have apart : y ≠ x := by omega
      rw [wr, update_of_ne apart, update_of_ne apart]
      exact core.fresh y (by omega)
    sweeps a inside := core.sweeps a (sweeps a inside)
    retries qp inside := (retries qp inside).elim (core.retries qp) id }

theorem Link.change (link : Link config exact port stage) (quiet : Quiet port after)
    (wr : after.wr = update port.wr x w) (next : port.next ≤ after.next)
    (below : x < after.next) (fits : w.Fits s) (typed : w.Typed config)
    (shut : Shut port.sendListClosed w s)
    (agents : Filed after.agentLists
      (update (agentHome port stage) x (s.agentList.map fun list => (w.agent, list))))
    (queues : after.queues.Kept config.toParams
      (update (madHome config port stage) x (s.madList (config.qpOf w.agent))))
    (fifo : Tracks after.fifo fun y => update stage x s y = .queued)
    (toList : after.toList.Perm after.fifo)
    (timer : ∀ a, after.agentLists (a, .wait) ≠ [] → after.timedWork a = true)
    (tfTimer : after.fifo ≠ [] → after.tfArmed = true)
    (controls : Controls config after (update stage x s))
    (window : exact = true → Windowed config after (update stage x s)) :
    Link config exact after (update stage x s) := by
  refine ⟨link.toCore.change quiet wr next below fits typed shut, ?_, ?_, fifo, toList, timer,
    tfTimer, controls, window⟩
  · rw [agentHome_update wr]
    exact agents
  · rw [madHome_update wr]
    exact queues

theorem Link.fifo_update (link : Link config exact port stage) (old : stage x ≠ .queued)
    (later : s ≠ .queued) : Tracks port.fifo fun y => update stage x s y = .queued := by
  refine link.fifo.congr ?_
  intro y
  by_cases same : y = x
  · subst same
    rw [update_self]
    exact ⟨fun equal => absurd equal old, fun equal => absurd equal later⟩
  · rw [update_of_ne same]

private theorem slot_eq (port stage x) : (if holdsCc port stage x then 1 else 0) = (port.wr x).slot (stage x) := by
  unfold Wr.slot
  by_cases cc : (port.wr x).isSaCcMad = true
  · rw [if_pos cc]
    exact if_congr ⟨fun both => both.2, fun inside => ⟨cc, inside⟩⟩ rfl rfl
  · have none : ¬holdsCc port stage x := fun both => cc both.1
    rw [if_neg cc, if_neg none]

private theorem place_eq (port stage x) : (if holdsSmp port stage x then 1 else 0) = (port.wr x).place (stage x) := by
  unfold Wr.place
  by_cases smp : (port.wr x).isSmpMad = true
  · rw [if_pos smp]
    exact if_congr ⟨fun both => both.2, fun inside => ⟨smp, inside⟩⟩ rfl rfl
  · have none : ¬holdsSmp port stage x := fun both => smp both.1
    rw [if_neg smp, if_neg none]

theorem Wr.slot_other (other : w.isSaCcMad = false) (s) : w.slot s = 0 := by
  unfold Wr.slot
  rw [other]
  rfl

theorem Wr.slot_out (out : s.inControl = false) : w.slot s = 0 := by
  unfold Wr.slot
  rw [out]
  cases w.isSaCcMad <;> rfl

theorem Wr.slot_cc (cc : w.isSaCcMad = true) (s) : w.slot s = if s.inControl then 1 else 0 := by
  unfold Wr.slot
  rw [cc]
  rfl

theorem Wr.place_out (out : s.inWindow = false) : w.place s = 0 := by
  unfold Wr.place
  rw [out]
  cases w.isSmpMad <;> rfl

theorem Wr.place_smp (smp : w.isSmpMad = true) (s) : w.place s = if s.inWindow then 1 else 0 := by
  unfold Wr.place
  rw [smp]
  rfl

theorem holdsCc_update (wr : after.wr = update port.wr x w) (y) (other : y ≠ x) :
    holdsCc port stage y ↔ holdsCc after (update stage x s) y := by
  unfold holdsCc
  rw [wr, update_of_ne other, update_of_ne other]

theorem holdsSmp_update (wr : after.wr = update port.wr x w) (y) (other : y ≠ x) :
    holdsSmp port stage y ↔ holdsSmp after (update stage x s) y := by
  unfold holdsSmp
  rw [wr, update_of_ne other, update_of_ne other]

variable (link : Link config exact port stage)

include link

theorem Link.slots_update (wr : after.wr = update port.wr x w) (next : port.next ≤ after.next)
    (below : x < after.next) :
    port.ccOutstanding + w.slot s = Nat.count (holdsCc after (update stage x s)) after.next + port.ccDone +
        (port.wr x).slot (stage x) := by
  have idle (y : Nat) (outside : port.next ≤ y) : ¬holdsCc port stage y := by
    rintro ⟨_, never⟩
    rw [(link.fresh y outside).1] at never
    cases never
  have swap := count_swap (p := holdsCc port stage) (q := holdsCc after (update stage x s)) below
    fun y _ other => holdsCc_update wr y other
  rw [slot_eq, slot_eq, wr, update_self, update_self, count_extend next idle] at swap
  have slots := link.controls.slots
  omega

theorem Link.places_update (known : exact = true) (wr : after.wr = update port.wr x w)
    (next : port.next ≤ after.next) (below : x < after.next) :
    port.queues.outstanding + w.place s = Nat.count (holdsSmp after (update stage x s)) after.next +
        (port.wr x).place (stage x) := by
  have idle (y : Nat) (outside : port.next ≤ y) : ¬holdsSmp port stage y := by
    rintro ⟨_, never⟩
    rw [(link.fresh y outside).1] at never
    cases never
  have swap := count_swap (p := holdsSmp port stage) (q := holdsSmp after (update stage x s)) below
    fun y _ other => holdsSmp_update wr y other
  rw [place_eq, place_eq, wr, update_self, update_self, count_extend next idle] at swap
  have slots := (link.window known).slots
  omega

theorem Link.full_update (wr : after.wr = update port.wr x w) (old : stage x ≠ .queued)
    (fifo : after.fifo = port.fifo) (outstanding : after.ccOutstanding = port.ccOutstanding) (y)
    (inside : y ∈ after.fifo) : (after.wr y).canceled = false → after.ccOutstanding =
    config.ccMaxOutstanding := by
  rw [fifo] at inside
  have other : y ≠ x := by
    intro same
    subst same
    exact old ((link.fifo.mem y).mp inside)
  rw [wr, update_of_ne other, outstanding]
  exact link.controls.full y inside

theorem Link.controls_update (wr : after.wr = update port.wr x w) (next : port.next ≤ after.next)
    (below : x < after.next) (old : stage x ≠ .queued) (fifo : after.fifo = port.fifo)
    (outstanding : after.ccOutstanding = port.ccOutstanding)
    (cc : after.ccDone + w.slot s = port.ccDone + (port.wr x).slot (stage x)) :
    Controls config after (update stage x s) := by
  have slots := link.slots_update wr (s := s) next below
  refine ⟨?_, ?_, link.full_update wr old fifo outstanding⟩
  · rw [outstanding]
    omega
  · rw [outstanding]
    exact link.controls.most

omit link

theorem Windowed.posted_update (window : Windowed config port stage) (posted : s ≠ .failed) (y) :
    update stage x s y ≠ .failed :=
  (forall_update_iff _ fun _ s => s ≠ Stage.failed).mpr ⟨posted, fun y _ => window.posted y⟩ y

/-- All but the requests, the lists of the agents and the counters is as before. -/
structure Calm (port after : Port) : Prop extends Quiet port after where
  next : after.next = port.next
  lists : after.queues.lists = port.queues.lists
  count : after.queues.count = port.queues.count
  fifo : after.fifo = port.fifo
  toList : after.toList = port.toList
  tfArmed : after.tfArmed = port.tfArmed
  ccOutstanding : after.ccOutstanding = port.ccOutstanding

structure Still (port after : Port) : Prop extends Calm port after where
  agentLists : after.agentLists = port.agentLists
  timedWork : after.timedWork = port.timedWork

/-- A request in these stages is not in the queue; its work request stays where it is. -/
structure Stays (old new : Stage) : Prop where
  busy : old ≠ .idle
  before : old ≠ .queued
  later : new ≠ .queued
  madList : ∀ qp, new.madList qp = old.madList qp

variable {old : Stage}

theorem Link.relist (link : Link config exact port stage) (calm : Calm port after)
    (wr : after.wr = update port.wr x w) (agent : w.agent = (port.wr x).agent)
    (here : stage x = old) (stays : Stays old s) (fits : w.Fits s) (typed : w.Typed config)
    (shut : Shut port.sendListClosed w s)
    (agents : Filed after.agentLists
      (update (agentHome port stage) x (s.agentList.map fun list => (w.agent, list))))
    (timer : ∀ a, after.agentLists (a, .wait) ≠ [] → after.timedWork a = true)
    (cc : after.ccDone + w.slot s = port.ccDone + (port.wr x).slot old)
    (smp : exact = true → w.isSmpMad = (port.wr x).isSmpMad ∧
      (w.isSmpMad = true → s.inWindow = old.inWindow) ∧ s ≠ .failed ∧
      after.queues.outstanding = port.queues.outstanding ∧ after.smpRetries = port.smpRetries) :
    Link config exact after (update stage x s) := by
  subst here
  have next := calm.next
  have below : x < after.next := by
    rw [next]
    exact link.known stays.busy
  have madSame : update (madHome config port stage) x
      (s.madList (config.qpOf w.agent)) = madHome config port stage := by
    rw [stays.madList, agent]
    exact update_eq_self x (madHome config port stage)
  refine link.change calm.toQuiet wr (le_of_eq next.symm) below fits typed shut agents ?_ ?_ ?_ timer ?_ ?_ ?_
  · rw [madSame]
    have kept := link.queues
    exact ⟨by rw [calm.lists]; exact kept.filed, by rw [calm.lists, calm.count]; exact kept.count,
      by rw [calm.lists]; exact kept.active, by rw [calm.lists]; exact kept.full⟩
  · rw [calm.fifo]
    exact link.fifo_update stays.before stays.later
  · rw [calm.toList, calm.fifo]
    exact link.toList
  · rw [calm.fifo, calm.tfArmed]
    exact link.tfTimer
  · exact link.controls_update wr (le_of_eq next.symm) below stays.before calm.fifo calm.ccOutstanding cc
  intro known
  obtain ⟨kind, place, posted, same, retries⟩ := smp known
  have places := link.places_update known wr (s := s) (le_of_eq next.symm) below
  have window := link.window known
  have neutral : w.place s = (port.wr x).place (stage x) := by
    unfold Wr.place
    by_cases counted : w.isSmpMad = true
    · rw [place counted, kind]
    · rw [if_neg counted, if_neg (kind ▸ counted)]
  rw [neutral] at places
  refine ⟨?_, ?_, ?_, ?_, retries.trans window.calm⟩
  · rw [same]
    omega
  · rw [same]
    exact window.most
  · rw [same, calm.lists]
    exact window.full
  · exact window.posted_update posted

theorem agentHome_same (port : Port) (w : Wr) (s : Stage) (here : stage x = old)
    (agent : w.agent = (port.wr x).agent) (list : s.agentList = old.agentList) :
    update (agentHome port stage) x (s.agentList.map fun list => (w.agent, list)) = agentHome port stage := by
  subst here
  rw [list, agent]
  exact update_eq_self x (agentHome port stage)

theorem Link.retask (link : Link config exact port stage) (still : Still port after)
    (wr : after.wr = update port.wr x w) (agent : w.agent = (port.wr x).agent)
    (here : stage x = old) (stays : Stays old s) (agentList : s.agentList = old.agentList)
    (fits : w.Fits s) (typed : w.Typed config) (shut : Shut port.sendListClosed w s)
    (cc : after.ccDone + w.slot s = port.ccDone + (port.wr x).slot old)
    (smp : exact = true → w.isSmpMad = (port.wr x).isSmpMad ∧
      (w.isSmpMad = true → s.inWindow = old.inWindow) ∧ s ≠ .failed ∧
      after.queues.outstanding = port.queues.outstanding ∧ after.smpRetries = port.smpRetries) :
    Link config exact after (update stage x s) := by
  refine link.relist still.toCalm wr agent here stays fits typed shut ?_ ?_ cc smp
  · rw [agentHome_same port w s here agent agentList, still.agentLists]
    exact link.agents
  · rw [still.agentLists, still.timedWork]
    exact link.timer

theorem Link.loose (link : Link config exact port stage) : Link config false port stage :=
  ⟨link.toCore, link.agents, link.queues, link.fifo, link.toList, link.timer, link.tfTimer,
    link.controls, nofun⟩

theorem Link.tight (link : Link config false port stage)
    (window : exact = true → Windowed config port stage) : Link config exact port stage :=
  ⟨link.toCore, link.agents, link.queues, link.fifo, link.toList, link.timer, link.tfTimer,
    link.controls, window⟩

end MlnxOfed.Mad
