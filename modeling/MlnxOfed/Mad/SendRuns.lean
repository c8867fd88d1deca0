/-
Runs of the MAD layer: a step that does nothing to break the bookkeeping keeps every request in a stage,
from which follow the windows and the handler calls in every state reached.
-/

import MlnxOfed.Mad.PortSteps

namespace MlnxOfed.Mad

open Bool List
open Nat (count)
open Option (some_ne_none ite_none_right_eq_some)
open Lib (Filed Tracks fileLast unfile count_congr_below)

variable {config : Config} {exact : Bool} {port after : Port} {stage : Nat → Stage} {x : Nat}
  {v w : Wr} {s : Stage}

/-- An SMP is sent on the QP of SMPs only; a request not posted, or an SMP that `cancel_mads` reports, has
no response pending; no timeout is given to a request without one; the post after a retry succeeds; and
`tf_dequeue` finds the flag set when it reads one behind the list's head. -/
def Step.Steady (config : Config) (port : Port) : Step → Prop
  | .run x (.send _) outcome => outcome.mapped = true → isSmpMad (port.wr x) = true →
      config.qpOf (port.wr x).agent = .smi
  | .run x (.unpost _ _) _ => (port.wr x).resps = []
  | .sweep a => ∀ y ∈ port.queues.lists .smpOverflow, (port.wr y).agent = a → (port.wr y).resps = []
  | .modify a x timeoutMs => SteadyModify port a x timeoutMs
  | .timeout _ _ _ postsNext => postsNext = true
  | .ccDone wild => port.fifo ≠ [] → (∀ y ∈ port.fifo, (port.wr y).canceled = true) → wild = true
  | _ => True

/-- `ib_post_send` accepts the SMPs, and none waits for the window when `cancel_mads` finishes one that
waits for its response. -/
def Step.Exact (port : Port) : Step → Prop
  | .run x (.send _) outcome => outcome.mapped = true → isSmpMad (port.wr x) = true → outcome.posts = true
  | .run x (.done _) outcome => (port.wr x).isSmpMad = true → outcome.posts = true
  | .run x .cancelled _ => (port.wr x).isSmpMad = true → port.queues.lists .smpOverflow = []
  | .timeout a mapped posts _ => ∀ x, (port.agentLists (a, .wait)).head? = some x →
      isSmpMad (port.wr x) = true → mapped = true → posts = true
  | _ => True

theorem Link.runTask (link : Link config exact port stage) {task outcome}
    (inside : task ∈ (port.wr x).tasks) (steady : (Step.run x task outcome).Steady config port)
    (tight : exact = true → (Step.run x task outcome).Exact port) :
    ∃ later, Link config exact (Mad.runTask config port x task outcome) later := by
  cases task with
  | send caller => exact link.send inside outcome steady tight
  | unpost caller error => exact link.unpost inside outcome steady
  | repost => exact link.repost inside outcome
  | sent status =>
    obtain ⟨here, tasks⟩ := (link.fits x).of_task inside
    rw [runTask_eq tasks]
    refine link.completeWr here (.inl rfl) status ?_
    nofun
  | failed =>
    obtain ⟨here, tasks⟩ := (link.fits x).of_task inside
    rw [runTask_eq tasks]
    refine link.completeWr here (.inr rfl) .locQpOpErr ?_
    exact fun _ never => by cases never
  | done status => exact link.done inside outcome tight
  | cancelled => exact link.cancelled inside outcome tight
  | notify status => exact ⟨_, link.notify inside outcome⟩
  | ccSend timeoutMs retries caller => exact link.ccSend inside outcome
  | localDone response => exact ⟨_, link.localDone inside outcome⟩

theorem Link.step (link : Link config exact port stage) {move} (steady : move.Steady config port)
    (tight : exact = true → move.Exact port) (moved : Mad.step config port move = some after) :
    ∃ later, Link config exact after later := by
  cases move with
  | post args =>
    obtain ⟨stays, moved⟩ := ite_none_right_eq_some.mp moved
    cases moved
    exact link.post stays.1
  | run x task outcome =>
    obtain ⟨pending, moved⟩ := ite_none_right_eq_some.mp moved
    cases moved
    exact link.runTask pending.1 steady tight
  | resp x resp =>
    obtain ⟨pending, moved⟩ := ite_none_right_eq_some.mp moved
    cases moved
    cases resp with
    | deliver => exact ⟨stage, link.deliver pending.1⟩
    | complete => exact link.respond pending.1
  | wrDone x status =>
    obtain ⟨posted, moved⟩ := ite_none_right_eq_some.mp moved
    cases moved
    exact link.deviceDone posted.1 posted.2 status
  | receive a response =>
    obtain ⟨-, moved⟩ := ite_none_right_eq_some.mp moved
    cases found : findSendMad port a response with
    | some x =>
      rw [found] at moved
      cases moved
      exact link.receive found
    | none =>
      rw [found] at moved
      cases moved
      exact ⟨stage, link⟩
  | timeout a mapped posts postsNext =>
    obtain ⟨-, moved⟩ := ite_none_right_eq_some.mp moved
    cases moved
    have next : postsNext = true := steady
    subst next
    exact link.timeout a mapped posts tight
  | modify a x timeoutMs =>
    obtain ⟨-, moved⟩ := ite_none_right_eq_some.mp moved
    cases moved
    exact link.modify a x timeoutMs steady
  | smpRetry qp posts =>
    obtain ⟨pending, moved⟩ := ite_none_right_eq_some.mp moved
    cases moved
    exact link.smpRetry pending posts
  | ccDone wild =>
    obtain ⟨pending, moved⟩ := ite_none_right_eq_some.mp moved
    cases moved
    exact link.ccDone pending wild steady
  | expire =>
    obtain ⟨-, moved⟩ := ite_none_right_eq_some.mp moved
    cases moved
    exact link.expire
  | leave a =>
    obtain ⟨-, moved⟩ := ite_none_right_eq_some.mp moved
    cases moved
    exact link.leave a
  | cancel a =>
    obtain ⟨leaving, moved⟩ := ite_none_right_eq_some.mp moved
    cases moved
    exact link.cancel leaving.1
  | sweep a =>
    obtain ⟨pending, moved⟩ := ite_none_right_eq_some.mp moved
    cases moved
    exact link.sweep pending steady
  | tick jiffies =>
    cases moved
    exact ⟨stage, link.tick jiffies⟩

theorem Reachable.link {ok} (reach : Reachable config ok port)
    (exact) (steady : ∀ port move, ok port move → move.Steady config port)
    (tight : exact = true → ∀ port move, ok port move → move.Exact port) :
    ∃ stage, Link config exact port stage := by
  induction reach with
  | init => exact ⟨_, Link.init config exact⟩
  | step move old legal moved ih =>
    obtain ⟨stage, link⟩ := ih
    exact link.step (steady _ _ legal) (fun known => tight known _ _ legal) moved

def Port.onAgent (port : Port) (x : Nat) : Bool :=
  [AgentList.send, .wait, .done].any fun list => decide (x ∈ port.agentLists ((port.wr x).agent, list))

/-- The request is off its agent's lists, on the way to the send list or its end. -/
def Task.unlisted : Task → Bool
  | .ccSend _ _ _ | .done _ | .cancelled => true
  | _ => false

def Task.ending : Task → Bool
  | .done _ | .cancelled => true
  | _ => false

def Task.unsent : Task → Bool
  | .send _ | .unpost _ _ | .failed => true
  | _ => false

def Event.isSend : Event → Bool
  | .send _ => true
  | .recv => false

/-- The calls of `send_handler` for the request. -/
def Wr.calls (w : Wr) : Nat := w.log.countP Event.isSend

def ccSent (port : Port) (x : Nat) : Bool :=
  (port.wr x).isSaCcMad && (port.onAgent x || (port.wr x).tasks.any Task.unlisted)

/-- An SMP that was posted or put on the overflow list of its QP, and is not finished. -/
def smpSent (port : Port) (x : Nat) : Bool :=
  (port.wr x).isSmpMad && (port.onAgent x && !decide (x ∈ port.queues.lists .smpOverflow) &&
        !(port.wr x).tasks.any Task.unsent && (port.wr x).calls == 0 ||
      (port.wr x).tasks.any Task.ending)

variable (link : Link config exact port stage)

include link

theorem Link.onAgent_iff (x) : port.onAgent x = true ↔ (stage x).agentList ≠ none := by
  have on (list : AgentList) : x ∈ port.agentLists ((port.wr x).agent, list) ↔
      (stage x).agentList = some list := by
    constructor
    · exact fun inside => (link.listed inside).1
    · intro here
      refine link.agents.mem_iff.mpr ?_
      unfold agentHome
      rw [here]
      rfl
  unfold Port.onAgent
  rw [any_eq_true]
  constructor
  · rintro ⟨list, _, inside⟩
    rw [(on list).mp (of_decide_eq_true inside)]
    exact some_ne_none list
  · intro some
    obtain ⟨list, here⟩ := Option.ne_none_iff_exists'.mp some
    refine ⟨list, ?_, decide_eq_true ((on list).mpr here)⟩
    cases list <;> decide

theorem Link.tasks_any (test : Task → Bool) (x) (any : (port.wr x).tasks.any test = true) :
    ∃ task, test task = true ∧ stage x = task.home ∧ (port.wr x).tasks = [task] := by
  obtain ⟨task, inside, passes⟩ := any_eq_true.mp any
  obtain ⟨here, tasks⟩ := (link.fits x).of_task inside
  exact ⟨task, passes, here, tasks⟩

omit link in
theorem any_of_tasks {test task} (tasks : w.tasks = [task])
    (passes : test task = true) : w.tasks.any test = true := by
  rw [tasks, any_cons, passes, Bool.true_or]

theorem Link.ccSent_iff (x) : ccSent port x = true ↔ holdsCc port stage x := by
  unfold ccSent holdsCc
  rw [and_eq_true_iff, or_eq_true_iff, link.onAgent_iff]
  refine and_congr_right fun _ => ⟨?_, ?_⟩
  · rintro (listed | pending)
    · cases here : stage x with
      | idle | queued | notifying =>
        rw [here] at listed
        exact absurd rfl listed
      | _ => rfl
    · obtain ⟨task, passes, here, _⟩ := link.tasks_any _ x pending
      rw [here]
      cases task with
      | ccSend _ _ _ => rfl
      | done _ => rfl
      | cancelled => rfl
      | _ => cases passes
  · intro inside
    have fits := link.fits x
    cases here : stage x with
    | idle =>
      rw [here] at inside
      cases inside
    | queued =>
      rw [here] at inside
      cases inside
    | notifying =>
      rw [here] at inside
      cases inside
    | transit =>
      rw [here] at fits
      obtain ⟨_, _, _, tasks, _⟩ := fits
      exact .inr (any_of_tasks tasks rfl)
    | finishing =>
      rw [here] at fits
      obtain ⟨⟨_, tasks⟩ | tasks, _⟩ := fits
      · exact .inr (any_of_tasks tasks rfl)
      · exact .inr (any_of_tasks tasks rfl)
    | responding moved =>
      left
      cases moved <;> exact some_ne_none _
    | _ => exact .inl (some_ne_none _)

/-! ### The calls of the handler -/

omit link in
theorem Wr.Open.calls (opened : w.Open) : w.calls = 0 := by
  unfold Wr.calls
  obtain ⟨_, log | log⟩ | ⟨_, log⟩ | ⟨_, log⟩ := opened.answers
  all_goals
    rw [log]
    rfl

omit link in
theorem Wr.Closed.calls (closed : w.Closed) : w.calls = 1 := by
  unfold Wr.calls
  obtain ⟨_, log | log⟩ := closed
  all_goals
    rw [log]
    rfl

omit link in
theorem Wr.Fits.calls (fits : w.Fits s) :
    w.calls = 0 ∨ w.calls = 1 ∧ (s = .idle ∨ s = .swept) ∧ w.tasks = [] ∧ w.resps = [] := by
  cases s with
  | idle =>
    obtain ⟨tasks, resps, ⟨_, log | log⟩ | ⟨_, closed⟩⟩ := fits
    · left
      unfold Wr.calls
      rw [log]
      rfl
    · left
      unfold Wr.calls
      rw [log]
      rfl
    · exact .inr ⟨closed.calls, .inl rfl, tasks, resps⟩
  | queued =>
    left
    unfold Wr.calls
    rw [fits.2.2.log]
    rfl
  | transit =>
    obtain ⟨_, _, _, _, _, control⟩ := fits
    left
    unfold Wr.calls
    rw [control.log]
    rfl
  | waiting => exact .inl fits.2.2.2.2.1.calls
  | responding moved => exact .inl fits.2.2.1.calls
  | finishing => exact .inl fits.2.2.2.calls
  | notifying => exact .inl fits.2.2.2.calls
  | swept =>
    obtain ⟨tasks, resps, _, closed, _⟩ := fits
    exact .inr ⟨closed.calls, .inr rfl, tasks, resps⟩
  | sending => exact .inl (fits.carried rfl).toOpen.calls
  | unposting => exact .inl (fits.carried rfl).toOpen.calls
  | stalled => exact .inl (fits.carried rfl).toOpen.calls
  | failed => exact .inl (fits.carried rfl).toOpen.calls
  | posted place => exact .inl (fits.carried rfl).toOpen.calls

theorem Link.smpSent_iff (x) : smpSent port x = true ↔ holdsSmp port stage x := by
  have fits := link.fits x
  have overflow : x ∈ port.queues.lists .smpOverflow ↔ stage x = .stalled := by
    constructor
    · exact link.stalled
    · intro here
      refine link.queues.filed.mem_iff.mpr ?_
      unfold madHome
      rw [here]
      rfl
  unfold smpSent holdsSmp
  rw [and_eq_true_iff, or_eq_true_iff]
  refine and_congr_right fun smp => ⟨?_, ?_⟩
  · rintro (posted | pending)
    · simp only [and_eq_true, not_eq_true', decide_eq_false_iff_not, beq_iff_eq] at posted
      obtain ⟨⟨⟨listed, unstalled⟩, sent⟩, uncalled⟩ := posted
      rw [link.onAgent_iff] at listed
      rw [overflow] at unstalled
      have unsent {task : Task} (tasks : (port.wr x).tasks = [task]) (test : task.unsent = true) :
          False := by
        rw [any_of_tasks tasks test] at sent
        cases sent
      cases here : stage x with
      | idle | queued | transit | notifying =>
        rw [here] at listed
        exact absurd rfl listed
      | stalled => exact absurd here unstalled
      | sending =>
        rw [here] at fits
        obtain ⟨_, tasks, _⟩ := fits
        exact (unsent tasks rfl).elim
      | unposting =>
        rw [here] at fits
        obtain ⟨_, _, tasks, _⟩ := fits
        exact (unsent tasks rfl).elim
      | failed =>
        rw [here] at fits
        exact (unsent fits.1 rfl).elim
      | swept =>
        rw [here] at fits
        have called := fits.2.2.2.1.calls
        rw [uncalled] at called
        cases called
      | _ => rfl
    · obtain ⟨task, passes, here, _⟩ := link.tasks_any _ x pending
      rw [here]
      cases task with
      | done _ => rfl
      | cancelled => rfl
      | _ => cases passes
  · intro inside
    have posted (listed : (stage x).agentList ≠ none) (unstalled : stage x ≠ .stalled)
        (sent : ∀ task : Task, stage x = task.home → task.unsent = false)
        (uncalled : (port.wr x).calls = 0) :
        (port.onAgent x && !decide (x ∈ port.queues.lists .smpOverflow) &&
          !(port.wr x).tasks.any Task.unsent && (port.wr x).calls == 0) = true := by
      have none : (port.wr x).tasks.any Task.unsent = false := by
        cases any : (port.wr x).tasks.any Task.unsent with
        | false => rfl
        | true =>
          obtain ⟨task, passes, here, _⟩ := link.tasks_any _ x any
          rw [sent task here] at passes
          cases passes
      rw [(link.onAgent_iff x).mpr listed, decide_eq_false (fun waits => unstalled (overflow.mp waits)),
        none, uncalled]
      rfl
    have calls := fits.calls
    have uncalled (one : stage x ≠ .idle) (two : stage x ≠ .swept) : (port.wr x).calls = 0 := by
      obtain zero | ⟨_, idle | swept, _⟩ := calls
      · exact zero
      · exact absurd idle one
      · exact absurd swept two
    cases here : stage x with
    | posted place =>
      left
      refine posted (by rw [here]; exact some_ne_none _) (by rw [here]; simp) ?_
        (uncalled (by rw [here]; simp) (by rw [here]; simp))
      intro task home
      rw [here] at home
      cases task with
      | send _ => cases home
      | unpost _ _ => cases home
      | failed => cases home
      | _ => rfl
    | waiting =>
      left
      refine posted (by rw [here]; exact some_ne_none _) (by rw [here]; simp) ?_
        (uncalled (by rw [here]; simp) (by rw [here]; simp))
      intro task home
      rw [here] at home
      cases task <;> cases home
    | responding moved =>
      left
      refine posted (by rw [here]; cases moved <;> exact some_ne_none _) (by rw [here]; simp) ?_
        (uncalled (by rw [here]; simp) (by rw [here]; simp))
      intro task home
      rw [here] at home
      cases task <;> cases home
    | finishing =>
      right
      rw [here] at fits
      obtain ⟨⟨_, tasks⟩ | tasks, _⟩ := fits
      · exact any_of_tasks tasks rfl
      · exact any_of_tasks tasks rfl
    | _ =>
      rw [here] at inside
      cases inside

omit link in
/-- Who will see to a request that waits for the call of its handler. -/
inductive Owed (config : Config) (port : Port) (x : Nat) : Prop
  /-- A thread is about to. -/
  | task (pending : (port.wr x).tasks ≠ [])
  | resp (pending : (port.wr x).resps ≠ [])
  /-- The device, when it completes the work request. -/
  | device (qp : Qp) (posted : x ∈ port.queues.lists (.queue qp))
  /-- The completion of another work request of the QP. -/
  | overflow (qp : Qp) (waiting : x ∈ port.queues.lists (.overflow qp))
      (busy : port.queues.lists (.queue qp) ≠ [])
  /-- The end of an SMP in the window. -/
  | window (waiting : x ∈ port.queues.lists .smpOverflow) (y : Nat) (sent : smpSent port y = true)
  /-- The delayed work of the agent, or a response. -/
  | timer (waiting : x ∈ port.agentLists ((port.wr x).agent, .wait))
      (armed : port.timedWork (port.wr x).agent = true)
  /-- The end of a congestion controlled MAD, or the timer of the queue. -/
  | queued (waiting : x ∈ port.fifo) (armed : port.tfArmed = true)

omit link in
theorem Link.window_busy (link : Link config true port stage)
    (waiting : port.queues.lists .smpOverflow ≠ []) : ∃ y, smpSent port y = true := by
  have window := link.window rfl
  have full := window.full waiting
  have bound : 1 ≤ config.maxOutstanding := by
    unfold Params.maxOutstanding
    omega
  have some : 0 < count (holdsSmp port stage) port.next := by
    have slots := window.slots
    omega
  by_contra none
  have empty : count (holdsSmp port stage) port.next = 0 := by
    rw [Nat.count_iff_forall_not]
    intro y _ holds
    exact none ⟨y, (link.smpSent_iff y).mpr holds⟩
  omega

theorem Link.owed (accepted : (port.wr x).accepted = true)
    (uncalled : (port.wr x).calls = 0) (window : stage x = .stalled → exact = true) :
    Owed config port x := by
  have fits := link.fits x
  have listed (list : AgentList) (here : (stage x).agentList = some list) :
      x ∈ port.agentLists ((port.wr x).agent, list) := by
    refine link.agents.mem_iff.mpr ?_
    unfold agentHome
    rw [here]
    rfl
  have queued (list : MadList) (here : (stage x).madList (config.qpOf (port.wr x).agent) = some list) :
      x ∈ port.queues.lists list := link.queues.filed.mem_iff.mpr here
  have pending {task : Task} (tasks : (port.wr x).tasks = [task]) : Owed config port x := by
    refine .task ?_
    rw [tasks]
    exact cons_ne_nil _ _
  have whenClosed (closed : (port.wr x).Closed) : Owed config port x := by
    rw [closed.calls] at uncalled
    cases uncalled
  cases here : stage x with
  | idle =>
    rw [here] at fits
    obtain ⟨_, _, ⟨refused, _⟩ | ⟨_, closed⟩⟩ := fits
    · rw [accepted] at refused
      cases refused
    · exact whenClosed closed
  | queued =>
    have inside := (link.fifo.mem x).mpr here
    exact .queued inside (link.tfTimer (ne_nil_of_mem inside))
  | transit =>
    rw [here] at fits
    obtain ⟨_, _, _, tasks, _⟩ := fits
    exact pending tasks
  | sending =>
    rw [here] at fits
    obtain ⟨_, tasks, _⟩ := fits
    exact pending tasks
  | unposting =>
    rw [here] at fits
    obtain ⟨_, _, tasks, _⟩ := fits
    exact pending tasks
  | stalled =>
    have inside := queued .smpOverflow (by rw [here]; rfl)
    have known := window here
    subst known
    obtain ⟨y, sent⟩ := link.window_busy (ne_nil_of_mem inside)
    exact .window inside y sent
  | failed =>
    rw [here] at fits
    exact pending fits.1
  | posted place =>
    cases place with
    | device =>
      have inside := queued (.queue (config.qpOf (port.wr x).agent)) (by rw [here]; rfl)
      exact .device _ inside
    | overflow =>
      have inside := queued (.overflow (config.qpOf (port.wr x).agent)) (by rw [here]; rfl)
      refine .overflow _ inside ?_
      have full := link.queues.full _ (ne_nil_of_mem inside)
      have bound : 1 ≤ config.maxActive := by
        unfold Params.maxActive
        omega
      exact ne_nil_of_length_pos (by omega)
    | sent =>
      rw [here] at fits
      obtain ⟨⟨_, tasks⟩, _⟩ := fits
      exact pending tasks
  | waiting =>
    have inside := listed .wait (by rw [here]; rfl)
    exact .timer inside (link.timer _ (ne_nil_of_mem inside))
  | responding moved =>
    rw [here] at fits
    refine .resp (ne_nil_of_length_pos ?_)
    rw [fits.2.2.2.1]
    exact Nat.one_pos
  | finishing =>
    rw [here] at fits
    obtain ⟨⟨_, tasks⟩ | tasks, _⟩ := fits
    · exact pending tasks
    · exact pending tasks
  | notifying =>
    rw [here] at fits
    obtain ⟨⟨_, tasks⟩ | ⟨_, tasks, _⟩, _⟩ := fits
    · exact pending tasks
    · exact pending tasks
  | swept =>
    rw [here] at fits
    exact whenClosed fits.2.2.2.1

theorem Link.calls_le (x) : (port.wr x).calls ≤ 1 := by
  obtain zero | ⟨one, _⟩ := (link.fits x).calls
  · omega
  · omega

omit link

/-- The slots are those of the MADs let through, and those that calls of `sa_cc_mad_done` are about to pass
on or give back; nobody waits for a free one, and the handler of every accepted MAD is called once. -/
theorem sa_congestion_control (reach : Reachable config (fun port move => move.Steady config port) port) :
    port.ccOutstanding = count (fun x => ccSent port x = true) port.next + port.ccDone ∧
      port.ccOutstanding ≤ config.ccMaxOutstanding ∧
      (∀ x ∈ port.fifo, (port.wr x).canceled = false → port.ccOutstanding = config.ccMaxOutstanding) ∧
      ∀ x, (port.wr x).isSaCcMad = true → (port.wr x).accepted = true →
        (port.wr x).calls ≤ 1 ∧ ((port.wr x).calls = 0 → Owed config port x) := by
  obtain ⟨stage, link⟩ := reach.link false (fun _ _ legal => legal)
    nofun
  refine ⟨?_, link.controls.most, link.controls.full, ?_⟩
  · rw [count_congr_below fun x _ => link.ccSent_iff x]
    exact link.controls.slots
  intro x cc accepted
  refine ⟨link.calls_le x, fun uncalled => link.owed accepted uncalled ?_⟩
  intro here
  have fits := link.fits x
  rw [here] at fits
  rw [(link.typed x).exclusive fits.2.2.1] at cc
  cases cc

def runSteps (config : Config) (legal : Port → Step → Bool) (port : Port) : List Step → Option Port
  | [] => some port
  | move :: moves =>
    if legal port move then (Mad.step config port move).bind fun after => runSteps config legal after moves
    else none

section Runs

variable (legal : Port → Step → Bool) {allowed : Port → Step → Prop}
  (sound : ∀ port move, legal port move = true → allowed port move)

include sound

theorem Reachable.runSteps {moves} (reach : Reachable config allowed port)
    (moved : Mad.runSteps config legal port moves = some after) : Reachable config allowed after := by
  induction moves generalizing port with
  | nil =>
    cases moved
    exact reach
  | cons move moves ih =>
    rw [Mad.runSteps, ite_none_right_eq_some, Option.bind_eq_some_iff] at moved
    obtain ⟨permitted, next, first, rest⟩ := moved
    exact ih (.step move reach (sound port move permitted) first) rest

theorem Reachable.exists_of_run (moves) (reached : Port → Prop) [DecidablePred reached]
    (passes : (Mad.runSteps config legal Port.init moves).any (fun port => decide (reached port)) = true) :
    ∃ port, Reachable config allowed port ∧ reached port := by
  obtain ⟨port, moved, holds⟩ := Option.any_eq_true .. |>.mp passes
  exact ⟨port, Reachable.init.runSteps legal sound moved, of_decide_eq_true holds⟩

end Runs

/-- Steps of runs where nothing fails and no client takes a request back. -/
def Step.smooth (config : Config) (port : Port) : Step → Bool
  | .run x (.send _) outcome => outcome.posts ∧ (isSmpMad (port.wr x) → config.qpOf (port.wr x).agent = .smi)
  | .run _ (.done _) outcome => outcome.posts
  | .run _ (.unpost _ _) _ | .run _ .cancelled _ => false
  | .run _ _ _ | .post _ | .resp _ _ | .wrDone _ _ | .receive _ _ => true
  | .ccDone wild => wild
  | _ => false

section Smooth

variable {move : Step} (legal : move.smooth config port = true)

include legal

theorem Step.smooth_steady : move.Steady config port := by
  cases move with
  | run x task outcome => cases task <;> grind [Step.smooth, Step.Steady]
  | _ => grind [Step.smooth, Step.Steady]

end Smooth

def sampleConfig : Config where
  sendQueueSize := 128
  madSmpWindow := 1
  hz := 1000
  hz_pos := by decide
  ccMaxOutstanding := 1
  queueSize := 16
  timeSaMad := 20
  qpOf := fun a => if a = 0 then .smi else .gsi

def samplePost (agent mgmtClass timeoutMs : Nat) : PostArgs where
  agent := agent
  mgmtClass := mgmtClass
  method := methodGet
  tid := 7
  timeoutMs := timeoutMs
  retries := 0

/-- A first query is answered while a second one waits. -/
def queries : List Step :=
  [.post (samplePost 1 classSubnAdm 100), .run 0 (.ccSend 100 0 .post) {}, .run 0 (.send .post) {},
    .post (samplePost 1 classSubnAdm 100), .wrDone 0 .success, .run 0 (.sent .success) {},
    .receive 1 ⟨7, classSubnAdm, fun _ => true⟩, .resp 0 .deliver, .resp 0 .complete,
    .run 0 (.done .success) {}, .run 0 (.notify .success) {}]

theorem sa_congestion_control_query :
    ∃ port, Reachable sampleConfig (fun port move => move.Steady sampleConfig port) port ∧
      (port.wr 0).calls = 1 ∧ port.fifo = [1] ∧ port.ccDone = 1 ∧
      port.ccOutstanding = count (fun x => ccSent port x = true) port.next + 1 ∧
      Owed sampleConfig port 1 := by
  have run := @Reachable.exists_of_run sampleConfig (Step.smooth sampleConfig)
    (fun port move => move.Steady sampleConfig port) fun _ _ => Step.smooth_steady
  obtain ⟨port, reach, called, waits, done, cc, accepted, uncalled⟩ := run queries
    (fun port => (port.wr 0).calls = 1 ∧ port.fifo = [1] ∧ port.ccDone = 1 ∧ (port.wr 1).isSaCcMad = true ∧
      (port.wr 1).accepted = true ∧ (port.wr 1).calls = 0) (by decide +kernel)
  obtain ⟨slots, -, -, once⟩ := sa_congestion_control reach
  exact ⟨port, reach, called, waits, done, done ▸ slots, (once 1 cc accepted).2 uncalled⟩

/-- The query's response precedes the work completion, and while `recv_handler` runs the query gets a new
timeout. -/
def lateModify : List Step :=
  [.post (samplePost 1 classSubnAdm 100), .run 0 (.ccSend 100 0 .post) {}, .run 0 (.send .post) {},
    .receive 1 ⟨7, classSubnAdm, fun _ => true⟩,
    .modify 1 0 5,
    .wrDone 0 .success,
    .run 0 (.sent .success) {},
    .tick 100,
    .timeout 1 true true true,
    .run 0 (.done .respTimeoutErr) {},
    .run 0 (.notify .respTimeoutErr) {},
    .resp 0 .deliver,
    .resp 0 .complete,
    .run 0 (.done .success) {},
    .run 0 (.notify .success) {}]

theorem sa_query_reported_twice :
    ∃ port, Reachable sampleConfig (fun _ _ => True) port ∧ (port.wr 0).isSaCcMad = true ∧
      (port.wr 0).accepted = true ∧ (port.wr 0).calls = 2 :=
  Reachable.exists_of_run (fun _ _ => true) (fun _ _ _ => trivial) lateModify _ (by decide +kernel)

end MlnxOfed.Mad
