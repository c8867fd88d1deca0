/-
The tasks of a send request and the stages: sending, the end of a request, and passing on its place in the
window or its slot in the congestion control.
-/

import MlnxOfed.Mad.Stages

namespace MlnxOfed.Mad

open List
open Nat (count)
open Function
open Lib (Filed Tracks fileLast unfile count_swap count_congr_below)
open Port Mad.Task Wr

variable {config : Config} {exact : Bool} {port after : Port} {stage : Nat → Stage} {x : Nat} {w : Wr}
  {s : Stage}

def Task.home : Task → Stage
  | .send _ => .sending
  | .unpost _ _ => .unposting
  | .repost => .posted .device
  | .sent _ => .posted .sent
  | .failed => .failed
  | .done _ | .cancelled => .finishing
  | .notify _ | .localDone _ => .notifying
  | .ccSend _ _ _ => .transit

theorem Wr.Fits.of_task (fits : w.Fits s) {task} (inside : task ∈ w.tasks) :
    s = task.home ∧ w.tasks = [task] := by
  have only {other : Task} (tasks : w.tasks = [other]) : other = task := by
    rw [tasks] at inside
    exact (mem_singleton.mp inside).symm
  have none (tasks : w.tasks = []) : False := by
    rw [tasks] at inside
    exact not_mem_nil inside
  cases s with
  | idle => exact (none fits.1).elim
  | queued => exact (none fits.1).elim
  | transit =>
    obtain ⟨_, _, _, tasks, _⟩ := fits
    have equal := only tasks
    subst equal
    exact ⟨rfl, tasks⟩
  | sending =>
    obtain ⟨_, tasks, _⟩ := fits
    have equal := only tasks
    subst equal
    exact ⟨rfl, tasks⟩
  | unposting =>
    obtain ⟨_, _, tasks, _⟩ := fits
    have equal := only tasks
    subst equal
    exact ⟨rfl, tasks⟩
  | stalled => exact (none fits.1).elim
  | failed =>
    have equal := only fits.1
    subst equal
    exact ⟨rfl, fits.1⟩
  | posted place =>
    cases place with
    | device =>
      obtain ⟨tasks | tasks, _⟩ := fits
      · exact (none tasks).elim
      · have equal := only tasks
        subst equal
        exact ⟨rfl, tasks⟩
    | overflow => exact (none fits.1).elim
    | sent =>
      obtain ⟨⟨_, tasks⟩, _⟩ := fits
      have equal := only tasks
      subst equal
      exact ⟨rfl, tasks⟩
  | waiting => exact (none fits.1).elim
  | responding moved => exact (none fits.1).elim
  | finishing =>
    obtain ⟨⟨_, tasks⟩ | tasks, _⟩ := fits
    · have equal := only tasks
      subst equal
      exact ⟨rfl, tasks⟩
    · have equal := only tasks
      subst equal
      exact ⟨rfl, tasks⟩
  | notifying =>
    obtain ⟨⟨_, tasks⟩ | ⟨_, tasks, _⟩, _⟩ := fits
    · have equal := only tasks
      subst equal
      exact ⟨rfl, tasks⟩
    · have equal := only tasks
      subst equal
      exact ⟨rfl, tasks⟩
  | swept => exact (none fits.1).elim

def Wr.freed (w : Wr) : Wr := { w with tasks := [] }

private theorem erase_singleton (task : Task) : [task].erase task = [] := erase_cons_head ..

theorem setWr_wr (port : Port) (x w) : (port.setWr x w).wr x = w := update_self ..

theorem setWr_setWr (port : Port) (x : Nat) (w v : Wr) : (port.setWr x w).setWr x v = port.setWr x v := by
  unfold setWr
  rw [update_idem]

theorem runTask_eq {task} (tasks : (port.wr x).tasks = [task]) (outcome : Outcome) :
    runTask config port x task outcome =
      performTask config (port.setWr x (port.wr x).freed) x task outcome := by
  unfold runTask
  rw [tasks, erase_singleton]
  rfl

theorem Still.setWr (port x w) : Still port (port.setWr x w) :=
  ⟨⟨⟨rfl, rfl, fun _ => id, fun _ => .inl, rfl, rfl⟩, rfl, rfl, rfl, rfl, rfl, rfl, rfl⟩, rfl, rfl⟩

theorem shut_of_unlisted {closed} (list : s.agentList = none) : Shut closed w s := by
  intro _
  refine ⟨?_, ?_⟩
  · intro never
    rw [never] at list
    cases list
  · intro never
    rw [list] at never
    cases never

theorem Wr.Open.closed (opened : w.Open) (answered : w.resps = []) (status)
    {v : Wr} (log : v.log = w.log ++ [.send status]) : v.Closed := by
  refine ⟨status, ?_⟩
  obtain ⟨_, empty | received⟩ | ⟨pending, _⟩ | ⟨pending, _⟩ := opened.answers
  · rw [log, empty]
    exact .inl rfl
  · rw [log, received]
    exact .inr rfl
  · rw [answered] at pending
    cases pending
  · rw [answered] at pending
    cases pending

variable (link : Link config exact port stage)

include link

variable {status : WcStatus}

theorem Link.notify (inside : notify status ∈ (port.wr x).tasks) (outcome) :
    Link config exact (runTask config port x (.notify status) outcome) (update stage x .idle) := by
  obtain ⟨here, tasks⟩ := (link.fits x).of_task inside
  dsimp only [home] at here
  have fits := link.fits x
  rw [here] at fits
  obtain ⟨_, ok, answered, opened⟩ := fits
  have res : runTask config port x (.notify status) outcome =
      port.setWr x ((port.wr x).freed.handled status) := by
    rw [runTask_eq tasks]
    unfold performTask
    dsimp only
    rw [setWr_wr, setWr_setWr]
  rw [res]
  refine link.retask (Still.setWr ..) rfl rfl here ⟨by decide, by decide, by decide, fun _ => rfl⟩ rfl ?_
    ⟨(link.typed x).smp, (link.typed x).qp, (link.typed x).cc⟩ (shut_of_unlisted rfl) rfl
    (fun _ => ⟨rfl, fun _ => rfl, by decide, rfl, rfl⟩)
  exact ⟨rfl, answered, .inr ⟨ok, opened.closed answered status rfl⟩⟩

theorem Link.localDone {response} (inside : localDone response ∈ (port.wr x).tasks) (outcome) :
    Link config exact (runTask config port x (.localDone response) outcome) (update stage x .idle) := by
  obtain ⟨here, tasks⟩ := (link.fits x).of_task inside
  dsimp only [home] at here
  have fits := link.fits x
  rw [here] at fits
  obtain ⟨kind, ok, answered, _⟩ := fits
  have log : (port.wr x).log = [] := by
    obtain ⟨status, other⟩ | ⟨_, _, log⟩ := kind
    · rw [tasks] at other
      cases other
    · exact log
  have res : runTask config port x (.localDone response) outcome = port.setWr x { (port.wr x).freed with
        log := (port.wr x).log ++ (if response then [.recv] else []) ++ [.send .success] } := by
    rw [runTask_eq tasks]
    unfold performTask
    dsimp only
    rw [setWr_wr, setWr_setWr]
    rfl
  rw [res]
  refine link.retask (Still.setWr ..) rfl rfl here ⟨by decide, by decide, by decide, fun _ => rfl⟩ rfl ?_
    ⟨(link.typed x).smp, (link.typed x).qp, (link.typed x).cc⟩ (shut_of_unlisted rfl) rfl
    (fun _ => ⟨rfl, fun _ => rfl, by decide, rfl, rfl⟩)
  refine ⟨rfl, answered, .inr ⟨ok, .success, ?_⟩⟩
  rw [log]
  cases response with
  | true => exact .inr rfl
  | false => exact .inl rfl

/-! ### The window is served -/

omit link in
/-- What a call of `smp_mad_done` does from its label `retry`. -/
inductive SmpServed (config : Config) (port after : Port) (stage : Nat → Stage) (posts : Bool) :
    (Nat → Stage) → Prop
  | idle (empty : port.queues.lists .smpOverflow = []) (queues : after.queues = port.queues)
      (wr : after.wr = port.wr) (retries : after.smpRetries = port.smpRetries) :
      SmpServed config port after stage posts stage
  | sent (y : Nat) (rest : List Nat) (first : port.queues.lists .smpOverflow = y :: rest)
      (there : stage y = .stalled) (place : Place)
      (outstanding : after.queues.outstanding = port.queues.outstanding + 1)
      (waiting : after.queues.lists .smpOverflow = rest) (wr : after.wr = port.wr)
      (retries : after.smpRetries = port.smpRetries) :
      SmpServed config port after stage posts (update stage y (.posted place))
  | failed (y : Nat) (there : stage y = .stalled) (refused : posts = false)
      (wr : after.wr = update port.wr y ((port.wr y).addTask .failed)) :
      SmpServed config port after stage posts (update stage y .failed)

theorem Link.stalled (inside : x ∈ port.queues.lists .smpOverflow) : stage x = .stalled := by
  have home := link.queues.filed.mem_iff.mp inside
  unfold madHome at home
  cases here : stage x with
  | posted place => cases place <;> rw [here] at home <;> cases home
  | stalled => rfl
  | _ =>
    rw [here] at home
    cases home

omit link in
theorem Link.smpNext (link : Link config false port stage) (posts) : ∃ later, Link config false
        (port.smpResult .smi (port.queues.smpNext config.toParams .smi posts)) later ∧
      SmpServed config port (port.smpResult .smi (port.queues.smpNext config.toParams .smi posts))
        stage posts later := by
  have way := link.queues.smpNext .smi posts
  generalize port.queues.smpNext config.toParams .smi posts = result at way
  obtain ⟨queues, refused⟩ := result
  cases way with
  | idle empty same =>
    subst same
    exact ⟨stage, link, .idle empty rfl rfl rfl⟩
  | sent y rest first list place kept outstanding waiting =>
    have there : stage y = .stalled := link.stalled (by rw [first]; exact .head _)
    have fits := link.fits y
    rw [there] at fits
    obtain ⟨tasks, accepted, smp, carried⟩ := fits
    have qp := (link.typed y).qp smp
    have wr : { port with queues := queues }.wr = update port.wr y (port.wr y) :=
      (update_eq_self ..).symm
    have below : y < port.next := link.known (by rw [there]; decide)
    have noted : (port.wr y).Noted := fun _ _ => smp
    obtain ⟨position, home, positioned⟩ : ∃ position : Place,
        (Stage.posted position).madList (config.qpOf (port.wr y).agent) = some list ∧
        (port.wr y).Fits (.posted position) := by
      rw [qp]
      obtain equal | equal := place
      · exact ⟨.device, by rw [equal]; rfl, .inl tasks, accepted, noted, carried⟩
      · exact ⟨.overflow, by rw [equal]; rfl, tasks, accepted, noted, carried⟩
    refine ⟨_, ?_, .sent y rest first there position outstanding waiting rfl rfl⟩
    refine link.change ⟨rfl, rfl, fun _ => id, fun _ => .inl, rfl, rfl⟩ wr le_rfl below
      positioned (link.typed y) ?_ ?_ ?_ (link.fifo_update (by rw [there]; decide) (by simp))
      link.toList link.timer link.tfTimer
      (link.controls_update wr le_rfl below (by rw [there]; decide) rfl rfl (by rw [there]; rfl))
      (fun never => by cases never)
    · intro closed
      exact ⟨by simp, fun _ => (link.shut y closed).2 (by rw [there]; rfl)⟩
    · rw [agentHome_same port (port.wr y) (.posted position) there rfl rfl]
      exact link.agents
    · rw [home]
      exact kept
  | failed y rest first refused active kept outstanding waiting =>
    have there : stage y = .stalled := link.stalled (by rw [first]; exact .head _)
    have fits := link.fits y
    rw [there] at fits
    obtain ⟨tasks, accepted, smp, carried⟩ := fits
    have below : y < port.next := link.known (by rw [there]; decide)
    have wr : { port with
        queues := queues
        wr := update port.wr y ((port.wr y).addTask .failed)
        smpRetries := port.smpRetries ++ [Qp.smi] }.wr =
        update port.wr y ((port.wr y).addTask .failed) := rfl
    refine ⟨_, ?_, .failed y there refused rfl⟩
    have retries (qp : Qp) (inside : qp ∈ port.smpRetries ++ [Qp.smi]) :
        qp ∈ port.smpRetries ∨ qp = .smi := by
      obtain before | new := mem_append.mp inside
      · exact .inl before
      · exact .inr (mem_singleton.mp new)
    refine link.change ⟨rfl, rfl, fun _ => id, retries, rfl, rfl⟩ wr le_rfl below
      ?_ ⟨(link.typed y).smp, (link.typed y).qp, (link.typed y).cc⟩ ?_ ?_ kept
      (link.fifo_update (by rw [there]; decide) (by decide)) link.toList link.timer link.tfTimer
      (link.controls_update wr le_rfl below (by rw [there]; decide) rfl rfl (by rw [there]; rfl))
      (fun never => by cases never)
    · refine ⟨?_, accepted, smp, { carried with }, carried.refs⟩
      change (port.wr y).tasks ++ [.failed] = [.failed]
      rw [tasks, nil_append]
    · intro closed
      exact ⟨by decide, fun _ => (link.shut y closed).2 (by rw [there]; rfl)⟩
    · rw [agentHome_same port ((port.wr y).addTask .failed) .failed there rfl rfl]
      exact link.agents

omit link in
private theorem smpResult_queues (port : Port) (queues : Queues) (qp : Qp) (result : Queues × Option Nat) :
    { port with queues := queues }.smpResult qp result = port.smpResult qp result := by
  cases result.2 <;> rfl

omit link in
private theorem smpResult_next (port : Port) (qp : Qp) (result : Queues × Option Nat) :
    (port.smpResult qp result).next = port.next := by
  unfold smpResult
  cases result.2 <;> rfl

omit link in
theorem SmpServed.windowed {later} (link : Link config false port stage)
    (served : SmpServed config port after stage true later) (next : after.next = port.next)
    (slots : port.queues.outstanding = count (holdsSmp port stage) port.next)
    (room : port.queues.outstanding + 1 ≤ config.maxOutstanding)
    (full : port.queues.lists .smpOverflow ≠ [] → port.queues.outstanding + 1 = config.maxOutstanding)
    (posted : ∀ x, stage x ≠ .failed) (calm : port.smpRetries = []) :
    Windowed config after later := by
  cases served with
  | idle empty queues wr retries =>
    refine ⟨?_, ?_, ?_, posted, retries.trans calm⟩
    · rw [queues, next, slots]
      apply count_congr_below
      intro y _
      unfold holdsSmp
      rw [wr]
    · rw [queues]
      omega
    · rw [queues]
      exact fun waiting => absurd empty waiting
  | sent y rest first there place outstanding waiting wr retries =>
    have fits := link.fits y
    rw [there] at fits
    have smp := fits.2.2.1
    have below : y < port.next := link.known (by rw [there]; decide)
    have swap := count_swap (p := holdsSmp port stage)
      (q := holdsSmp after (update stage y (.posted place))) below (by
        intro z _ other
        unfold holdsSmp
        rw [wr, update_of_ne other])
    have now : holdsSmp after (update stage y (.posted place)) y := by
      unfold holdsSmp
      rw [wr, update_self]
      exact ⟨smp, rfl⟩
    have past : ¬holdsSmp port stage y := by
      rintro ⟨_, never⟩
      rw [there] at never
      cases never
    rw [if_pos now, if_neg past] at swap
    have occupied := full (by rw [first]; exact cons_ne_nil y rest)
    refine ⟨?_, ?_, ?_, ?_, retries.trans calm⟩
    · rw [outstanding, next]
      omega
    · rw [outstanding]
      exact room
    · rw [outstanding]
      exact fun _ => occupied
    intro z
    by_cases own : z = y
    · subst own
      rw [update_self]
      exact nofun
    · rw [update_of_ne own]
      exact posted z
  | failed y there refused wr => cases refused

omit link in
theorem Link.serve (link : Link config false port stage) (posts) (window : exact = true → posts = true ∧
      port.queues.outstanding = count (holdsSmp port stage) port.next ∧
      port.queues.outstanding + 1 ≤ config.maxOutstanding ∧
      (port.queues.lists .smpOverflow ≠ [] → port.queues.outstanding + 1 = config.maxOutstanding) ∧
      (∀ x, stage x ≠ .failed) ∧ port.smpRetries = []) :
    ∃ later, Link config exact
      (port.smpResult .smi (port.queues.smpNext config.toParams .smi posts)) later := by
  obtain ⟨later, served, way⟩ := link.smpNext posts
  refine ⟨later, served.tight ?_⟩
  intro known
  obtain ⟨accepted, slots, room, full, posted, calm⟩ := window known
  subst accepted
  exact way.windowed link (smpResult_next ..) slots room full posted calm

/-! ### The end of a request -/

omit link in
theorem Wr.Typed.exclusive (typed : w.Typed config) (smp : w.isSmpMad = true) : w.isSaCcMad = false := by
  cases cc : w.isSaCcMad with
  | false => rfl
  | true =>
    have adm := typed.cc cc
    obtain ⟨lid | directed, _⟩ := typed.smp smp
    · rw [lid] at adm
      cases adm
    · rw [directed] at adm
      cases adm

omit link in
def Wr.told (w : Wr) (status : WcStatus) : Wr := { w with tasks := [.notify status] }

theorem Link.told_fits (here : stage x = .finishing)
    (status) : ((port.wr x).told status).Fits .notifying := by
  have fits := link.fits x
  rw [here] at fits
  obtain ⟨_, ok, answered, opened⟩ := fits
  exact ⟨.inl ⟨status, rfl⟩, ok, answered, { opened with }⟩

theorem Link.tell (here : stage x = .finishing) (status) (other : ¬(port.wr x).isSmpMad = true) :
    Link config exact (if (port.wr x).isSaCcMad then
        { port.setWr x ((port.wr x).told status) with ccDone := port.ccDone + 1 }
      else port.setWr x ((port.wr x).told status)) (update stage x .notifying) := by
  have typed := link.typed x
  have told := link.told_fits here status
  split_ifs with cc
  · refine link.retask
      ⟨⟨⟨rfl, rfl, fun _ => id, fun _ => .inl, rfl, rfl⟩, rfl, rfl, rfl, rfl, rfl, rfl, rfl⟩, rfl, rfl⟩
      rfl rfl here ⟨by decide, by decide, by decide, fun _ => rfl⟩ rfl told
      { typed with } (shut_of_unlisted rfl) ?_ ?_
    · rw [slot_cc cc, slot_cc (w := (port.wr x).told status) cc]
      rfl
    · exact fun _ => ⟨rfl, fun counted => absurd counted other, by decide, rfl, rfl⟩
  · refine link.retask (Still.setWr ..) rfl rfl here ⟨by decide, by decide, by decide, fun _ => rfl⟩ rfl told
      { typed with } (shut_of_unlisted rfl) ?_ ?_
    · have none := Bool.eq_false_iff.mpr cc
      rw [slot_other none, slot_other (w := (port.wr x).told status) none]
      rfl
    · exact fun _ => ⟨rfl, fun counted => absurd counted other, by decide, rfl, rfl⟩

theorem Link.tellSmp (here : stage x = .finishing)
    (status) (smp : (port.wr x).isSmpMad = true) (outstanding) :
    Link config false
      { port.setWr x ((port.wr x).told status) with
        queues := { port.queues with outstanding := outstanding } }
      (update stage x .notifying) := by
  have typed := link.typed x
  refine link.loose.retask
    ⟨⟨⟨rfl, rfl, fun _ => id, fun _ => .inl, rfl, rfl⟩, rfl, rfl, rfl, rfl, rfl, rfl, rfl⟩, rfl, rfl⟩
    rfl rfl here ⟨by decide, by decide, by decide, fun _ => rfl⟩ rfl (link.told_fits here status)
    { typed with } (shut_of_unlisted rfl) ?_ (fun never => by cases never)
  have none := typed.exclusive smp
  rw [slot_other none, slot_other (w := (port.wr x).told status) none]
  rfl

theorem Link.tellSmp_slots (known : exact = true) (here : stage x = .finishing) (status)
    (smp : (port.wr x).isSmpMad = true) (outstanding) :
    port.queues.outstanding = count (holdsSmp { port.setWr x ((port.wr x).told status) with
        queues := { port.queues with outstanding := outstanding } }
        (update stage x .notifying)) port.next + 1 := by
  have wr : { port.setWr x ((port.wr x).told status) with
      queues := { port.queues with outstanding := outstanding } }.wr =
      update port.wr x ((port.wr x).told status) := rfl
  have places := link.places_update known wr (s := .notifying) le_rfl (link.known (by rw [here]; decide))
  rw [here, place_smp smp, place_smp (w := (port.wr x).told status) smp] at places
  exact places

theorem Link.done (inside : done status ∈ (port.wr x).tasks) (outcome)
    (posts : exact = true → (port.wr x).isSmpMad = true → outcome.posts = true) :
    ∃ later, Link config exact (runTask config port x (.done status) outcome) later := by
  obtain ⟨here, tasks⟩ := (link.fits x).of_task inside
  have res : runTask config port x (.done status) outcome = if (port.wr x).isSmpMad then
        (port.setWr x ((port.wr x).told status)).smpResult (config.qpOf (port.wr x).agent)
          (port.queues.smpMadDone config.toParams (config.qpOf (port.wr x).agent) outcome.posts)
      else if (port.wr x).isSaCcMad then
        { port.setWr x ((port.wr x).told status) with ccDone := port.ccDone + 1 }
      else port.setWr x ((port.wr x).told status) := by
    rw [runTask_eq tasks]
    unfold performTask doneTask
    dsimp only
    rw [setWr_wr, setWr_setWr]
    rfl
  rw [res]
  by_cases smp : (port.wr x).isSmpMad = true
  · rw [if_pos smp, (link.typed x).qp smp]
    rw [← smpResult_queues _ { port.queues with outstanding := port.queues.outstanding - 1 }]
    refine (link.tellSmp here status smp (port.queues.outstanding - 1)).serve outcome.posts ?_
    intro known
    have window := link.window known
    have slots := link.tellSmp_slots known here status smp (port.queues.outstanding - 1)
    have most := window.most
    refine ⟨posts known smp, ?_, ?_, ?_, window.posted_update (by decide), window.calm⟩
    · change port.queues.outstanding - 1 = Nat.count _ port.next
      omega
    · change port.queues.outstanding - 1 + 1 ≤ _
      omega
    · intro waiting
      have full := window.full waiting
      change port.queues.outstanding - 1 + 1 = _
      omega
  · rw [if_neg smp]
    exact ⟨_, link.tell here status smp⟩

theorem Link.cancelled (inside : cancelled ∈ (port.wr x).tasks) (outcome)
    (alone : exact = true → (port.wr x).isSmpMad = true → port.queues.lists .smpOverflow = []) :
    ∃ later, Link config exact (runTask config port x .cancelled outcome) later := by
  obtain ⟨here, tasks⟩ := (link.fits x).of_task inside
  have res : runTask config port x .cancelled outcome = if (port.wr x).isSmpMad then
        { port.setWr x ((port.wr x).told .wrFlushErr) with
          queues := { port.queues with
            outstanding := (port.queues.outstanding + (2 ^ 64 - 1)) % 2 ^ 64 } }
      else if (port.wr x).isSaCcMad then
        { port.setWr x ((port.wr x).told .wrFlushErr) with ccDone := port.ccDone + 1 }
      else port.setWr x ((port.wr x).told .wrFlushErr) := by
    rw [runTask_eq tasks]
    unfold performTask cancelTask
    dsimp only
    rw [setWr_wr, setWr_setWr]
    rfl
  rw [res]
  by_cases smp : (port.wr x).isSmpMad = true
  · rw [if_pos smp]
    refine ⟨_, (link.tellSmp here .wrFlushErr smp _).tight ?_⟩
    intro known
    have window := link.window known
    have slots := link.tellSmp_slots known here .wrFlushErr smp
      ((port.queues.outstanding + (2 ^ 64 - 1)) % 2 ^ 64)
    have most := window.most
    have bound : config.maxOutstanding ≤ 8192 := by
      unfold Params.maxOutstanding
      omega
    have less : (port.queues.outstanding + (2 ^ 64 - 1)) % 2 ^ 64 = port.queues.outstanding - 1 := by omega
    refine ⟨?_, ?_, ?_, window.posted_update (by decide), window.calm⟩
    · change (port.queues.outstanding + (2 ^ 64 - 1)) % 2 ^ 64 = Nat.count _ port.next
      omega
    · change (port.queues.outstanding + (2 ^ 64 - 1)) % 2 ^ 64 ≤ _
      omega
    · exact fun waiting => absurd (alone known smp) waiting
  · rw [if_neg smp]
    exact ⟨_, link.tell here .wrFlushErr smp⟩

/-! ### Sending -/

omit link in
theorem unfile_ne_nil {K : Type} {lists : K → List Nat} {k : K} (some : unfile lists x k ≠ []) :
    lists k ≠ [] := by
  intro empty
  apply some
  unfold unfile
  rw [empty]
  rfl

omit link in
theorem agentHome_leave (port : Port) (w : Wr) (s : Stage) (list : s.agentList = none) :
    update (agentHome port stage) x (s.agentList.map fun list => (w.agent, list)) =
      update (agentHome port stage) x none := by
  rw [list]
  rfl

variable {caller : Caller}

theorem Link.unpost {error} (inside : unpost caller error ∈ (port.wr x).tasks) (outcome)
    (answered : (port.wr x).resps = []) :
    ∃ later, Link config exact (runTask config port x (.unpost caller error) outcome) later := by
  obtain ⟨here, tasks⟩ := (link.fits x).of_task inside
  dsimp only [home] at here
  have typed := link.typed x
  have fits := link.fits x
  rw [here] at fits
  obtain ⟨_, _, same, source, carried⟩ := fits
  rw [tasks] at same
  cases same
  have opened := carried.toOpen
  have slot {v : Wr} {last : Stage} (out : last.inControl = false) :
      port.ccDone + (if (port.wr x).isSaCcMad then 1 else 0) + v.slot last =
        port.ccDone + (port.wr x).slot .unposting := by
    rw [slot_out out]
    rfl
  have timer (a : Nat) (some : unfile port.agentLists x (a, .wait) ≠ []) : port.timedWork a = true :=
    link.timer a (unfile_ne_nil some)
  cases caller with
  | post =>
    have res : runTask config port x (.unpost .post error) outcome = { port.setWr x (port.wr x).freed with
          agentLists := unfile port.agentLists x
          ccDone := port.ccDone + if (port.wr x).isSaCcMad then 1 else 0 } := by
      rw [runTask_eq tasks]
      unfold performTask unpostTask
      dsimp only
      rw [setWr_wr]
      rw [setWr, update_idem]
      rfl
    rw [res]
    refine ⟨_, link.relist (s := .idle)
      ⟨⟨rfl, rfl, fun _ => id, fun _ => .inl, rfl, rfl⟩, rfl, rfl, rfl, rfl, rfl, rfl, rfl⟩ rfl rfl here
      ⟨by decide, by decide, by decide, fun _ => rfl⟩ ?_ { typed with }
      (shut_of_unlisted rfl) ?_ timer (slot rfl) (fun _ => ⟨rfl, fun _ => rfl, by decide, rfl, rfl⟩)⟩
    · refine ⟨rfl, answered, .inl ⟨source, ?_⟩⟩
      obtain ⟨_, log⟩ | ⟨pending, _⟩ | ⟨pending, _⟩ := opened.answers
      · exact log
      · rw [answered] at pending
        cases pending
      · rw [answered] at pending
        cases pending
    · rw [agentHome_leave port (port.wr x).freed .idle rfl]
      exact link.agents.unfile x
  | queue =>
    have res : runTask config port x (.unpost .queue error) outcome =
        { port.setWr x ((port.wr x).told error) with
          agentLists := unfile port.agentLists x
          ccDone := port.ccDone + if (port.wr x).isSaCcMad then 1 else 0 } := by
      rw [runTask_eq tasks]
      unfold performTask unpostTask
      dsimp only
      rw [setWr_wr]
      rw [setWr, update_idem]
      rfl
    rw [res]
    refine ⟨_, link.relist (s := .notifying)
      ⟨⟨rfl, rfl, fun _ => id, fun _ => .inl, rfl, rfl⟩, rfl, rfl, rfl, rfl, rfl, rfl, rfl⟩ rfl rfl here
      ⟨by decide, by decide, by decide, fun _ => rfl⟩ ?_ { typed with }
      (shut_of_unlisted rfl) ?_ timer (slot rfl) (fun _ => ⟨rfl, fun _ => rfl, by decide, rfl, rfl⟩)⟩
    · exact ⟨.inl ⟨error, rfl⟩, source.1, answered, { opened with }⟩
    · rw [agentHome_leave port ((port.wr x).told error) .notifying rfl]
      exact link.agents.unfile x

theorem Link.ccSend {timeoutMs retries}
    (inside : ccSend timeoutMs retries caller ∈ (port.wr x).tasks) (outcome : Outcome) :
    ∃ later, Link config exact (runTask config port x (.ccSend timeoutMs retries caller) outcome) later := by
  obtain ⟨here, tasks⟩ := (link.fits x).of_task inside
  dsimp only [home] at here
  have typed := link.typed x
  have fits := link.fits x
  rw [here] at fits
  obtain ⟨_, _, _, same, source, control⟩ := fits
  rw [tasks] at same
  cases same
  let timeout := msecsToJiffies config timeoutMs
  let v : Wr := { (port.wr x).freed with
    timeout := timeout
    retriesLeft := retries
    refcount := 1 + if timeout = 0 then 0 else 1 }
  have opened : v.Open :=
    ⟨.inl ⟨control.resps, .inl control.log⟩, fun _ => ⟨control.resps, control.log⟩, fun _ => control.timed⟩
  rw [runTask_eq tasks]
  unfold performTask sendSaCcMad
  dsimp only
  rw [setWr_wr]
  by_cases closed : (port.setWr x (port.wr x).freed).sendListClosed (port.wr x).freed.agent = true
  · rw [if_pos closed]
    cases caller with
    | post =>
      refine ⟨_, link.retask (s := .idle) (w := v)
        ⟨⟨⟨rfl, rfl, fun _ => id, fun _ => .inl, rfl, rfl⟩, rfl, rfl, rfl, rfl, rfl, rfl, rfl⟩, rfl, rfl⟩
        (update_idem ..) rfl here ⟨by decide, by decide, by decide, fun _ => rfl⟩ rfl
        ?_ { typed with } (shut_of_unlisted rfl) ?_
        (fun _ => ⟨rfl, fun _ => rfl, by decide, rfl, rfl⟩)⟩
      · exact ⟨rfl, control.resps, .inl ⟨source, .inl control.log⟩⟩
      · rw [slot_out rfl, slot_cc control.cc]
        rfl
    | queue =>
      refine ⟨_, link.retask (s := .notifying) (w := v.addTask (.notify .locQpOpErr))
        ⟨⟨⟨rfl, rfl, fun _ => id, fun _ => .inl, rfl, rfl⟩, rfl, rfl, rfl, rfl, rfl, rfl, rfl⟩, rfl, rfl⟩
        (update_idem ..) rfl here ⟨by decide, by decide, by decide, fun _ => rfl⟩ rfl
        ?_ { typed with } (shut_of_unlisted rfl) ?_
        (fun _ => ⟨rfl, fun _ => rfl, by decide, rfl, rfl⟩)⟩
      · exact ⟨.inl ⟨_, rfl⟩, source.1, control.resps, { opened with }⟩
      · rw [slot_out rfl, slot_cc control.cc]
        rfl
  · rw [if_neg closed]
    have homeless : agentHome port stage x = none := by
      unfold agentHome
      rw [here]
      rfl
    have refs : v.refcount = 1 + (0 : Nat) + v.expects := by
      change 1 + (if timeout = 0 then 0 else 1) =
        1 + 0 + ((if (port.wr x).status = .success ∧ timeout ≠ 0 then 1 else 0 : Nat) : Int)
      rw [control.status]
      by_cases zero : timeout = 0
      · rw [if_pos zero, if_neg (fun both => both.2 zero)]
        rfl
      · rw [if_neg zero, if_pos ⟨rfl, zero⟩]
        rfl
    refine ⟨_, link.relist (s := .sending) (w := v.addTask (.send caller))
      ⟨⟨rfl, rfl, fun _ => id, fun _ => .inl, rfl, rfl⟩, rfl, rfl, rfl, rfl, rfl, rfl, rfl⟩
      (update_idem ..) rfl here ⟨by decide, by decide, by decide, fun _ => rfl⟩
      ?_ { typed with } (fun never => absurd never closed)
      (link.agents.fileLast homeless _) ?_ rfl (fun _ => ⟨rfl, fun _ => rfl, by decide, rfl, rfl⟩)⟩
    · refine ⟨caller, rfl, ?_, control.smp, { opened with }, ?_⟩
      · cases caller with
        | post | queue => exact source
      · change v.refcount = 1 + ((port.wr x).resps.length : Int) + v.expects
        rw [control.resps]
        exact refs
    · intro a some
      change fileLast port.agentLists ((port.wr x).agent, .send) x (a, .wait) ≠ [] at some
      rw [fileLast_of_ne _ _ (by simp)] at some
      exact link.timer a some

omit link

theorem isSmpMad_iff (w) : isSmpMad w = true ↔ w.timeoutMs ≠ 0 ∧ w.smpClass := by
  unfold isSmpMad smpClass
  simp only [Bool.and_eq_true, Bool.or_eq_true, bne_iff_ne, beq_iff_eq, and_assoc]

/-- The record after `ib_send_mad` has looked at the MAD. -/
def Wr.marked (w : Wr) : Wr := { w with tasks := [], isSmpMad := w.isSmpMad || Mad.isSmpMad w }

def Wr.accept (w : Wr) : Wr := { w with accepted := true }

theorem Wr.Typed.marked (typed : w.Typed config)
    (qp : Mad.isSmpMad w = true → config.qpOf w.agent = .smi) : w.marked.Typed config := by
  constructor
  · intro smp
    obtain old | now := Bool.or_eq_true_iff.mp smp
    · exact typed.smp old
    · exact ((isSmpMad_iff w).mp now).2
  · intro smp
    obtain old | now := Bool.or_eq_true_iff.mp smp
    · exact typed.qp old
    · exact qp now
  · exact typed.cc

theorem Wr.Open.noted (opened : w.Open) : w.marked.Noted := by
  intro expects smp
  exact Bool.or_eq_true_iff.mpr (.inr ((isSmpMad_iff w).mpr ⟨opened.timed expects, smp⟩))

theorem runTask_send (tasks : (port.wr x).tasks = [.send caller])
    {outcome} (mapped : ¬outcome.mapped = false) {res}
    (sent : port.queues.sendMad config.toParams (config.qpOf (port.wr x).agent) x
      (isSmpMad (port.wr x)) outcome.posts = res) :
    runTask config port x (.send caller) outcome = { port with
        wr := update port.wr x (if res.2 then (port.wr x).marked.accept
          else (port.wr x).marked.addTask (.unpost caller .locQpOpErr))
        queues := res.1 } := by
  subst sent
  rw [runTask_eq tasks]
  have refused : (ibSendMad config (port.setWr x (port.wr x).freed) x outcome.mapped
      outcome.posts).2 = if (port.queues.sendMad config.toParams (config.qpOf (port.wr x).agent) x
        (isSmpMad (port.wr x)) outcome.posts).2 = true then none else some WcStatus.locQpOpErr := by
    unfold ibSendMad
    rw [if_neg mapped, setWr_wr]
    rfl
  unfold performTask sendTask
  dsimp only
  rw [refused]
  unfold ibSendMad
  rw [if_neg mapped, setWr_wr]
  split_ifs
  · dsimp only [setWr]
    rw [update_idem, update_idem, update_self]
    rfl
  · dsimp only [setWr]
    rw [update_idem, update_idem, update_self]
    rfl

variable (link : Link config exact port stage)

include link

theorem Link.shut_sending (here : stage x = .sending) {v : Wr} (agent : v.agent = (port.wr x).agent)
    (expects : v.expects = (port.wr x).expects) (list : s.agentList = some .send) :
    Shut port.sendListClosed v s := by
  intro closed
  rw [agent] at closed
  refine ⟨?_, fun _ => ?_⟩
  · intro never
    rw [never] at list
    cases list
  · rw [expects]
    exact (link.shut x closed).2 (by rw [here]; rfl)

/-- A send leaves its request on the send list, at a stage the queues count. -/
theorem Link.sent (here : stage x = .sending) {v : Wr} {queues}
    (agent : v.agent = (port.wr x).agent) (expects : v.expects = (port.wr x).expects)
    (list : s.agentList = some .send) (control : v.slot s = (port.wr x).slot .sending)
    (later : s ≠ .queued ∧ s ≠ .failed) (fits : v.Fits s) (typed : v.Typed config)
    (kept : queues.Kept config.toParams (update (madHome config port stage) x
      (s.madList (config.qpOf v.agent))))
    (window : exact = true → queues.outstanding = port.queues.outstanding + v.place s ∧
      queues.outstanding ≤ config.maxOutstanding ∧
      (queues.lists .smpOverflow ≠ [] → queues.outstanding = config.maxOutstanding)) :
    Link config exact { port with wr := update port.wr x v, queues := queues } (update stage x s) := by
  have below : x < port.next := link.known (by rw [here]; decide)
  refine link.change ⟨rfl, rfl, fun _ => id, fun _ => .inl, rfl, rfl⟩ rfl le_rfl below fits typed
    (link.shut_sending here agent expects list) ?_ kept
    (link.fifo_update (by rw [here]; decide) later.1) link.toList link.timer link.tfTimer
    (link.controls_update rfl le_rfl below (by rw [here]; decide) rfl rfl (by rw [here, control])) ?_
  · rw [agentHome_same port v s here agent list]
    exact link.agents
  intro known
  obtain ⟨outstanding, most, full⟩ := window known
  have window := link.window known
  have wr : { port with wr := update port.wr x v, queues := queues }.wr = update port.wr x v := rfl
  have places := link.places_update known wr (s := s) le_rfl below
  rw [here, Wr.place_out (s := .sending) rfl] at places
  exact ⟨outstanding.trans places, most, full, window.posted_update later.2, window.calm⟩

theorem Link.send (inside : Task.send caller ∈ (port.wr x).tasks) (outcome)
    (qp : outcome.mapped = true → isSmpMad (port.wr x) = true → config.qpOf (port.wr x).agent = .smi)
    (posts : exact = true → outcome.mapped = true → isSmpMad (port.wr x) = true → outcome.posts = true) :
    ∃ later, Link config exact (runTask config port x (.send caller) outcome) later := by
  obtain ⟨here, tasks⟩ := (link.fits x).of_task inside
  dsimp only [Task.home] at here
  have typed := link.typed x
  have fits := link.fits x
  rw [here] at fits
  obtain ⟨_, same, source, plain, carried⟩ := fits
  rw [tasks] at same
  cases same
  have opened := carried.toOpen
  have mark : (port.wr x).marked.isSmpMad = isSmpMad (port.wr x) := by
    unfold Wr.marked
    rw [plain, Bool.false_or]
  by_cases mapped : outcome.mapped = false
  · rw [runTask_eq tasks]
    unfold performTask sendTask ibSendMad
    dsimp only
    rw [if_pos mapped]
    dsimp only
    rw [setWr_wr, setWr_setWr]
    refine ⟨_, link.retask (s := .unposting) (Still.setWr ..) rfl rfl here
      ⟨by decide, by decide, by decide, fun _ => rfl⟩ rfl
      ⟨caller, _, rfl, ?_, { opened with }, carried.refs⟩
      { typed with } (link.shut_sending here rfl rfl rfl) rfl
      (fun _ => ⟨rfl, fun _ => rfl, by decide, rfl, rfl⟩)⟩
    cases caller with
    | post | queue => exact source
  have mappedTrue : outcome.mapped = true := Bool.not_eq_false _ ▸ mapped
  have markedTyped := typed.marked (qp mappedTrue)
  have homeless : madHome config port stage x = none := by
    unfold madHome
    rw [here]
    rfl
  have way := link.queues.sendMad homeless (config.qpOf (port.wr x).agent)
    (isSmpMad (port.wr x)) outcome.posts
  rw [runTask_send tasks mapped rfl]
  generalize port.queues.sendMad config.toParams (config.qpOf (port.wr x).agent) x
    (isSmpMad (port.wr x)) outcome.posts = res at way ⊢
  obtain ⟨queues, sent⟩ := res
  cases way with
  | stalled counted full kept outstanding waiting =>
    rw [if_pos rfl]
    refine ⟨_, link.sent (s := .stalled) here rfl rfl rfl rfl ⟨by decide, by decide⟩
      ⟨rfl, rfl, mark.trans counted, { opened with }, carried.refs⟩ { markedTyped with } kept ?_⟩
    intro known
    have most := (link.window known).most
    dsimp only at outstanding
    rw [Wr.place_out rfl, outstanding]
    exact ⟨rfl, most, fun _ => most.antisymm full⟩
  | posted list place room kept outstanding waiting =>
    have markedOpen : (port.wr x).marked.accept.Carried := ⟨{ opened with }, carried.refs⟩
    obtain ⟨spot, home, positioned⟩ : ∃ spot : Place,
        (Stage.posted spot).madList (config.qpOf (port.wr x).marked.accept.agent) = some list ∧
        (port.wr x).marked.accept.Fits (.posted spot) := by
      obtain equal | equal := place
      · exact ⟨.device, by rw [equal]; rfl, .inl rfl, rfl, opened.noted, markedOpen⟩
      · exact ⟨.overflow, by rw [equal]; rfl, rfl, rfl, opened.noted, markedOpen⟩
    rw [if_pos rfl]
    refine ⟨_, link.sent (s := .posted spot) here rfl rfl rfl rfl ⟨by simp, by simp⟩
      positioned { markedTyped with } (by rw [home]; exact kept) ?_⟩
    intro known
    have window := link.window known
    have counted : (port.wr x).marked.accept.place (.posted spot) =
        if isSmpMad (port.wr x) then 1 else 0 := by
      change (if (port.wr x).marked.isSmpMad = true then (if true = true then 1 else 0) else 0) = _
      rw [mark]
      rfl
    have most := window.most
    dsimp only at outstanding waiting
    rw [counted, outstanding, waiting]
    refine ⟨rfl, ?_, fun some => ?_⟩
    · split_ifs with smp
      · exact room smp
      · exact most
    have full := window.full some
    by_cases smp : isSmpMad (port.wr x) = true
    · have less := room smp
      omega
    · rw [if_neg smp]
      exact full
  | failed refused kept lists room active outstanding =>
    rw [if_neg Bool.false_ne_true]
    refine ⟨_, link.sent (s := .unposting) here rfl rfl rfl rfl ⟨by decide, by decide⟩
      ⟨caller, _, rfl, ?_, { opened with }, carried.refs⟩ { markedTyped with } ?_ ?_⟩
    · cases caller with
      | post | queue => exact source
    · change queues.Kept _ (update _ x none)
      rw [← homeless, update_eq_self]
      exact kept
    intro known
    have window := link.window known
    have other : isSmpMad (port.wr x) = false := by
      by_contra smp
      rw [posts known mappedTrue (Bool.not_eq_false _ ▸ smp)] at refused
      cases refused
    dsimp only at outstanding lists
    rw [other] at outstanding
    rw [Wr.place_out rfl, outstanding, lists]
    exact ⟨rfl, window.most, window.full⟩

end MlnxOfed.Mad
