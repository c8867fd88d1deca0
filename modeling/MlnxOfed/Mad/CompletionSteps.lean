/-
Work completions and responses: `ib_mad_send_done`, `ib_mad_complete_send_wr` and `ib_mad_complete_recv`.
-/

import MlnxOfed.Mad.TaskSteps

namespace MlnxOfed.Mad

open Option List Function
open Lib (Filed Tracks fileLast unfile count_congr_below)
open Wr

variable {config : Config} {exact : Bool} {port after : Port} {stage later : Nat → Stage} {x : Nat}
  {w : Wr} {s : Stage}

theorem Controls.keep (controls : Controls config port stage) (next : after.next = port.next)
    (slots : ∀ z, holdsCc after later z ↔ holdsCc port stage z)
    (outstanding : after.ccOutstanding = port.ccOutstanding) (done : after.ccDone = port.ccDone)
    (fifo : ∀ z ∈ after.fifo, (after.wr z).canceled = false →
      z ∈ port.fifo ∧ (port.wr z).canceled = false) : Controls config after later := by
  refine ⟨?_, ?_, ?_⟩
  · rw [outstanding, done, next, count_congr_below fun z _ => slots z]
    exact controls.slots
  · rw [outstanding]
    exact controls.most
  · intro z inside alive
    obtain ⟨old, open'⟩ := fifo z inside alive
    rw [outstanding]
    exact controls.full z old open'

theorem Windowed.keep (window : Windowed config port stage) (next : after.next = port.next)
    (places : ∀ z, holdsSmp after later z ↔ holdsSmp port stage z)
    (outstanding : after.queues.outstanding = port.queues.outstanding)
    (waiting : after.queues.lists .smpOverflow ≠ [] → port.queues.lists .smpOverflow ≠ [])
    (posted : ∀ z, later z ≠ .failed) (retries : after.smpRetries = port.smpRetries) :
    Windowed config after later := by
  refine ⟨?_, ?_, ?_, posted, retries.trans window.calm⟩
  · rw [outstanding, next, count_congr_below fun z _ => places z]
    exact window.slots
  · rw [outstanding]
    exact window.most
  · intro some
    rw [outstanding]
    exact window.full (waiting some)

variable {old : Stage}

theorem holdsSmp_keep (wr : after.wr = update port.wr x w) (here : stage x = old)
    (kind : w.isSmpMad = (port.wr x).isSmpMad) (place : s.inWindow = old.inWindow) (z) :
    holdsSmp after (update stage x s) z ↔ holdsSmp port stage z := by
  by_cases own : z = x
  · subst own
    unfold holdsSmp
    rw [wr, update_self, update_self, kind, place, here]
  · exact (holdsSmp_update wr z own).symm

theorem holdsCc_keep (wr : after.wr = update port.wr x w) (here : stage x = old)
    (kind : w.isSaCcMad = (port.wr x).isSaCcMad) (place : s.inControl = old.inControl) (z) :
    holdsCc after (update stage x s) z ↔ holdsCc port stage z := by
  by_cases own : z = x
  · subst own
    unfold holdsCc
    rw [wr, update_self, update_self, kind, place, here]
  · exact (holdsCc_update wr z own).symm

/-! ### The work request is done -/

variable {qp : Qp}

variable (link : Link config exact port stage)

include link

theorem Link.posted_of_queue (inside : x ∈ port.queues.lists (.queue qp)) :
    stage x = .posted .device ∧ config.qpOf (port.wr x).agent = qp := by
  have home := link.queues.filed.mem_iff.mp inside
  unfold madHome at home
  cases here : stage x with
  | posted place =>
    cases place with
    | device =>
      rw [here] at home
      exact ⟨rfl, MadList.queue.inj (some.inj home)⟩
    | overflow =>
      rw [here] at home
      cases home
    | sent =>
      rw [here] at home
      cases home
  | _ =>
    rw [here] at home
    cases home

theorem Link.posted_of_overflow (home : madHome config port stage x = some (.overflow qp)) :
    stage x = .posted .overflow ∧ config.qpOf (port.wr x).agent = qp := by
  unfold madHome at home
  cases here : stage x with
  | posted place =>
    cases place with
    | overflow =>
      rw [here] at home
      exact ⟨rfl, MadList.overflow.inj (some.inj home)⟩
    | device =>
      rw [here] at home
      cases home
    | sent =>
      rw [here] at home
      cases home
  | _ =>
    rw [here] at home
    cases home

omit link in
/-- The record of a request that `ib_mad_send_done` has taken from the send queue. -/
def Wr.completed (w : Wr) (status : WcStatus) : Wr := { w with tasks := [.sent status] }

theorem Link.wrDone (here : stage x = .posted .device) (status) : ∃ later, Link config exact
      (sendDone config (port.setWr x (port.wr x).freed) x status) later := by
  have fits := link.fits x
  rw [here] at fits
  obtain ⟨_, ok, noted, carried⟩ := fits
  have typed := link.typed x
  have home : madHome config port stage x = some (.queue (config.qpOf (port.wr x).agent)) := by
    unfold madHome
    rw [here]
    rfl
  obtain ⟨queues, promoted, done, way, outstanding, waiting⟩ := link.queues.sendDone home
  have completed : ((port.wr x).completed status).Fits (.posted .sent) :=
    ⟨⟨status, rfl⟩, ok, noted, { carried with }, carried.refs⟩
  have shut : Shut port.sendListClosed ((port.wr x).completed status) (.posted .sent) :=
    fun closed => ⟨by decide, fun _ => (link.shut x closed).2 (by rw [here]; rfl)⟩
  have below : x < port.next := link.known (by rw [here]; decide)
  let told : Port := { port with
    queues := queues
    wr := update port.wr x ((port.wr x).completed status) }
  have wr : told.wr = update port.wr x ((port.wr x).completed status) := rfl
  have quiet : Quiet port told := ⟨rfl, rfl, fun _ => id, fun _ => .inl, rfl, rfl⟩
  have core := link.toCore.change quiet wr le_rfl below completed
    { typed with } shut
  have res : sendDone config (port.setWr x (port.wr x).freed) x status =
      promoted.elim told fun y => told.setWr y ((told.wr y).addTask .repost) := by
    have taken : (port.setWr x (port.wr x).freed).queues.sendDone config.toParams
        (config.qpOf ((port.setWr x (port.wr x).freed).wr x).agent) x = some (queues, promoted) := by
      rw [setWr_wr]
      exact done
    have same : { port.setWr x (port.wr x).freed with queues := queues }.setWr x
        (((port.setWr x (port.wr x).freed).wr x).addTask (.sent status)) = told := by
      rw [setWr_wr]
      unfold Port.setWr
      dsimp only
      rw [update_idem]
      rfl
    unfold sendDone
    rw [taken]
    dsimp only
    rw [same]
    cases promoted <;> rfl
  rw [res]
  cases way with
  | single kept =>
    rw [elim_none]
    refine ⟨_, core, ?_, ?_, link.fifo_update (by rw [here]; decide) (by decide), link.toList,
      link.timer, link.tfTimer, ?_, ?_⟩
    · rw [agentHome_update wr, agentHome_same port ((port.wr x).completed status) (.posted .sent)
        here rfl rfl]
      exact link.agents
    · rw [madHome_update wr]
      exact kept
    · exact link.controls_update wr le_rfl below (by rw [here]; decide) rfl rfl (by rw [here]; rfl)
    · exact fun known => (link.window known).keep rfl (holdsSmp_keep wr here rfl rfl) outstanding
        (fun some => waiting ▸ some) ((link.window known).posted_update (by decide)) rfl
  | promoted y there kept =>
    obtain ⟨overflowed, qp⟩ := link.posted_of_overflow there
    have apart : y ≠ x := by
      intro equal
      rw [equal, here] at overflowed
      cases overflowed
    have fits := link.fits y
    rw [overflowed] at fits
    obtain ⟨tasks, ok, noted, carried⟩ := fits
    have typed := link.typed y
    have record : told.wr y = port.wr y := update_of_ne apart ..
    have placed : update stage x (.posted .sent) y = .posted .overflow := by
      rw [update_of_ne apart, overflowed]
    let promoted : Port := told.setWr y ((port.wr y).addTask .repost)
    have repost : promoted.wr = update told.wr y ((port.wr y).addTask .repost) := rfl
    rw [elim_some, record]
    refine ⟨_, core.change (x := y) (s := .posted .device)
      ⟨rfl, rfl, fun _ => id, fun _ => .inl, rfl, rfl⟩ repost le_rfl
      (link.known (by rw [overflowed]; decide)) ?_ { typed with } ?_, ?_, ?_, ?_,
      link.toList, link.timer, link.tfTimer, ?_, ?_⟩
    · refine ⟨.inr ?_, ok, noted, { carried with }, carried.refs⟩
      change (port.wr y).tasks ++ [.repost] = [.repost]
      rw [tasks, nil_append]
    · exact fun closed => ⟨by decide, fun _ => (link.shut y closed).2 (by rw [overflowed]; rfl)⟩
    · rw [agentHome_update repost, agentHome_same told ((port.wr y).addTask .repost)
        (.posted .device) placed (by rw [record]; rfl) rfl, agentHome_update wr,
        agentHome_same port ((port.wr x).completed status) (.posted .sent) here rfl rfl]
      exact link.agents
    · rw [madHome_update repost, madHome_update wr]
      change queues.Kept _ (update (update _ x none) y (some (.queue (config.qpOf (port.wr y).agent))))
      rw [qp]
      exact kept
    · refine (link.fifo_update (x := x) (s := .posted .sent) (by rw [here]; decide) (by decide)).congr ?_
      intro z
      by_cases own : z = y
      · subst own
        rw [update_self, placed]
        exact ⟨nofun, nofun⟩
      · rw [update_of_ne own]
    · refine link.controls.keep rfl ?_ rfl rfl ?_
      · intro z
        have first := holdsCc_keep (s := .posted .sent) wr here rfl rfl z
        exact (holdsCc_keep (s := .posted .device) repost placed (by rw [record]; rfl) rfl z).trans first
      intro z inside
      have other (mine : Stage) (not : mine ≠ .queued) (equal : stage z = mine) : False :=
          not (equal.symm.trans ((link.fifo.mem z).mp inside))
      have first : z ≠ x := fun equal => other _ (by decide) (equal ▸ here)
      have second : z ≠ y := fun equal => other _ (by decide) (equal ▸ overflowed)
      rw [repost, update_of_ne second, wr, update_of_ne first]
      exact fun alive => ⟨inside, alive⟩
    · intro known
      refine (link.window known).keep rfl ?_ outstanding (fun some => waiting ▸ some) ?_ rfl
      · intro z
        have first := holdsSmp_keep (s := .posted .sent) wr here rfl rfl z
        exact (holdsSmp_keep (s := .posted .device) repost placed (by rw [record]; rfl) rfl z).trans first
      intro z
      by_cases own : z = y
      · subst own
        rw [update_self]
        decide
      · rw [update_of_ne own]
        exact (link.window known).posted_update (by decide) z

omit link in
theorem Wr.freed_of_idle (idle : w.tasks = []) : w.freed = w := by
  unfold freed
  rw [← idle]

theorem Link.deviceDone (inside : x ∈ port.queues.lists (.queue qp)) (posted : Task.repost ∉ (port.wr x).tasks)
    (status) : ∃ later, Link config exact (sendDone config port x status) later := by
  obtain ⟨here, _⟩ := link.posted_of_queue inside
  have fits := link.fits x
  rw [here] at fits
  have idle : (port.wr x).tasks = [] := by
    obtain ⟨none | some, _⟩ := fits
    · exact none
    · rw [some] at posted
      exact absurd (mem_singleton.mpr rfl) posted
  have same : port.setWr x (port.wr x).freed = port := by
    unfold Port.setWr
    rw [freed_of_idle idle, update_eq_self]
  have done := link.wrDone here status
  rw [same] at done
  exact done

theorem Link.repost (inside : Task.repost ∈ (port.wr x).tasks) (outcome) :
    ∃ later, Link config exact (runTask config port x .repost outcome) later := by
  obtain ⟨here, tasks⟩ := (link.fits x).of_task inside
  rw [runTask_eq tasks]
  unfold performTask
  dsimp only
  split
  · have typed := link.typed x
    have fits := link.fits x
    rw [here] at fits
    obtain ⟨_, ok, noted, carried⟩ := fits
    exact ⟨_, link.retask (Still.setWr ..) rfl rfl here ⟨by decide, by decide, by decide, fun _ => rfl⟩ rfl
      ⟨.inl rfl, ok, noted, { carried with }, carried.refs⟩
      { typed with }
      (fun closed => ⟨by decide, fun _ => (link.shut x closed).2 (by rw [here]; rfl)⟩) rfl
      (fun _ => ⟨rfl, fun _ => rfl, by decide, rfl, rfl⟩)⟩
  · exact link.wrDone here .locQpOpErr

omit link

theorem insertPrev_perm (old x list) : (insertPrev old x list).Perm (x :: list) := by
  have whole := rdropWhile_append_rtakeWhile (p := fun y => !old y) (l := list)
  refine perm_middle.trans ?_
  rw [whole]

theorem insertPrev_nil (old x) : insertPrev old x [] = [x] := rfl

def Wr.expire (w : Wr) (jiffies : Nat) : Wr := { w with timeout := w.timeout + jiffies }

theorem Link.wait {v} (link : Link config exact port stage) (here : stage x = old)
    (stays : Stays old .waiting) (agent : v.agent = (port.wr x).agent)
    (fits : (v.expire port.jiffies).Fits .waiting) (typed : v.Typed config)
    (open' : port.sendListClosed (port.wr x).agent = false) (cc : v.isSaCcMad = (port.wr x).isSaCcMad)
    (control : old.inControl = true) (smp : v.isSmpMad = (port.wr x).isSmpMad) (window : old.inWindow = true) :
    Link config exact (waitForResponse (port.setWr x v) x) (update stage x .waiting) := by
  let gone := unfile port.agentLists x (v.agent, .wait)
  let list := if v.timeout = 0 then x :: gone
    else insertPrev (fun y => decide (((port.setWr x v).wr y).timeout < v.timeout + port.jiffies)) x gone
  have perm : list.Perm (x :: gone) := by
    by_cases zero : v.timeout = 0
    · rw [show list = x :: gone from if_pos zero]
    · rw [show list = _ from if_neg zero]
      exact insertPrev_perm ..
  have res : waitForResponse (port.setWr x v) x = { port with
        wr := update port.wr x (v.expire port.jiffies)
        agentLists := update (unfile port.agentLists x) (v.agent, .wait) list
        timedWork := update port.timedWork v.agent (port.timedWork v.agent || list.head? == some x) } := by
    unfold waitForResponse
    rw [setWr_wr]
    dsimp only [Port.setWr]
    rw [update_idem]
    rfl
  rw [res]
  refine link.relist ⟨⟨rfl, rfl, fun _ => id, fun _ => .inl, rfl, rfl⟩, rfl, rfl, rfl, rfl, rfl, rfl, rfl⟩
    rfl agent here stays fits { typed with } ?_ (link.agents.move x perm) ?_ ?_ ?_
  · intro closed
    change port.sendListClosed v.agent = true at closed
    rw [agent, open'] at closed
    cases closed
  · intro a busy
    change update (unfile port.agentLists x) (v.agent, .wait) list (a, .wait) ≠ [] at busy
    change update port.timedWork v.agent (port.timedWork v.agent || list.head? == some x) a = true
    by_cases same : a = v.agent
    · subst same
      rw [update_self, Bool.or_eq_true_iff]
      by_cases empty : gone = []
      · right
        rw [empty] at perm
        rw [perm_singleton.mp perm]
        exact beq_self_eq_true _
      · exact .inl (link.timer v.agent (unfile_ne_nil empty))
    · rw [update_of_ne same]
      rw [update_of_ne (by simp [same])] at busy
      exact link.timer a (unfile_ne_nil busy)
  · have equal : (v.expire port.jiffies).slot .waiting = (port.wr x).slot old := by
      unfold slot
      rw [control]
      change (if v.isSaCcMad = true then _ else _) = _
      rw [cc]
      rfl
    rw [equal]
  · exact fun _ => ⟨smp, fun _ => window.symm, by decide, rfl, rfl⟩

/-! ### A reference is dropped -/

theorem Wr.expects_le (w : Wr) : w.expects ≤ 1 := by
  unfold expects
  split
  · exact Nat.le_refl 1
  · exact Nat.zero_le 1

theorem Wr.expects_of_status (failed : w.status ≠ .success) : w.expects = 0 :=
  if_neg fun both => failed both.1

theorem Wr.expects_eq (alive : w.status = .success) : w.expects = if w.timeout = 0 then 0 else 1 := by
  unfold expects
  by_cases zero : w.timeout = 0
  · rw [if_pos zero, if_neg fun both => both.2 zero]
  · rw [if_neg zero, if_pos ⟨alive, zero⟩]

theorem Wr.less_spec (w : Wr) (status : WcStatus) :
    (w.less status).refcount + 1 + w.expects = w.refcount + (w.less status).expects ∧
      (w.less status).expects ≤ w.expects ∧ (status ≠ .success → (w.less status).expects = 0) ∧
      (status = .success → w.less status = { w with refcount := w.refcount - 1 }) := by
  unfold less
  by_cases failed : status ≠ .success ∧ w.status = .success
  · rw [if_pos failed]
    dsimp only
    have none : ({ w with
        status := status
        refcount := w.refcount - (if w.timeout = 0 then 0 else 1) - 1 } : Wr).expects = 0 :=
      expects_of_status failed.1
    rw [none, expects_eq failed.2]
    refine ⟨?_, Nat.zero_le _, fun _ => rfl, fun ok => absurd ok failed.1⟩
    split <;> omega
  rw [if_neg failed]
  have same : ({ w with refcount := w.refcount - 1 } : Wr).expects = w.expects := rfl
  rw [same]
  refine ⟨?_, le_rfl, ?_, fun _ => rfl⟩
  · change w.refcount - 1 + 1 + (w.expects : Int) = w.refcount + w.expects
    omega
  · intro bad
    exact expects_of_status fun alive => failed ⟨bad, alive⟩

theorem Wr.less_same (w : Wr) (status : WcStatus) :
    (w.less status).agent = w.agent ∧ (w.less status).mgmtClass = w.mgmtClass ∧
      (w.less status).method = w.method ∧ (w.less status).timeoutMs = w.timeoutMs ∧
      (w.less status).isSmpMad = w.isSmpMad ∧ (w.less status).isSaCcMad = w.isSaCcMad ∧
      (w.less status).tasks = w.tasks ∧ (w.less status).resps = w.resps ∧
      (w.less status).accepted = w.accepted ∧ (w.less status).log = w.log ∧
      (w.less status).timeout = w.timeout := by
  unfold less
  split <;> exact ⟨rfl, rfl, rfl, rfl, rfl, rfl, rfl, rfl, rfl, rfl, rfl⟩

theorem Wr.Typed.less (typed : w.Typed config) (status) : (w.less status).Typed config := by
  obtain ⟨agent, mgmtClass, method, _, smp, cc, _⟩ := w.less_same status
  constructor
  · intro marked
    unfold smpClass
    rw [mgmtClass, method]
    exact typed.smp (smp ▸ marked)
  · intro marked
    rw [agent]
    exact typed.qp (smp ▸ marked)
  · intro marked
    rw [mgmtClass]
    exact typed.cc (cc ▸ marked)

theorem Wr.Open.less (opened : w.Open) (status) : (w.less status).Open := by
  obtain ⟨_, _, _, timeoutMs, _, _, _, resps, _, log, _⟩ := w.less_same status
  have fewer := (w.less_spec status).2.1
  have most := w.expects_le
  constructor
  · rw [resps, log]
    exact opened.answers
  · intro expects
    rw [resps, log]
    exact opened.unanswered (by omega)
  · intro expects
    rw [timeoutMs]
    exact opened.timed (by omega)

theorem completeSendWr_eq (port : Port) (x : Nat) (w : Wr) (status : WcStatus) :
    completeSendWr (port.setWr x w) x status = if 0 < (w.less status).refcount then
        if (w.less status).refcount = 1 ∧ (w.less status).timeout ≠ 0 ∧ (w.less status).status = .success then
          waitForResponse (port.setWr x (w.less status)) x
        else port.setWr x (w.less status)
      else
        { port with
          wr := update port.wr x ((w.less status).addTask
            (.done (if (w.less status).status = .success then status else (w.less status).status)))
          agentLists := unfile port.agentLists x
          timedWork := update port.timedWork w.agent
            (port.timedWork w.agent && !(unfile port.agentLists x (w.agent, .wait)).isEmpty) } := by
  unfold completeSendWr
  rw [setWr_wr]
  dsimp only
  rw [setWr_setWr]
  dsimp only [Port.setWr]
  rw [update_idem]

theorem Link.finish {v : Wr} {timedWork : Nat → Bool} (link : Link config exact port stage)
    (here : stage x = old) (stays : Stays old .finishing) (agent : v.agent = (port.wr x).agent)
    (tasks : v.tasks = []) (accepted : v.accepted = true) (answered : v.resps = []) (opened : v.Open)
    (typed : v.Typed config) (cc : v.isSaCcMad = (port.wr x).isSaCcMad) (control : old.inControl = true)
    (smp : v.isSmpMad = (port.wr x).isSmpMad) (window : exact = true → old.inWindow = true) (status)
    (timer : ∀ a, unfile port.agentLists x (a, .wait) ≠ [] → timedWork a = true) :
    Link config exact
      { port with
        wr := update port.wr x (v.addTask (.done status))
        agentLists := unfile port.agentLists x
        timedWork := timedWork } (update stage x .finishing) := by
  refine link.relist ⟨⟨rfl, rfl, fun _ => id, fun _ => .inl, rfl, rfl⟩, rfl, rfl, rfl, rfl, rfl, rfl, rfl⟩
    rfl agent here stays ?_ { typed with } (shut_of_unlisted rfl) ?_ timer ?_
    (fun known => ⟨smp, fun _ => (window known).symm, by decide, rfl, rfl⟩)
  · refine ⟨.inl ⟨status, ?_⟩, accepted, answered, { opened with }⟩
    change v.tasks ++ [.done status] = [.done status]
    rw [tasks, nil_append]
  · rw [agentHome_leave port (v.addTask (.done status)) .finishing rfl]
    exact link.agents.unfile x
  have equal : (v.addTask (.done status)).slot .finishing = (port.wr x).slot old := by
    unfold slot
    rw [control]
    change (if v.isSaCcMad = true then _ else _) = _
    rw [cc]
    rfl
  rw [equal]

theorem Link.adjustTimeout (link : Link config exact port stage) (b a)
    (waiting : unfile port.agentLists x (a, .wait) ≠ []) :
    update port.timedWork b
      (port.timedWork b && !(unfile port.agentLists x (b, .wait)).isEmpty) a = true := by
  have armed := link.timer a (unfile_ne_nil waiting)
  by_cases same : a = b
  · subst same
    rw [update_self, armed, Bool.true_and]
    cases list : unfile port.agentLists x (a, .wait) with
    | nil => exact absurd list waiting
    | cons y rest => rfl
  · rw [update_of_ne same]
    exact armed

theorem Link.completeWr (link : Link config exact port stage) (here : stage x = old)
    (kind : old = .posted .sent ∨ old = .failed) (status) (bad : old = .failed → status ≠ .success) :
    ∃ later, Link config exact (completeSendWr (port.setWr x (port.wr x).freed) x status) later := by
  have fits := link.fits x
  have typed := link.typed x
  rw [here] at fits
  have carried : (port.wr x).Carried := by
    obtain equal | equal := kind
    · rw [equal] at fits
      exact fits.2.2.2
    · rw [equal] at fits
      exact fits.2.2.2
  have accepted : (port.wr x).accepted = true := by
    obtain equal | equal := kind
    · rw [equal] at fits
      exact fits.2.1
    · rw [equal] at fits
      exact fits.2.1
  have stays (new : Stage) (later : new ≠ .queued) (list : ∀ qp, new.madList qp = none) :
      Stays old new := by
    obtain equal | equal := kind
    · rw [equal]
      exact ⟨by decide, by decide, later, list⟩
    · rw [equal]
      exact ⟨by decide, by decide, later, list⟩
  have control : old.inControl = true := by
    obtain equal | equal := kind <;> rw [equal] <;> rfl
  have window (known : exact = true) : old = .posted .sent := by
    obtain equal | equal := kind
    · exact equal
    · exact absurd (here.trans equal) ((link.window known).posted x)
  have sendList : old.agentList = some .send := by
    obtain equal | equal := kind <;> rw [equal] <;> rfl
  let u := (port.wr x).freed
  have opened : u.Open := { carried with }
  have typedFreed : u.Typed config := { typed with }
  have typedLess := typedFreed.less status
  have openedLess := opened.less status
  obtain ⟨agent, _, _, _, smp, cc, tasks, resps, acc, log, _⟩ := u.less_same status
  obtain ⟨sum, fewer, none, _⟩ := u.less_spec status
  have refs : (u.less status).refcount = ((port.wr x).resps.length : Int) + (u.less status).expects := by
    have count : u.refcount = 1 + ((port.wr x).resps.length : Int) + u.expects := carried.refs
    omega
  rw [completeSendWr_eq]
  change ∃ later, Link config exact (if 0 < (u.less status).refcount then
      if (u.less status).refcount = 1 ∧ (u.less status).timeout ≠ 0 ∧ (u.less status).status = .success then
        waitForResponse (port.setWr x (u.less status)) x
      else port.setWr x (u.less status)
    else _) later
  have most := (u.less status).expects_le
  by_cases expects : (u.less status).expects = 1
  · obtain ⟨empty, unlogged⟩ := openedLess.unanswered expects
    have here' : (port.wr x).resps = [] := resps.symm.trans empty
    rw [here', expects] at refs
    change (u.less status).refcount = 1 at refs
    have alive : (u.less status).status = .success ∧ (u.less status).timeout ≠ 0 := by
      by_contra dead
      rw [Wr.expects, if_neg dead] at expects
      cases expects
    have good : status = .success := by
      by_contra failed
      rw [none failed] at expects
      cases expects
    have posted : old = .posted .sent := by
      obtain equal | equal := kind
      · exact equal
      · exact absurd good (bad equal)
    have before : (port.wr x).expects = 1 := by
      have bound := u.expects_le
      change u.expects = 1
      omega
    rw [if_pos (by omega), if_pos ⟨refs, alive.2, alive.1⟩]
    subst posted
    refine ⟨_, link.wait here (stays _ (by decide) fun _ => rfl) agent ?_ typedLess ?_ cc rfl smp rfl⟩
    · have still : ((u.less status).expire port.jiffies).expects = 1 := by
        unfold Wr.expects
        rw [if_pos]
        refine ⟨alive.1, ?_⟩
        change (u.less status).timeout + port.jiffies ≠ 0
        omega
      refine ⟨tasks, acc.trans accepted, ?_, empty, ⟨.inl ⟨empty, .inl unlogged⟩,
        fun _ => ⟨empty, unlogged⟩, fun _ => openedLess.timed expects⟩, .inl ⟨still, refs⟩⟩
      intro _ smpClass
      have noted := fits.2.2.1
      change (u.less status).isSmpMad = true
      rw [smp]
      refine noted before ?_
      obtain ⟨_, mgmtClass, method, _⟩ := u.less_same status
      change Wr.smpClass u
      unfold Wr.smpClass at smpClass ⊢
      rw [← mgmtClass, ← method]
      exact smpClass
    · cases closed : port.sendListClosed (port.wr x).agent with
      | false => rfl
      | true =>
        have shut := (link.shut x closed).2 (by rw [here]; rfl)
        rw [before] at shut
        cases shut
  · have zero : (u.less status).expects = 0 := by omega
    rw [zero] at refs
    have idle : ¬((u.less status).refcount = 1 ∧ (u.less status).timeout ≠ 0 ∧
        (u.less status).status = .success) := by
      rintro ⟨_, timeout, alive⟩
      rw [Wr.expects, if_pos ⟨alive, timeout⟩] at zero
      cases zero
    by_cases answered : (port.wr x).resps = []
    · rw [answered] at refs
      change (u.less status).refcount = 0 at refs
      rw [if_neg (by omega)]
      refine ⟨_, link.finish here (stays _ (by decide) fun _ => rfl) agent tasks
        (acc.trans accepted) (resps.trans answered) openedLess typedLess cc control smp ?_ _
        (link.adjustTimeout u.agent)⟩
      intro known
      rw [window known]
      rfl
    have one : (port.wr x).resps.length = 1 := by
      obtain ⟨empty, _⟩ | ⟨pending, _⟩ | ⟨pending, _⟩ := carried.answers
      · exact absurd empty answered
      · rw [pending]
        rfl
      · rw [pending]
        rfl
    rw [one] at refs
    rw [if_pos (by omega), if_neg idle]
    refine ⟨_, link.retask (s := .responding false) (Still.setWr ..) rfl agent here
      (stays _ (by decide) fun _ => rfl) sendList.symm
      ⟨tasks, acc.trans accepted, openedLess, (congrArg length resps).trans one, refs, zero⟩
      typedLess ?_ ?_ ?_⟩
    · exact fun closed => ⟨by decide, fun _ => zero⟩
    · have equal : (u.less status).slot (.responding false) = (port.wr x).slot old := by
        unfold Wr.slot
        rw [control, cc]
        rfl
      rw [equal]
      rfl
    · intro known
      rw [window known]
      exact ⟨smp, fun _ => rfl, by decide, rfl, rfl⟩

end MlnxOfed.Mad
