/-
Timeouts: `timeout_sends` takes a request from the wait list and sends it again or finishes it.
-/

import MlnxOfed.Mad.ResponseSteps

namespace MlnxOfed.Mad

open Function
open Lib (Filed Tracks fileLast unfile)

variable {config : Config} {exact : Bool} {port after : Port} {stage : Nat → Stage} {x : Nat}
  {v w : Wr} {s : Stage}

/-! ### A request that is sent again -/

def Wr.again (config : Config) (w : Wr) : Wr :=
  { w with retriesLeft := w.retriesLeft - 1, timeout := msecsToJiffies config w.timeoutMs }

def Wr.resent (config : Config) (w : Wr) : Wr :=
  { w.again config with refcount := w.refcount + 1 }

structure Late (config : Config) (w : Wr) : Prop where
  tasks : w.tasks = []
  accepted : w.accepted = true
  resps : w.resps = []
  log : w.log = []
  status : w.status = .success
  timed : w.timeoutMs ≠ 0
  refs : w.refcount = 1
  kind : isSmpMad w = w.isSmpMad
  typed : w.Typed config

theorem Link.late (link : Link config exact port stage) (here : stage x = .waiting)
    (alive : (port.wr x).status = .success) : Late config (port.wr x) := by
  have fits := link.fits x
  have typed := link.typed x
  rw [here] at fits
  obtain ⟨tasks, ok, noted, resps, opened, ⟨expects, refs⟩ | ⟨dead, _⟩⟩ := fits
  · have timed := opened.timed expects
    refine ⟨tasks, ok, resps, (opened.unanswered expects).2, alive, timed, refs, ?_, typed⟩
    rw [Bool.eq_iff_iff, isSmpMad_iff]
    exact ⟨fun smp => noted expects smp.2, fun smp => ⟨timed, typed.smp smp⟩⟩
  · exact absurd alive dead

theorem Late.resent (late : Late config w) : (w.resent config).Carried ∧ (w.resent config).Noted := by
  have expects : (w.resent config).expects = 1 := if_pos ⟨late.status, msecsToJiffies_pos config late.timed⟩
  refine ⟨⟨⟨.inl ⟨late.resps, .inl late.log⟩, fun _ => ⟨late.resps, late.log⟩, fun _ => late.timed⟩, ?_⟩, ?_⟩
  · rw [expects]
    change w.refcount + 1 = 1 + (w.resps.length : Int) + 1
    rw [late.refs, late.resps]
    rfl
  · intro _ smpClass
    change w.isSmpMad = true
    rw [← late.kind, isSmpMad_iff]
    exact ⟨late.timed, smpClass⟩

theorem ibSendMad_again (late : Late config (port.wr x)) (agentLists : Nat × AgentList → List Nat) (posts) :
    ibSendMad config ({ port with agentLists := agentLists }.setWr x ((port.wr x).again config)) x
        true posts =
      ({ port with
          agentLists := agentLists
          wr := update port.wr x ((port.wr x).again config)
          queues := (port.queues.sendMad config.toParams (config.qpOf (port.wr x).agent) x
            (port.wr x).isSmpMad posts).1 },
        if (port.queues.sendMad config.toParams (config.qpOf (port.wr x).agent) x
          (port.wr x).isSmpMad posts).2 then none else some .locQpOpErr) := by
  have kind : isSmpMad ((port.wr x).again config) = (port.wr x).isSmpMad := late.kind
  unfold ibSendMad
  rw [if_neg (by decide), setWr_wr]
  dsimp only [Port.setWr]
  rw [kind, update_idem]
  have same : ({ (port.wr x).again config with
      isSmpMad := ((port.wr x).again config).isSmpMad || (port.wr x).isSmpMad } : Wr) =
      (port.wr x).again config := by
    unfold Wr.again
    dsimp only
    rw [Bool.or_self]
  rw [same]
  rfl

/-- The port after `retry_send` has put the request on the send list again. -/
def Port.resent (config : Config) (port : Port) (x : Nat) (queues : Queues) : Port :=
  { port with
    wr := update port.wr x ((port.wr x).resent config)
    agentLists := fileLast (unfile port.agentLists x) ((port.wr x).agent, .send) x
    queues := queues }

variable {queues : Queues}

private theorem retrySend_sent (late : Late config (port.wr x)) (some : (port.wr x).retriesLeft ≠ 0) {posts}
    (sent : port.queues.sendMad config.toParams (config.qpOf (port.wr x).agent) x
      (port.wr x).isSmpMad posts = (queues, true))
    (served : (queues.smpMadDone config.toParams (config.qpOf (port.wr x).agent) true).2 = none) :
    retrySend config { port with agentLists := unfile port.agentLists x } x true posts true =
      (port.resent config x (if (port.wr x).isSmpMad then
        (queues.smpMadDone config.toParams (config.qpOf (port.wr x).agent) true).1 else queues),
        true) := by
  have mad : ibSendMad config ({ port with agentLists := unfile port.agentLists x }.setWr x
        { port.wr x with
          retriesLeft := (port.wr x).retriesLeft - 1
          timeout := msecsToJiffies config (port.wr x).timeoutMs }) x true posts =
      ({ port with
          agentLists := unfile port.agentLists x
          wr := update port.wr x ((port.wr x).again config)
          queues := queues }, none) := by
    have again := ibSendMad_again late (unfile port.agentLists x) posts
    rw [sent] at again
    exact again
  have own : (update port.wr x ((port.wr x).again config) x).isSmpMad = (port.wr x).isSmpMad := by
    rw [update_self]
    rfl
  have calm (blocked : Bool) : update port.stuck (port.wr x).agent
      (port.stuck (port.wr x).agent || blocked && false) = port.stuck := by
    rw [Bool.and_false, Bool.or_false, update_eq_self]
  unfold retrySend
  dsimp only
  rw [if_neg some, mad]
  dsimp only
  rw [served, Option.any_none, calm]
  unfold Port.smpResult Port.resent
  rw [served]
  by_cases smp : (port.wr x).isSmpMad = true
  · rw [if_pos smp, if_pos (own.trans smp)]
    dsimp only
    rw [update_self, update_idem]
    rfl
  · rw [if_neg smp, if_neg fun marked => smp (own.symm.trans marked)]
    dsimp only
    rw [update_self, update_idem]
    rfl

variable (link : Link config exact port stage)

include link

theorem Link.resent (here : stage x = .waiting)
    (late : Late config (port.wr x)) (fits : ((port.wr x).resent config).Fits s)
    (kind : s = .stalled ∨ ∃ place, s = .posted place)
    (kept : queues.Kept config.toParams (update (madHome config port stage) x
      (s.madList (config.qpOf (port.wr x).agent)))) :
    Link config false (port.resent config x queues) (update stage x s) := by
  have typed := late.typed
  have wr : (port.resent config x queues).wr = update port.wr x ((port.wr x).resent config) := rfl
  have below : x < port.next := link.known (by rw [here]; decide)
  have send : s.agentList = some .send := by
    obtain equal | ⟨_, equal⟩ := kind <;> rw [equal] <;> rfl
  have later : s ≠ .queued := by
    intro equal
    rw [equal] at send
    cases send
  have control : s.inControl = true := by
    obtain equal | ⟨_, equal⟩ := kind <;> rw [equal] <;> rfl
  refine link.loose.change ⟨rfl, rfl, fun _ => id, fun _ => .inl, rfl, rfl⟩ wr
    le_rfl below fits { typed with } ?_ ?_ kept
    (link.fifo_update (by rw [here]; decide) later) link.toList ?_ link.tfTimer
    (link.controls_update wr le_rfl below (by rw [here]; decide) rfl rfl ?_)
    (fun never => by cases never)
  · intro closed
    exact absurd here (link.shut x closed).1
  · rw [send]
    exact link.agents.moveLast x _
  · intro a waiting
    change fileLast (unfile port.agentLists x) ((port.wr x).agent, .send) x (a, .wait) ≠ [] at waiting
    rw [fileLast_of_ne _ _ (by simp)] at waiting
    exact link.timer a (unfile_ne_nil waiting)
  have equal : ((port.wr x).resent config).slot s = (port.wr x).slot (stage x) := by
    unfold Wr.slot
    rw [control, here]
    rfl
  rw [equal]
  rfl

omit link in
theorem smpNext_served {home params}
    (kept : queues.Kept params home) (qp) : (queues.smpNext params qp true).2 = none := by
  have way := kept.smpNext qp true
  generalize queues.smpNext params qp true = result at way
  obtain ⟨after, refused⟩ := result
  cases way with
  | idle _ _ => rfl
  | sent _ _ _ _ _ _ _ _ => rfl
  | failed _ _ _ never _ _ _ _ => cases never

theorem Link.resentSmp (here : stage x = .waiting)
    (late : Late config (port.wr x)) (smp : (port.wr x).isSmpMad = true)
    (fits : ((port.wr x).resent config).Fits s) (kind : s = .stalled ∨ ∃ place, s = .posted place)
    (kept : queues.Kept config.toParams (update (madHome config port stage) x
      (s.madList (config.qpOf (port.wr x).agent))))
    (window : exact = true → queues.outstanding - 1 + (port.wr x).place .waiting =
        port.queues.outstanding + (port.wr x).place s ∧
      queues.outstanding - 1 + 1 ≤ config.maxOutstanding ∧
      (queues.lists .smpOverflow ≠ [] → queues.outstanding - 1 + 1 = config.maxOutstanding)) :
    ∃ later, Link config exact
      (port.resent config x (queues.smpMadDone config.toParams .smi true).1) later := by
  let free : Queues := { queues with outstanding := queues.outstanding - 1 }
  have freed : free.Kept config.toParams _ := kept.window (queues.outstanding - 1)
  have mid := link.resent here late fits kind freed
  have served : (port.resent config x free).smpResult .smi (free.smpNext config.toParams .smi true) =
      port.resent config x (free.smpNext config.toParams .smi true).1 := by
    unfold Port.smpResult
    rw [smpNext_served freed]
    rfl
  have wr : (port.resent config x free).wr = update port.wr x ((port.wr x).resent config) := rfl
  change ∃ later, Link config exact (port.resent config x (free.smpNext config.toParams .smi true).1) later
  rw [← served]
  refine mid.serve true ?_
  intro known
  obtain ⟨count, room, full⟩ := window known
  have places := link.places_update known wr (s := s) le_rfl (link.known (by rw [here]; decide))
  have same : ((port.wr x).resent config).place s = (port.wr x).place s := rfl
  rw [here, same] at places
  refine ⟨rfl, ?_, room, full, (link.window known).posted_update ?_, (link.window known).calm⟩
  · change queues.outstanding - 1 = Nat.count _ port.next
    change _ = Nat.count _ port.next + _ at places
    omega
  · obtain equal | ⟨_, equal⟩ := kind <;> rw [equal] <;> simp

theorem Link.queued (kept : queues.Kept config.toParams (madHome config port stage))
    (lists : queues.lists = port.queues.lists)
    (outstanding : exact = true → queues.outstanding = port.queues.outstanding) :
    Link config exact { port with queues := queues } stage := by
  have core := link.toCore
  refine ⟨{ core with }, link.agents, kept, link.fifo, link.toList, link.timer, link.tfTimer,
    ⟨link.controls.slots, link.controls.most, link.controls.full⟩, ?_⟩
  intro known
  exact (link.window known).keep rfl (fun _ => .rfl) (outstanding known) (fun some => lists ▸ some)
    (link.window known).posted rfl

/-! ### One round of `timeout_sends` -/

omit link in
def Wr.expired (w : Wr) : Wr :=
  w.addTask (.done (if w.status = .success then .respTimeoutErr else w.status))

theorem Link.giveUp (here : stage x = .waiting) (agent : v.agent = (port.wr x).agent) (tasks : v.tasks = [])
    (accepted : v.accepted = true) (resps : v.resps = []) (opened : v.Open) (typed : v.Typed config)
    (cc : v.isSaCcMad = (port.wr x).isSaCcMad) (smp : v.isSmpMad = (port.wr x).isSmpMad) :
    Link config exact
      { port with
        wr := update port.wr x v.expired
        agentLists := unfile port.agentLists x } (update stage x .finishing) :=
  link.finish here ⟨by decide, by decide, by decide, fun _ => rfl⟩ agent tasks accepted resps opened
    typed cc rfl smp (fun _ => rfl) _ fun a waiting => link.timer a (unfile_ne_nil waiting)

omit link in
theorem Late.again (late : Late config w) : (w.again config).Open ∧ (w.again config).Typed config :=
  ⟨⟨.inl ⟨late.resps, .inl late.log⟩, fun _ => ⟨late.resps, late.log⟩, fun _ => late.timed⟩,
    ⟨late.typed.smp, late.typed.qp, late.typed.cc⟩⟩

theorem Link.giveUpAgain (here : stage x = .waiting) (late : Late config (port.wr x)) : Link config exact
      { port with
        wr := update port.wr x ((port.wr x).again config).expired
        agentLists := unfile port.agentLists x } (update stage x .finishing) :=
  link.giveUp here rfl late.tasks late.accepted late.resps late.again.1 late.again.2 rfl rfl

omit link in
private theorem retrySend_failed (port) (some : (port.wr x).retriesLeft ≠ 0) {mapped posts postsNext error failed}
    (mad : ibSendMad config (port.setWr x ((port.wr x).again config)) x mapped posts = (failed, .some error)) :
    retrySend config port x mapped posts postsNext = (failed, false) := by
  have sent : ibSendMad config
      (port.setWr x { port.wr x with
        retriesLeft := (port.wr x).retriesLeft - 1
        timeout := msecsToJiffies config (port.wr x).timeoutMs }) x mapped posts =
      (failed, .some error) := mad
  unfold retrySend
  dsimp only
  rw [if_neg some, sent]

theorem Link.retry (here : stage x = .waiting)
    (late : Late config (port.wr x)) (some : (port.wr x).retriesLeft ≠ 0) (mapped posts)
    (posted : exact = true → isSmpMad (port.wr x) = true → mapped = true → posts = true) :
    ∃ later, Link config exact
      (if (retrySend config { port with agentLists := unfile port.agentLists x } x mapped posts
          true).2 then
        (retrySend config { port with agentLists := unfile port.agentLists x } x mapped posts true).1
      else
        (retrySend config { port with agentLists := unfile port.agentLists x } x mapped posts
          true).1.setWr x
          ((retrySend config { port with agentLists := unfile port.agentLists x } x mapped posts
            true).1.wr x).expired) later := by
  cases mapped with
  | false =>
    have mad : ibSendMad config ({ port with agentLists := unfile port.agentLists x }.setWr x
        ((port.wr x).again config)) x false posts =
        ({ port with agentLists := unfile port.agentLists x }.setWr x ((port.wr x).again config),
          .some .generalErr) := rfl
    rw [retrySend_failed { port with agentLists := unfile port.agentLists x } some mad,
      if_neg Bool.false_ne_true]
    rw [setWr_wr, setWr_setWr]
    exact ⟨_, link.giveUpAgain here late⟩
  | true =>
    have homeless : madHome config port stage x = none := by
      unfold madHome
      rw [here]
      rfl
    have way := link.queues.sendMad homeless (config.qpOf (port.wr x).agent) (port.wr x).isSmpMad posts
    have mad := ibSendMad_again late (unfile port.agentLists x) posts
    cases res : port.queues.sendMad config.toParams (config.qpOf (port.wr x).agent) x
        (port.wr x).isSmpMad posts with
    | mk queues sent =>
    rw [res] at way mad
    obtain ⟨carried, noted⟩ := late.resent
    cases way with
    | failed refused kept lists room active outstanding =>
      rw [retrySend_failed { port with agentLists := unfile port.agentLists x } some mad,
        if_neg Bool.false_ne_true]
      have same (known : exact = true) : queues.outstanding = port.queues.outstanding := by
        rw [outstanding]
        by_cases smp : (port.wr x).isSmpMad = true
        · have accepted := posted known (late.kind.trans smp) rfl
          rw [accepted] at refused
          cases refused
        · rw [if_neg smp, add_zero]
      have moved := link.queued kept lists same
      have gone := moved.giveUpAgain here late
      refine ⟨update stage x .finishing, ?_⟩
      dsimp only [Port.setWr]
      rw [update_self, update_idem]
      exact gone
    | stalled counted full kept outstanding waiting =>
      have qp := late.typed.qp counted
      have fits : ((port.wr x).resent config).Fits .stalled := ⟨late.tasks, late.accepted, counted, carried⟩
      have served := smpNext_served (kept.window (queues.outstanding - 1)) (config.qpOf (port.wr x).agent)
      rw [retrySend_sent late some res served, if_pos rfl, if_pos counted, qp]
      refine link.resentSmp here late counted fits (.inl rfl) kept ?_
      intro known
      have window := link.window known
      have most := window.most
      have bound : 1 ≤ config.maxOutstanding := by
        unfold Params.maxOutstanding
        omega
      rw [Wr.place_smp counted, Wr.place_smp counted, outstanding]
      refine ⟨?_, by omega, fun _ => by omega⟩
      change port.queues.outstanding - 1 + 1 = port.queues.outstanding + 0
      omega
    | posted list place room kept outstanding waiting =>
      obtain ⟨spot, home, positioned⟩ : ∃ spot : Place,
          (Stage.posted spot).madList (config.qpOf (port.wr x).agent) = Option.some list ∧
          ((port.wr x).resent config).Fits (.posted spot) := by
        obtain equal | equal := place
        · exact ⟨.device, by rw [equal]; rfl, .inl late.tasks, late.accepted, noted, carried⟩
        · exact ⟨.overflow, by rw [equal]; rfl, late.tasks, late.accepted, noted, carried⟩
      rw [← home] at kept
      have served := smpNext_served (kept.window (queues.outstanding - 1)) (config.qpOf (port.wr x).agent)
      rw [retrySend_sent late some res served, if_pos rfl]
      by_cases smp : (port.wr x).isSmpMad = true
      · have qp := late.typed.qp smp
        rw [if_pos smp, qp]
        refine link.resentSmp here late smp positioned (.inr ⟨spot, rfl⟩) kept ?_
        intro known
        have window := link.window known
        have less := room smp
        rw [if_pos smp] at outstanding
        rw [Wr.place_smp smp, Wr.place_smp smp, outstanding, waiting]
        refine ⟨?_, by omega, fun some => ?_⟩
        · change port.queues.outstanding + 1 - 1 + 1 = port.queues.outstanding + 1
          omega
        · have full := window.full some
          omega
      · rw [if_neg smp]
        refine ⟨_, (link.resent here late positioned (.inr ⟨spot, rfl⟩) kept).tight ?_⟩
        intro known
        rw [if_neg smp, add_zero] at outstanding
        have wr : (port.resent config x queues).wr = update port.wr x ((port.wr x).resent config) := rfl
        exact (link.window known).keep rfl (holdsSmp_keep wr here rfl rfl) outstanding
          (fun some => waiting ▸ some) ((link.window known).posted_update (by simp)) rfl

theorem Link.timeout (a mapped posts)
    (posted : exact = true → ∀ x, (port.agentLists (a, .wait)).head? = some x →
      isSmpMad (port.wr x) = true → mapped = true → posts = true) :
    ∃ later, Link config exact (timeoutSends config port a mapped posts true) later := by
  unfold timeoutSends
  cases waits : port.agentLists (a, .wait) with
  | nil =>
    have core := link.toCore
    refine ⟨stage, { core with }, link.agents, link.queues, link.fifo, link.toList, ?_,
      link.tfTimer, ⟨link.controls.slots, link.controls.most, link.controls.full⟩, ?_⟩
    · intro b waiting
      have other : b ≠ a := by
        intro same
        subst same
        exact waiting waits
      change update port.timedWork a false b = true
      rw [update_of_ne other]
      exact link.timer b waiting
    · intro known
      have window := link.window known
      exact { window with }
  | cons x rest =>
    dsimp only
    by_cases early : port.jiffies < (port.wr x).timeout
    · rw [if_pos early]
      exact ⟨stage, link⟩
    rw [if_neg early]
    have inside : x ∈ port.agentLists (a, .wait) := by
      rw [waits]
      exact List.mem_cons_self
    have here := Stage.of_wait (link.listed inside).1
    by_cases alive : (port.wr x).status = .success
    · rw [if_pos alive]
      have late := link.late here alive
      by_cases last : (port.wr x).retriesLeft = 0
      · have none : retrySend config { port with agentLists := unfile port.agentLists x } x mapped
            posts true = ({ port with agentLists := unfile port.agentLists x }, false) := by
          unfold retrySend
          dsimp only
          rw [if_pos last]
        rw [none, if_neg Bool.false_ne_true]
        exact ⟨_, link.giveUp here rfl late.tasks late.accepted late.resps
          ⟨.inl ⟨late.resps, .inl late.log⟩, fun _ => ⟨late.resps, late.log⟩,
            fun _ => late.timed⟩ late.typed rfl rfl⟩
      · refine link.retry here late last mapped posts ?_
        intro known
        exact posted known x (by rw [waits]; rfl)
    · rw [if_neg alive]
      have fits := link.fits x
      rw [here] at fits
      obtain ⟨tasks, accepted, _, resps, opened, _⟩ := fits
      exact ⟨_, link.giveUp here rfl tasks accepted resps opened (link.typed x) rfl rfl⟩

omit link

end MlnxOfed.Mad
