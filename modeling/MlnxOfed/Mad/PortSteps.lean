/-
The queue of the congestion control, the end of an agent, and the posting of a MAD.
-/

import MlnxOfed.Mad.TimeoutSteps

namespace MlnxOfed.Mad

open Bool List
open Function (update update_eq_self update_idem update_of_ne update_self)
open Lib (Filed Tracks fileLast unfile)
open Wr

variable {config : Config} {exact : Bool} {port after : Port} {stage : Nat → Stage} {x : Nat}
  {v w : Wr} {s : Stage}

variable (link : Link config exact port stage)

include link

theorem Link.smpRetry {qp} (inside : qp ∈ port.smpRetries) (posts) :
    ∃ later, Link config exact ({ port with smpRetries := port.smpRetries.erase qp }.smpResult qp
        (port.queues.smpNext config.toParams qp posts)) later := by
  have smi := link.retries qp inside
  subst smi
  have core := link.toCore
  have taken : Link config false { port with smpRetries := port.smpRetries.erase .smi } stage :=
    ⟨{ core with retries := fun qp rest => core.retries qp (mem_of_mem_erase rest) },
      link.agents, link.queues, link.fifo, link.toList, link.timer, link.tfTimer,
      ⟨link.controls.slots, link.controls.most, link.controls.full⟩,
      nofun⟩
  refine taken.serve posts ?_
  intro known
  rw [(link.window known).calm] at inside
  exact absurd inside not_mem_nil

/-! ### A slot of the congestion control is passed on -/

theorem Link.ccRelease (pending : 0 < port.ccDone) (none : ∀ y ∈ port.fifo, (port.wr y).canceled = true) :
    Link config exact
      { port with ccDone := port.ccDone - 1, ccOutstanding := port.ccOutstanding - 1 } stage := by
  have core := link.toCore
  have slots := link.controls.slots
  have most := link.controls.most
  refine ⟨{ core with }, link.agents, link.queues, link.fifo, link.toList, link.timer,
    link.tfTimer, ⟨?_, ?_, ?_⟩, ?_⟩
  · change port.ccOutstanding - 1 = Nat.count (holdsCc port stage) port.next + (port.ccDone - 1)
    omega
  · change port.ccOutstanding - 1 ≤ _
    omega
  · intro y inside alive
    rw [none y inside] at alive
    cases alive
  · intro known
    have window := link.window known
    exact { window with }

omit link in
def Wr.passed (w : Wr) (task : Task) : Wr := { w with tasks := [task] }

theorem Link.ccPass (pending : 0 < port.ccDone)
    (here : stage x = .queued) (timeoutMs retries) {tfArmed numItems}
    (armed : port.fifo.erase x ≠ [] → tfArmed = true) (alive : (port.wr x).canceled = false) :
    Link config exact
      { port with
        ccDone := port.ccDone - 1
        wr := update port.wr x ((port.wr x).passed (.ccSend timeoutMs retries .queue))
        fifo := port.fifo.erase x
        toList := port.toList.erase x
        numItems := numItems
        tfArmed := tfArmed } (update stage x .transit) := by
  let v := (port.wr x).passed (.ccSend timeoutMs retries .queue)
  have fits := link.fits x
  have typed := link.typed x
  rw [here] at fits
  obtain ⟨_, ok, control⟩ := fits
  let passed : Port := { port with
    ccDone := port.ccDone - 1
    wr := update port.wr x v
    fifo := port.fifo.erase x
    toList := port.toList.erase x
    numItems := numItems
    tfArmed := tfArmed }
  have wr : passed.wr = update port.wr x v := rfl
  have below : x < port.next := link.known (by rw [here]; decide)
  have inside : x ∈ port.fifo := (link.fifo.mem x).mpr here
  refine link.change (s := .transit) ⟨rfl, rfl, fun _ => id, fun _ => .inl, rfl, rfl⟩ wr le_rfl below
    ⟨timeoutMs, retries, .queue, rfl, ⟨ok, control.cc⟩, { control with }⟩
    { typed with } (shut_of_unlisted rfl) ?_ ?_ ?_ (link.toList.erase x)
    link.timer armed ⟨?_, ?_, ?_⟩ ?_
  · rw [agentHome_same port v .transit here rfl rfl]
    exact link.agents
  · have homeless : madHome config port stage x = none := by
      unfold madHome
      rw [here]
      rfl
    change port.queues.Kept _ (update _ x none)
    rw [← homeless, update_eq_self]
    exact link.queues
  · refine (link.fifo.erase x).congr ?_
    intro y
    by_cases own : y = x
    · subst own
      rw [update_self]
      exact ⟨fun both => absurd rfl both.1, nofun⟩
    · rw [update_of_ne own]
      exact ⟨fun both => both.2, fun queued => ⟨own, queued⟩⟩
  · have slots := link.slots_update wr (s := .transit) le_rfl below
    rw [here, slot_out (s := .queued) rfl, slot_cc (w := v) control.cc] at slots
    change port.ccOutstanding + 1 = _ at slots
    change port.ccOutstanding =
      Nat.count (holdsCc passed (update stage x .transit)) passed.next + (port.ccDone - 1)
    omega
  · exact link.controls.most
  · intro y rest open'
    have own : y ≠ x := by
      intro equal
      subst equal
      exact (link.fifo.nodup.mem_erase_iff.mp rest).1 rfl
    rw [wr, update_of_ne own] at open'
    exact link.controls.full y (mem_of_mem_erase rest) open'
  · intro known
    have kind : v.isSmpMad = (port.wr x).isSmpMad := rfl
    exact (link.window known).keep rfl (holdsSmp_keep wr here kind rfl) rfl id
      ((link.window known).posted_update (by decide)) rfl

omit link in
theorem isEmpty_eq_false {list : List Nat} (some : list ≠ []) : list.isEmpty = false := by
  cases list with
  | nil => exact absurd rfl some
  | cons y rest => rfl

omit link in
theorem ne_nil_of_perm {list other : List Nat} (perm : list.Perm other) (some : other ≠ []) : list ≠ [] := by
  intro empty
  rw [empty] at perm
  exact some perm.nil_eq.symm

theorem Link.ccDone (pending : 0 < port.ccDone) (wild)
    (tame : port.fifo ≠ [] → (∀ y ∈ port.fifo, (port.wr y).canceled = true) → wild = true) :
    ∃ later, Link config exact (saCcMadDone config port wild) later := by
  unfold saCcMadDone
  dsimp only
  cases found : port.fifo.find? fun y => !(port.wr y).canceled with
  | none =>
    have dead (y : Nat) (inside : y ∈ port.fifo) : (port.wr y).canceled = true := by
      have failed := find?_eq_none.mp found y inside
      cases canceled : (port.wr y).canceled with
      | true => rfl
      | false =>
        rw [canceled] at failed
        exact absurd rfl failed
    dsimp only
    have safe : ¬(port.fifo ≠ [] ∧ wild = false) := by
      rintro ⟨some, read⟩
      rw [tame some dead] at read
      cases read
    rw [if_neg safe]
    exact ⟨stage, link.ccRelease pending dead⟩
  | some y =>
    have inside := mem_of_find?_eq_some found
    have here := (link.fifo.mem y).mp inside
    have alive : (port.wr y).canceled = false := by
      have passed := find?_some found
      cases canceled : (port.wr y).canceled with
      | false => rfl
      | true =>
        rw [canceled] at passed
        cases passed
    have fits := link.fits y
    rw [here] at fits
    have armed (rest : port.fifo.erase y ≠ []) :
        (if port.toList.head? = some y then !(port.toList.erase y).isEmpty
        else port.tfArmed) = true := by
      split
      · rw [isEmpty_eq_false (ne_nil_of_perm (link.toList.erase y) rest)]
        rfl
      · exact link.tfTimer (ne_nil_of_mem inside)
    dsimp only
    unfold addTask
    rw [fits.1]
    split
    · exact ⟨_, link.ccPass pending here _ _ armed alive⟩
    · exact ⟨_, link.ccPass pending here _ _ armed alive⟩

/-! ### Requests leave the queue without having been sent -/

omit link in
/-- One of many requests that change at once. -/
structure Alters (config : Config) (v : Wr) (old : Stage) (w : Wr) (s : Stage) : Prop where
  agent : w.agent = v.agent
  fits : w.Fits s
  typed : w.Typed config
  smp : w.isSmpMad = true ∧ s.inWindow = true ↔ v.isSmpMad = true ∧ old.inWindow = true
  cc : w.isSaCcMad = true ∧ s.inControl = true ↔ v.isSaCcMad = true ∧ old.inControl = true
  fresh : old = .idle → s = .idle ∧ w = v
  queued : s = .queued → w.canceled = v.canceled
  posted : old ≠ .failed → s ≠ .failed

omit link in
theorem Core.unaltered (core : Core config port stage) (y) :
    Alters config (port.wr y) (stage y) (port.wr y) (stage y) :=
  ⟨rfl, core.fits y, core.typed y, .rfl, .rfl, fun idle => ⟨idle, rfl⟩, fun _ => rfl, id⟩

theorem Link.alter {later}
    (alters : ∀ y, Alters config (port.wr y) (stage y) (after.wr y) (later y)) (next : after.next = port.next)
    (corrupted : after.corrupted = port.corrupted) (stuck : after.stuck = port.stuck)
    (retries : after.smpRetries = port.smpRetries) (outstanding : after.ccOutstanding = port.ccOutstanding)
    (done : after.ccDone = port.ccDone) (window : after.queues.outstanding = port.queues.outstanding)
    (shut : ∀ y, Shut after.sendListClosed (after.wr y) (later y))
    (leaves : ∀ a, after.sendListClosed a = true → after.leaving a = true)
    (sweeps : ∀ a ∈ after.sweeps, after.sendListClosed a = true)
    (agents : Filed after.agentLists fun y => (later y).agentList.map fun list => ((port.wr y).agent, list))
    (queues : after.queues.Kept config.toParams fun y => (later y).madList (config.qpOf (port.wr y).agent))
    (waiting : after.queues.lists .smpOverflow ≠ [] → port.queues.lists .smpOverflow ≠ [])
    (fifo : Tracks after.fifo fun y => later y = .queued) (subset : ∀ y ∈ after.fifo, y ∈ port.fifo)
    (toList : after.toList.Perm after.fifo)
    (timer : ∀ a, after.agentLists (a, .wait) ≠ [] → after.timedWork a = true)
    (tfTimer : after.fifo ≠ [] → after.tfArmed = true) : Link config exact after later := by
  have core := link.toCore
  cases after
  cases next
  cases corrupted
  cases stuck
  cases retries
  refine ⟨{ core with
    fits y := (alters y).fits
    typed y := (alters y).typed
    shut := shut
    fresh := ?_
    leaves := leaves
    sweeps := sweeps }, ?_, ?_, fifo, toList, timer, tfTimer, ?_, ?_⟩
  · intro y outside
    obtain ⟨idle, empty⟩ := core.fresh y outside
    rw [← empty]
    exact (alters y).fresh idle
  · refine agents.congr ?_
    intro y
    unfold agentHome
    rw [(alters y).agent]
  · refine queues.congr ?_
    intro y
    unfold madHome
    rw [(alters y).agent]
  · refine link.controls.keep rfl (fun y => (alters y).cc) outstanding done ?_
    intro y inside alive
    rw [(alters y).queued ((fifo.mem y).mp inside)] at alive
    exact ⟨subset y inside, alive⟩
  · intro known
    have before := link.window known
    exact before.keep rfl (fun y => (alters y).smp) window waiting
      (fun y => (alters y).posted (before.posted y)) rfl

theorem Link.dequeue (gone : Nat → Bool) {leaving wr fifo toList}
    {numItems tfArmed} (leaves : ∀ a, port.leaving a = true → leaving a = true)
    (queued : ∀ y, gone y = true → stage y = .queued)
    (told : ∀ y, gone y = true → Alters config (port.wr y) .queued (wr y) .notifying)
    (other : ∀ y, gone y = false → wr y = port.wr y) (rest : fifo = port.fifo.filter fun y => !gone y)
    (perm : toList.Perm fifo) (timer : fifo ≠ [] → tfArmed = true) :
    ∃ later, Link config exact
      { port with
        leaving := leaving
        wr := wr
        fifo := fifo
        toList := toList
        numItems := numItems
        tfArmed := tfArmed } later := by
  let later (y : Nat) : Stage := if gone y = true then .notifying else stage y
  have away (y : Nat) : gone y = true ∧ later y = .notifying ∧ stage y = .queued ∨
      gone y = false ∧ later y = stage y ∧ wr y = port.wr y := by
    cases left : gone y with
    | true => exact .inl ⟨rfl, if_pos left, queued y left⟩
    | false =>
      refine .inr ⟨rfl, if_neg ?_, other y left⟩
      rw [left]
      exact Bool.false_ne_true
  have core := link.toCore
  refine ⟨later, link.alter ?_ rfl rfl rfl rfl rfl rfl rfl ?_ (fun a closed =>
    leaves a (core.leaves a closed)) core.sweeps ?_ ?_ id ?_ ?_ perm link.timer timer⟩
  · intro y
    change Alters config (port.wr y) (stage y) (wr y) (later y)
    obtain ⟨left, new, old⟩ | ⟨_, same, record⟩ := away y
    · rw [new, old]
      exact told y left
    · rw [same, record]
      exact core.unaltered y
  · intro y
    change Shut _ (wr y) (later y)
    obtain ⟨_, new, _⟩ | ⟨_, same, record⟩ := away y
    · rw [new]
      exact shut_of_unlisted rfl
    · rw [same, record]
      exact core.shut y
  · refine link.agents.congr ?_
    intro y
    unfold agentHome
    obtain ⟨_, new, old⟩ | ⟨_, same, _⟩ := away y
    · rw [new, old]
      rfl
    · rw [same]
  · refine link.queues.congr ?_
    intro y
    unfold madHome
    obtain ⟨_, new, old⟩ | ⟨_, same, _⟩ := away y
    · rw [new, old]
      rfl
    · rw [same]
  · change Tracks fifo _
    rw [rest]
    refine (link.fifo.filter _).congr ?_
    intro y
    obtain ⟨left, new, _⟩ | ⟨stays, same, _⟩ := away y
    · rw [new, left]
      exact ⟨fun both => absurd both.2 Bool.false_ne_true, nofun⟩
    · rw [same, stays]
      exact ⟨fun both => both.1, fun here => ⟨here, rfl⟩⟩
  · intro y inside
    rw [rest] at inside
    exact mem_of_mem_filter inside

theorem Link.queued_told (here : stage x = .queued) (status canceled) : Alters config (port.wr x) .queued
      { (port.wr x).addTask (.notify status) with canceled := canceled } .notifying := by
  have fits := link.fits x
  have typed := link.typed x
  rw [here] at fits
  obtain ⟨tasks, ok, control⟩ := fits
  refine ⟨rfl, ⟨.inl ⟨status, ?_⟩, ok, control.resps, ?_⟩, { typed with }, .rfl, .rfl, nofun, nofun,
    fun _ => by decide⟩
  · change (port.wr x).tasks ++ [.notify status] = [.notify status]
    rw [tasks, nil_append]
  · exact ⟨.inl ⟨control.resps, .inl control.log⟩, fun _ => ⟨control.resps, control.log⟩,
      fun _ => control.timed⟩

omit link in
private theorem filter_not_takeWhile {list : List Nat} (nodup : list.Nodup) (test) :
    (list.filter fun y => !decide (y ∈ list.takeWhile test)) = list.dropWhile test := by
  have split := takeWhile_append_dropWhile (p := test) (l := list)
  have parts : (list.takeWhile test ++ list.dropWhile test).Nodup := by
    rw [split]
    exact nodup
  have apart := (nodup_append.mp parts).2.2
  calc (list.filter fun y => !decide (y ∈ list.takeWhile test))
      = (list.takeWhile test ++ list.dropWhile test).filter
          fun y => !decide (y ∈ list.takeWhile test) := by rw [split]
    _ = list.dropWhile test := by
        rw [filter_append]
        have none : ((list.takeWhile test).filter fun y => !decide (y ∈ list.takeWhile test)) = [] := by
          rw [filter_eq_nil_iff]
          intro y inside
          rw [decide_eq_true inside]
          exact Bool.false_ne_true
        have all : ((list.dropWhile test).filter fun y => !decide (y ∈ list.takeWhile test)) =
            list.dropWhile test := by
          rw [filter_eq_self]
          intro y inside
          have outside : y ∉ list.takeWhile test := fun first => apart y first y inside rfl
          rw [decide_eq_false outside]
          rfl
        rw [none, all, nil_append]

theorem Link.expire : ∃ later, Link config exact (timeoutHandlerTask port) later := by
  let test (y : Nat) : Bool := decide ((port.wr y).expTime ≤ port.jiffies)
  let expired := port.toList.takeWhile test
  have mem (y : Nat) (inside : y ∈ expired) : stage y = .queued :=
    (link.fifo.mem y).mp (link.toList.mem_iff.mp (takeWhile_subset _ inside))
  refine link.dequeue (fun y => decide (y ∈ expired)) (fun _ => id) ?_ ?_ ?_ ?_ ?_ ?_
  · intro y left
    exact mem y (of_decide_eq_true left)
  · intro y left
    have inside := of_decide_eq_true left
    rw [if_pos inside]
    exact link.queued_told (mem y inside) _ _
  · intro y stays
    exact if_neg (of_decide_eq_false stays)
  · apply filter_congr
    intro y _
    exact decide_not ..
  · have nodup : port.toList.Nodup := link.toList.nodup_iff.mpr link.fifo.nodup
    have perm := link.toList.filter fun y => !decide (y ∈ expired)
    rw [filter_not_takeWhile nodup test] at perm
    have same : (port.fifo.filter fun y => decide (y ∉ expired)) =
        port.fifo.filter fun y => !decide (y ∈ expired) := by
      apply filter_congr
      intro y _
      exact decide_not ..
    rw [same]
    exact perm
  · intro some
    rw [or_eq_true_iff]
    by_cases none : expired = []
    · right
      have whole : port.toList.dropWhile test = port.toList := by
        have split := takeWhile_append_dropWhile (p := test) (l := port.toList)
        change expired ++ _ = _ at split
        rw [none, nil_append] at split
        exact split
      rw [whole]
      have busy : port.fifo ≠ [] := by
        intro empty
        rw [empty] at some
        exact some rfl
      rw [isEmpty_eq_false (ne_nil_of_perm link.toList busy)]
      rfl
    · left
      rw [isEmpty_eq_false none]
      rfl

theorem Link.leave (a) : ∃ later, Link config exact (freeAgent port a) later := by
  let own (y : Nat) : Bool := (port.wr y).agent == a
  have rest : (port.fifo.filter fun y => !own y) =
      port.fifo.filter fun y => !decide (y ∈ port.fifo ∧ own y = true) := by
    apply filter_congr
    intro y inside
    cases mine : own y with
    | true => rw [decide_eq_true ⟨inside, rfl⟩]
    | false => rw [decide_eq_false fun both => Bool.false_ne_true both.2]
  refine link.dequeue (fun y => decide (y ∈ port.fifo ∧ own y = true)) ?_ ?_ ?_ ?_ rest
    (link.toList.filter _) ?_
  · intro b leaving
    by_cases same : b = a
    · subst same
      rw [update_self]
    · rw [update_of_ne same]
      exact leaving
  · intro y left
    exact (link.fifo.mem y).mp (of_decide_eq_true left).1
  · intro y left
    have inside := of_decide_eq_true left
    rw [if_pos inside]
    exact link.queued_told ((link.fifo.mem y).mp inside.1) .wrFlushErr (port.wr y).canceled
  · intro y stays
    exact if_neg (of_decide_eq_false stays)
  · intro some
    refine link.tfTimer ?_
    intro empty
    rw [empty] at some
    exact some rfl

/-! ### The end of an agent -/

omit link in
theorem Wr.flushed_same (w : Wr) :
    w.flushed.agent = w.agent ∧ w.flushed.mgmtClass = w.mgmtClass ∧ w.flushed.method = w.method ∧
      w.flushed.isSmpMad = w.isSmpMad ∧ w.flushed.isSaCcMad = w.isSaCcMad ∧
      w.flushed.tasks = w.tasks ∧ w.flushed.resps = w.resps ∧ w.flushed.accepted = w.accepted ∧
      w.flushed.log = w.log ∧ w.flushed.canceled = w.canceled := by
  unfold flushed
  split <;> exact ⟨rfl, rfl, rfl, rfl, rfl, rfl, rfl, rfl, rfl, rfl⟩

omit link in
theorem Wr.flushed_spec (w : Wr) : w.flushed.expects = 0 ∧ w.flushed.refcount + w.expects = w.refcount := by
  unfold flushed
  by_cases alive : w.status = .success
  · rw [if_pos alive, expects_eq alive]
    refine ⟨expects_of_status nofun, ?_⟩
    dsimp only
    split <;> omega
  · rw [if_neg alive, expects_of_status alive]
    exact ⟨rfl, Int.add_zero _⟩

omit link in
theorem Wr.Open.flushed (opened : w.Open) : w.flushed.Open := by
  obtain ⟨_, _, _, _, _, _, resps, _, log, _⟩ := w.flushed_same
  have none := w.flushed_spec.1
  refine ⟨?_, ?_, ?_⟩
  · rw [resps, log]
    exact opened.answers
  · intro never
    rw [none] at never
    cases never
  · intro never
    rw [none] at never
    cases never

omit link in
theorem Wr.Fits.flushed (fits : w.Fits s) (list : s.agentList = some .send) : w.flushed.Fits s := by
  obtain ⟨_, _, _, smp, cc, tasks, resps, accepted, log, _⟩ := w.flushed_same
  obtain ⟨none, refs⟩ := w.flushed_spec
  obtain carries | here | here := Stage.of_send list
  · have carried := fits.carried carries
    refine fits.recarry carries tasks accepted smp cc ?_ ⟨carried.toOpen.flushed, ?_⟩
    · intro _ never
      rw [none] at never
      cases never
    · have count := carried.refs
      rw [resps, none]
      omega
  · rw [here] at fits ⊢
    obtain ⟨before, posted, opened, one, count, silent⟩ := fits
    refine ⟨tasks.trans before, accepted.trans posted, opened.flushed,
      (congrArg length resps).trans one, ?_, none⟩
    rw [silent] at refs
    omega
  · rw [here] at fits ⊢
    obtain ⟨before, answered, posted, ⟨status, closed⟩, _⟩ := fits
    refine ⟨tasks.trans before, resps.trans answered, accepted.trans posted, ⟨status, ?_⟩, none⟩
    rw [log]
    exact closed

theorem Link.cancel {a} (leaving : port.leaving a = true) :
    ∃ later, Link config exact (cancelMads port a) later := by
  let later (y : Nat) : Stage := if y ∈ port.agentLists (a, .wait) then .finishing else stage y
  let left := cancelMads port a
  -- A request of the agent is on the send list, on the wait list, or on neither.
  have ways (y : Nat) : (y ∈ port.agentLists (a, .send) ∧ later y = stage y ∧ left.wr y = (port.wr y).flushed) ∨
      (y ∈ port.agentLists (a, .wait) ∧ later y = .finishing ∧ stage y = .waiting ∧
        left.wr y = (port.wr y).addTask .cancelled) ∨
      (y ∉ port.agentLists (a, .send) ∧ y ∉ port.agentLists (a, .wait) ∧ later y = stage y ∧
        left.wr y = port.wr y) := by
    by_cases sends : y ∈ port.agentLists (a, .send)
    · have list := (link.listed sends).1
      have other : y ∉ port.agentLists (a, .wait) := by
        intro waits
        rw [(link.listed waits).1] at list
        cases list
      exact .inl ⟨sends, if_neg other, if_pos sends⟩
    · by_cases waits : y ∈ port.agentLists (a, .wait)
      · exact .inr (.inl ⟨waits, if_pos waits, Stage.of_wait (link.listed waits).1,
          (if_neg sends).trans (if_pos waits)⟩)
      · exact .inr (.inr ⟨sends, waits, if_neg waits, (if_neg sends).trans (if_neg waits)⟩)
  have core := link.toCore
  have alters (y : Nat) : Alters config (port.wr y) (stage y) (left.wr y) (later y) := by
    have fits := core.fits y
    have typed := core.typed y
    obtain ⟨sends, same, record⟩ | ⟨_, new, old, record⟩ | ⟨_, _, same, record⟩ := ways y
    · have list := (link.listed sends).1
      obtain ⟨agent, mgmtClass, method, smp, cc, _, _, _, _, canceled⟩ := (port.wr y).flushed_same
      rw [same, record]
      refine ⟨agent, fits.flushed list, ⟨?_, ?_, ?_⟩, by rw [smp], by rw [cc], ?_, fun _ => canceled, id⟩
      · unfold smpClass
        rw [smp, mgmtClass, method]
        exact typed.smp
      · rw [smp, agent]
        exact typed.qp
      · rw [cc, mgmtClass]
        exact typed.cc
      · intro idle
        rw [idle] at list
        cases list
    · rw [old] at fits
      obtain ⟨tasks, ok, _, resps, opened, _⟩ := fits
      rw [new, old, record]
      refine ⟨rfl, ⟨.inr ?_, ok, resps, { opened with }⟩, { typed with }, .rfl, .rfl, nofun,
        nofun, fun _ => by decide⟩
      change (port.wr y).tasks ++ [.cancelled] = [.cancelled]
      rw [tasks, nil_append]
    · rw [same, record]
      exact core.unaltered y
  refine ⟨later, link.alter alters rfl rfl rfl rfl rfl rfl rfl ?_ ?_ ?_ ?_ ?_ id ?_
    (fun _ => id) link.toList ?_ link.tfTimer⟩
  · intro y closed
    rw [(alters y).agent] at closed
    change update port.sendListClosed a true (port.wr y).agent = true at closed
    by_cases own : (port.wr y).agent = a
    · obtain ⟨sends, same, record⟩ | ⟨_, new, _, _⟩ | ⟨sends, waits, same, record⟩ := ways y
      · refine ⟨?_, fun _ => ?_⟩
        · intro never
          rw [same] at never
          have list := (link.listed sends).1
          rw [never] at list
          cases list
        · rw [record]
          exact (port.wr y).flushed_spec.1
      · rw [new]
        exact ⟨by decide, nofun⟩
      -- Otherwise it would be on one of the lists.
      have on (list : AgentList) (here : (stage y).agentList = some list) :
          y ∈ port.agentLists (a, list) := by
        refine link.agents.mem_iff.mpr ?_
        unfold agentHome
        rw [here, own]
        rfl
      rw [same]
      refine ⟨?_, fun here => absurd (on .send here) sends⟩
      intro here
      exact waits (on .wait (by rw [here]; rfl))
    · rw [update_of_ne own] at closed
      have shut := core.shut y closed
      obtain ⟨sends, _⟩ | ⟨waits, _⟩ | ⟨_, _, same, record⟩ := ways y
      · exact absurd (link.listed sends).2 own
      · exact absurd (link.listed waits).2 own
      · rw [same, record]
        exact shut
  · intro b closed
    change update port.sendListClosed a true b = true at closed
    by_cases same : b = a
    · subst same
      exact leaving
    · rw [update_of_ne same] at closed
      exact core.leaves b closed
  · intro b inside
    change update port.sendListClosed a true b = true
    by_cases same : b = a
    · subst same
      rw [update_self]
    · rw [update_of_ne same]
      obtain before | new := mem_append.mp inside
      · exact core.sweeps b before
      · exact absurd (mem_singleton.mp new) same
  · have kept := link.agents.keep (a, .wait) fun _ => false
    rw [filter_false] at kept
    refine kept.congr ?_
    intro y
    unfold agentHome
    obtain ⟨sends, same, _⟩ | ⟨waits, new, _⟩ | ⟨_, waits, same, _⟩ := ways y
    · rw [same, if_neg]
      rintro ⟨home, _⟩
      have list := (link.listed sends).1
      rw [list] at home
      cases home
    · rw [new, if_pos ⟨link.agents.mem_iff.mp waits, rfl⟩]
      rfl
    · rw [same, if_neg]
      exact fun home => waits (link.agents.mem_iff.mpr home.1)
  · refine link.queues.congr ?_
    intro y
    unfold madHome
    obtain ⟨_, same, _⟩ | ⟨_, new, old, _⟩ | ⟨_, _, same, _⟩ := ways y
    · rw [same]
    · rw [new, old]
      rfl
    · rw [same]
  · refine link.fifo.congr ?_
    intro y
    obtain ⟨_, same, _⟩ | ⟨_, new, old, _⟩ | ⟨_, _, same, _⟩ := ways y
    · rw [same]
    · rw [new, old]
      exact ⟨nofun, nofun⟩
    · rw [same]
  · intro b waiting
    change update port.agentLists (a, .wait) [] (b, .wait) ≠ [] at waiting
    by_cases same : b = a
    · subst same
      rw [update_self] at waiting
      exact absurd rfl waiting
    · rw [update_of_ne (by simp [same])] at waiting
      exact link.timer b waiting

theorem Link.sweep {a} (inside : a ∈ port.sweeps)
    (answered : ∀ y ∈ port.queues.lists .smpOverflow, (port.wr y).agent = a → (port.wr y).resps = []) :
    ∃ later, Link config exact (sweepSmps port a) later := by
  have closed := link.sweeps a inside
  let own (y : Nat) : Bool := (port.wr y).agent == a
  let gone (y : Nat) : Prop := y ∈ port.queues.lists .smpOverflow ∧ own y = true
  let later (y : Nat) : Stage := if y ∈ port.queues.lists .smpOverflow ∧ own y = true then .swept else stage y
  let left := sweepSmps port a
  have ways (y : Nat) : (gone y ∧ later y = .swept ∧ stage y = .stalled ∧
        left.wr y = (port.wr y).handled .wrFlushErr) ∨
      (¬gone y ∧ later y = stage y ∧ left.wr y = port.wr y) := by
    by_cases swept : y ∈ port.queues.lists .smpOverflow ∧ own y = true
    · exact .inl ⟨swept, if_pos swept, link.stalled swept.1, if_pos swept⟩
    · exact .inr ⟨swept, if_neg swept, if_neg swept⟩
  have core := link.toCore
  have alters (y : Nat) : Alters config (port.wr y) (stage y) (left.wr y) (later y) := by
    have fits := core.fits y
    have typed := core.typed y
    obtain ⟨⟨waits, mine⟩, new, old, record⟩ | ⟨_, same, record⟩ := ways y
    · have resps := answered y waits (beq_iff_eq.mp mine)
      have shut := (core.shut y (by rw [beq_iff_eq.mp mine]; exact closed)).2 (by rw [old]; rfl)
      rw [old] at fits
      obtain ⟨tasks, ok, _, carried⟩ := fits
      rw [new, old, record]
      exact ⟨rfl, ⟨tasks, resps, ok, carried.toOpen.closed resps .wrFlushErr rfl, shut⟩,
        { typed with }, .rfl, .rfl, nofun,
        nofun, fun _ => by decide⟩
    · rw [same, record]
      exact core.unaltered y
  refine ⟨later, link.alter alters rfl rfl rfl rfl rfl rfl rfl ?_ core.leaves
    (fun b rest => core.sweeps b (mem_of_mem_erase rest)) ?_ ?_ ?_ ?_ (fun _ => id)
    link.toList ?_ link.tfTimer⟩
  · intro y shut
    rw [(alters y).agent] at shut
    have before := core.shut y shut
    obtain ⟨_, new, old, record⟩ | ⟨_, same, record⟩ := ways y
    · rw [new, record]
      exact ⟨by decide, fun _ => before.2 (by rw [old]; rfl)⟩
    · rw [same, record]
      exact before
  · refine link.agents.congr ?_
    intro y
    unfold agentHome
    obtain ⟨_, new, old, _⟩ | ⟨_, same, _⟩ := ways y
    · rw [new, old]
      rfl
    · rw [same]
  · refine (link.queues.sweep fun y => !own y).congr ?_
    intro y
    unfold madHome
    obtain ⟨⟨waits, mine⟩, new, _, _⟩ | ⟨stays, same, _⟩ := ways y
    · rw [new, if_pos]
      · rfl
      · refine ⟨link.queues.filed.mem_iff.mp waits, ?_⟩
        rw [mine]
        rfl
    · rw [same, if_neg]
      rintro ⟨home, mine⟩
      exact stays ⟨link.queues.filed.mem_iff.mpr home, (not_eq_false' _).mp mine⟩
  · intro some empty
    have rest : left.queues.lists .smpOverflow = (port.queues.lists .smpOverflow).filter fun y => !own y := by
      change update port.queues.lists MadList.smpOverflow _ MadList.smpOverflow = _
      rw [update_self]
      rfl
    rw [empty] at rest
    exact some rest
  · refine link.fifo.congr ?_
    intro y
    obtain ⟨_, new, old, _⟩ | ⟨_, same, _⟩ := ways y
    · rw [new, old]
      exact ⟨nofun, nofun⟩
    · rw [same]
  · intro b waiting
    change update port.timedWork a false b = true
    have other : b ≠ a := by
      intro same
      subst same
      obtain ⟨y, waits⟩ := exists_mem_of_ne_nil _ waiting
      obtain ⟨list, mine⟩ := link.listed waits
      exact (core.shut y (by rw [mine]; exact closed)).1 (Stage.of_wait list)
    rw [update_of_ne other]
    exact link.timer b waiting

/-! ### Posting -/

theorem Link.admit (quiet : Quiet port after)
    (wr : after.wr = update port.wr port.next w) (next : after.next = port.next + 1)
    (queues : after.queues = port.queues) (timedWork : after.timedWork = port.timedWork)
    (retries : after.smpRetries = port.smpRetries)
    (fits : w.Fits s) (typed : w.Typed config) (shut : Shut port.sendListClosed w s)
    (kind : ∀ qp, s.madList qp = none) (other : s ≠ .waiting ∧ s ≠ .failed) (plain : w.isSmpMad = false)
    (agents : Filed after.agentLists
      (update (agentHome port stage) port.next (s.agentList.map fun list => (w.agent, list))))
    (waits : ∀ a, after.agentLists (a, .wait) = port.agentLists (a, .wait))
    (fifo : Tracks after.fifo fun y => update stage port.next s y = .queued)
    (toList : after.toList.Perm after.fifo) (tfTimer : after.fifo ≠ [] → after.tfArmed = true)
    (controls : Controls config after (update stage port.next s)) :
    Link config exact after (update stage port.next s) := by
  obtain ⟨idle, empty⟩ := link.fresh port.next le_rfl
  have below : port.next < after.next := by omega
  have homeless : update (madHome config port stage) port.next none = madHome config port stage := by
    have none : madHome config port stage port.next = none := by
      unfold madHome
      rw [idle]
      rfl
    rw [← none, update_eq_self]
  refine link.change quiet wr (by omega) below fits typed shut agents ?_ fifo toList ?_ tfTimer controls ?_
  · rw [kind, homeless, queues]
    exact link.queues
  · intro a waiting
    rw [waits] at waiting
    rw [timedWork]
    exact link.timer a waiting
  intro known
  have window := link.window known
  have places := link.places_update known wr (s := s) (by omega) below
  have none : w.place s = 0 := by
    unfold place
    rw [plain]
    rfl
  rw [none, idle, place_out rfl] at places
  refine ⟨?_, ?_, ?_, window.posted_update other.2, retries.trans window.calm⟩
  · rw [queues]
    exact places
  · rw [queues]
    exact window.most
  · rw [queues]
    exact window.full

theorem Link.slots_same (wr : after.wr = update port.wr x w) (next : port.next ≤ after.next)
    (below : x < after.next) (outstanding : after.ccOutstanding = port.ccOutstanding)
    (done : after.ccDone = port.ccDone) (same : w.slot s = (port.wr x).slot (stage x)) :
    after.ccOutstanding = Nat.count (holdsCc after (update stage x s)) after.next + after.ccDone := by
  have slots := link.slots_update wr (s := s) next below
  rw [outstanding, done]
  omega

theorem Link.admit_controls (wr : after.wr = update port.wr port.next w) (next : after.next = port.next + 1)
    (fifo : after.fifo = port.fifo) (outstanding : after.ccOutstanding = port.ccOutstanding)
    (done : after.ccDone = port.ccDone) (none : w.slot s = 0) :
    Controls config after (update stage port.next s) := by
  obtain ⟨idle, _⟩ := link.fresh port.next le_rfl
  refine link.controls_update wr (by omega) (by omega) (by rw [idle]; decide) fifo outstanding ?_
  rw [none, idle, slot_out rfl, done]

omit link in
theorem PostArgs.request_carried (config) (args : PostArgs) : (args.request config).Carried := by
  have expects : (args.request config).expects =
      if msecsToJiffies config args.timeoutMs = 0 then 0 else 1 := expects_eq rfl
  refine ⟨⟨.inl ⟨rfl, .inl rfl⟩, fun _ => ⟨rfl, rfl⟩, ?_⟩, ?_⟩
  · intro some zero
    change args.timeoutMs = 0 at zero
    rw [expects, zero, msecsToJiffies_zero] at some
    cases some
  · rw [expects]
    change 1 + (if msecsToJiffies config args.timeoutMs = 0 then 0 else 1 : Int) = 1 + 0 + _
    split <;> rfl

omit link in
private theorem isSaCcMad_spec (marked : isSaCcMad w = true) : w.timeoutMs ≠ 0 ∧ w.mgmtClass = classSubnAdm := by
  unfold isSaCcMad at marked
  simp only [and_eq_true, bne_iff_ne, beq_iff_eq] at marked
  exact marked.1

theorem Link.unlisted (w : Wr) (list : s.agentList = none) :
    Filed port.agentLists (update (agentHome port stage) port.next
      (s.agentList.map fun list => (w.agent, list))) := by
  have homeless : agentHome port stage port.next = none := by
    unfold agentHome
    rw [(link.fresh port.next le_rfl).1]
    rfl
  rw [agentHome_leave port w s list, ← homeless, update_eq_self]
  exact link.agents

omit link in
def Wr.query (w : Wr) : Wr := { w with isSaCcMad := true }

theorem Link.ccPost {args : PostArgs} (marked : isSaCcMad (args.request config) = true) :
    ∃ later, Link config exact (saCcMadSend config
        { port with
          next := port.next + 1
          wr := update port.wr port.next (args.request config).query }
        port.next) later := by
  let w := (args.request config).query
  obtain ⟨idle, _⟩ := link.fresh port.next le_rfl
  obtain ⟨timed, adm⟩ := isSaCcMad_spec marked
  have typed (v : Wr) (smp : v.isSmpMad = false) (mgmtClass : v.mgmtClass = w.mgmtClass) :
      v.Typed config := by
    refine ⟨?_, ?_, fun _ => mgmtClass.trans adm⟩
    · intro never
      rw [smp] at never
      cases never
    · intro never
      rw [smp] at never
      cases never
  have unqueued (s : Stage) (later : s ≠ .queued) :=
    link.fifo_update (x := port.next) (s := s) (by rw [idle]; decide) later
  unfold saCcMadSend
  dsimp only
  rw [update_self, update_idem]
  split_ifs with room
  · let v := w.addTask (.ccSend w.timeoutMs w.retriesLeft .post)
    let sent : Port := { port with
      next := port.next + 1
      ccOutstanding := port.ccOutstanding + 1
      wr := update port.wr port.next v }
    have wr : sent.wr = update port.wr port.next v := rfl
    have slots := link.slots_update wr (s := .transit) (Nat.le_succ _) (Nat.lt_succ_self _)
    rw [idle, slot_out (s := .idle) rfl, slot_cc (w := v) rfl] at slots
    refine ⟨_, link.admit (s := .transit) ⟨rfl, rfl, fun _ => id, fun _ => .inl, rfl, rfl⟩
      wr rfl rfl rfl rfl ⟨_, _, .post, rfl, rfl, ⟨rfl, rfl, rfl, rfl, rfl, timed⟩⟩ (typed v rfl rfl)
      (shut_of_unlisted rfl) (fun _ => rfl) ⟨by decide, by decide⟩ rfl (link.unlisted v rfl)
      (fun _ => rfl) (unqueued _ (by decide)) link.toList link.tfTimer ⟨slots, room, ?_⟩⟩
    intro y inside alive
    have own : y ≠ port.next := by
      intro equal
      subst equal
      have here := (link.fifo.mem _).mp inside
      rw [idle] at here
      cases here
    rw [wr, update_of_ne own] at alive
    have full := link.controls.full y inside alive
    omega
  · unfold tfEnqueue
    split_ifs
    · let refused : Port := { port with
        next := port.next + 1
        wr := update port.wr port.next w }
      have wr : refused.wr = update port.wr port.next w := rfl
      exact ⟨_, link.admit (s := .idle) ⟨rfl, rfl, fun _ => id, fun _ => .inl, rfl, rfl⟩
        wr rfl rfl rfl rfl ⟨rfl, rfl, .inl ⟨rfl, .inl rfl⟩⟩ (typed w rfl rfl)
        (shut_of_unlisted rfl) (fun _ => rfl) ⟨by decide, by decide⟩ rfl (link.unlisted w rfl)
        (fun _ => rfl) (unqueued _ (by decide)) link.toList link.tfTimer
        (link.admit_controls wr rfl rfl rfl rfl (slot_out rfl))⟩
    dsimp only [Port.setWr]
    rw [update_self, update_self, update_idem, update_idem]
    let expTime := port.jiffies + msecsToJiffies config
      (asInt (w.timeoutMs * (w.retriesLeft + 1) - config.timeSaMad)).toNat
    let v : Wr := { w with expTime := expTime, accepted := true }
    have absent : ¬stage port.next = .queued := by
      rw [idle]
      decide
    have perm := insertPrev_perm
      (fun y => decide ((update port.wr port.next w y).expTime < expTime)) port.next port.toList
    refine ⟨_, link.admit (s := .queued) (w := v) ⟨rfl, rfl, fun _ => id, fun _ => .inl, rfl, rfl⟩
      rfl rfl rfl rfl rfl ⟨rfl, rfl, ⟨rfl, rfl, rfl, rfl, rfl, timed⟩⟩ (typed v rfl rfl)
      (shut_of_unlisted rfl) (fun _ => rfl) ⟨by decide, by decide⟩ rfl (link.unlisted v rfl)
      (fun _ => rfl) ?_ ?_ ?_ ?_⟩
    · refine (link.fifo.add absent (perm_append_singleton _ _)).congr ?_
      intro y
      by_cases own : y = port.next
      · subst own
        rw [update_self]
        exact ⟨fun _ => rfl, fun _ => .inl rfl⟩
      · rw [update_of_ne own]
        exact ⟨fun either => either.resolve_left own, .inr⟩
    · exact perm.trans ((link.toList.cons _).trans (perm_append_singleton _ _).symm)
    · intro _
      rw [or_eq_true_iff]
      by_cases empty : port.fifo = []
      · right
        have none : port.toList = [] := by
          have perm := link.toList
          rw [empty] at perm
          exact perm.eq_nil
        rw [none, insertPrev_nil]
        exact beq_self_eq_true _
      · exact .inl (link.tfTimer empty)
    · have most := link.controls.most
      refine ⟨?_, most, fun _ _ _ => ?_⟩
      · refine link.slots_same (w := v) (s := .queued) rfl (Nat.le_succ _) (Nat.lt_succ_self _) rfl rfl ?_
        rw [idle, slot_out (s := .idle) rfl, slot_out (s := .queued) rfl]
      · change port.ccOutstanding = _
        omega

theorem Link.post {args} (stays : port.leaving args.agent = false) :
    ∃ later, Link config exact (postSendMad config port args) later := by
  let w := args.request config
  obtain ⟨idle, _⟩ := link.fresh port.next le_rfl
  have carried := args.request_carried config
  have typed (v : Wr) (smp : v.isSmpMad = false) (cc : v.isSaCcMad = false) : v.Typed config := by
    refine ⟨?_, ?_, ?_⟩
    · intro never
      rw [smp] at never
      cases never
    · intro never
      rw [smp] at never
      cases never
    · intro never
      rw [cc] at never
      cases never
  have unqueued (s : Stage) (later : s ≠ .queued) :=
    link.fifo_update (x := port.next) (s := s) (by rw [idle]; decide) later
  unfold postSendMad
  dsimp only
  split
  · exact ⟨_, link.admit (s := .idle) (w := w)
      ⟨rfl, rfl, fun _ => id, fun _ => .inl, rfl, rfl⟩ rfl rfl rfl rfl rfl
      ⟨rfl, rfl, .inl ⟨rfl, .inl rfl⟩⟩ (typed w rfl rfl) (shut_of_unlisted rfl) (fun _ => rfl)
      ⟨by decide, by decide⟩ rfl (link.unlisted w rfl) (fun _ => rfl) (unqueued _ (by decide))
      link.toList link.tfTimer (link.admit_controls rfl rfl rfl rfl rfl (slot_out rfl))⟩
  cases way : if args.mgmtClass = classSubnDirectedRoute then args.consumed else none with
  | some response =>
    dsimp only
    let v : Wr := { w with accepted := true, tasks := [.localDone response] }
    have opened := carried.toOpen
    dsimp only [Port.setWr]
    rw [update_idem]
    exact ⟨_, link.admit (s := .notifying) (w := v)
      ⟨rfl, rfl, fun _ => id, fun _ => .inl, rfl, rfl⟩ rfl rfl rfl rfl rfl
      ⟨.inr ⟨response, rfl, rfl⟩, rfl, rfl, { opened with }⟩
      (typed v rfl rfl) (shut_of_unlisted rfl) (fun _ => rfl) ⟨by decide, by decide⟩ rfl
      (link.unlisted v rfl) (fun _ => rfl) (unqueued _ (by decide)) link.toList link.tfTimer
      (link.admit_controls rfl rfl rfl rfl rfl (slot_out rfl))⟩
  | none =>
    dsimp only
    split_ifs with cc
    · have posted := link.ccPost cc
      dsimp only [Port.setWr]
      rw [update_idem]
      exact posted
    let v := w.addTask (.send .post)
    have opened := carried.toOpen
    have homeless : agentHome port stage port.next = none := by
      unfold agentHome
      rw [idle]
      rfl
    dsimp only [Port.setWr]
    rw [update_idem]
    refine ⟨_, link.admit (s := .sending) (w := v)
      ⟨rfl, rfl, fun _ => id, fun _ => .inl, rfl, rfl⟩ rfl rfl rfl rfl rfl
      ⟨.post, rfl, rfl, rfl, { opened with }, carried.refs⟩
      (typed v rfl rfl) ?_ (fun _ => rfl) ⟨by decide, by decide⟩ rfl
      (link.agents.fileLast homeless _) ?_ (unqueued _ (by decide)) link.toList link.tfTimer
      (link.admit_controls rfl rfl rfl rfl rfl (slot_other rfl _))⟩
    · intro closed
      have leaving := link.leaves _ closed
      change port.leaving args.agent = true at leaving
      rw [stays] at leaving
      cases leaving
    · intro a
      exact fileLast_of_ne _ _ (by simp)

theorem Link.tick (jiffies) : Link config exact { port with jiffies := port.jiffies + jiffies } stage := by
  have core := link.toCore
  refine ⟨{ core with }, link.agents, link.queues, link.fifo, link.toList, link.timer,
    link.tfTimer, ⟨link.controls.slots, link.controls.most, link.controls.full⟩, ?_⟩
  intro known
  have window := link.window known
  exact { window with }

omit link

end MlnxOfed.Mad
