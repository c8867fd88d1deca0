/-
Responses and changes of the timeout: `ib_mad_complete_recv`, `ib_modify_mad` and `ib_cancel_mad` on a
request on a list of its agent or in the queue of the congestion control.
-/

import MlnxOfed.Mad.CompletionSteps

namespace MlnxOfed.Mad

open List Function
open Lib (Filed Tracks fileLast unfile)
open Wr Stage

variable {config : Config} {exact : Bool} {port after : Port} {stage : Nat → Stage} {x : Nat}
  {v w : Wr} {s : Stage}

def Stage.carries : Stage → Bool
  | .sending | .unposting | .stalled | .failed | .posted _ => true
  | _ => false

theorem Stage.carries_spec (carries : s.carries = true) :
    s ≠ .idle ∧ s ≠ .queued ∧ s ≠ .waiting ∧ s.agentList = some .send := by
  cases s with
  | sending => exact ⟨by decide, by decide, by decide, rfl⟩
  | unposting => exact ⟨by decide, by decide, by decide, rfl⟩
  | stalled => exact ⟨by decide, by decide, by decide, rfl⟩
  | failed => exact ⟨by decide, by decide, by decide, rfl⟩
  | posted place => exact ⟨by simp, by simp, by simp, rfl⟩
  | _ => cases carries

theorem Wr.Fits.carried (fits : w.Fits s) (carries : s.carries = true) : w.Carried := by
  cases s with
  | sending | unposting =>
    obtain ⟨_, _, _, _, carried⟩ := fits
    exact carried
  | stalled => exact fits.2.2.2
  | failed => exact fits.2.2.2
  | posted place => cases place <;> exact fits.2.2.2
  | _ => cases carries

theorem Wr.Fits.recarry (fits : w.Fits s) (carries : s.carries = true) (tasks : v.tasks = w.tasks)
    (accepted : v.accepted = w.accepted) (smp : v.isSmpMad = w.isSmpMad)
    (cc : v.isSaCcMad = w.isSaCcMad) (noted : w.Noted → v.Noted) (carried : v.Carried) :
    v.Fits s := by
  have source (caller : Caller) (old : w.From caller) : v.From caller := by
    cases caller with
    | post => exact accepted.trans old
    | queue => exact ⟨accepted.trans old.1, cc.trans old.2⟩
  cases v
  cases tasks
  cases accepted
  cases s with
  | sending =>
    obtain ⟨caller, pending, old, plain, _⟩ := fits
    exact ⟨caller, pending, source caller old, smp.trans plain, carried⟩
  | unposting =>
    obtain ⟨caller, error, pending, old, _⟩ := fits
    exact ⟨caller, error, pending, source caller old, carried⟩
  | stalled | failed => exact ⟨fits.1, fits.2.1, smp.trans fits.2.2.1, carried⟩
  | posted place => cases place <;> exact ⟨fits.1, fits.2.1, noted fits.2.2.1, carried⟩
  | _ => cases carries

theorem Wr.Fits.of_resps (fits : w.Fits s) (pending : w.resps ≠ []) :
    s.carries = true ∨ ∃ moved, s = .responding moved := by
  cases s with
  | sending => exact .inl rfl
  | unposting => exact .inl rfl
  | stalled => exact .inl rfl
  | failed => exact .inl rfl
  | posted place => exact .inl rfl
  | responding moved => exact .inr ⟨moved, rfl⟩
  | idle => exact absurd fits.2.1 pending
  | queued => exact absurd fits.2.2.resps pending
  | transit =>
    obtain ⟨_, _, _, _, _, control⟩ := fits
    exact absurd control.resps pending
  | waiting => exact absurd fits.2.2.2.1 pending
  | finishing => exact absurd fits.2.2.1 pending
  | notifying => exact absurd fits.2.2.1 pending
  | swept => exact absurd fits.2.1 pending

variable (link : Link config exact port stage)

include link

theorem Link.same (busy : stage x ≠ .idle) (old : stage x ≠ .queued) (agent : v.agent = (port.wr x).agent)
    (fits : v.Fits (stage x)) (typed : v.Typed config) (shut : Shut port.sendListClosed v (stage x))
    (cc : v.isSaCcMad = (port.wr x).isSaCcMad) (smp : v.isSmpMad = (port.wr x).isSmpMad) :
    Link config exact (port.setWr x v) stage := by
  have changed := link.retask (Still.setWr port x v) rfl agent rfl
    ⟨busy, old, old, fun _ => rfl⟩ rfl fits typed shut (by unfold slot; rw [cc]; rfl)
    (fun known => ⟨smp, fun _ => rfl, (link.window known).posted x, rfl, rfl⟩)
  rw [update_eq_self] at changed
  exact changed

omit link in
theorem Wr.Open.of_resps (opened : w.Open) (pending : w.resps ≠ []) :
    w.expects = 0 ∧ (w.resps = [.deliver] ∧ w.log = [] ∨ w.resps = [.complete] ∧ w.log = [.recv]) := by
  constructor
  · have most := w.expects_le
    have none : w.expects ≠ 1 := fun expects => pending (opened.unanswered expects).1
    omega
  · obtain ⟨empty, _⟩ | either := opened.answers
    · exact absurd empty pending
    · exact either

omit link in
/-- The record of a request whose response `recv_handler` has got. -/
def Wr.delivered (w : Wr) : Wr := { w with resps := [.complete], log := [.recv] }

theorem Link.deliver (inside : RespTask.deliver ∈ (port.wr x).resps) :
    Link config exact (runResp port x .deliver) stage := by
  have pending : (port.wr x).resps ≠ [] := ne_nil_of_mem inside
  have fits := link.fits x
  have typed := link.typed x
  have record (opened : (port.wr x).Open) : (port.wr x).expects = 0 ∧ (port.wr x).resps = [.deliver] ∧
        runResp port x .deliver = port.setWr x (port.wr x).delivered := by
    obtain ⟨expects, ⟨resps, log⟩ | ⟨resps, _⟩⟩ := opened.of_resps pending
    · refine ⟨expects, resps, ?_⟩
      unfold runResp
      dsimp only
      rw [resps, log]
      rfl
    · rw [resps] at inside
      cases mem_singleton.mp inside
  have opened (expects : (port.wr x).expects = 0) : (port.wr x).delivered.Open := by
    refine ⟨.inr (.inr ⟨rfl, rfl⟩), ?_, ?_⟩
    · intro never
      exact absurd (never.symm.trans expects) (by decide)
    · intro never
      exact absurd (never.symm.trans expects) (by decide)
  obtain carries | ⟨moved, here⟩ := fits.of_resps pending
  · have carried := fits.carried carries
    obtain ⟨expects, resps, res⟩ := record carried.toOpen
    obtain ⟨busy, old, other, list⟩ := carries_spec carries
    rw [res]
    refine link.same busy old rfl (fits.recarry carries rfl rfl rfl rfl id ?_)
      { typed with } (fun _ => ⟨other, fun _ => expects⟩) rfl rfl
    refine ⟨opened expects, ?_⟩
    have refs := carried.refs
    rw [resps] at refs
    exact refs
  rw [here] at fits
  obtain ⟨tasks, ok, answers, one, refs, _⟩ := fits
  obtain ⟨expects, resps, res⟩ := record answers
  rw [res]
  refine link.same (by rw [here]; simp) (by rw [here]; simp) rfl ?_
    { typed with } (fun _ => ⟨by rw [here]; simp, fun _ => expects⟩) rfl rfl
  rw [here]
  exact ⟨tasks, ok, opened expects, rfl, refs, expects⟩

omit link in
def Wr.responded (w : Wr) : Wr := { w with resps := [] }

omit link in
theorem runResp_complete (resps : (port.wr x).resps = [.complete]) :
    runResp port x .complete = completeSendWr (port.setWr x (port.wr x).responded) x .success := by
  unfold runResp
  dsimp only
  rw [resps]
  rfl

theorem Link.respond (inside : RespTask.complete ∈ (port.wr x).resps) :
    ∃ later, Link config exact (runResp port x .complete) later := by
  have pending : (port.wr x).resps ≠ [] := ne_nil_of_mem inside
  have fits := link.fits x
  have typed := link.typed x
  let u := (port.wr x).responded
  have record (opened : (port.wr x).Open) :
      (port.wr x).expects = 0 ∧ (port.wr x).resps = [.complete] ∧ (port.wr x).log = [.recv] := by
    obtain ⟨expects, ⟨resps, _⟩ | ⟨resps, log⟩⟩ := opened.of_resps pending
    · rw [resps] at inside
      cases mem_singleton.mp inside
    · exact ⟨expects, resps, log⟩
  have lessEq : u.less .success = { u with refcount := u.refcount - 1 } :=
    (u.less_spec .success).2.2.2 rfl
  obtain carries | ⟨moved, here⟩ := fits.of_resps pending
  · have carried := fits.carried carries
    obtain ⟨expects, resps, log⟩ := record carried.toOpen
    obtain ⟨busy, old, other, list⟩ := Stage.carries_spec carries
    have refs : (port.wr x).refcount = 2 := by
      rw [carried.refs, resps, expects]
      rfl
    have refsLess : (u.less .success).refcount = 1 := by
      rw [lessEq]
      change (port.wr x).refcount - 1 = 1
      omega
    have expectsLess : (u.less .success).expects = 0 := by
      rw [lessEq]
      exact expects
    have idle : ¬((u.less .success).refcount = 1 ∧ (u.less .success).timeout ≠ 0 ∧
        (u.less .success).status = .success) := by
      rintro ⟨_, timeout, alive⟩
      rw [Wr.expects, if_pos ⟨alive, timeout⟩] at expectsLess
      cases expectsLess
    rw [runResp_complete resps, completeSendWr_eq]
    change ∃ later, Link config exact (if 0 < (u.less .success).refcount then _ else _) later
    rw [if_pos (by omega), if_neg idle]
    refine ⟨stage, link.same busy old ?_ ?_ ?_ ?_ ?_ ?_⟩
    all_goals rw [lessEq]
    · rfl
    · refine fits.recarry carries rfl rfl rfl rfl id ⟨⟨?_, ?_, ?_⟩, ?_⟩
      · exact .inl ⟨rfl, .inr log⟩
      · exact fun never => absurd (never.symm.trans expects) (by decide)
      · exact fun never => absurd (never.symm.trans expects) (by decide)
      · change (port.wr x).refcount - 1 = 1 + 0 + ((port.wr x).expects : Int)
        rw [refs, expects]
        rfl
    · exact { typed with }
    · exact fun _ => ⟨other, fun _ => expects⟩
    · rfl
    · rfl
  · rw [here] at fits
    obtain ⟨tasks, ok, answers, one, refs, _⟩ := fits
    obtain ⟨expects, resps, log⟩ := record answers
    have refsLess : (u.less .success).refcount = 0 := by
      rw [lessEq]
      change (port.wr x).refcount - 1 = 0
      omega
    rw [runResp_complete resps, completeSendWr_eq]
    change ∃ later, Link config exact (if 0 < (u.less .success).refcount then _ else _) later
    rw [if_neg (by omega)]
    have opened : u.Open := by
      refine ⟨.inl ⟨rfl, .inr log⟩, ?_, ?_⟩
      · exact fun never => absurd (never.symm.trans expects) (by decide)
      · exact fun never => absurd (never.symm.trans expects) (by decide)
    have typedTaken : u.Typed config := { typed with }
    obtain ⟨agent, _, _, _, smp, cc, tasksLess, respsLess, acceptedLess, _⟩ := u.less_same .success
    exact ⟨_, link.finish here ⟨by simp, by simp, by decide, fun _ => by cases moved <;> rfl⟩ agent
      (tasksLess.trans tasks) (acceptedLess.trans ok) respsLess (opened.less .success)
      (typedTaken.less .success) cc (by cases moved <;> rfl) smp (fun _ => by cases moved <;> rfl) _
      (link.adjustTimeout u.agent)⟩

variable {a : Nat}

theorem Link.listed {list} (inside : x ∈ port.agentLists (a, list)) :
    (stage x).agentList = some list ∧ (port.wr x).agent = a := by
  have home := link.agents.mem_iff.mp inside
  obtain ⟨found, here, pair⟩ := Option.map_eq_some_iff.mp home
  cases pair
  exact ⟨here, rfl⟩

omit link in
theorem Stage.of_send (list : s.agentList = some .send) :
    s.carries = true ∨ s = .responding false ∨ s = .swept := by
  cases s with
  | responding moved =>
    cases moved with
    | false => exact .inr (.inl rfl)
    | true => cases list
  | swept => exact .inr (.inr rfl)
  | sending => exact .inl rfl
  | unposting => exact .inl rfl
  | stalled => exact .inl rfl
  | failed => exact .inl rfl
  | posted place => exact .inl rfl
  | _ => cases list

omit link in
theorem Stage.of_wait (list : s.agentList = some .wait) : s = .waiting := by
  cases s with
  | responding moved => cases moved <;> cases list
  | waiting => rfl
  | _ => cases list

theorem Link.expecting (inside : x ∈ port.agentLists (a, .send)) (expects : (port.wr x).expects = 1) :
    (stage x).carries = true := by
  have fits := link.fits x
  obtain carries | here | here := of_send (link.listed inside).1
  · exact carries
  · rw [here] at fits
    have none := fits.2.2.2.2.2
    rw [expects] at none
    cases none
  · rw [here] at fits
    have none := fits.2.2.2.2
    rw [expects] at none
    cases none

omit link in
def Wr.answered (w : Wr) : Wr := { w with timeout := 0, resps := [.deliver] }

omit link in
theorem Wr.answered_expects (w : Wr) : w.answered.expects = 0 := if_neg fun both => both.2 rfl

omit link in
theorem Wr.Open.answered (unlogged : w.log = []) : w.answered.Open := by
  refine ⟨.inr (.inl ⟨rfl, unlogged⟩), ?_, ?_⟩
  · intro never
    rw [answered_expects] at never
    cases never
  · intro never
    rw [answered_expects] at never
    cases never

variable {response : Response}

theorem findSendMad_spec (found : findSendMad port a response = some x) :
    (port.wr x).expects = 1 ∧ (x ∈ port.agentLists (a, .wait) ∨ x ∈ port.agentLists (a, .send)) := by
  unfold findSendMad at found
  cases waits : (port.agentLists (a, .wait)).find? (response.fits port) with
  | some y =>
    rw [waits] at found
    dsimp only at found
    by_cases alive : (port.wr y).status = .success
    · rw [if_pos alive] at found
      cases found
      have inside := mem_of_find?_eq_some waits
      have fits := link.fits x
      rw [of_wait (link.listed inside).1] at fits
      obtain ⟨_, _, _, _, _, ⟨expects, _⟩ | ⟨dead, _⟩⟩ := fits
      · exact ⟨expects, .inl inside⟩
      · exact absurd alive dead
    · rw [if_neg alive] at found
      cases found
  | none =>
    rw [waits] at found
    cases sends : (port.agentLists (a, .send)).find?
        (fun y => (port.wr y).timeout != 0 && response.fits port y) with
    | none =>
      rw [sends] at found
      cases found
    | some y =>
      rw [sends] at found
      dsimp only at found
      by_cases alive : (port.wr y).status = .success
      · rw [if_pos alive] at found
        cases found
        have passed := find?_some sends
        have timed : (port.wr x).timeout ≠ 0 := bne_iff_ne.mp (Bool.and_eq_true_iff.mp passed).1
        exact ⟨if_pos ⟨alive, timed⟩, .inr (mem_of_find?_eq_some sends)⟩
      · rw [if_neg alive] at found
        cases found

theorem Link.receive (found : findSendMad port a response = some x) :
    ∃ later, Link config exact (markMadDone port x) later := by
  obtain ⟨expects, inside⟩ := findSendMad_spec link found
  have fits := link.fits x
  have typed := link.typed x
  unfold markMadDone
  dsimp only
  obtain waits | sends := inside
  · have here := of_wait (link.listed waits).1
    rw [here] at fits
    obtain ⟨tasks, ok, _, resps, opened, ⟨_, refs⟩ | ⟨dead, _⟩⟩ := fits
    · obtain ⟨_, unlogged⟩ := opened.unanswered expects
      rw [if_pos refs, resps]
      refine ⟨_, link.relist (w := (port.wr x).answered) (s := .responding true)
        ⟨⟨rfl, rfl, fun _ => id, fun _ => .inl, rfl, rfl⟩, rfl, rfl, rfl, rfl, rfl, rfl, rfl⟩
        rfl rfl here ⟨by decide, by decide, by decide, fun _ => rfl⟩
        ⟨tasks, ok, Open.answered unlogged, rfl, refs, answered_expects _⟩
        { typed with } ?_ (link.agents.moveLast x _) ?_ rfl
        (fun _ => ⟨rfl, fun _ => rfl, by decide, rfl, rfl⟩)⟩
      · exact fun _ => ⟨by decide, nofun⟩
      · intro b waiting
        change fileLast (unfile port.agentLists x) ((port.wr x).agent, .done) x (b, .wait) ≠ [] at waiting
        rw [fileLast_of_ne _ _ (by simp)] at waiting
        exact link.timer b (unfile_ne_nil waiting)
    · rw [expects_of_status dead] at expects
      cases expects
  · have carries := link.expecting sends expects
    have carried := fits.carried carries
    obtain ⟨resps, unlogged⟩ := carried.unanswered expects
    obtain ⟨busy, old, other, _⟩ := carries_spec carries
    have refs := carried.refs
    rw [resps, expects] at refs
    change (port.wr x).refcount = 2 at refs
    rw [if_neg (by omega), resps]
    refine ⟨stage, link.same (v := (port.wr x).answered) busy old rfl
      (fits.recarry carries rfl rfl rfl rfl ?_ ⟨Open.answered unlogged, ?_⟩)
      { typed with } (fun _ => ⟨other, fun _ => answered_expects _⟩) rfl rfl⟩
    · intro _ never
      rw [answered_expects] at never
      cases never
    · change (port.wr x).refcount = 1 + 1 + ((port.wr x).answered.expects : Int)
      rw [refs, answered_expects]
      rfl

omit link

/-! ### A change of the timeout -/

theorem msecsToJiffies_pos (config) {ms} (some : ms ≠ 0) : msecsToJiffies config ms ≠ 0 := by
  unfold msecsToJiffies
  split
  · have bound := Nat.mul_pos (Nat.pos_of_ne_zero some) config.hz_pos
    omega
  · decide

theorem msecsToJiffies_zero (config) : msecsToJiffies config 0 = 0 := by
  unfold msecsToJiffies
  rw [if_pos (by decide), Nat.zero_mul]

/-- The record after `ib_modify_mad`. -/
def Wr.modified (config : Config) (w : Wr) (timeoutMs : Nat) : Wr :=
  { (if timeoutMs = 0 then
      { w with
        status := .wrFlushErr
        refcount := w.refcount - if w.timeout = 0 then 0 else 1 }
    else w) with
    timeoutMs := timeoutMs
    timeout := msecsToJiffies config timeoutMs }

theorem Wr.modified_same (config : Config) (w : Wr) (timeoutMs : Nat) :
    (w.modified config timeoutMs).agent = w.agent ∧ (w.modified config timeoutMs).mgmtClass = w.mgmtClass ∧
      (w.modified config timeoutMs).method = w.method ∧
      (w.modified config timeoutMs).isSmpMad = w.isSmpMad ∧
      (w.modified config timeoutMs).isSaCcMad = w.isSaCcMad ∧
      (w.modified config timeoutMs).tasks = w.tasks ∧
      (w.modified config timeoutMs).resps = w.resps ∧
      (w.modified config timeoutMs).accepted = w.accepted ∧
      (w.modified config timeoutMs).log = w.log := by
  unfold modified
  split <;> exact ⟨rfl, rfl, rfl, rfl, rfl, rfl, rfl, rfl, rfl⟩

theorem Wr.modified_zero (config) (alive : w.status = .success) : (w.modified config 0).status ≠ .success ∧
      (w.modified config 0).refcount + w.expects = w.refcount := by
  refine ⟨nofun, ?_⟩
  rw [expects_eq alive]
  change w.refcount - (if w.timeout = 0 then 0 else 1) + _ = _
  split <;> omega

variable {timeoutMs : Nat}

theorem Wr.modified_pos (config) (alive : w.status = .success) (some : timeoutMs ≠ 0) :
    (w.modified config timeoutMs).expects = 1 ∧ (w.modified config timeoutMs).refcount = w.refcount ∧
      (w.modified config timeoutMs).timeoutMs ≠ 0 ∧
      (w.modified config timeoutMs).status = .success := by
  unfold modified expects
  rw [if_neg some]
  exact ⟨if_pos ⟨alive, msecsToJiffies_pos config some⟩, rfl, some, alive⟩

theorem Wr.modified_spec (config) (alive : w.status = .success) (timeoutMs)
    (steady : timeoutMs ≠ 0 → w.timeout ≠ 0) :
    (w.modified config timeoutMs).refcount + w.expects = w.refcount + (w.modified config timeoutMs).expects ∧
      (w.modified config timeoutMs).expects ≤ w.expects ∧
      ((w.modified config timeoutMs).expects = 1 → (w.modified config timeoutMs).timeoutMs ≠ 0) := by
  by_cases zero : timeoutMs = 0
  · subst zero
    obtain ⟨dead, refs⟩ := modified_zero config alive
    rw [expects_of_status dead]
    refine ⟨?_, Nat.zero_le _, nofun⟩
    rw [refs]
    exact (Int.add_zero _).symm
  · obtain ⟨expects, refs, timed, _⟩ := modified_pos config alive zero
    have old : w.expects = 1 := if_pos ⟨alive, steady zero⟩
    rw [expects, old, refs]
    exact ⟨rfl, le_rfl, fun _ => timed⟩

theorem Wr.Open.modified (opened : w.Open) (alive : w.status = .success)
    (steady : timeoutMs ≠ 0 → w.timeout ≠ 0) : (w.modified config timeoutMs).Open := by
  obtain ⟨_, _, _, _, _, _, resps, _, log⟩ := w.modified_same config timeoutMs
  obtain ⟨_, fewer, timed⟩ := modified_spec config alive timeoutMs steady
  have most := w.expects_le
  constructor
  · rw [resps, log]
    exact opened.answers
  · intro expects
    rw [resps, log]
    exact opened.unanswered (by omega)
  · exact timed

theorem Wr.Typed.modified (typed : w.Typed config) (timeoutMs) :
    (w.modified config timeoutMs).Typed config := by
  obtain ⟨agent, mgmtClass, method, smp, cc, _⟩ := w.modified_same config timeoutMs
  constructor
  · intro marked
    unfold smpClass
    rw [mgmtClass, method]
    exact typed.smp (smp ▸ marked)
  · intro marked
    rw [agent]
    exact typed.qp (smp ▸ marked)
  · intro marked
    rw [mgmtClass]
    exact typed.cc (cc ▸ marked)

theorem Wr.Noted.modified (noted : w.Noted) (alive : w.status = .success)
    (steady : timeoutMs ≠ 0 → w.timeout ≠ 0) : (w.modified config timeoutMs).Noted := by
  obtain ⟨_, mgmtClass, method, smp, _⟩ := w.modified_same config timeoutMs
  obtain ⟨_, fewer, _⟩ := Wr.modified_spec config alive timeoutMs steady
  have most := w.expects_le
  intro expects smpClass
  unfold Wr.smpClass at smpClass
  rw [mgmtClass, method] at smpClass
  rw [smp]
  exact noted (by omega) smpClass

variable (link : Link config exact port stage)

include link

theorem Link.modifyWaiting (here : stage x = .waiting) (alive : (port.wr x).status = .success) (timeoutMs) :
    ∃ later, Link config exact
      (waitForResponse (port.setWr x ((port.wr x).modified config timeoutMs)) x) later := by
  have fits := link.fits x
  rw [here] at fits
  obtain ⟨tasks, ok, noted, resps, opened, ⟨expects, refs⟩ | ⟨dead, _⟩⟩ := fits
  · obtain ⟨_, log⟩ := opened.unanswered expects
    obtain ⟨agent, mgmtClass, method, smp, cc, tasksSame, respsSame, acceptedSame, logSame⟩ :=
      (port.wr x).modified_same config timeoutMs
    refine ⟨_, link.wait here ⟨by decide, by decide, by decide, fun _ => rfl⟩ agent ?_
      ((link.typed x).modified timeoutMs) ?_ cc rfl smp rfl⟩
    · refine ⟨tasksSame.trans tasks, acceptedSame.trans ok, ?_, respsSame.trans resps, ?_, ?_⟩
      · intro _ smpClass
        change ((port.wr x).modified config timeoutMs).isSmpMad = true
        rw [smp]
        refine noted expects ?_
        unfold Wr.smpClass
        rw [← mgmtClass, ← method]
        exact smpClass
      · refine ⟨.inl ⟨respsSame.trans resps, .inl (logSame.trans log)⟩,
          fun _ => ⟨respsSame.trans resps, logSame.trans log⟩, ?_⟩
        intro again
        by_cases zero : timeoutMs = 0
        · subst zero
          have silent : (((port.wr x).modified config 0).expire port.jiffies).expects = 0 :=
            Wr.expects_of_status (Wr.modified_zero config alive).1
          rw [silent] at again
          cases again
        · exact (Wr.modified_pos config alive zero).2.2.1
      by_cases zero : timeoutMs = 0
      · subst zero
        obtain ⟨dead, dropped⟩ := Wr.modified_zero config alive
        rw [expects, refs] at dropped
        right
        refine ⟨dead, ?_⟩
        change ((port.wr x).modified config 0).refcount = 0
        omega
      · obtain ⟨_, same, _, still⟩ := Wr.modified_pos config alive zero
        left
        refine ⟨if_pos ⟨still, ?_⟩, same.trans refs⟩
        have positive := msecsToJiffies_pos config zero
        change msecsToJiffies config timeoutMs + port.jiffies ≠ 0
        omega
    · cases closed : port.sendListClosed (port.wr x).agent with
      | false => rfl
      | true => exact absurd here (link.shut x closed).1
  · exact absurd alive dead

theorem Link.modifySending {a timeoutMs} (inside : x ∈ port.agentLists (a, .send))
    (alive : (port.wr x).status = .success) (steady : timeoutMs ≠ 0 → (port.wr x).timeout ≠ 0) :
    ((port.wr x).timeout = 0 ∨ 1 < (port.wr x).refcount) ∧
      Link config exact (port.setWr x ((port.wr x).modified config timeoutMs)) stage := by
  have fits := link.fits x
  have typed := link.typed x
  obtain ⟨agent, _, _, smp, cc, tasksSame, respsSame, acceptedSame, logSame⟩ :=
    (port.wr x).modified_same config timeoutMs
  obtain ⟨refs, fewer, _⟩ := modified_spec config alive timeoutMs steady
  have shut : Shut port.sendListClosed ((port.wr x).modified config timeoutMs) (stage x) := by
    intro closed
    rw [agent] at closed
    obtain ⟨other, none⟩ := link.shut x closed
    refine ⟨other, fun list => ?_⟩
    have before := none list
    omega
  -- Only a request that holds the reference of its work request expects a response.
  have settled (none : (port.wr x).expects = 0) :
      (port.wr x).timeout = 0 ∧ timeoutMs = 0 ∧ ((port.wr x).modified config timeoutMs).expects = 0 ∧
        ((port.wr x).modified config timeoutMs).refcount = (port.wr x).refcount := by
    have zero : (port.wr x).timeout = 0 := by
      by_contra timed
      rw [expects, if_pos ⟨alive, timed⟩] at none
      cases none
    refine ⟨zero, ?_, by omega, by omega⟩
    by_contra some
    exact steady some zero
  obtain carries | here | here := of_send (link.listed inside).1
  · have carried := fits.carried carries
    obtain ⟨busy, old, _, _⟩ := carries_spec carries
    refine ⟨?_, link.same busy old agent (fits.recarry carries tasksSame acceptedSame smp cc
      (fun noted => noted.modified alive steady) ⟨carried.toOpen.modified alive steady, ?_⟩)
      (typed.modified timeoutMs) shut cc smp⟩
    · by_cases zero : (port.wr x).timeout = 0
      · exact .inl zero
      · have expects : (port.wr x).expects = 1 := if_pos ⟨alive, zero⟩
        have count := carried.refs
        right
        omega
    · have count := carried.refs
      rw [respsSame]
      omega
  · rw [here] at fits
    obtain ⟨tasks, ok, opened, one, count, none⟩ := fits
    obtain ⟨zero, _, silent, same⟩ := settled none
    refine ⟨.inl zero, link.same (by rw [here]; decide) (by rw [here]; decide) agent ?_
      (typed.modified timeoutMs) shut cc smp⟩
    rw [here]
    exact ⟨tasksSame.trans tasks, acceptedSame.trans ok, opened.modified alive steady,
      (congrArg length respsSame).trans one, same.trans count, silent⟩
  · rw [here] at fits
    obtain ⟨tasks, resps, ok, ⟨status, closed⟩, none⟩ := fits
    obtain ⟨zero, _, silent, _⟩ := settled none
    refine ⟨.inl zero, link.same (by rw [here]; decide) (by rw [here]; decide) agent ?_
      (typed.modified timeoutMs) shut cc smp⟩
    rw [here]
    refine ⟨tasksSame.trans tasks, respsSame.trans resps, acceptedSame.trans ok, ⟨status, ?_⟩, silent⟩
    rw [logSame]
    exact closed

theorem Link.requeue (here : stage x = .queued) {expTime canceled toList fifo}
    {tfArmed} (perm : fifo.Perm port.fifo) (times : toList.Perm port.toList)
    (armed : port.tfArmed = true → tfArmed = true) (kept : canceled = false → (port.wr x).canceled = false) :
    Link config exact
      { port with
        wr := update port.wr x { port.wr x with expTime := expTime, canceled := canceled }
        toList := toList
        fifo := fifo
        tfArmed := tfArmed } stage := by
  let v : Wr := { port.wr x with expTime := expTime, canceled := canceled }
  let moved : Port := { port with
    wr := update port.wr x v
    toList := toList
    fifo := fifo
    tfArmed := tfArmed }
  have wr : moved.wr = update port.wr x v := rfl
  have typed := link.typed x
  have fits := link.fits x
  rw [here] at fits
  obtain ⟨tasks, ok, control⟩ := fits
  have below : x < port.next := link.known (by rw [here]; decide)
  have same : update stage x .queued = stage := by rw [← here, update_eq_self]
  have tracks : Tracks fifo fun y => stage y = .queued :=
    ⟨perm.nodup_iff.mpr link.fifo.nodup, fun y => perm.mem_iff.trans (link.fifo.mem y)⟩
  have changed : Link config exact moved (update stage x .queued) := by
    refine link.change ⟨rfl, rfl, fun _ => id, fun _ => .inl, rfl, rfl⟩ wr
      le_rfl below
      ⟨tasks, ok, { control with }⟩
      { typed with } (shut_of_unlisted rfl) ?_ ?_ ?_
      (times.trans (link.toList.trans perm.symm)) link.timer ?_ ?_ ?_
    · rw [agentHome_same port v .queued here rfl rfl]
      exact link.agents
    · have homeless : update (madHome config port stage) x none = madHome config port stage := by
        have none : madHome config port stage x = none := by
          unfold madHome
          rw [here]
          rfl
        rw [← none, update_eq_self]
      change port.queues.Kept _ (update _ x none)
      rw [homeless]
      exact link.queues
    · rw [same]
      exact tracks
    · intro some
      refine armed (link.tfTimer ?_)
      intro empty
      rw [empty] at perm
      exact some perm.eq_nil
    · refine link.controls.keep rfl (holdsCc_keep wr here rfl rfl) rfl rfl ?_
      intro z inside alive
      refine ⟨perm.mem_iff.mp inside, ?_⟩
      by_cases own : z = x
      · subst own
        rw [wr, update_self] at alive
        exact kept alive
      · rw [wr, update_of_ne own] at alive
        exact alive
    · intro known
      exact (link.window known).keep rfl (holdsSmp_keep wr here rfl rfl) rfl id
        ((link.window known).posted_update (by decide)) rfl
  rw [same] at changed
  exact changed

theorem Link.modifySaCc (a x timeoutMs) :
    Link config exact (modifySaCcMad config port a x timeoutMs) stage := by
  unfold modifySaCcMad
  split_ifs with own
  · have here := (link.fifo.mem x).mp own.1
    have inside : x ∈ port.toList := link.toList.mem_iff.mpr own.1
    have times := (perm_cons_erase inside).symm
    dsimp only
    split
    · exact link.requeue here (.refl _) ((insertPrev_perm ..).trans times)
        (fun armed => Bool.or_eq_true_iff.mpr (.inl armed)) id
    · refine link.requeue here ?_ times (fun _ => rfl) (fun never => by cases never)
      exact (perm_append_singleton ..).trans (perm_cons_erase own.1).symm
  · exact link

omit link

/-- The calls of `ib_modify_mad` that give no timeout to a request that has none. -/
def SteadyModify (port : Port) (a x timeoutMs : Nat) : Prop :=
  timeoutMs ≠ 0 → (x ∈ port.agentLists (a, .wait) ∨ x ∈ port.agentLists (a, .send)) →
    (port.wr x).status = .success → (port.wr x).timeout ≠ 0

theorem modifyMad_eq {a timeoutMs} (listed : x ∈ port.agentLists (a, .wait) ∨ x ∈ port.agentLists (a, .send))
    (alive : (port.wr x).status = .success) :
    modifyMad config port a x timeoutMs = if (port.wr x).timeout = 0 ∨ 1 < (port.wr x).refcount then
        port.setWr x ((port.wr x).modified config timeoutMs)
      else waitForResponse (port.setWr x ((port.wr x).modified config timeoutMs)) x := by
  unfold modifyMad
  rw [if_pos listed]
  rw [if_neg fun dead => dead alive]
  rfl

theorem Link.modify (link : Link config exact port stage) (a x timeoutMs)
    (steady : SteadyModify port a x timeoutMs) :
    ∃ later, Link config exact (modifyMad config port a x timeoutMs) later := by
  by_cases listed : x ∈ port.agentLists (a, .wait) ∨ x ∈ port.agentLists (a, .send)
  · by_cases alive : (port.wr x).status = .success
    · rw [modifyMad_eq listed alive]
      obtain waits | sends := listed
      · have here := Stage.of_wait (link.listed waits).1
        have fits := link.fits x
        rw [here] at fits
        have idle : ¬((port.wr x).timeout = 0 ∨ 1 < (port.wr x).refcount) := by
          obtain ⟨_, _, _, _, _, ⟨expects, refs⟩ | ⟨dead, _⟩⟩ := fits
          · rintro (zero | many)
            · rw [Wr.expects, if_neg fun both => both.2 zero] at expects
              cases expects
            · omega
          · exact absurd alive dead
        rw [if_neg idle]
        exact link.modifyWaiting here alive timeoutMs
      · have timed (some : timeoutMs ≠ 0) : (port.wr x).timeout ≠ 0 := steady some (.inr sends) alive
        obtain ⟨active, modified⟩ := link.modifySending sends alive timed
        rw [if_pos active]
        exact ⟨stage, modified⟩
    · unfold modifyMad
      rw [if_pos listed]
      rw [if_pos alive]
      exact ⟨stage, link⟩
  · unfold modifyMad
    rw [if_neg listed]
    exact ⟨stage, link.modifySaCc a x timeoutMs⟩

end MlnxOfed.Mad
