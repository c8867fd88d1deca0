/-
The wait lists are ordered by expiry time, and every accepted send is reported once.
-/

import MlnxOfed.Mad.SendRuns

namespace MlnxOfed.Mad

open List Option Function
open Lib (Filed Tracks fileLast unfile)

variable {config : Config} {exact : Bool} {port after : Port} {stage : Nat → Stage} {x : Nat}
  {v w : Wr} {s : Stage} {times : Nat → Nat}

private theorem le_getLast {list} (sorted : list.Pairwise fun y z => times y ≤ times z) (some : list ≠ [])
    {y} (inside : y ∈ list) : times y ≤ times (list.getLast some) := by
  rw [← dropLast_append_getLast some, pairwise_append] at sorted
  rw [← dropLast_append_getLast some, mem_append, mem_singleton] at inside
  obtain front | last := inside
  · exact sorted.2.2 y front _ (mem_singleton.mpr rfl)
  · rw [last]

private theorem insertPrev_sorted {list old} (sorted : list.Pairwise fun y z => times y ≤ times z)
    (compares : ∀ y ∈ list, old y = decide (times y < times x)) :
    (insertPrev old x list).Pairwise fun y z => times y ≤ times z := by
  have whole := rdropWhile_append_rtakeWhile (p := fun y => !old y) (l := list)
  have parts := sorted
  rw [← whole, pairwise_append] at parts
  obtain ⟨front, behind, across⟩ := parts
  have early (y : Nat) (inside : y ∈ list.rdropWhile fun y => !old y) : times y ≤ times x := by
    have some := ne_nil_of_mem inside
    have last := rdropWhile_last_not (fun y => !old y) list some
    have mem : (list.rdropWhile fun y => !old y).getLast some ∈ list :=
      ( rdropWhile_prefix _ _).subset (getLast_mem some)
    rw [compares _ mem] at last
    have less : times ((list.rdropWhile fun y => !old y).getLast some) < times x := by
      by_contra later
      rw [decide_eq_false later] at last
      exact last rfl
    exact (le_getLast front some inside).trans (le_of_lt less)
  have late (y : Nat) (inside : y ∈ list.rtakeWhile fun y => !old y) : times x ≤ times y := by
    have test := mem_rtakeWhile_imp inside
    have mem : y ∈ list := (rtakeWhile_suffix _ _).subset inside
    rw [compares y mem] at test
    by_contra earlier
    rw [decide_eq_true (Nat.lt_of_not_le earlier)] at test
    cases test
  unfold insertPrev
  rw [pairwise_append, pairwise_cons]
  refine ⟨front, ⟨late, behind⟩, ?_⟩
  intro y first z second
  obtain own | rest := mem_cons.mp second
  · rw [own]
    exact early y first
  · exact across y first z rest

def Port.Ordered (port : Port) : Prop :=
  ∀ a, (port.agentLists (a, .wait)).Pairwise fun y z => (port.wr y).timeout ≤ (port.wr z).timeout

theorem Port.Ordered.keep (ordered : port.Ordered)
    (lists : ∀ a, (after.agentLists (a, .wait)).Sublist (port.agentLists (a, .wait)))
    (same : ∀ a, ∀ y ∈ after.agentLists (a, .wait), (after.wr y).timeout = (port.wr y).timeout) :
    after.Ordered := by
  intro a
  refine ((ordered a).sublist (lists a)).imp_of_mem ?_
  intro y z first second old
  rw [same a y first, same a z second]
  exact old

theorem Port.Ordered.off (ordered : port.Ordered)
    (lists : ∀ a, (after.agentLists (a, .wait)).Sublist (port.agentLists (a, .wait)))
    (away : ∀ a, x ∉ after.agentLists (a, .wait))
    (same : ∀ y, y ≠ x → (after.wr y).timeout = (port.wr y).timeout) : after.Ordered := by
  refine ordered.keep lists ?_
  intro a y inside
  refine same y ?_
  intro equal
  rw [equal] at inside
  exact away a inside

variable (link : Link config exact port stage)

include link

theorem Link.nodup (key : Nat × AgentList) : (port.agentLists key).Nodup := (link.agents key).nodup

theorem Link.not_unfile (key : Nat × AgentList) :
    x ∉ unfile port.agentLists x key := (link.nodup key).not_mem_erase

theorem Port.Ordered.wait (ordered : port.Ordered)
    (first : v.timeout = 0 → ∀ y ∈ unfile port.agentLists x (v.agent, .wait),
      port.jiffies ≤ (port.wr y).timeout) :
    (waitForResponse (port.setWr x v) x).Ordered := by
  intro a
  have time (y : Nat) (other : y ≠ x) :
      ((waitForResponse (port.setWr x v) x).wr y).timeout = (port.wr y).timeout := by
    change (update (update port.wr x v) x _ y).timeout = _
    rw [update_of_ne other, update_of_ne other]
  have own : ((waitForResponse (port.setWr x v) x).wr x).timeout = v.timeout + port.jiffies := by
    change (update (update port.wr x v) x _ x).timeout = _
    rw [update_self, setWr_wr]
    rfl
  have rest (b : Nat) : (unfile port.agentLists x (b, .wait)).Pairwise fun y z =>
      ((waitForResponse (port.setWr x v) x).wr y).timeout ≤
        ((waitForResponse (port.setWr x v) x).wr z).timeout := by
    refine ((ordered b).sublist erase_sublist).imp_of_mem ?_
    intro y z one two old
    rw [time y fun equal => link.not_unfile _ (equal ▸ one),
      time z fun equal => link.not_unfile _ (equal ▸ two)]
    exact old
  change (update (unfile port.agentLists x) (((port.setWr x v).wr x).agent, .wait) _ (a, .wait)).Pairwise _
  rw [setWr_wr]
  by_cases same : a = v.agent
  · subst same
    rw [update_self]
    split_ifs with zero
    · rw [pairwise_cons]
      refine ⟨?_, rest _⟩
      intro y inside
      rw [own, time y fun equal => link.not_unfile _ (equal ▸ inside), zero, zero_add]
      exact first zero y inside
    refine insertPrev_sorted (rest _) ?_
    intro y inside
    have other : y ≠ x := fun equal => link.not_unfile _ (equal ▸ inside)
    rw [own, time y other]
    change decide ((update port.wr x v y).timeout < v.timeout + port.jiffies) = _
    rw [update_of_ne other]
  · rw [update_of_ne (by simp [same])]
    exact rest a

theorem Port.Ordered.complete (ordered : port.Ordered) (same : w.timeout = (port.wr x).timeout)
    (status) : (completeSendWr (port.setWr x w) x status).Ordered := by
  have less : (w.less status).timeout = (port.wr x).timeout :=
    (w.less_same status).2.2.2.2.2.2.2.2.2.2.trans same
  have kept (y : Nat) : (update port.wr x (w.less status) y).timeout = (port.wr y).timeout := by
    by_cases own : y = x
    · subst own
      rw [update_self, less]
    · rw [update_of_ne own]
  rw [completeSendWr_eq]
  split
  case isTrue =>
    split
    case isTrue waits => exact ordered.wait link fun zero => absurd zero waits.2.1
    case isFalse => exact ordered.keep (fun _ => Sublist.refl _) fun _ y _ => kept y
  case isFalse =>
    refine ordered.off (x := x) (fun _ => erase_sublist) (fun _ => link.not_unfile _) ?_
    intro y other
    change (update port.wr x _ y).timeout = _
    rw [update_of_ne other]

omit link

/-! ### The order is kept by every step -/

def Step.Orderly (port : Port) : Step → Prop
  | .modify a x timeoutMs => timeoutMs = 0 → x ∈ port.agentLists (a, .wait) → (port.wr x).status = .success →
      ∀ y ∈ port.agentLists (a, .wait), y ≠ x → port.jiffies ≤ (port.wr y).timeout
  | _ => True

theorem update_timeout (wr : Nat → Wr) (x : Nat) (w : Wr) (same : w.timeout = (wr x).timeout) (y : Nat) :
    (update wr x w y).timeout = (wr y).timeout := by
  by_cases own : y = x
  · subst own
    rw [update_self, same]
  · rw [update_of_ne own]

theorem smpResult_timeout (port : Port) (qp : Qp) (res : Queues × Option Nat) (y : Nat) :
    ((port.smpResult qp res).wr y).timeout = (port.wr y).timeout := by
  unfold Port.smpResult
  cases res.2 with
  | none => rfl
  | some z => exact update_timeout port.wr z ((port.wr z).addTask .failed) rfl y

theorem smpResult_agentLists (port : Port) (qp : Qp) (res : Queues × Option Nat) :
    (port.smpResult qp res).agentLists = port.agentLists := by
  unfold Port.smpResult
  cases res.2 <;> rfl

theorem sendDone_timeout (config port x status y) :
    ((sendDone config port x status).wr y).timeout = (port.wr y).timeout ∧
      (sendDone config port x status).agentLists = port.agentLists := by
  unfold sendDone
  cases port.queues.sendDone config.toParams (config.qpOf (port.wr x).agent) x with
  | none => exact ⟨rfl, rfl⟩
  | some res =>
    obtain ⟨queues, promoted⟩ := res
    have told : (update port.wr x ((port.wr x).addTask (.sent status)) y).timeout =
        (port.wr y).timeout := update_timeout port.wr x ((port.wr x).addTask (.sent status)) rfl y
    cases promoted with
    | none => exact ⟨told, rfl⟩
    | some z =>
      let wr := update port.wr x ((port.wr x).addTask (.sent status))
      have repost : (update wr z ((wr z).addTask .repost) y).timeout = (wr y).timeout :=
        update_timeout wr z ((wr z).addTask .repost) rfl y
      exact ⟨repost.trans told, rfl⟩

theorem Link.away (link : Link config exact port stage) (other : stage x ≠ .waiting) (a) :
    x ∉ port.agentLists (a, .wait) := fun inside => other (Stage.of_wait (link.listed inside).1)

theorem Port.Ordered.same (ordered : port.Ordered) (lists : after.agentLists = port.agentLists)
    (times : ∀ y, (after.wr y).timeout = (port.wr y).timeout) : after.Ordered := by
  refine ordered.keep (fun _ => ?_) fun _ y _ => times y
  rw [lists]

theorem ibSendMad_frame (config port x mapped posts) :
    (ibSendMad config port x mapped posts).1.agentLists = port.agentLists ∧
      ∀ y, y ≠ x → (ibSendMad config port x mapped posts).1.wr y = port.wr y := by
  unfold ibSendMad
  split
  case isTrue => exact ⟨rfl, fun _ _ => rfl⟩
  case isFalse => exact ⟨rfl, fun y other => update_of_ne other ..⟩

private theorem sendTask_frame (config port x caller mapped posts) :
    (sendTask config port x caller mapped posts).agentLists = port.agentLists ∧
      ∀ y, y ≠ x → (sendTask config port x caller mapped posts).wr y = port.wr y := by
  obtain ⟨lists, records⟩ := ibSendMad_frame config port x mapped posts
  unfold sendTask
  dsimp only
  cases (ibSendMad config port x mapped posts).2 with
  | none | some error => exact ⟨lists, fun y other => (update_of_ne other ..).trans (records y other)⟩

variable (link : Link config exact port stage)

include link

section

variable (ordered : port.Ordered)

include ordered

theorem Port.Ordered.runTask {task} (inside : task ∈ (port.wr x).tasks) (outcome) :
    (Mad.runTask config port x task outcome).Ordered := by
  obtain ⟨here, tasks⟩ := (link.fits x).of_task inside
  have away : ∀ a, x ∉ port.agentLists (a, .wait) := by
    refine link.away ?_
    rw [here]
    cases task <;> simp [Task.home]
  have freed (y : Nat) : ((port.setWr x (port.wr x).freed).wr y).timeout = (port.wr y).timeout :=
    update_timeout port.wr x (port.wr x).freed rfl y
  have told (v : Wr) (same : v.timeout = (port.wr x).timeout) (y : Nat) :
      (((port.setWr x (port.wr x).freed).setWr x v).wr y).timeout = (port.wr y).timeout := by
    rw [setWr_setWr]
    exact update_timeout _ _ _ same y
  rw [runTask_eq tasks]
  cases task with
  | send caller =>
    obtain ⟨lists, records⟩ := sendTask_frame config (port.setWr x (port.wr x).freed) x caller
      outcome.mapped outcome.posts
    have own (y : Nat) (other : y ≠ x) := congrArg Wr.timeout (records y other)
    refine ordered.off (x := x) (fun a => ?_) (fun a => ?_) fun y other => (own y other).trans (freed y)
    · exact (congrFun lists _ ▸ Sublist.refl _)
    · exact congrFun lists (a, .wait) ▸ away a
  | unpost caller error =>
    refine ordered.off (x := x) (fun _ => erase_sublist) (fun _ => link.not_unfile _) ?_
    intro y other
    change (update (update port.wr x _) x _ y).timeout = _
    rw [update_of_ne other, update_of_ne other]
  | repost =>
    change (if outcome.posts then _ else _ : Port).Ordered
    split
    case isTrue => exact ordered.same rfl freed
    case isFalse =>
      refine ordered.same (sendDone_timeout _ _ _ _ 0).2 ?_
      exact fun y => (sendDone_timeout _ _ _ _ y).1.trans (freed y)
  | sent status =>
    exact ordered.complete (w := (port.wr x).freed) link rfl status
  | failed =>
    change (completeSendWr (port.setWr x (port.wr x).freed) x .locQpOpErr).Ordered
    exact ordered.complete (w := (port.wr x).freed) link rfl .locQpOpErr
  | done status =>
    have mark := told ((port.wr x).freed.addTask (.notify status)) rfl
    change (doneTask config (port.setWr x (port.wr x).freed) x status outcome.posts).Ordered
    unfold doneTask
    dsimp only
    rw [setWr_wr]
    split
    case isTrue =>
      refine ordered.same (smpResult_agentLists ..) ?_
      exact fun y => (smpResult_timeout _ _ _ y).trans (mark y)
    case isFalse =>
      split
      case isTrue => exact ordered.same rfl mark
      case isFalse => exact ordered.same rfl mark
  | cancelled =>
    have mark := told ((port.wr x).freed.addTask (.notify .wrFlushErr)) rfl
    change (cancelTask (port.setWr x (port.wr x).freed) x).Ordered
    unfold cancelTask
    dsimp only
    rw [setWr_wr]
    split
    case isTrue => exact ordered.same rfl mark
    case isFalse =>
      split
      case isTrue => exact ordered.same rfl mark
      case isFalse => exact ordered.same rfl mark
  | notify status | localDone response =>
    refine ordered.same rfl (told _ ?_)
    rw [setWr_wr]
    rfl
  | ccSend timeoutMs retries caller =>
    have other (y : Nat) (apart : y ≠ x) (v : Wr) :
        (update (port.setWr x (port.wr x).freed).wr x v y).timeout = (port.wr y).timeout := by
      rw [update_of_ne apart]
      exact freed y
    change (sendSaCcMad config (port.setWr x (port.wr x).freed) x timeoutMs retries caller).Ordered
    unfold sendSaCcMad
    dsimp only
    rw [setWr_wr]
    split
    case isTrue =>
      exact ordered.off (x := x) (fun _ => Sublist.refl _) away fun y apart => other y apart _
    case isFalse =>
      have lists (a : Nat) : fileLast port.agentLists ((port.wr x).freed.agent, .send) x (a, .wait) =
          port.agentLists (a, .wait) := fileLast_of_ne _ _ (by simp)
      refine ordered.off (x := x) (fun a => ?_) (fun a inside => ?_) fun y apart =>
        other y apart _
      · exact lists a ▸ Sublist.refl _
      · refine away a ?_
        rw [← lists a]
        exact inside

theorem Port.Ordered.runResp (resp) : (Mad.runResp port x resp).Ordered := by
  cases resp with
  | deliver => exact ordered.same rfl (update_timeout port.wr x _ rfl)
  | complete =>
    let taken : Wr := { port.wr x with resps := (port.wr x).resps.erase .complete }
    exact ordered.complete (w := taken) link rfl .success

variable {response : Response}

theorem Port.Ordered.receive {a} (found : findSendMad port a response = some x) :
    (markMadDone port x).Ordered := by
  obtain ⟨expects, inside⟩ := findSendMad_spec link found
  have other (v : Wr) (y : Nat) (apart : y ≠ x) :
      (update port.wr x v y).timeout = (port.wr y).timeout := by
    rw [update_of_ne apart]
  unfold markMadDone
  dsimp only
  split
  case isTrue =>
    have lists (b : Nat) : fileLast (unfile port.agentLists x) ((port.wr x).agent, .done) x (b, .wait) =
        unfile port.agentLists x (b, .wait) := fileLast_of_ne _ _ (by simp)
    refine ordered.off (x := x) (fun b => ?_) (fun b waits => ?_) (other _)
    · change (fileLast (unfile port.agentLists x) ((port.wr x).agent, .done) x (b, .wait)).Sublist _
      rw [lists b]
      exact erase_sublist
    · refine link.not_unfile (x := x) (b, .wait) ?_
      rw [← lists b]
      exact waits
  case isFalse many =>
    refine ordered.off (x := x) (fun _ => Sublist.refl _) (link.away ?_) (other _)
    intro here
    have fits := link.fits x
    rw [here] at fits
    obtain ⟨_, _, _, _, _, ⟨_, refs⟩ | ⟨dead, _⟩⟩ := fits
    · exact many refs
    · rw [Wr.expects_of_status dead] at expects
      cases expects

omit ordered in
omit link in
private theorem retrySend_frame (config port x mapped posts postsNext) :
    (∀ a, (retrySend config port x mapped posts postsNext).1.agentLists (a, .wait) =
        port.agentLists (a, .wait)) ∧
      ∀ y, y ≠ x → ((retrySend config port x mapped posts postsNext).1.wr y).timeout =
        (port.wr y).timeout := by
  obtain ⟨again, isAgain⟩ : ∃ again, (port.wr x).again config = again := ⟨_, rfl⟩
  obtain ⟨lists, records⟩ := ibSendMad_frame config (port.setWr x again) x mapped posts
  have time (y : Nat) (other : y ≠ x) :
      ((ibSendMad config (port.setWr x again) x mapped posts).1.wr y).timeout = (port.wr y).timeout := by
    rw [records y other]
    change (update port.wr x again y).timeout = _
    rw [update_of_ne other]
  unfold retrySend
  dsimp only
  split
  case isTrue => exact ⟨fun _ => rfl, fun _ _ => rfl⟩
  case isFalse =>
    unfold Wr.again at isAgain
    rw [isAgain]
    cases (ibSendMad config (port.setWr x again) x mapped posts).2 with
    | some error => exact ⟨fun a => congrFun lists _, time⟩
    | none =>
      dsimp only
      refine ⟨fun a => ?_, fun y other => ?_⟩
      · rw [fileLast_of_ne _ _ (by simp)]
        split
        case isTrue =>
          rw [smpResult_agentLists]
          exact congrFun lists _
        case isFalse => exact congrFun lists _
      · rw [update_of_ne other]
        split
        case isTrue => exact (smpResult_timeout _ _ _ y).trans (time y other)
        case isFalse => exact time y other

theorem Port.Ordered.timeout (a)
    (mapped posts postsNext) : (timeoutSends config port a mapped posts postsNext).Ordered := by
  unfold timeoutSends
  cases port.agentLists (a, .wait) with
  | nil => exact ordered.same rfl fun _ => rfl
  | cons x rest =>
    dsimp only
    let gone : Port := { port with agentLists := unfile port.agentLists x }
    have left (after : Port) (lists : ∀ a, after.agentLists (a, .wait) = gone.agentLists (a, .wait))
        (times : ∀ y, y ≠ x → (after.wr y).timeout = (port.wr y).timeout) : after.Ordered := by
      refine ordered.off (x := x) (fun b => ?_) (fun b inside => ?_) times
      · rw [lists b]
        exact erase_sublist
      · rw [lists b] at inside
        exact link.not_unfile (x := x) (b, .wait) inside
    have finish (after : Port) (v : Wr) (lists : ∀ a, after.agentLists (a, .wait) = gone.agentLists (a, .wait))
        (times : ∀ y, y ≠ x → (after.wr y).timeout = (port.wr y).timeout) :
        (after.setWr x v).Ordered := by
      refine left _ lists ?_
      intro y other
      change (update after.wr x v y).timeout = _
      rw [update_of_ne other]
      exact times y other
    obtain ⟨lists, times⟩ := retrySend_frame config gone x mapped posts postsNext
    split
    case isTrue => exact ordered
    case isFalse =>
      split
      case isTrue =>
        split
        case isTrue => exact left _ lists times
        case isFalse => exact finish _ _ lists times
      case isFalse => exact finish gone _ (fun _ => rfl) fun _ _ => rfl

theorem Port.Ordered.modify (a x timeoutMs) (orderly : (Step.modify a x timeoutMs).Orderly port) :
    (modifyMad config port a x timeoutMs).Ordered := by
  by_cases listed : x ∈ port.agentLists (a, .wait) ∨ x ∈ port.agentLists (a, .send)
  · by_cases alive : (port.wr x).status = .success
    · rw [modifyMad_eq listed alive]
      have other (v : Wr) (y : Nat) (apart : y ≠ x) :
          (update port.wr x v y).timeout = (port.wr y).timeout := by
        rw [update_of_ne apart]
      split
      case isTrue active =>
        refine ordered.off (x := x) (fun _ => Sublist.refl _) (link.away ?_) (other _)
        intro here
        have fits := link.fits x
        rw [here] at fits
        obtain ⟨_, _, _, _, _, ⟨expects, refs⟩ | ⟨dead, _⟩⟩ := fits
        · obtain zero | many := active
          · rw [Wr.expects, if_neg fun both => both.2 zero] at expects
            cases expects
          · omega
        · exact dead alive
      case isFalse waits =>
        refine ordered.wait link ?_
        intro zero y inside
        have agent : ((port.wr x).modified config timeoutMs).agent = (port.wr x).agent :=
          ((port.wr x).modified_same config timeoutMs).1
        have none : timeoutMs = 0 := by
          by_contra some
          exact msecsToJiffies_pos config some zero
        -- Only a waiting request is linked again.
        have waiting : x ∈ port.agentLists (a, .wait) := by
          obtain first | sends := listed
          · exact first
          · have steady (some : timeoutMs ≠ 0) : (port.wr x).timeout ≠ 0 := absurd none some
            exact absurd (link.modifySending sends alive steady).1 waits
        rw [agent, (link.listed waiting).2] at inside
        refine orderly none waiting alive y (mem_of_mem_erase inside) ?_
        intro equal
        rw [equal] at inside
        exact link.not_unfile _ inside
    · unfold modifyMad
      rw [if_pos listed]
      rw [if_pos alive]
      exact ordered
  · unfold modifyMad
    rw [if_neg listed]
    unfold modifySaCcMad
    split
    case isTrue =>
      dsimp only
      split
      case isTrue => exact ordered.same rfl (update_timeout port.wr x _ rfl)
      case isFalse => exact ordered.same rfl (update_timeout port.wr x _ rfl)
    case isFalse => exact ordered

omit link in
theorem Port.Ordered.ccDone (wild) : (saCcMadDone config port wild).Ordered := by
  unfold saCcMadDone
  dsimp only
  cases port.fifo.find? fun y => !(port.wr y).canceled with
  | none =>
    dsimp only
    split
    case isTrue => exact ordered.same rfl fun _ => rfl
    case isFalse => exact ordered.same rfl fun _ => rfl
  | some y => exact ordered.same rfl (update_timeout port.wr y _ rfl)

omit link in
theorem Port.Ordered.cancel (a) : (cancelMads port a).Ordered := by
  refine ordered.keep ?_ ?_
  · intro b
    change (update port.agentLists (a, .wait) [] (b, .wait)).Sublist _
    by_cases same : b = a
    · subst same
      rw [update_self]
      exact nil_sublist _
    · rw [update_of_ne (by simp [same])]
  intro b y _
  change (if y ∈ port.agentLists (a, .send) then (port.wr y).flushed
    else if y ∈ port.agentLists (a, .wait) then (port.wr y).addTask .cancelled
    else port.wr y).timeout = _
  split
  case isTrue =>
    unfold Wr.flushed
    split <;> rfl
  case isFalse => split <;> rfl

omit ordered in
omit link in
private theorem postSendMad_frame (config port args) :
    (∀ a, (postSendMad config port args).agentLists (a, .wait) = port.agentLists (a, .wait)) ∧
      ∀ y, y ≠ port.next → (postSendMad config port args).wr y = port.wr y := by
  have other (v : Wr) (y : Nat) (apart : y ≠ port.next) :
      update port.wr port.next v y = port.wr y := update_of_ne apart ..
  unfold postSendMad
  dsimp only
  split
  case isTrue => exact ⟨fun _ => rfl, other _⟩
  case isFalse =>
    split
    case h_1 response =>
      refine ⟨fun _ => rfl, fun y apart => ?_⟩
      exact (update_of_ne apart ..).trans (other _ y apart)
    case h_2 =>
      have begun (v u : Wr) (y : Nat) (apart : y ≠ port.next) :
          update (update port.wr port.next v) port.next u y = port.wr y :=
        (update_of_ne apart ..).trans (other _ y apart)
      split
      case isTrue =>
        unfold saCcMadSend
        dsimp only
        split
        case isTrue =>
          exact ⟨fun _ => rfl, fun y apart =>
            (update_of_ne apart ..).trans (begun _ _ y apart)⟩
        case isFalse =>
          unfold tfEnqueue
          dsimp only
          split
          case h_1 => exact ⟨fun _ => rfl, begun _ _⟩
          case h_2 queued found =>
            split at found
            case isTrue => cases found
            case isFalse =>
              cases found
              exact ⟨fun _ => rfl, fun y apart => (update_of_ne apart ..).trans
                ((update_of_ne apart ..).trans (begun _ _ y apart))⟩
      case isFalse => exact ⟨fun a => fileLast_of_ne _ _ (by simp), begun _ _⟩

theorem Port.Ordered.post (args) : (postSendMad config port args).Ordered := by
  obtain ⟨lists, records⟩ := postSendMad_frame config port args
  refine ordered.off (x := port.next) (fun a => ?_) (fun a inside => ?_)
    fun y other => congrArg Wr.timeout (records y other)
  · rw [lists a]
  · rw [lists a] at inside
    refine link.away ?_ a inside
    rw [(link.fresh port.next le_rfl).1]
    decide

theorem Port.Ordered.step {move}
    (orderly : move.Orderly port) (moved : Mad.step config port move = some after) :
    after.Ordered := by
  cases move with
  | post args =>
    obtain ⟨-, moved⟩ := ite_none_right_eq_some.mp moved
    cases moved
    exact ordered.post link args
  | run x task outcome =>
    obtain ⟨pending, moved⟩ := ite_none_right_eq_some.mp moved
    cases moved
    exact ordered.runTask link pending.1 outcome
  | resp x resp =>
    obtain ⟨-, moved⟩ := ite_none_right_eq_some.mp moved
    cases moved
    exact ordered.runResp link resp
  | wrDone x status =>
    obtain ⟨-, moved⟩ := ite_none_right_eq_some.mp moved
    cases moved
    exact ordered.same (sendDone_timeout _ _ _ _ 0).2 fun y => (sendDone_timeout _ _ _ _ y).1
  | receive a response =>
    obtain ⟨-, moved⟩ := ite_none_right_eq_some.mp moved
    cases found : findSendMad port a response with
    | some x =>
      rw [found] at moved
      cases moved
      exact ordered.receive link found
    | none =>
      rw [found] at moved
      cases moved
      exact ordered
  | timeout a mapped posts postsNext =>
    obtain ⟨-, moved⟩ := ite_none_right_eq_some.mp moved
    cases moved
    exact ordered.timeout link a mapped posts postsNext
  | modify a x timeoutMs =>
    obtain ⟨-, moved⟩ := ite_none_right_eq_some.mp moved
    cases moved
    exact ordered.modify link a x timeoutMs orderly
  | smpRetry qp posts =>
    obtain ⟨-, moved⟩ := ite_none_right_eq_some.mp moved
    cases moved
    exact ordered.same (smpResult_agentLists ..) fun y => smpResult_timeout _ _ _ y
  | ccDone wild =>
    obtain ⟨-, moved⟩ := ite_none_right_eq_some.mp moved
    cases moved
    exact ordered.ccDone wild
  | expire =>
    obtain ⟨-, moved⟩ := ite_none_right_eq_some.mp moved
    cases moved
    refine ordered.same rfl fun y => ?_
    unfold timeoutHandlerTask
    dsimp only
    split <;> rfl
  | leave a =>
    obtain ⟨-, moved⟩ := ite_none_right_eq_some.mp moved
    cases moved
    refine ordered.same rfl fun y => ?_
    unfold freeAgent
    dsimp only
    split <;> rfl
  | cancel a =>
    obtain ⟨-, moved⟩ := ite_none_right_eq_some.mp moved
    cases moved
    exact ordered.cancel a
  | sweep a =>
    obtain ⟨-, moved⟩ := ite_none_right_eq_some.mp moved
    cases moved
    refine ordered.same rfl fun y => ?_
    unfold sweepSmps
    dsimp only
    split <;> rfl
  | tick jiffies =>
    cases moved
    exact ordered.same rfl fun _ => rfl

end

omit link in
def Step.Sound (config : Config) (port : Port) (move : Step) : Prop :=
  move.Steady config port ∧ move.Exact port ∧ move.Orderly port

omit link in
theorem Reachable.ordered (reach : Reachable config (Step.Sound config) port) : port.Ordered := by
  induction reach with
  | init => exact fun _ => List.Pairwise.nil
  | step move before legal moved ih =>
    obtain ⟨stage, link⟩ := before.link true (fun _ _ legal => legal.1) fun _ _ _ legal => legal.2.1
    exact ih.step link legal.2.2 moved

theorem Link.log (x) : (port.wr x).log = [] ∨ (port.wr x).log = [.recv] ∨
      ∃ status, (port.wr x).log = [.send status] ∨ (port.wr x).log = [.recv, .send status] := by
  have opened (answers : (port.wr x).Open) : (port.wr x).log = [] ∨ (port.wr x).log = [.recv] ∨
      ∃ status, (port.wr x).log = [.send status] ∨ (port.wr x).log = [.recv, .send status] := by
    obtain ⟨_, log | log⟩ | ⟨_, log⟩ | ⟨_, log⟩ := answers.answers
    · exact .inl log
    · exact .inr (.inl log)
    · exact .inl log
    · exact .inr (.inl log)
  have fits := link.fits x
  cases here : stage x with
  | idle =>
    rw [here] at fits
    obtain ⟨_, _, ⟨_, log | log⟩ | ⟨_, closed⟩⟩ := fits
    · exact .inl log
    · exact .inr (.inl log)
    · exact .inr (.inr closed)
  | queued =>
    rw [here] at fits
    exact .inl fits.2.2.log
  | transit =>
    rw [here] at fits
    obtain ⟨_, _, _, _, _, control⟩ := fits
    exact .inl control.log
  | waiting =>
    rw [here] at fits
    exact opened fits.2.2.2.2.1
  | responding moved =>
    rw [here] at fits
    exact opened fits.2.2.1
  | finishing =>
    rw [here] at fits
    exact opened fits.2.2.2
  | notifying =>
    rw [here] at fits
    exact opened fits.2.2.2
  | swept =>
    rw [here] at fits
    exact Or.inr (Or.inr fits.2.2.2.1)
  | sending | unposting | stalled | failed | posted place => exact opened (fits.carried (by rw [here]; rfl)).toOpen

omit link

end MlnxOfed.Mad
