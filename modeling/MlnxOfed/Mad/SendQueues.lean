/-
The send queues of a MAD port (drivers/infiniband/core/mad.c): for each QP the requests given to the device
and the overflow list behind them, and for the port the window of SMP requests. The definitions are the
sections under the send queue's lock.
-/

import MlnxOfed.Lib.Filing

namespace MlnxOfed.Mad

open Option List Function
open Lib (Filed Tracks fileLast unfile)

inductive Qp
  | smi
  | gsi
  deriving DecidableEq

inductive MadList
  | queue (qp : Qp)
  | overflow (qp : Qp)
  | smpOverflow
  deriving DecidableEq

structure Params where
  sendQueueSize : Int
  madSmpWindow : Int

/-- `ib_mad_init` bounds the parameters. -/
def Params.maxActive (params : Params) : Nat := (max (min params.sendQueueSize 8192) 64).toNat

def Params.maxOutstanding (params : Params) : Nat := (max (min params.madSmpWindow 8192) 1).toNat

structure Queues where
  lists : MadList → List Nat
  count : Qp → Int
  outstanding : Nat

def Queues.init : Queues where
  lists := fun _ => []
  count := fun _ => 0
  outstanding := 0

def Queues.enlist (queues : Queues) (list : MadList) (qp : Qp) (x : Nat) : Queues :=
  { queues with
    lists := fileLast queues.lists list x
    count := update queues.count qp (queues.count qp + 1) }

/-- The request goes to the device while there is room, else to the QP's overflow list. `posts` is the
outcome of `ib_post_send`. -/
def Queues.post (params : Params) (queues : Queues) (qp : Qp) (x : Nat) (posts : Bool) : Option Queues :=
  if queues.count qp < params.maxActive then
    if posts then some (queues.enlist (.queue qp) qp x) else none
  else
    some (queues.enlist (.overflow qp) qp x)

/-- `ib_send_mad` under the lock of the send queue. -/
def Queues.sendMad (params : Params) (queues : Queues) (qp : Qp) (x : Nat) (smp posts : Bool) : Queues × Bool :=
  if smp = true ∧ params.maxOutstanding ≤ queues.outstanding then
    ({ queues with lists := fileLast queues.lists .smpOverflow x }, true)
  else
    -- The window is raised before the request is posted, and stays so if the post fails.
    let counted := { queues with outstanding := queues.outstanding + if smp then 1 else 0 }
    match counted.post params qp x posts with
    | some sent => (sent, true)
    | none => (counted, false)

/-- `smp_mad_done` from `retry`: the first waiting SMP is sent on the given QP. The second component is the
request not posted. -/
def Queues.smpNext (params : Params) (queues : Queues) (qp : Qp) (posts : Bool) : Queues × Option Nat :=
  match queues.lists .smpOverflow with
  | [] => (queues, none)
  | x :: _ =>
    let taken := { queues with lists := unfile queues.lists x }
    match taken.post params qp x posts with
    | some sent => ({ sent with outstanding := sent.outstanding + 1 }, none)
    | none => (taken, some x)

def Queues.smpMadDone (params : Params) (queues : Queues) (qp : Qp) (posts : Bool) : Queues × Option Nat :=
  Queues.smpNext params { queues with outstanding := queues.outstanding - 1 } qp posts

/-- `ib_mad_send_done` under the send queue's lock: the request leaves its list, and the first overflow
request, still to be posted, takes its place; no result when the count promises an empty overflow list. -/
def Queues.sendDone (params : Params) (queues : Queues) (qp : Qp) (x : Nat) : Option (Queues × Option Nat) :=
  let gone := unfile queues.lists x
  let counted := update queues.count qp (queues.count qp - 1)
  if params.maxActive < queues.count qp then
    match gone (.overflow qp) with
    | [] => none
    | y :: _ =>
      some ({ queues with lists := fileLast (unfile gone y) (.queue qp) y, count := counted }, some y)
  else
    some ({ queues with lists := gone, count := counted }, none)

/-! ### The count of a queue -/

/-- Requests are where `home` says, each QP counts its two lists, and the overflow list is used only while
the device is full. -/
structure Queues.Kept (params : Params) (queues : Queues) (home : Nat → Option MadList) : Prop where
  filed : Filed queues.lists home
  count : ∀ qp, queues.count qp = (queues.lists (.queue qp)).length + (queues.lists (.overflow qp)).length
  active : ∀ qp, (queues.lists (.queue qp)).length ≤ params.maxActive
  full : ∀ qp, queues.lists (.overflow qp) ≠ [] → (queues.lists (.queue qp)).length = params.maxActive

variable {params : Params} {queues after : Queues} {home : Nat → Option MadList} {qp : Qp}
  {posts smp : Bool} {x : Nat}

theorem Queues.Kept.init : Queues.init.Kept params fun _ => none := by
  constructor
  · intro k
    exact ⟨nodup_nil, fun x => ⟨fun inside => absurd inside not_mem_nil, nofun⟩⟩
  · exact fun _ => rfl
  · exact fun _ => Nat.zero_le _
  · exact fun _ never => absurd rfl never

variable (kept : queues.Kept params home)

include kept

theorem Queues.Kept.congr {moved} (same : ∀ x, home x = moved x) : queues.Kept params moved :=
  { kept with filed := kept.filed.congr same }

theorem Queues.Kept.window (outstanding) : { queues with outstanding := outstanding }.Kept params home :=
  { kept with }

theorem Queues.Kept.overflow_iff (qp) :
    queues.lists (.overflow qp) ≠ [] ↔ (params.maxActive : Int) < queues.count qp := by
  have count := kept.count qp
  have active := kept.active qp
  constructor
  · intro waiting
    have full := kept.full qp waiting
    have some := length_pos_of_ne_nil waiting
    omega
  · intro above empty
    rw [empty] at count
    rw [length_nil] at count
    omega

variable {K : Type}

omit kept in
theorem fileLast_self [DecidableEq K] (lists : K → List Nat) (k x) :
    fileLast lists k x k = lists k ++ [x] := update_self ..

omit kept in
theorem fileLast_of_ne [DecidableEq K] (lists : K → List Nat) {j k} (x)
    (other : j ≠ k) : fileLast lists k x j = lists j := update_of_ne other ..

omit kept in
theorem unfile_of_home {lists : K → List Nat} {home : Nat → Option K}
    (filed : Filed lists home) {j : K} (away : home x ≠ some j) : unfile lists x j = lists j :=
  erase_of_not_mem fun inside => away (filed.mem_iff.mp inside)

theorem Queues.Kept.post (homeless : home x = none) (posted : queues.post params qp x posts = some after) :
    ∃ list, (list = .queue qp ∨ list = .overflow qp) ∧ after.Kept params (update home x (some list)) ∧
      after.outstanding = queues.outstanding ∧
      after.lists .smpOverflow = queues.lists .smpOverflow := by
  have count := kept.count
  have active := kept.active
  have full := kept.full
  unfold Queues.post at posted
  split at posted
  · rename_i room
    split at posted
    · have equal := some.inj posted
      subst equal
      refine ⟨.queue qp, .inl rfl, ⟨kept.filed.fileLast homeless _, ?_, ?_, ?_⟩, rfl, rfl⟩
      · intro other
        change update queues.count qp (queues.count qp + 1) other =
          (fileLast queues.lists (.queue qp) x (.queue other)).length +
            (fileLast queues.lists (.queue qp) x (.overflow other)).length
        rw [fileLast_of_ne queues.lists (j := .overflow other) x (by simp)]
        by_cases same : other = qp
        · subst same
          rw [update_self, fileLast_self, length_append, length_singleton, count other]
          omega
        · rw [update_of_ne same, fileLast_of_ne _ _ (by simp [same]), count other]
      · intro other
        change (fileLast queues.lists (.queue qp) x (.queue other)).length ≤ _
        by_cases same : other = qp
        · subst same
          rw [fileLast_self, length_append, length_singleton]
          have here := count other
          omega
        · rw [fileLast_of_ne _ _ (by simp [same])]
          exact active other
      intro other waiting
      change fileLast queues.lists (.queue qp) x (.overflow other) ≠ [] at waiting
      rw [fileLast_of_ne _ _ (by simp)] at waiting
      change (fileLast queues.lists (.queue qp) x (.queue other)).length = _
      have apart : other ≠ qp := by
        intro same
        subst same
        have above := (kept.overflow_iff other).mp waiting
        omega
      rw [fileLast_of_ne _ _ (by simp [apart])]
      exact full other waiting
    · cases posted
  · rename_i room
    have equal := some.inj posted
    subst equal
    refine ⟨.overflow qp, .inr rfl, ⟨kept.filed.fileLast homeless _, ?_, ?_, ?_⟩, rfl, rfl⟩
    · intro other
      change update queues.count qp (queues.count qp + 1) other =
        (fileLast queues.lists (.overflow qp) x (.queue other)).length +
          (fileLast queues.lists (.overflow qp) x (.overflow other)).length
      rw [fileLast_of_ne queues.lists (j := .queue other) x (by simp)]
      by_cases same : other = qp
      · subst same
        rw [update_self, fileLast_self, length_append, length_singleton, count other]
        omega
      · rw [update_of_ne same, fileLast_of_ne _ _ (by simp [same]), count other]
    · intro other
      change (fileLast queues.lists (.overflow qp) x (.queue other)).length ≤ _
      rw [fileLast_of_ne _ _ (by simp)]
      exact active other
    intro other waiting
    change (fileLast queues.lists (.overflow qp) x (.queue other)).length = _
    rw [fileLast_of_ne _ _ (by simp)]
    by_cases same : other = qp
    · subst same
      by_cases empty : queues.lists (.overflow other) = []
      · have here := count other
        have bound := active other
        rw [empty, length_nil] at here
        omega
      · exact full other empty
    · change fileLast queues.lists (.overflow qp) x (.overflow other) ≠ [] at waiting
      rw [fileLast_of_ne _ _ (by simp [same])] at waiting
      exact full other waiting

omit kept in
theorem Queues.post_eq_none (failed : queues.post params qp x posts = none) :
    posts = false ∧ queues.count qp < params.maxActive := by
  unfold Queues.post at failed
  split at failed
  · rename_i active
    split at failed
    · cases failed
    · rename_i refused
      exact ⟨Bool.eq_false_iff.mpr refused, active⟩
  · cases failed

/-! ### The ways through the sections -/

omit kept in
/-- What `ib_send_mad` does to the queues with a request on none of their lists. -/
inductive SendMadCase (params : Params) (queues : Queues) (home : Nat → Option MadList) (qp : Qp)
    (x : Nat) (smp posts : Bool) (after : Queues) : Bool → Prop
  | stalled (counted : smp = true) (full : params.maxOutstanding ≤ queues.outstanding)
      (kept : after.Kept params (update home x (some .smpOverflow)))
      (outstanding : after.outstanding = queues.outstanding)
      (waiting : after.lists .smpOverflow = queues.lists .smpOverflow ++ [x]) :
      SendMadCase params queues home qp x smp posts after true
  | posted (list : MadList) (place : list = .queue qp ∨ list = .overflow qp)
      (room : smp = true → queues.outstanding < params.maxOutstanding)
      (kept : after.Kept params (update home x (some list)))
      (outstanding : after.outstanding = queues.outstanding + if smp then 1 else 0)
      (waiting : after.lists .smpOverflow = queues.lists .smpOverflow) :
      SendMadCase params queues home qp x smp posts after true
  | failed (refused : posts = false) (kept : after.Kept params home) (lists : after.lists = queues.lists)
      (room : smp = true → queues.outstanding < params.maxOutstanding)
      (active : queues.count qp < params.maxActive)
      (outstanding : after.outstanding = queues.outstanding + if smp then 1 else 0) :
      SendMadCase params queues home qp x smp posts after false

theorem Queues.Kept.sendMad (homeless : home x = none) (qp smp posts) :
    SendMadCase params queues home qp x smp posts (queues.sendMad params qp x smp posts).1
      (queues.sendMad params qp x smp posts).2 := by
  unfold Queues.sendMad
  by_cases full : smp = true ∧ params.maxOutstanding ≤ queues.outstanding
  · rw [if_pos full]
    have waiting := fileLast_self queues.lists .smpOverflow x
    refine .stalled full.1 full.2 ⟨kept.filed.fileLast homeless _, ?_, ?_, ?_⟩ rfl waiting
    · intro other
      change queues.count other = (fileLast queues.lists .smpOverflow x (.queue other)).length +
        (fileLast queues.lists .smpOverflow x (.overflow other)).length
      rw [fileLast_of_ne _ _ (by simp), fileLast_of_ne _ _ (by simp), kept.count other]
    · intro other
      change (fileLast queues.lists .smpOverflow x (.queue other)).length ≤ _
      rw [fileLast_of_ne _ _ (by simp)]
      exact kept.active other
    intro other waiting
    change fileLast queues.lists .smpOverflow x (.overflow other) ≠ [] at waiting
    rw [fileLast_of_ne _ _ (by simp)] at waiting
    change (fileLast queues.lists .smpOverflow x (.queue other)).length = _
    rw [fileLast_of_ne _ _ (by simp)]
    exact kept.full other waiting
  · rw [if_neg full]
    have room (counted : smp = true) : queues.outstanding < params.maxOutstanding :=
      Nat.lt_of_not_le fun above => full ⟨counted, above⟩
    dsimp only
    have counted := kept.window (queues.outstanding + if smp then 1 else 0)
    cases res : Queues.post params
        { queues with outstanding := queues.outstanding + if smp then 1 else 0 } qp x posts with
    | some sent =>
      obtain ⟨list, place, sentKept, outstanding, waiting⟩ := counted.post homeless res
      exact .posted list place room sentKept outstanding waiting
    | none =>
      obtain ⟨refused, active⟩ := Queues.post_eq_none res
      exact .failed refused counted rfl room active rfl

omit kept in
inductive SmpNextCase (params : Params) (queues : Queues) (home : Nat → Option MadList) (qp : Qp)
    (posts : Bool) (after : Queues) : Option Nat → Prop
  | idle (empty : queues.lists .smpOverflow = []) (same : after = queues) :
      SmpNextCase params queues home qp posts after none
  | sent (y : Nat) (rest : List Nat) (first : queues.lists .smpOverflow = y :: rest)
      (list : MadList) (place : list = .queue qp ∨ list = .overflow qp)
      (kept : after.Kept params (update home y (some list)))
      (outstanding : after.outstanding = queues.outstanding + 1)
      (waiting : after.lists .smpOverflow = rest) :
      SmpNextCase params queues home qp posts after none
  | failed (y : Nat) (rest : List Nat) (first : queues.lists .smpOverflow = y :: rest)
      (refused : posts = false) (active : queues.count qp < params.maxActive)
      (kept : after.Kept params (update home y none))
      (outstanding : after.outstanding = queues.outstanding)
      (waiting : after.lists .smpOverflow = rest) :
      SmpNextCase params queues home qp posts after (some y)

theorem Queues.Kept.take (there : home x = some .smpOverflow) :
    { queues with lists := unfile queues.lists x }.Kept params (update home x none) := by
  have other {list : MadList} (apart : list ≠ .smpOverflow) :
      unfile queues.lists x list = queues.lists list := by
    apply unfile_of_home kept.filed
    rw [there]
    exact fun equal => apart (some.inj equal).symm
  refine ⟨kept.filed.unfile x, ?_, ?_, ?_⟩
  · intro qp
    change _ = ((unfile queues.lists x (.queue qp)).length : Int) +
      (unfile queues.lists x (.overflow qp)).length
    rw [other (by simp), other (by simp)]
    exact kept.count qp
  · intro qp
    change (unfile queues.lists x (.queue qp)).length ≤ _
    rw [other (by simp)]
    exact kept.active qp
  · intro qp waiting
    change unfile queues.lists x (.overflow qp) ≠ [] at waiting
    change (unfile queues.lists x (.queue qp)).length = _
    rw [other (by simp)] at waiting ⊢
    exact kept.full qp waiting

theorem Queues.Kept.smpNext (qp posts) :
    SmpNextCase params queues home qp posts (queues.smpNext params qp posts).1
      (queues.smpNext params qp posts).2 := by
  unfold Queues.smpNext
  cases first : queues.lists .smpOverflow with
  | nil => exact .idle first rfl
  | cons y rest =>
    dsimp only
    have there : home y = some .smpOverflow := kept.filed.mem_iff.mp (by rw [first]; exact .head _)
    have taken := kept.take there
    have behind : unfile queues.lists y .smpOverflow = rest := by
      change (queues.lists .smpOverflow).erase y = rest
      rw [first, erase_cons_head]
    cases res : Queues.post params { queues with lists := unfile queues.lists y } qp y posts with
    | some sent =>
      obtain ⟨list, place, sentKept, outstanding, waiting⟩ := taken.post (update_self y none home) res
      rw [update_idem] at sentKept
      exact .sent y rest first list place (sentKept.window _) (congrArg (· + 1) outstanding)
        (waiting.trans behind)
    | none =>
      obtain ⟨refused, active⟩ := Queues.post_eq_none res
      exact .failed y rest first refused active taken rfl behind

omit kept in
inductive SendDoneCase (params : Params) (queues : Queues) (home : Nat → Option MadList) (qp : Qp)
    (x : Nat) (after : Queues) : Option Nat → Prop
  | single (kept : after.Kept params (update home x none)) : SendDoneCase params queues home qp x after none
  | promoted (y : Nat) (there : home y = some (.overflow qp)) (kept : after.Kept params
        (update (update home x none) y (some (.queue qp)))) :
      SendDoneCase params queues home qp x after (some y)

theorem Queues.Kept.sendDone (there : home x = some (.queue qp)) :
    ∃ after promoted, queues.sendDone params qp x = some (after, promoted) ∧
      SendDoneCase params queues home qp x after promoted ∧
      after.outstanding = queues.outstanding ∧
      after.lists .smpOverflow = queues.lists .smpOverflow := by
  have inside : x ∈ queues.lists (.queue qp) := kept.filed.mem_iff.mpr there
  have shorter : (unfile queues.lists x (.queue qp)).length + 1 = (queues.lists (.queue qp)).length := by
    change ((queues.lists (.queue qp)).erase x).length + 1 = _
    rw [length_erase_of_mem inside]
    have positive := length_pos_of_mem inside
    omega
  have other {list : MadList} (apart : list ≠ .queue qp) :
      unfile queues.lists x list = queues.lists list := by
    apply unfile_of_home kept.filed
    rw [there]
    exact fun equal => apart (some.inj equal).symm
  have count := kept.count
  have gone := kept.filed.unfile x
  unfold Queues.sendDone
  dsimp only
  split_ifs with above
  · rw [other (by simp)]
    have waiting := (kept.overflow_iff qp).mpr above
    have device := kept.full qp waiting
    cases first : queues.lists (.overflow qp) with
    | nil => exact absurd first waiting
    | cons y rest =>
      have home' : home y = some (.overflow qp) := kept.filed.mem_iff.mp (by rw [first]; exact .head _)
      have distinct : y ≠ x := by
        intro equal
        rw [equal, there] at home'
        cases home'
      have still {list : MadList} (apart : list ≠ .overflow qp) :
          unfile (unfile queues.lists x) y list = unfile queues.lists x list := by
        apply unfile_of_home gone
        rw [update_of_ne distinct, home']
        exact fun equal => apart (some.inj equal).symm
      have behind : unfile (unfile queues.lists x) y (.overflow qp) = rest := by
        change (unfile queues.lists x (.overflow qp)).erase y = rest
        rw [other (by simp), first, erase_cons_head]
      refine ⟨_, _, rfl, .promoted y home' ⟨gone.moveLast y _, ?_, ?_, ?_⟩, rfl, ?_⟩
      · intro qp'
        change update queues.count qp (queues.count qp - 1) qp' =
          ((fileLast (unfile (unfile queues.lists x) y) (.queue qp) y (.queue qp')).length : Int) +
            (fileLast (unfile (unfile queues.lists x) y) (.queue qp) y (.overflow qp')).length
        rw [fileLast_of_ne (unfile (unfile queues.lists x) y) (j := .overflow qp') y (by simp)]
        by_cases same : qp' = qp
        · subst same
          have here := count qp'
          rw [first, length_cons] at here
          rw [update_self, fileLast_self, length_append, length_singleton, still (by simp), behind]
          omega
        · rw [update_of_ne same, fileLast_of_ne _ _ (by simp [same]),
            still (by simp), still (by simp [same]), other (by simp [same]),
            other (by simp)]
          exact count qp'
      · intro qp'
        change (fileLast (unfile (unfile queues.lists x) y) (.queue qp) y (.queue qp')).length ≤ _
        by_cases same : qp' = qp
        · subst same
          rw [fileLast_self, length_append, length_singleton, still (by simp), shorter]
          exact kept.active qp'
        · rw [fileLast_of_ne _ _ (by simp [same]), still (by simp), other (by simp [same])]
          exact kept.active qp'
      · intro qp' waiting'
        change fileLast (unfile (unfile queues.lists x) y) (.queue qp) y (.overflow qp') ≠ [] at waiting'
        rw [fileLast_of_ne _ _ (by simp)] at waiting'
        change (fileLast (unfile (unfile queues.lists x) y) (.queue qp) y (.queue qp')).length = _
        by_cases same : qp' = qp
        · subst same
          rw [fileLast_self, length_append, length_singleton, still (by simp), shorter]
          exact device
        · rw [still (by simp [same]), other (by simp)] at waiting'
          rw [fileLast_of_ne _ _ (by simp [same]), still (by simp), other (by simp [same])]
          exact kept.full qp' waiting'
      · change fileLast (unfile (unfile queues.lists x) y) (.queue qp) y .smpOverflow = _
        rw [fileLast_of_ne _ _ (by simp), still (by simp), other (by simp)]
  · have calm : queues.lists (.overflow qp) = [] := by
      by_contra waiting
      exact above ((kept.overflow_iff qp).mp waiting)
    refine ⟨_, _, rfl, .single ⟨gone, ?_, ?_, ?_⟩, rfl, other (by simp)⟩
    · intro qp'
      change update queues.count qp (queues.count qp - 1) qp' =
        ((unfile queues.lists x (.queue qp')).length : Int) + (unfile queues.lists x (.overflow qp')).length
      have overflow : unfile queues.lists x (.overflow qp') = _ := other (by simp)
      rw [overflow]
      by_cases same : qp' = qp
      · subst same
        have here := count qp'
        rw [update_self]
        omega
      · rw [update_of_ne same, other (by simp [same])]
        exact count qp'
    · intro qp'
      change (unfile queues.lists x (.queue qp')).length ≤ _
      by_cases same : qp' = qp
      · subst same
        have bound := kept.active qp'
        omega
      · rw [other (by simp [same])]
        exact kept.active qp'
    intro qp' waiting
    change unfile queues.lists x (.overflow qp') ≠ [] at waiting
    rw [other (by simp)] at waiting
    change (unfile queues.lists x (.queue qp')).length = _
    have apart : qp' ≠ qp := by
      intro same
      subst same
      exact waiting calm
    rw [other (by simp [apart])]
    exact kept.full qp' waiting

theorem Queues.Kept.sweep (keep) : { queues with
      lists := update queues.lists MadList.smpOverflow ((queues.lists .smpOverflow).filter keep) }.Kept params
      fun x => if home x = some MadList.smpOverflow ∧ keep x = false then none else home x := by
  let swept := update queues.lists MadList.smpOverflow ((queues.lists .smpOverflow).filter keep)
  have other {list : MadList} (apart : list ≠ .smpOverflow) : swept list = queues.lists list :=
    update_of_ne apart ..
  refine ⟨kept.filed.keep _ keep, ?_, ?_, ?_⟩
  · intro qp
    change _ = ((swept (.queue qp)).length : Int) + (swept (.overflow qp)).length
    rw [other (by simp), other (by simp)]
    exact kept.count qp
  · intro qp
    change (swept (.queue qp)).length ≤ _
    rw [other (by simp)]
    exact kept.active qp
  · intro qp waiting
    change swept (.overflow qp) ≠ [] at waiting
    change (swept (.queue qp)).length = _
    rw [other (by simp)] at waiting ⊢
    exact kept.full qp waiting

omit kept

end MlnxOfed.Mad
