/-
A whole call of `mlx5_ib_post_send` (`wr.c`): the requests of a list are posted until one is refused, and
the doorbell is rung for those before it.
-/

import MlnxOfed.Qp.SqRuns

namespace MlnxOfed.Qp

open List

/-- The control segment at `ctrl`: of a finished WQE, by its place in `wqes`, or of one only begun. -/
inductive Ctrl where
  | null
  | wqe (index : Nat)
  | unfinished
  deriving DecidableEq

/-- The doorbell record and the control segment that is written to the doorbell. -/
structure Doorbell where
  record : Nat
  ctrl : Ctrl
  deriving DecidableEq

/-- The queue after a call, whether it failed, the place of `*bad_wr` in the list, and the doorbell. -/
structure SendCall where
  sq : Sq
  failed : Bool
  badWr : Option Nat
  doorbell : Option Doorbell

variable (qp : Qp) (sq : Sq)

/-- The checks up to `begin_wqe` pass. -/
def begins (wr : SendWr) : Bool := wrListed qp wr && !wqOverflow qp sq

def accepts (wr : SendWr) : Bool := begins qp sq wr && (buildWr qp wr).accepted

/-- The errors of `handle_qpt_reg_umr` are returned without `*bad_wr`. -/
def setsBadWr (wr : SendWr) : Bool :=
  qp.attr.qpType != .regUmr || (sendOpcode wr.opcode && wr.sigPipelined && !qp.signaturePipeline) ||
    (wr.opcode == .umr && wr.mkeyMaskAllowed)

def ringDoorbell (curPost : Nat) (ctrl : Ctrl) : Option Doorbell :=
  if sq.nreq = 0 then none else some ⟨curPost, ctrl⟩

def refuse (ctrl : Ctrl) (wr : SendWr) : SendCall where
  sq := postSendOne qp sq wr
  failed := true
  badWr := if begins qp sq wr && !setsBadWr qp wr then none else some sq.nreq
  doorbell := ringDoorbell sq (postSendOne qp sq wr).curPost (if begins qp sq wr then .unfinished else ctrl)

def postSendLoop : Sq → Ctrl → List SendWr → SendCall
  | sq, ctrl, [] => ⟨postSendOut sq, false, none, ringDoorbell sq sq.curPost ctrl⟩
  | sq, ctrl, wr :: rest =>
    if accepts qp sq wr then
      postSendLoop (postSendOne qp sq wr) (.wqe ((postSendOne qp sq wr).wqes.length - 1)) rest
    else refuse qp sq ctrl wr

def postSend (wrs : List SendWr) : SendCall :=
  postSendLoop qp { sq with nreq := 0 } .null wrs

/-- The queue where every request of a list was accepted, before the doorbell. -/
def postAll : Sq → List SendWr → Option Sq
  | sq, [] => some sq
  | sq, wr :: rest => if accepts qp sq wr then postAll (postSendOne qp sq wr) rest else none

/-- The first request that is refused, with its place. -/
def firstRefused : Nat → List SendWr → Option (Nat × SendWr)
  | _, [] => none
  | n, wr :: rest =>
    if accepts qp { sq with nreq := n } wr then firstRefused (n + 1) rest else some (n, wr)

/-- A call leaves a queue as its first `n` requests alone, which lead to `posted`: the WQEs up to `cur_post`
are theirs, so that doorbells show the device no other. -/
structure CleanAt (n : Nat) (posted : Sq) (call : SendCall) : Prop where
  badWr : call.badWr = some n
  head : call.sq.head % 2 ^ 32 = (sq.head + n) % 2 ^ 32
  curPost : call.sq.curPost = posted.curPost
  wqes : call.sq.wqes = posted.wqes
  rung : call.sq.rung = if n = 0 then sq.rung else posted.wqes.length
  doorbell : call.doorbell = if n = 0 then none else some ⟨posted.curPost, .wqe (posted.wqes.length - 1)⟩

def CleanPrefix (wrs : List SendWr) : Prop :=
  (postSend qp sq wrs).failed = true → ∃ n wr posted, wrs[n]? = some wr ∧
    postAll qp { sq with nreq := 0 } (wrs.take n) = some posted ∧
    CleanAt sq n posted (postSend qp sq wrs)

/-- The refused request is refused before its WQE is begun, or is the first, with no finished WQE, and the
exit sets `*bad_wr`. -/
def RefusedEarly (wrs : List SendWr) : Prop :=
  ∀ n wr, firstRefused qp sq 0 wrs = some (n, wr) → begins qp { sq with nreq := n } wr = false ∨
      n = 0 ∧ (buildWr qp wr).wqes = [] ∧ setsBadWr qp wr = true

variable {qp : Qp} {sq cur posted : Sq} {wr : SendWr} {wrs : List SendWr} {n m : Nat} {ctrl : Ctrl}

theorem begins_congr (head : cur.head = sq.head) (tail : cur.tail = sq.tail) (nreq : cur.nreq = n) :
    begins qp cur wr = begins qp { sq with nreq := n } wr := by
  unfold begins wqOverflow
  rw [head, tail, nreq]

theorem finishAll_extends (qp : Qp) (sq : Sq) (wr : SendWr) (drafts : List Draft) : ∃ new,
    sq.Extends (drafts.foldl (fun sq draft => finishWqe qp sq wr draft) sq) new ∧
      new.length = drafts.length := by
  induction drafts generalizing sq with
  | nil => exact ⟨[], by simp [Sq.Extends], rfl⟩
  | cons draft drafts ih =>
    obtain ⟨new, more, length⟩ := ih (finishWqe qp sq wr draft)
    exact ⟨_, (finishWqe_extends qp sq wr draft).trans more, congrArg _ length⟩

private theorem postSendOut_curPost (sq) : (postSendOut sq).curPost = sq.curPost := by
  unfold postSendOut
  split <;> rfl

private theorem postSendOut_wqes (sq) : (postSendOut sq).wqes = sq.wqes := by
  unfold postSendOut
  split <;> rfl

/-- A request whose WQE is begun: its finished WQEs follow the others. -/
theorem postSendOne_begun (begun : begins qp sq wr = true) : postSendOne qp sq wr =
    let next := (buildWr qp wr).wqes.foldl (fun sq draft => finishWqe qp sq wr draft) { sq with scratch := 0 }
    if (buildWr qp wr).accepted then { next with nreq := next.nreq + 1, accepted := next.accepted + 1 }
    else postSendOut { next with scratch := blocksOf (buildWr qp wr).rest } := by
  obtain ⟨listed, room⟩ := (Bool.and_eq_true _ _).mp begun
  have going : (!wrListed qp wr || wqOverflow qp { sq with scratch := 0 }) = false := by
    rw [listed, Bool.not_true, Bool.false_or]
    exact (Bool.not_eq_true' _).mp room
  unfold postSendOne
  dsimp only
  rw [going]
  rfl

theorem postSendOne_accepted (ok : accepts qp sq wr = true) :
    (postSendOne qp sq wr).head = sq.head ∧ (postSendOne qp sq wr).tail = sq.tail ∧
      (postSendOne qp sq wr).nreq = sq.nreq + 1 ∧ (postSendOne qp sq wr).rung = sq.rung := by
  obtain ⟨begun, built⟩ := (Bool.and_eq_true _ _).mp ok
  obtain ⟨new, more, _⟩ := finishAll_extends qp { sq with scratch := 0 } wr (buildWr qp wr).wqes
  rw [postSendOne_begun begun, if_pos built, more]
  exact ⟨rfl, rfl, rfl, rfl⟩

theorem postSendOne_refused (begun : begins qp sq wr = true) (refused : accepts qp sq wr = false) :
    postSendOne qp sq wr = postSendOut { (buildWr qp wr).wqes.foldl
      (fun sq draft => finishWqe qp sq wr draft) { sq with scratch := 0 } with
      scratch := blocksOf (buildWr qp wr).rest } := by
  rw [accepts, begun, Bool.true_and] at refused
  rw [postSendOne_begun begun, if_neg (Bool.eq_false_iff.mp refused)]

/-- A request that is refused before one of its WQEs is finished changes nothing. -/
private theorem postSendOne_unfinished (refused : accepts qp sq wr = false)
    (none : begins qp sq wr = false ∨ (buildWr qp wr).wqes = []) :
    ∃ k, postSendOne qp sq wr = postSendOut { sq with scratch := k } := by
  cases begun : begins qp sq wr with
  | false =>
    refine ⟨0, if_pos ?_⟩
    unfold begins at begun
    rw [Bool.and_eq_false_iff, Bool.not_eq_false'] at begun
    rw [Bool.or_eq_true, Bool.not_eq_true']
    exact begun
  | true =>
    have none := none.resolve_left (by rw [begun]; decide)
    rw [postSendOne_refused begun refused, none]
    exact ⟨_, rfl⟩

/-- The call up to the request that it refuses. -/
private theorem postSendLoop_refused (refused : firstRefused qp sq n wrs = some (m, wr)) (cur ctrl)
    (head : cur.head = sq.head) (tail : cur.tail = sq.tail) (nreq : cur.nreq = n) : ∃ posted, n ≤ m ∧
      postAll qp cur (wrs.take (m - n)) = some posted ∧ wrs[m - n]? = some wr ∧ posted.nreq = m ∧
      posted.head = sq.head ∧ posted.tail = sq.tail ∧ posted.rung = cur.rung ∧ accepts qp posted wr = false ∧
      postSendLoop qp cur ctrl wrs =
        refuse qp posted (if m = n then ctrl else .wqe (posted.wqes.length - 1)) wr := by
  induction wrs generalizing cur n ctrl with
  | nil => cases refused
  | cons first rest ih =>
    have same : accepts qp cur first = accepts qp { sq with nreq := n } first := by
      unfold accepts
      rw [begins_congr head tail nreq]
    unfold firstRefused at refused
    unfold postSendLoop
    rw [← same] at refused
    by_cases ok : accepts qp cur first = true
    · rw [if_pos ok] at refused ⊢
      obtain ⟨sameHead, sameTail, sameNreq, sameRung⟩ := postSendOne_accepted ok
      obtain ⟨posted, later, all, get, atNreq, atHead, atTail, atRung, stops, call⟩ :=
        ih refused _ (.wqe ((postSendOne qp cur first).wqes.length - 1)) (sameHead.trans head)
          (sameTail.trans tail) (sameNreq.trans (nreq ▸ rfl))
      obtain ⟨more, rfl⟩ := Nat.exists_eq_add_of_le later
      have places : n + 1 + more - n = more + 1 := by omega
      rw [Nat.add_sub_cancel_left] at all get
      refine ⟨posted, by omega, ?_, ?_, atNreq, atHead, atTail, atRung.trans sameRung, stops, ?_⟩
      · rw [places, take_succ_cons, postAll, if_pos ok]
        exact all
      · rw [places]
        exact get
      rw [call, if_neg (show n + 1 + more ≠ n by omega)]
      cases more with
      | zero =>
        obtain rfl := Option.some.inj all
        rw [if_pos rfl]
      | succ more => rw [if_neg (by omega)]
    · rw [if_neg ok] at refused ⊢
      obtain ⟨rfl, rfl⟩ := Prod.mk.inj (Option.some.inj refused)
      refine ⟨cur, le_rfl, ?_, ?_, nreq, head, tail, rfl, Bool.eq_false_iff.mpr ok, ?_⟩
      · rw [Nat.sub_self]
        rfl
      · rw [Nat.sub_self]
        rfl
      · rw [if_pos rfl]

private theorem postSendLoop_posted (none : firstRefused qp sq n wrs = none) (cur ctrl)
    (head : cur.head = sq.head) (tail : cur.tail = sq.tail) (nreq : cur.nreq = n) : (postSendLoop qp cur ctrl wrs).failed = false := by
  induction wrs generalizing cur n ctrl with
  | nil => rfl
  | cons first rest ih =>
    have same : accepts qp cur first = accepts qp { sq with nreq := n } first := by
      unfold accepts
      rw [begins_congr head tail nreq]
    unfold firstRefused at none
    unfold postSendLoop
    rw [← same] at none
    by_cases ok : accepts qp cur first = true
    · rw [if_pos ok] at none ⊢
      obtain ⟨sameHead, sameTail, sameNreq, _⟩ := postSendOne_accepted ok
      exact ih none _ _ (sameHead.trans head) (sameTail.trans tail) (sameNreq.trans (nreq ▸ rfl))
    · rw [if_neg ok] at none
      cases none

theorem CleanAt.of_out {k call} (head : posted.head = sq.head) (nreq : posted.nreq = n)
    (rung : posted.rung = sq.rung) (out : call.sq = postSendOut { posted with scratch := k })
    (badWr : call.badWr = some n)
    (doorbell : call.doorbell = if n = 0 then none else some ⟨posted.curPost, .wqe (posted.wqes.length - 1)⟩) :
    CleanAt sq n posted call := by
  unfold postSendOut at out
  by_cases first : n = 0
  · rw [if_pos (nreq.trans first)] at out
    refine ⟨badWr, ?_, ?_, ?_, ?_, doorbell⟩ <;> rw [out]
    · rw [first, Nat.add_zero, ← head]
    · rw [if_pos first, ← rung]
  · rw [if_neg (nreq ▸ first)] at out
    refine ⟨badWr, ?_, ?_, ?_, ?_, doorbell⟩ <;> rw [out]
    · rw [← head, ← nreq, Nat.mod_mod]
    · rw [if_neg first]

/-- A failed call leaves a clean prefix exactly when the refused request is refused early. -/
theorem failed_post_clean_iff (qp : Qp) (sq : Sq) (wrs : List SendWr) :
    CleanPrefix qp sq wrs ↔ RefusedEarly qp sq wrs := by
  cases refused : firstRefused qp sq 0 wrs with
  | none =>
    have whole := postSendLoop_posted refused { sq with nreq := 0 } .null rfl rfl rfl
    refine iff_of_true (fun failed => ?_) fun n wr some => ?_
    · cases whole.symm.trans failed
    · cases refused.symm.trans some
  | some at' =>
    obtain ⟨n, wr⟩ := at'
    obtain ⟨posted, _, all, get, nreq, head, tail, rung, stops, call⟩ :=
      postSendLoop_refused refused { sq with nreq := 0 } .null rfl rfl rfl
    rw [Nat.sub_zero] at all get
    change postSend qp sq wrs = _ at call
    have begun : begins qp posted wr = begins qp { sq with nreq := n } wr := begins_congr head tail nreq
    constructor
    · intro clean other wr' same
      obtain ⟨rfl, rfl⟩ := Prod.mk.inj (Option.some.inj (refused.symm.trans same))
      rw [← begun]
      by_cases begin' : begins qp posted wr = true
      · obtain ⟨n', wr', posted', get', all', clean⟩ := clean (by rw [call]; rfl)
        rw [call] at clean
        have bad : (if begins qp posted wr && !setsBadWr qp wr then none else some posted.nreq) = some n' :=
          clean.badWr
        have sets : setsBadWr qp wr = true := by
          by_contra unset
          rw [begin', Bool.eq_false_iff.mpr unset] at bad
          cases bad
        rw [sets, Bool.not_true, Bool.and_false, nreq] at bad
        obtain rfl := Option.some.inj bad
        obtain rfl := Option.some.inj (all.symm.trans all')
        have wqes : (postSendOne qp posted wr).wqes = posted.wqes := clean.wqes
        obtain ⟨new, more, length⟩ := finishAll_extends qp { posted with scratch := 0 } wr (buildWr qp wr).wqes
        rw [postSendOne_refused begin' stops, postSendOut_wqes, more] at wqes
        have none : new = [] := append_right_eq_self.mp wqes
        rw [none] at length
        refine .inr ⟨?_, length_eq_zero_iff.mp length.symm, sets⟩
        by_contra later
        have doorbell := clean.doorbell
        unfold refuse ringDoorbell at doorbell
        dsimp only at doorbell
        rw [begin', if_pos rfl, nreq, if_neg later, if_neg later] at doorbell
        cases congrArg Doorbell.ctrl (Option.some.inj doorbell)
      · exact .inl (Bool.eq_false_iff.mpr begin')
    · intro early failed
      refine ⟨n, wr, posted, get, all, ?_⟩
      have early := early n wr refused
      rw [← begun] at early
      obtain ⟨k, out⟩ := postSendOne_unfinished stops (early.imp_right fun late => late.2.1)
      rw [call]
      refine CleanAt.of_out head nreq rung out ?_ ?_
      · unfold refuse
        rcases early with stays | ⟨_, _, sets⟩
        · rw [stays, nreq]
          rfl
        · rw [sets, nreq, Bool.not_true, Bool.and_false]
          rfl
      · unfold refuse ringDoorbell
        rw [nreq, out, postSendOut_curPost]
        by_cases first : n = 0
        · rw [if_pos first, if_pos first]
        · rw [if_neg first, if_neg first, if_neg first, early.resolve_right fun late => first late.1]
          rfl

def twoPosts : Qp := { rcQp false ⟨192, 8, 2, 10, 56⟩ with attr.maxSendWr := 2 }

example : calcSqSize twoPosts.attr ⟨1024, 15⟩ = some twoPosts.size := by decide +kernel

/-- The doorbell for a posted send is rung with the control segment of the atomic after it. -/
theorem atomic_rings_unfinished : ¬ CleanPrefix twoPosts Sq.initial
    [plainWr 1 .send, plainWr 2 .atomicCmpAndSwp] := by
  intro clean
  obtain ⟨n, wr, posted, get, all, left⟩ := clean (by decide +kernel)
  have rung : (postSend twoPosts Sq.initial
      [plainWr 1 .send, plainWr 2 .atomicCmpAndSwp]).doorbell = some ⟨1, .unfinished⟩ := by decide +kernel
  have doorbell := left.doorbell
  rw [rung] at doorbell
  by_cases first : n = 0
  · rw [if_pos first] at doorbell
    cases doorbell
  · rw [if_neg first] at doorbell
    cases congrArg Doorbell.ctrl (Option.some.inj doorbell)

end MlnxOfed.Qp
