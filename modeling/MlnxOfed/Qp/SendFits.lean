/-
When the WQEs of one request fit the room that `calc_sq_size` kept for it. The overflow test counts
requests, so nothing else protects the blocks of the next one.
-/

import MlnxOfed.Qp.SqRoom

namespace MlnxOfed.Qp

open List Built

/-- No sum that `set_data_inl_seg` forms leaves the range of an `int`. -/
def InlineSums (maxInlineData : Int) : Nat → List Nat → Prop
  | _, [] => True
  | inl, length :: rest =>
    inl + length < 2 ^ 31 ∧
      (((inl + length : Nat) : Int) ≤ maxInlineData → InlineSums maxInlineData (inl + length) rest)

/-- `set_pi_umr_wr` accepts the request. -/
def SendWr.integrityAllowed (wr : SendWr) (integrityEn : Bool) : Bool :=
  wr.piUmrAllowed integrityEn && wr.protSized && wr.typesKnown

/-- The request gets to its UMR control segment. Behind an XRC segment that has bytes 32 to 80 of the WQE: it
passes the end of a block, and where that ends a fragment of the buffer `handle_post_send_edge` does not see
it and the rest is written behind the fragment. -/
def SendWr.writesUmr (wr : SendWr) (integrityEn : Bool) : Bool :=
  match wr.opcode with
  | .localInv => true
  | .regMr => wr.canUseUmr && !wr.isInline
  | .regMrIntegrity => if wr.piMr.isSome then wr.canUseUmr else wr.piUmrAllowed integrityEn
  | _ => false

/-- A registration with integrity is not signaled and is accepted or rejected as a whole, with room for the
WQE that registers the PI MR. -/
structure SendWr.IntegrityFits (qp : Qp) (wr : SendWr) : Prop where
  quiet : wr.piMr = none ∨ wr.canUseUmr = true → wr.integrityAllowed qp.attr.integrityEn = true →
    wr.signaled = false ∧ qp.attr.signalAll = false
  whole : wr.piMr ≠ none → wr.canUseUmr = true → wr.integrityAllowed qp.attr.integrityEn = true
  room : ∀ mr, wr.piMr = some mr → wr.canUseUmr = true → mr.listSize = 0 ∨ 576 ≤ qp.size.wqeSize

structure SendWr.Fits (qp : Qp) (wr : SendWr) : Prop where
  inlined : wr.isInline = true → InlineSums qp.size.maxInlineData 0 wr.sgList
  edge : qp.attr.qpType = .xrcIni → wr.writesUmr qp.attr.integrityEn = false
  integrity : qp.attr.qpType = .rc → wr.opcode = .regMrIntegrity → wr.IntegrityFits qp

structure Built.Fit (qp : Qp) (built : Built) : Prop where
  within : ∀ draft ∈ built.wqes, 0 < draft.blocks ∧ blocksOf draft.touched ≤ draft.blocks
  room : (built.wqes.map Draft.blocks).sum + blocksOf built.rest ≤ qp.size.wqeSize / 64
  whole : built.accepted = false → built.wqes = []
  done : built.accepted = true → built.wqes ≠ [] ∧ built.rest = 0
  single : (∃ draft, built.wqes = [draft]) ∨ ∀ draft ∈ built.wqes, (draft.signaled || qp.attr.signalAll) = false

variable {qp : Qp} {wr : SendWr}

theorem blocks_of_units (size : Nat) (short : size < 256) (touched : Nat) (signaled : Bool) :
    Draft.blocks ⟨size, touched, signaled⟩ = blocksOf size := by
  unfold Draft.blocks blocksOf
  have same : ((size : Int) % 256).toNat = size := by omega
  rw [same]

variable (fit : qp.size.Fitting qp.attr)

include fit

theorem Built.Fit.rejected {rest} (room : rest * 16 ≤ qp.size.wqeSize) : Fit qp ⟨[], rest, false⟩ := by
  refine ⟨by simp, ?_, by simp, by simp, by simp⟩
  have blocks := fit.blocks
  simp only [map_nil, sum_nil, blocksOf, mlx5SendWqeBb]
  omega

variable {size : Nat}

theorem Built.Fit.one (some : 0 < size) (room : size * 16 ≤ qp.size.wqeSize) (signaled) :
    Fit qp ⟨[⟨size, size, signaled⟩], 0, true⟩ := by
  have blocks := fit.blocks
  have short := fit.short
  have eq := blocks_of_units size (by omega) size signaled
  refine ⟨?_, ?_, by simp, by simp, .inl ⟨_, rfl⟩⟩
  · intro draft isDraft
    rw [mem_singleton.mp isDraft, eq]
    simp only [blocksOf, mlx5SendWqeBb]
    omega
  · simp only [map_cons, map_nil, sum_singleton, eq, blocksOf, mlx5SendWqeBb]
    omega

variable {sgList : List Nat}

omit fit in
private theorem copyInline_fits {maxInlineData} (short : maxInlineData < 4096) {inl}
    (sums : InlineSums maxInlineData inl sgList) (below : (inl) ≤ maxInlineData) :
    (∃ copied, copyInline maxInlineData inl inl sgList = .error copied ∧ (copied) ≤ maxInlineData) ∨
      ∃ copied : Nat, copyInline maxInlineData inl inl sgList = .ok (copied, copied) ∧
        (copied) ≤ maxInlineData := by
  induction sgList generalizing inl with
  | nil => exact .inr ⟨inl, rfl, below⟩
  | cons length rest ih =>
    obtain ⟨bounded, later⟩ := sums
    have sum : toInt ((inl : Int) + length) = ((inl + length : Nat) : Int) := by
      rw [toInt_of_small (by omega) (by omega)]
      omega
    simp only [copyInline, sum]
    split
    · exact .inl ⟨inl, rfl, below⟩
    next inside => exact ih (later (by omega)) (by omega)

omit fit in
private theorem inline_units {copied : Nat} (short : copied < 4096) :
    toSizeT ((copied) + wqeInlineSeg + 15) / 16 = units (wqeInlineSeg + copied) := by
  have bytes : toSizeT ((copied : Int) + wqeInlineSeg + 15) = copied + 4 + 15 := by
    unfold toSizeT wqeInlineSeg
    omega
  rw [bytes]
  unfold units wqeInlineSeg
  omega

private theorem buildData_fit (some : 0 < size) (room : size * 16 ≤ qp.size.wqeSize)
    (header : sgList ≠ [] → size * 16 ≤ qp.attr.qpType.header) (listed : (sgList.length : Int) ≤ qp.size.maxGs)
    (inlined : wr.isInline = true → InlineSums qp.size.maxInlineData 0 sgList) :
    Fit qp (buildData qp.size.maxInlineData wr sgList size) := by
  have blocks := fit.blocks
  have short := fit.short
  have wide := fit.inlined
  unfold buildData
  split
  next isInline =>
    have head := header isInline.2
    have one : 1 ≤ sgList.length := length_pos_iff.mpr isInline.2
    have nonneg := fit.some (by omega)
    rcases copyInline_fits (by omega) (inlined isInline.1) nonneg with ⟨copied, eq, below⟩ | ⟨copied, eq, below⟩
    · rw [show ((0 : Nat) : Int) = 0 from rfl] at eq
      rw [eq]
      refine Fit.rejected fit ?_
      simp only [units, wqeInlineSeg]
      omega
    rw [show ((0 : Nat) : Int) = 0 from rfl] at eq
    rw [eq]
    have added := inline_units (show copied < 4096 by omega)
    have total : (size + units (wqeInlineSeg + copied)) * 16 ≤ qp.size.wqeSize := by
      simp only [units, wqeInlineSeg]
      omega
    have exact : toInt ((size : Int) + (units (wqeInlineSeg + copied) : Nat)) =
        ((size + units (wqeInlineSeg + copied) : Nat) : Int) := by
      rw [toInt_of_small (by omega) (by omega)]
      omega
    dsimp only
    rw [added, exact]
    exact Fit.one fit (Nat.add_pos_left some _) total wr.signaled
  next =>
    have few : (sgList.filter (· ≠ 0)).length ≤ sgList.length := length_filter_le _ _
    refine Fit.one fit (by omega) ?_ wr.signaled
    rcases eq_nil_or_concat sgList with rfl | ⟨front, last, rfl⟩
    · simpa using room
    · have head := header (by simp)
      have segments := fit.segments
      omega

/-! ### Registrations -/

omit fit in
theorem setRegWr_room {mr canUseUmr isInline size result}
    (set : setRegWr mr canUseUmr isInline size = some result) :
    canUseUmr = true ∧ isInline = false ∧ 0 < result ∧
      (size ≤ 1 → result ≤ 12 ∧ (mr.listSize = 0 → result ≤ 8)) := by
  unfold setRegWr at set
  split at set
  · cases set
  next can =>
    split at set
    · cases set
    next notInline =>
      refine ⟨by simpa using can, by simpa using notInline, ?_⟩
      split at set
      next within =>
        rw [← Option.some.inj set]
        simp only [units, wqeUmrCtrlSeg, mkeySeg, mlx5IbSqUmrInlineThreshold] at within ⊢
        omega
      next beyond =>
        rw [← Option.some.inj set]
        simp only [wqeUmrCtrlSeg, mkeySeg, wqeDataSeg, mlx5IbSqUmrInlineThreshold] at beyond ⊢
        omega

omit fit in
private theorem setPiUmrWr_cases (wr integrityEn size) : (∃ touched, setPiUmrWr wr integrityEn size = .error touched ∧
        wr.integrityAllowed integrityEn = false ∧ (touched = size ∨ integrityEn = true ∧ touched ≤ size + 15)) ∨
      (setPiUmrWr wr integrityEn size = .ok (size + 15) ∧ wr.integrityAllowed integrityEn = true ∧
        integrityEn = true ∧ wr.memType ≠ .other ∧ wr.wireType ≠ .other) := by
  unfold setPiUmrWr SendWr.integrityAllowed
  cases allowed : wr.piUmrAllowed integrityEn with
  | false => exact .inl ⟨size, by simp⟩
  | true =>
    have enabled : integrityEn = true := by
      unfold SendWr.piUmrAllowed at allowed
      simp only [Bool.and_eq_true] at allowed
      exact allowed.1.2
    cases sized : wr.protSized with
    | false =>
      refine .inl ⟨size + wqeUmrCtrlSeg / 16 + mkeySeg / 16, by simp, by simp, .inr ⟨enabled, ?_⟩⟩
      simp only [wqeUmrCtrlSeg, mkeySeg]
      omega
    | true =>
      cases known : wr.typesKnown with
      | false =>
        refine .inl ⟨size + wqeUmrCtrlSeg / 16 + mkeySeg / 16 + mlx5SendWqeBb / 16 + bsfUnits, by simp, by simp,
          .inr ⟨enabled, ?_⟩⟩
        simp only [wqeUmrCtrlSeg, mkeySeg, mlx5SendWqeBb, bsfUnits]
        omega
      | true =>
        unfold SendWr.typesKnown at known
        simp only [Bool.and_eq_true, bne_iff_ne] at known
        exact .inr ⟨by simp [wqeUmrCtrlSeg, mkeySeg, mlx5SendWqeBb, bsfUnits], by simp, enabled, known.1, known.2⟩

omit fit in
theorem Built.Fit.quiet (quiet : wr.signaled = false ∧ qp.attr.signalAll = false) {first second}
    {front} (isFront : front = [] ∧ first = 0 ∨ front = [wr.draft first] ∧ 0 < first)
    (short : first < 256) (some : 0 < second) (small : second < 256)
    (room : blocksOf first + blocksOf second + 2 ≤ qp.size.wqeSize / 64) :
    Fit qp ⟨front ++ [wr.draft second] ++ [⟨psvUnits, psvUnits, false⟩, ⟨psvUnits, psvUnits, false⟩], 0, true⟩ := by
  have psv : Draft.blocks ⟨psvUnits, psvUnits, false⟩ = 1 := rfl
  have eqSecond : (wr.draft second).blocks = blocksOf second := blocks_of_units second small second wr.signaled
  have eqFirst : (wr.draft first).blocks = blocksOf first := blocks_of_units first short first wr.signaled
  have unsignaled : ∀ size, ((wr.draft size).signaled || qp.attr.signalAll) = false := by
    intro size
    rw [quiet.2]
    simpa [SendWr.draft] using quiet.1
  have pos size (nonzero : 0 < size) : 0 < blocksOf size := by
    simp only [blocksOf, mlx5SendWqeBb]
    omega
  have psvQuiet : (false || qp.attr.signalAll) = false := by rw [quiet.2]; rfl
  rcases isFront with ⟨rfl, rfl⟩ | ⟨rfl, nonzero⟩
  · refine ⟨?_, ?_, by simp, by simp, .inr ?_⟩
    · intro draft isDraft
      simp only [nil_append, cons_append, mem_cons, not_mem_nil, or_false, or_self] at isDraft
      rcases isDraft with rfl | rfl
      · rw [eqSecond]
        exact ⟨pos second some, le_rfl⟩
      · exact ⟨by decide, by decide⟩
    · simp only [nil_append, cons_append, map_cons, map_nil, sum_cons, sum_nil, psv, eqSecond]
      have none : blocksOf 0 = 0 := rfl
      omega
    · intro draft isDraft
      simp only [nil_append, cons_append, mem_cons, not_mem_nil, or_false, or_self] at isDraft
      rcases isDraft with rfl | rfl
      · exact unsignaled second
      · exact psvQuiet
  · refine ⟨?_, ?_, by simp, by simp, .inr ?_⟩
    · intro draft isDraft
      simp only [nil_append, cons_append, mem_cons, not_mem_nil, or_false, or_self] at isDraft
      rcases isDraft with rfl | rfl | rfl
      · rw [eqFirst]
        exact ⟨pos first nonzero, le_rfl⟩
      · rw [eqSecond]
        exact ⟨pos second some, le_rfl⟩
      · exact ⟨by decide, by decide⟩
    · simp only [nil_append, cons_append, map_cons, map_nil, sum_cons, sum_nil, psv, eqFirst, eqSecond]
      have none : blocksOf 0 = 0 := rfl
      omega
    · intro draft isDraft
      simp only [nil_append, cons_append, mem_cons, not_mem_nil, or_false, or_self] at isDraft
      rcases isDraft with rfl | rfl | rfl
      · exact unsignaled first
      · exact unsignaled second
      · exact psvQuiet

omit fit in
theorem SendWr.IntegrityFits.piBlocks (fits : wr.IntegrityFits qp) {first mr}
    (isPi : wr.piMr = some mr) (set : setRegWr mr wr.canUseUmr false 1 = some first)
    (sig : 512 ≤ qp.size.wqeSize) :
    first < 256 ∧ blocksOf first + blocksOf (ctrlUnits + 15) + 2 ≤ qp.size.wqeSize / 64 := by
  obtain ⟨can, _notInline, _nonzero, narrow⟩ := setRegWr_room set
  have twelve := narrow le_rfl
  have least : first ≤ 8 ∨ first ≤ 12 ∧ 576 ≤ qp.size.wqeSize := by
    rcases fits.room mr isPi can with empty | large
    · exact .inl (twelve.2 empty)
    · exact .inr ⟨twelve.1, large⟩
  clear narrow twelve
  have four : blocksOf (ctrlUnits + 15) = 4 := rfl
  rw [four]
  unfold blocksOf mlx5SendWqeBb
  omega

private theorem handleRegMrIntegrity_fit (fits : wr.IntegrityFits qp) (rc : qp.attr.qpType = .rc) :
    Fit qp (handleRegMrIntegrity wr qp.attr.integrityEn 1) := by
  have register : 192 ≤ qp.size.wqeSize := fit.register (.inl rc)
  have blocks := fit.blocks
  have integrity := fit.integrity
  unfold handleRegMrIntegrity
  cases isPi : wr.piMr with
  | none =>
    dsimp only
    rcases setPiUmrWr_cases wr qp.attr.integrityEn 1 with
      ⟨touched, eq, _denied, same | ⟨enabled, near⟩⟩ | ⟨eq, ok, enabled, mem, wire⟩
    · rw [eq]
      exact Fit.rejected fit (by omega)
    · rw [eq]
      have wide := integrity enabled
      exact Fit.rejected fit (by omega)
    rw [eq]
    dsimp only
    rw [if_neg mem, if_neg wire]
    have wide := integrity enabled
    refine Fit.quiet (fits.quiet (.inl isPi) ok) (.inl ⟨rfl, rfl⟩) (by decide) (by omega) (by omega) ?_
    simp only [blocksOf, mlx5SendWqeBb]
    omega
  | some mr =>
    dsimp only
    cases set : setRegWr mr wr.canUseUmr false 1 with
    | none => exact Fit.rejected fit (by omega)
    | some first =>
      obtain ⟨can, _notInline, nonzero, _narrow⟩ := setRegWr_room set
      have all := fits.whole (by simp [isPi]) can
      dsimp only
      rcases setPiUmrWr_cases wr qp.attr.integrityEn ctrlUnits with
        ⟨touched, eq, denied, _near⟩ | ⟨eq, ok, enabled, mem, wire⟩
      · rw [all] at denied
        cases denied
      rw [eq]
      dsimp only
      rw [if_neg mem, if_neg wire]
      have room := fits.piBlocks isPi set (integrity enabled)
      exact Fit.quiet (fits.quiet (.inr can) ok) (.inr ⟨rfl, nonzero⟩) room.1 (by decide)
        (by decide) room.2

omit fit in
private theorem setRegWr_edge {size} (idle : (wr.canUseUmr && !wr.isInline) = false) (mr) :
    setRegWr mr wr.canUseUmr wr.isInline size = none := by
  cases can : wr.canUseUmr with
  | false => rfl
  | true =>
    rw [can, Bool.true_and, Bool.not_eq_false'] at idle
    rw [idle]
    rfl

omit fit in
private theorem handleRegMrIntegrity_edge {integrityEn}
    (idle : (if wr.piMr.isSome then wr.canUseUmr else wr.piUmrAllowed integrityEn) = false) :
    handleRegMrIntegrity wr integrityEn size = ⟨[], size, false⟩ := by
  unfold handleRegMrIntegrity
  cases isPi : wr.piMr with
  | none =>
    have denied : wr.piUmrAllowed integrityEn = false := by simpa [isPi] using idle
    simp [setPiUmrWr, denied]
  | some mr =>
    have denied : wr.canUseUmr = false := by simpa [isPi] using idle
    simp [setRegWr, denied]

private theorem buildWqe_fit (plain : qp.attr.Plain) (listed : wrListed qp wr = true)
    (fits : wr.Fits qp) : Fit qp (buildWqe qp wr) := by
  unfold wrListed at listed
  simp only [Bool.and_eq_true, decide_eq_true_eq] at listed
  have short : (wr.sgList.length : Int) ≤ qp.size.maxGs := listed.2
  have header := fit.header
  have data size (some : 0 < size) (within : size * 16 ≤ qp.attr.qpType.header) : Fit qp
      (buildData qp.size.maxInlineData wr wr.sgList size) := by
    exact buildData_fit fit some (by omega) (fun _ => within) short fits.inlined
  have bare size (some : 0 < size) (within : size * 16 ≤ qp.size.wqeSize) : Fit qp
      (buildData qp.size.maxInlineData wr [] size) := by
    exact buildData_fit fit some within (by simp) (by simp only [length_nil]; omega) (fun _ => trivial)
  have rejected size (within : size * 16 ≤ qp.size.wqeSize) : Fit qp ⟨[], size, false⟩ := by
    exact Fit.rejected fit within
  have isSize : qp.attr.qpType = .rc ∧ ctrlUnits + (if qp.attr.qpType = .xrcIni then wqeXrcSeg / 16 else 0) = 1 ∨
      qp.attr.qpType = .xrcIni ∧ ctrlUnits + (if qp.attr.qpType = .xrcIni then wqeXrcSeg / 16 else 0) = 2 ∨
      qp.attr.qpType ≠ .rc ∧ qp.attr.qpType ≠ .xrcIni := by
    cases qp.attr.qpType <;> decide
  unfold buildWqe
  dsimp only
  -- the size before the switch on the opcode is 1 or 2, by the type
  generalize ctrlUnits + (if qp.attr.qpType = .xrcIni then wqeXrcSeg / 16 else 0) = size at isSize ⊢
  obtain ⟨known, noLso⟩ := plain
  cases type : qp.attr.qpType with
  | rc | xrcIni =>
    have within : size * 16 + 16 ≤ qp.attr.qpType.header ∧ 0 < size ∧ size ≤ 2 := by
      rw [type] at isSize ⊢
      simp [QpType.header] at isSize ⊢
      omega
    have connected : qp.attr.qpType = .rc ∨ qp.attr.qpType = .xrcIni := by simp [type]
    have register := fit.register connected
    have isKind : qp.attr.qpType = .rc ∧ size = 1 ∨ qp.attr.qpType = .xrcIni ∧ size = 2 := by
      rcases isSize with rc | xrc | neither
      · exact .inl rc
      · exact .inr xrc
      · exact absurd connected (not_or.mpr neither)
    cases opcode : wr.opcode with
    | rdmaRead | rdmaWrite | rdmaWriteWithImm =>
      refine data _ (Nat.succ_pos _) ?_
      simp only [wqeRaddrSeg]
      omega
    | atomicCmpAndSwp | atomicFetchAndAdd | maskedAtomicCmpAndSwp => exact rejected _ (by omega)
    | localInv =>
      refine bare _ (Nat.succ_pos _) ?_
      simp only [wqeUmrCtrlSeg, mkeySeg]
      omega
    | regMr =>
      dsimp only
      cases set : setRegWr wr.mr wr.canUseUmr wr.isInline size with
      | none => exact rejected _ (by omega)
      | some res =>
        obtain ⟨_can, _notInline, nonzero, narrow⟩ := setRegWr_room set
        refine bare _ nonzero ?_
        rcases isKind with ⟨_rc, rfl⟩ | ⟨xrc, _two⟩
        · have twelve := (narrow le_rfl).1
          omega
        have idle := fits.edge xrc
        simp only [SendWr.writesUmr, opcode] at idle
        rw [setRegWr_edge idle] at set
        cases set
    | regMrIntegrity =>
      rcases isKind with ⟨rc, rfl⟩ | ⟨xrc, _two⟩
      · exact handleRegMrIntegrity_fit fit (fits.integrity rc opcode) rc
      have idle := fits.edge xrc
      simp only [SendWr.writesUmr, opcode] at idle
      dsimp only
      rw [handleRegMrIntegrity_edge idle]
      exact rejected _ (by omega)
    | send | lso | sendWithImm | maskedAtomicFetchAndAdd | sendWithInv | umr | other | beyond =>
      exact data _ within.2.1 (by omega)
  | uc =>
    rw [type] at data
    dsimp only
    split
    · exact data _ (by decide) (by decide)
    · exact data _ (by decide) (by decide)
    · exact data _ (by decide) (by decide)
  | ud =>
    rw [type] at data
    simp only [noLso]
    exact data _ (by decide) (by decide)
  | regUmr =>
    rw [type] at data header
    dsimp only
    split
    · exact rejected _ (le_trans (by decide) header)
    · split
      · exact rejected _ (le_trans (by decide) header)
      · exact data _ (by decide) (by decide)
  | smi | xrcTgt | hwGsi | swCnak | other =>
    rw [type] at known
    simp at known

theorem buildWr_fit (plain : qp.attr.Plain) (listed : wrListed qp wr = true)
    (fits : wr.Fits qp) : Fit qp (buildWr qp wr) := by
  unfold buildWr
  split
  · refine Fit.rejected fit (le_trans ?_ fit.header)
    cases qp.attr.qpType <;> decide
  · exact buildWqe_fit fit plain listed fits

omit fit

end MlnxOfed.Qp
