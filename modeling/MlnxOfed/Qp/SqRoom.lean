/-
What `calc_sq_size` promises: the room every kind of request finds in the size computed for one, and the
number of requests for which the queue has that room.
-/

import MlnxOfed.Qp.PostSend

namespace MlnxOfed.Qp

open Option

variable {value : Int}

theorem toInt_of_small (low : -2 ^ 31 ≤ value) (high : value < 2 ^ 31) : toInt value = value := by
  unfold toInt
  rw [Int.bmod_def]
  omega

theorem toSizeT_of_small (low : 0 ≤ value) (high : value < 2 ^ 64) : toSizeT value = value.toNat := by
  unfold toSizeT
  rw [Int.emod_eq_of_lt low high]

private theorem toU32_of_small (low : 0 ≤ value) (high : value < 2 ^ 32) : toU32 value = value.toNat := by
  unfold toU32
  rw [Int.emod_eq_of_lt low high]

def QpType.header : QpType → Nat
  | .rc => 32
  | .xrcIni => 48
  | .uc | .regUmr => 128
  | _ => 64

def QpInitAttr.Plain (attr : QpInitAttr) : Prop :=
  (attr.qpType = .rc ∨ attr.qpType = .xrcIni ∨ attr.qpType = .uc ∨ attr.qpType = .ud ∨ attr.qpType = .regUmr) ∧
    attr.ipoibUdLso = false

instance (attr : QpInitAttr) : Decidable attr.Plain := inferInstanceAs (Decidable (_ ∧ _))

variable {attr : QpInitAttr} {caps : SqCaps} {size : SqSize}

theorem sqOverhead_plain (plain : attr.Plain) : ∃ overhead, sqOverhead attr = some overhead ∧
    attr.qpType.header ≤ overhead ∧ overhead ≤ 148 ∧
    (attr.qpType = .rc ∨ attr.qpType = .xrcIni → 132 ≤ overhead) ∧
    (overhead = attr.qpType.header ∨ 132 ≤ overhead) := by
  obtain ⟨rc | xrc | uc | ud | umr, noLso⟩ := plain
  · exact ⟨132, by simp [sqOverhead, rc]; decide, by rw [rc]; decide, by decide, fun _ => by decide, .inr (by decide)⟩
  · exact ⟨148, by simp [sqOverhead, xrc]; decide, by rw [xrc]; decide, by decide, fun _ => by decide, .inr (by decide)⟩
  · exact ⟨128, by simp [sqOverhead, uc]; decide, by rw [uc]; decide, by decide, by simp [uc], .inl (by rw [uc]; rfl)⟩
  · exact ⟨64, by simp [sqOverhead, ud, noLso]; decide, by rw [ud]; decide, by decide, by simp [ud], .inl (by rw [ud]; rfl)⟩
  · exact ⟨128, by simp [sqOverhead, umr]; decide, by rw [umr]; decide, by decide, by simp [umr], .inl (by rw [umr]; rfl)⟩

variable {overhead : Nat}

theorem calcSqSize_eq (sized : calcSqSize attr caps = some size) (asked : attr.maxSendWr ≠ 0)
    (overheadIs : sqOverhead attr = some overhead) : ∃ rounded, 0 ≤ calcSendWqe attr overhead ∧
      roundupPowOfTwo (toU32 (attr.maxSendWr * calcSendWqe attr overhead)) = some rounded ∧
      attr.maxSendSge ≤ toU32 (getSendSge attr overhead (calcSendWqe attr overhead)) ∧
      0 ≤ toInt rounded ∧ calcSendWqe attr overhead ≤ caps.maxWqeSzSq ∧
      (toInt rounded).tdiv mlx5SendWqeBb ≤ 2 ^ caps.logMaxQpSz ∧
      size =
        { wqeSize := (calcSendWqe attr overhead).toNat
          wqeCnt := ((toInt rounded).tdiv mlx5SendWqeBb).toNat
          maxPost := ((toInt rounded).tdiv (calcSendWqe attr overhead)).toNat
          maxGs := getSendSge attr overhead (calcSendWqe attr overhead)
          maxInlineData := calcSendWqe attr overhead - overhead - wqeInlineSeg } := by
  simp only [calcSqSize, asked, if_false, overheadIs] at sized
  split at sized
  · cases sized
  next nonneg =>
    split at sized
    · cases sized
    next narrow =>
      split at sized
      next => cases sized
      next rounded round =>
        split at sized
        · cases sized
        next short =>
          split at sized
          · cases sized
          next sge =>
            split at sized
            · cases sized
            next pos =>
              exact ⟨rounded, by omega, round, by omega, by omega, by omega, by omega, (some.inj sized).symm⟩

private theorem toInt_lt (value) : toInt value < 2 ^ 31 := by
  unfold toInt
  rw [Int.bmod_def]
  omega

theorem calcSendWqe_eq (attr : QpInitAttr) (overhead : Nat) : ∃ need : Int,
    toInt (overhead + attr.maxSendSge * wqeDataSeg) ≤ need ∧ need < 2 ^ 31 ∧
    calcSendWqe attr overhead =
      if attr.integrityEn ∧ alignInt need 64 < 512 then 512 else alignInt need 64 := by
  refine ⟨_, Int.le_max_right _ _, ?_, rfl⟩
  refine Int.max_lt.mpr ⟨?_, toInt_lt _⟩
  split
  · exact toInt_lt _
  · decide

theorem alignInt_cases {need} (high : need < 2 ^ 31) (low : -2 ^ 31 ≤ need) :
    (∃ units : Int, alignInt need 64 = units * 64) ∧ (need ≤ alignInt need 64 ∨ alignInt need 64 < 0) := by
  unfold alignInt toInt
  rw [Int.bmod_def]
  refine ⟨⟨((need + 64 - 1) / 64 * 64).bmod (2 ^ 32) / 64, ?_⟩, ?_⟩
  · rw [Int.bmod_def]
    omega
  · omega

theorem calcSendWqe_blocks (attr overhead) : ∃ units : Int, calcSendWqe attr overhead = units * 64 := by
  obtain ⟨need, more, high, eq⟩ := calcSendWqe_eq attr overhead
  rw [eq]
  split
  · exact ⟨8, rfl⟩
  · refine (alignInt_cases high ?_).1
    refine Int.le_trans ?_ more
    unfold toInt
    rw [Int.bmod_def]
    omega

private theorem calcSendWqe_integrity (attr overhead) (integrity : attr.integrityEn = true) :
    512 ≤ calcSendWqe attr overhead := by
  obtain ⟨need, _more, _high, eq⟩ := calcSendWqe_eq attr overhead
  rw [eq]
  split
  · decide
  next wide =>
    have aligned := not_and.mp wide integrity
    omega

private theorem calcSendWqe_overhead (low : overhead ≤ 148) (few : attr.maxSendSge ≤ 2 ^ 20)
    (nonneg : 0 ≤ calcSendWqe attr overhead) : (overhead) ≤ calcSendWqe attr overhead := by
  have size : toInt (overhead + attr.maxSendSge * wqeDataSeg) = overhead + attr.maxSendSge * wqeDataSeg := by
    refine toInt_of_small ?_ ?_ <;> simp only [wqeDataSeg] <;> omega
  obtain ⟨need, more, high, eq⟩ := calcSendWqe_eq attr overhead
  rw [size] at more
  simp only [wqeDataSeg] at more
  rw [eq] at nonneg ⊢
  split
  · omega
  next wide =>
    rw [if_neg wide] at nonneg
    rcases (alignInt_cases high (by omega)).2 with above | below
    · omega
    · omega

/-- WQE and completion formats: the size of a WQE fits a `u8` and a position a `u16`. -/
structure SqCaps.Narrow (caps : SqCaps) : Prop where
  wqe : caps.maxWqeSzSq < 4096
  queue : caps.logMaxQpSz ≤ 16

/-- The queue is a power of two of basic blocks, with room for `max_post` requests. -/
structure SqSize.Roomy (size : SqSize) : Prop where
  pow : ∃ log, log ≤ 16 ∧ size.wqeCnt = 2 ^ log
  room : size.maxPost * (size.wqeSize / 64) ≤ size.wqeCnt
  few : size.maxPost < 2 ^ 31

private theorem roundup_cases {product rounded} (small : product < 2 ^ 32) (multiple : 64 ∣ product)
    (round : roundupPowOfTwo product = some rounded) (nonneg : 0 ≤ toInt rounded) :
    toInt rounded = 0 ∨ ∃ log, 6 ≤ log ∧ log ≤ 30 ∧ toInt rounded = (2 ^ log : Nat) := by
  unfold roundupPowOfTwo at round
  split at round
  next => cases round
  next some =>
    rw [← Option.some.inj round] at nonneg ⊢
    have lower : 6 ≤ Nat.clog 2 product := by
      have big : 64 ≤ product := Nat.le_of_dvd (by omega) multiple
      have mono := Nat.clog_mono_right 2 big
      have six : Nat.clog 2 64 = 6 := by decide
      omega
    have upper : Nat.clog 2 product ≤ 32 := Nat.clog_le_of_le_pow (by omega)
    rcases Nat.lt_or_ge (Nat.clog 2 product) 31 with short | long
    · refine .inr ⟨Nat.clog 2 product, lower, by omega, ?_⟩
      have bound : 2 ^ Nat.clog 2 product < 2 ^ 31 := Nat.pow_lt_pow_right (by decide) short
      have pos : (0 : Int) ≤ ((2 ^ Nat.clog 2 product : Nat) : Int) := Int.natCast_nonneg _
      exact toInt_of_small (by omega) (by exact_mod_cast bound)
    · rcases (show Nat.clog 2 product = 31 ∨ Nat.clog 2 product = 32 by omega) with at31 | at32
      · rw [at31] at nonneg
        exact absurd nonneg (by decide)
      · rw [at32]
        exact .inl (by decide)

theorem calcSqSize_roomy (sized : calcSqSize attr caps = some size) (plain : attr.Plain) (narrow : caps.Narrow) :
    size.maxPost = 0 ∨ size.Roomy := by
  by_cases asked : attr.maxSendWr = 0
  · simp only [calcSqSize, asked, if_true] at sized
    rw [← some.inj sized]
    exact .inl rfl
  obtain ⟨overhead, overheadIs, _rest⟩ := sqOverhead_plain plain
  obtain ⟨rounded, nonneg, round, _sge, pos, _narrow, short, rfl⟩ := calcSqSize_eq sized asked overheadIs
  obtain ⟨units, blocks⟩ := calcSendWqe_blocks attr overhead
  generalize calcSendWqe attr overhead = wqeSize at nonneg round blocks
  subst blocks
  have product : 64 ∣ toU32 (attr.maxSendWr * (units * 64)) := by
    unfold toU32
    rw [← Int.mul_assoc]
    omega
  have bounded : toU32 (attr.maxSendWr * (units * 64)) < 2 ^ 32 := by
    unfold toU32
    omega
  rcases roundup_cases bounded product round pos with none | ⟨log, low, high, pow⟩
  · left
    simp [none]
  right
  obtain ⟨b, rfl⟩ := Int.eq_ofNat_of_zero_le (show 0 ≤ units by omega)
  obtain ⟨rest, rfl⟩ := Nat.exists_eq_add_of_le low
  have cnt : ((2 ^ (6 + rest) : Nat) : Int).tdiv (mlx5SendWqeBb : Nat) = ((2 ^ rest : Nat) : Int) := by
    rw [← Int.ofNat_tdiv, Nat.pow_add, show 2 ^ 6 = mlx5SendWqeBb from rfl,
      Nat.mul_div_cancel_left _ (by decide)]
  have post : ((2 ^ (6 + rest) : Nat) : Int).tdiv ((b : Int) * 64) =
      ((2 ^ (6 + rest) / (b * 64) : Nat) : Int) := by
    rw [Int.ofNat_tdiv]
    push_cast
    rfl
  have wide : ((b : Int) * 64).toNat / 64 = b := by omega
  rw [pow, cnt] at short
  rw [pow, cnt, post]
  have width : 2 ^ rest ≤ 2 ^ caps.logMaxQpSz := by exact_mod_cast short
  refine ⟨⟨rest, ?_, rfl⟩, ?_, ?_⟩
  · exact le_trans ((Nat.pow_le_pow_iff_right (by decide)).mp width) narrow.queue
  · dsimp only
    rw [wide, Int.toNat_natCast, Int.toNat_natCast]
    have fits := Nat.div_mul_le_self (2 ^ (6 + rest)) (b * 64)
    rw [← Nat.mul_assoc] at fits
    have split : 2 ^ (6 + rest) = 64 * 2 ^ rest := Nat.pow_add 2 6 rest
    omega
  · dsimp only
    rw [Int.toNat_natCast]
    have less : 2 ^ (6 + rest) < 2 ^ 31 := Nat.pow_lt_pow_right (by decide) (by omega)
    have div := Nat.div_le_self (2 ^ (6 + rest)) (b * 64)
    omega

structure SqSize.Fitting (size : SqSize) (attr : QpInitAttr) : Prop where
  blocks : 64 ∣ size.wqeSize
  short : size.wqeSize < 4096
  header : attr.qpType.header ≤ size.wqeSize
  register : attr.qpType = .rc ∨ attr.qpType = .xrcIni → 192 ≤ size.wqeSize
  segments : attr.qpType.header + 16 * size.maxGs ≤ size.wqeSize
  integrity : attr.integrityEn = true → 512 ≤ size.wqeSize
  inlined : size.maxInlineData + attr.qpType.header + 4 ≤ size.wqeSize
  some : 1 ≤ size.maxGs → 0 ≤ size.maxInlineData

private theorem getSendSge_le (attr) (low : overhead ≤ 148) {wqeSize} (block : 64 ≤ wqeSize)
    (small : wqeSize < 4096) : getSendSge attr overhead wqeSize ≤ wqeSize := by
  refine Int.le_trans (Int.min_le_right _ _) ?_
  have ninth : overhead / wqeDataSeg ≤ 9 := by
    simp only [wqeDataSeg]
    omega
  generalize overhead / wqeDataSeg = segments at ninth
  rw [toSizeT_of_small (by omega) (by omega), toInt_of_small (by omega) (by omega)]
  omega

private theorem getSendSge_segments (low : overhead ≤ 148) {wqeSize} (block : 64 ≤ wqeSize)
    (small : wqeSize < 4096) (holds : (overhead : Int) ≤ wqeSize) (above : attr.qpType.header ≤ overhead) :
    attr.qpType.header + 16 * getSendSge attr overhead wqeSize ≤ wqeSize := by
  have part (value : Int) (nonneg : 0 ≤ value) (short : value < 4096) : toInt ((toSizeT value / wqeDataSeg :
      Nat) : Int) = value / 16 := by
    rw [toSizeT_of_small nonneg (by omega), toInt_of_small]
    all_goals
      simp only [wqeDataSeg]
      omega
  have least : getSendSge attr overhead wqeSize ≤ (wqeSize - attr.qpType.header) / 16 := by
    refine Int.le_trans (Int.min_le_left _ _) ?_
    cases type : attr.qpType with
    | rc =>
      simp only [QpType.header, wqeCtrlSeg, wqeRaddrSeg]
      rw [part _ (by omega) (by omega)]
      omega
    | xrcIni =>
      simp only [QpType.header, wqeCtrlSeg, wqeXrcSeg, wqeRaddrSeg]
      rw [part _ (by omega) (by omega)]
      omega
    | uc | ud | smi | xrcTgt | hwGsi | regUmr | swCnak | other =>
      rw [type] at above
      simp only [QpType.header] at above ⊢
      rw [part _ (by omega) (by omega)]
      omega
  omega

theorem calcSqSize_fitting (sized : calcSqSize attr caps = some size) (plain : attr.Plain)
    (narrow : caps.Narrow) (asked : attr.maxSendWr ≠ 0) (usable : 0 ≤ size.maxGs) : size.Fitting attr := by
  obtain ⟨overhead, overheadIs, above, low, register, kind⟩ := sqOverhead_plain plain
  obtain ⟨rounded, nonneg, round, sge, _positive, limit, _short, rfl⟩ := calcSqSize_eq sized asked overheadIs
  obtain ⟨units, blocks⟩ := calcSendWqe_blocks attr overhead
  have wqe := narrow.wqe
  have integrity := calcSendWqe_integrity attr overhead
  dsimp only at usable
  have some : calcSendWqe attr overhead ≠ 0 := by
    intro none
    rw [none, Int.mul_zero] at round
    cases round
  have block : 64 ≤ calcSendWqe attr overhead := by omega
  have few := getSendSge_le attr low block (by omega)
  rw [toU32_of_small usable (by omega)] at sge
  have holds := calcSendWqe_overhead low (by omega) nonneg
  have segments := getSendSge_segments low block (by omega) holds above
  refine ⟨?_, ?_, ?_, ?_, ?_, ?_, ?_, ?_⟩
  · dsimp only
    omega
  · dsimp only
    omega
  · dsimp only
    omega
  · intro is
    have wide := register is
    dsimp only
    omega
  · dsimp only
    rw [Int.toNat_of_nonneg nonneg]
    exact segments
  · intro wanted
    have wide := integrity wanted
    dsimp only
    omega
  · dsimp only
    rw [Int.toNat_of_nonneg nonneg]
    simp only [wqeInlineSeg]
    omega
  dsimp only
  intro one
  simp only [wqeInlineSeg]
  rcases kind with same | wide
  · omega
  · omega

end MlnxOfed.Qp
