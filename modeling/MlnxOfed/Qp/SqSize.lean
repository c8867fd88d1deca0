/-
The size of a kernel send queue (`calc_sq_size` in `qp.c`): the room for one work request, computed from the
capabilities, the number of 64-byte basic blocks and of requests that may be outstanding. The arithmetic is
that of C: `int` wraps at 32 bits and an expression with a `sizeof` is a `size_t`.
-/

import Mathlib.Algebra.Order.Ring.Int
import Mathlib.Data.Nat.Log

namespace MlnxOfed.Qp

def mlx5SendWqeBb : Nat := 64
def wqeCtrlSeg : Nat := 16
def wqeXrcSeg : Nat := 16
def wqeRaddrSeg : Nat := 16
def wqeAtomicSeg : Nat := 16
def wqeUmrCtrlSeg : Nat := 48
def mkeySeg : Nat := 64
def wqeDatagramSeg : Nat := 48
def wqeEthPad : Nat := 16
def wqeEthSeg : Nat := 16
def wqeMlxSeg : Nat := 16
def wqeDataSeg : Nat := 16
def wqeInlineSeg : Nat := 4
def mlx5IbSqUmrInlineThreshold : Nat := 64
def mlx5IbUmrOctoword : Nat := 16
def mlx5SigWqeSize : Nat := mlx5SendWqeBb * 8

def toInt (value : Int) : Int := value.bmod (2 ^ 32)

def toSizeT (value : Int) : Nat := (value % 2 ^ 64).toNat

def toU32 (value : Int) : Nat := (value % 2 ^ 32).toNat

/-- `ALIGN` on an `int`. -/
def alignInt (value : Int) (unit : Nat) : Int := toInt ((value + unit - 1) / unit * unit)

/-- `roundup_pow_of_two`, which is not defined at 0. -/
def roundupPowOfTwo (value : Nat) : Option Nat := if value = 0 then none else some (2 ^ Nat.clog 2 value)

inductive QpType where
  | rc | uc | ud | smi | xrcIni | xrcTgt | hwGsi | regUmr | swCnak | other
  deriving DecidableEq

structure QpInitAttr where
  qpType : QpType
  maxSendWr : Nat
  maxSendSge : Nat
  maxInlineData : Nat
  integrityEn : Bool
  ipoibUdLso : Bool
  /-- `IB_SIGNAL_ALL_WR`, which becomes `sq_signal_bits` -/
  signalAll : Bool

/-- The device's `max_wqe_sz_sq` and `log_max_qp_sz`. -/
structure SqCaps where
  maxWqeSzSq : Nat
  logMaxQpSz : Nat

variable (attr : QpInitAttr)

/-- `none` is `-EINVAL`. -/
def sqOverhead : Option Nat :=
  match attr.qpType with
  | .xrcIni | .rc =>
    some ((if attr.qpType = .xrcIni then wqeXrcSeg else 0) + wqeCtrlSeg + max (wqeAtomicSeg + wqeRaddrSeg)
        (wqeUmrCtrlSeg + mkeySeg + mlx5IbSqUmrInlineThreshold / mlx5IbUmrOctoword))
  | .xrcTgt => some 0
  | .uc => some (wqeCtrlSeg + max wqeRaddrSeg (wqeUmrCtrlSeg + mkeySeg))
  | .ud | .smi | .hwGsi =>
    some ((if attr.qpType = .ud ∧ attr.ipoibUdLso then wqeEthPad + wqeEthSeg else 0) + wqeCtrlSeg +
      wqeDatagramSeg)
  | .regUmr => some (wqeCtrlSeg + wqeUmrCtrlSeg + mkeySeg)
  | .swCnak => some (wqeCtrlSeg + wqeMlxSeg)
  | .other => none

/-- `calc_send_wqe`, for an overhead that is not an error. -/
def calcSendWqe (overhead : Nat) : Int :=
  let inlSize : Int := if attr.maxInlineData ≠ 0 then toInt (overhead + wqeInlineSeg + attr.maxInlineData) else 0
  let size : Int := toInt (overhead + attr.maxSendSge * wqeDataSeg)
  let aligned := alignInt (max inlSize size) mlx5SendWqeBb
  if attr.integrityEn ∧ aligned < mlx5SigWqeSize then mlx5SigWqeSize else aligned

def getSendSge (overhead : Nat) (wqeSize : Int) : Int :=
  let maxSge : Int := toInt <|
    match attr.qpType with
    | .rc => (toSizeT (min wqeSize 512 - wqeCtrlSeg - wqeRaddrSeg) / wqeDataSeg : Nat)
    | .xrcIni => (toSizeT (min wqeSize 512 - wqeCtrlSeg - wqeXrcSeg - wqeRaddrSeg) / wqeDataSeg : Nat)
    | _ => (toSizeT (wqeSize - overhead) / wqeDataSeg : Nat)
  min maxSge (toInt (toSizeT (wqeSize - (overhead / wqeDataSeg : Nat))))

structure SqSize where
  wqeSize : Nat
  wqeCnt : Nat
  maxPost : Nat
  maxGs : Int
  maxInlineData : Int
  deriving DecidableEq

/-- `none` where no QP is created: the result is negative, or a division by zero. A `wq_size` of 2^32 is 0
in an `int`; such a queue takes no request. -/
def calcSqSize (caps : SqCaps) : Option SqSize :=
  if attr.maxSendWr = 0 then some ⟨0, 0, 0, 0, 0⟩
  else
    match sqOverhead attr with
    | none => none
    | some overhead =>
      let wqeSize := calcSendWqe attr overhead
      if wqeSize < 0 then none
      else if (caps.maxWqeSzSq : Int) < wqeSize then none
      else
        match roundupPowOfTwo (toU32 (attr.maxSendWr * wqeSize)) with
        | none => none
        | some rounded =>
          let wqSize := toInt rounded
          let wqeCnt := wqSize.tdiv mlx5SendWqeBb
          let maxGs := getSendSge attr overhead wqeSize
          if (2 : Int) ^ caps.logMaxQpSz < wqeCnt then none
          else if toU32 maxGs < attr.maxSendSge then none
          else if wqSize < 0 then none
          else
            some
              { wqeSize := wqeSize.toNat
                wqeCnt := wqeCnt.toNat
                maxPost := (wqSize.tdiv wqeSize).toNat
                maxGs := maxGs
                maxInlineData := wqeSize - overhead - wqeInlineSeg }

end MlnxOfed.Qp
