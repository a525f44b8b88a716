import Mathlib.Tactic.Common

namespace Maglev

/-- `biquad_t` over an arbitrary type of numbers: bit patterns where only copies
matter, an ordered field where the arithmetic does. -/
structure Biquad (F : Type*) where
  b0 : F
  b1 : F
  b2 : F
  a1 : F
  a2 : F
  in1 : F
  in2 : F
  out1 : F
  out2 : F
  deriving DecidableEq, Repr

structure PWMConfig where
  frequency : Nat
  period : Nat
  deriving DecidableEq, Repr

/-- `motor_control_t` without the handles of the driver, the lines and the ADC. -/
structure MotorControl (F : Type*) where
  enabled : Bool
  iTarget : F
  errorCount : BitVec 32
  iA : F
  iaCompensator : Biquad F
  pwmFreq : Nat
  clockFreq : Nat
  maxDutyCount : Int
  config : PWMConfig
  deriving DecidableEq, Repr

end Maglev
