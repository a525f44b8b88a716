import Mathlib.Algebra.Ring.Nat
import Mathlib.Algebra.Field.Defs
import Mathlib.Order.MinMax
import Maglev.Control.Motor

namespace Maglev

variable {K : Type*} [Field K] [LinearOrder K]

/-- The macro `MIN` of `biquad.c`. -/
def cMin (x y : K) : K := if x < y then x else y

/-- The macro `MAX` of `biquad.c`. -/
def cMax (x y : K) : K := if x > y then x else y

def biquadReset (b : Biquad K) : Biquad K := { b with in1 := 0, in2 := 0, out1 := 0, out2 := 0 }

def biquadInit (b : Biquad K) (b0 b1 b2 a1 a2 : K) : Biquad K := biquadReset { b with b0, b1, b2, a1, a2 }

/-- The state and the returned value. -/
def biquadUpdateLim (b : Biquad K) (input limLow limHigh : K) : Biquad K × K :=
  let outRaw := b.b0 * input + b.b1 * b.in1 + b.b2 * b.in2 - b.a1 * b.out1 - b.a2 * b.out2
  let out := cMin (cMax outRaw limLow) limHigh
  ({ b with in2 := b.in1, in1 := input, out2 := b.out1, out1 := out }, out)

/-- `FLT_MIN`: the smallest positive normal number. -/
def fltMin : K := 1 / (2 ^ 126 : ℕ)

/-- `FLT_MAX`. -/
def fltMax : K := ((2 ^ 24 - 1) * 2 ^ 104 : ℕ)

def biquadUpdate (b : Biquad K) (input : K) : Biquad K × K := biquadUpdateLim b input fltMin fltMax

omit [Field K] in
theorem cMin_eq (x y : K) : cMin x y = min x y := by
  unfold cMin
  split_ifs with less
  · exact (min_eq_left less.le).symm
  · exact (min_eq_right (not_lt.mp less)).symm

omit [Field K] in
theorem cMax_eq (x y : K) : cMax x y = max x y := by
  unfold cMax
  split_ifs with greater
  · exact (max_eq_left greater.le).symm
  · exact (max_eq_right (not_lt.mp greater)).symm

variable (b : Biquad K) (input : K) {limLow limHigh : K}

/-- The filter remembers what it returns. -/
theorem biquadUpdateLim_out1 : (biquadUpdateLim b input limLow limHigh).1.out1 =
    (biquadUpdateLim b input limLow limHigh).2 := rfl

theorem biquadUpdateLim_le : (biquadUpdateLim b input limLow limHigh).2 ≤ limHigh := by
  simp only [biquadUpdateLim, cMin_eq]
  exact min_le_right _ _

theorem le_biquadUpdateLim (ordered : limLow ≤ limHigh) : limLow ≤ (biquadUpdateLim b input limLow limHigh).2 := by
  simp only [biquadUpdateLim, cMin_eq, cMax_eq]
  exact le_min (le_max_right _ _) ordered

end Maglev
