import Mathlib.Algebra.Group.ModEq
import Mathlib.Analysis.SpecialFunctions.Trigonometric.Basic

namespace Maglev

/-- The point on the unit circle. -/
noncomputable def onCircle (θ : ℝ) : ℂ := Complex.exp (θ * Complex.I)

theorem onCircle_periodic : Function.Periodic onCircle (2 * Real.pi) := by
  intro θ
  have turn := Complex.exp_mul_I_periodic (θ : ℂ)
  simpa [onCircle] using turn

theorem onCircle_congr {θ θ' : ℝ} (same : θ ≡ θ' [PMOD 2 * Real.pi]) : onCircle θ = onCircle θ' := by
  obtain ⟨turns, equal⟩ := AddCommGroup.modEq_iff_eq_add_zsmul.mp same
  rw [equal]
  exact (onCircle_periodic.zsmul turns θ).symm

theorem onCircle_mul (n : ℕ) (θ : ℝ) : onCircle (n * θ) = onCircle θ ^ n := by
  rw [onCircle, onCircle, ← Complex.exp_nat_mul, Complex.ofReal_mul, Complex.ofReal_natCast, mul_assoc]

theorem onCircle_re (θ : ℝ) : (onCircle θ).re = Real.cos θ := Complex.exp_ofReal_mul_I_re θ

theorem onCircle_im (θ : ℝ) : (onCircle θ).im = Real.sin θ := Complex.exp_ofReal_mul_I_im θ

/-- Phases in equal steps, each up to whole turns, which together make whole turns;
a single step makes none. -/
structure RoundTrip (x : ℝ) (phases : List ℝ) : Prop where
  positive : 0 < x
  below : x < 2 * Real.pi
  whole : phases.length * x ≡ 0 [PMOD 2 * Real.pi]
  phase : ∀ (n : ℕ) θ, phases[n]? = some θ → θ ≡ (n + 1 : ℕ) * x [PMOD 2 * Real.pi]

namespace RoundTrip

variable {x : ℝ} {phases : List ℝ}

theorem onCircle_ne_one (trip : RoundTrip x phases) : onCircle x ≠ 1 := by
  intro one
  have cos : Real.cos x = 1 := by rw [← onCircle_re, one, Complex.one_re]
  have above : -(2 * Real.pi) < x := by linarith [trip.positive, Real.pi_pos]
  exact trip.positive.ne' ((Real.cos_eq_one_iff_of_lt_of_lt above trip.below).mp cos)

theorem onCircle_pow_length (trip : RoundTrip x phases) : onCircle x ^ phases.length = 1 := by
  rw [← onCircle_mul, onCircle_congr trip.whole, onCircle, Complex.ofReal_zero, zero_mul, Complex.exp_zero]

theorem map_onCircle (trip : RoundTrip x phases) :
    phases.map onCircle = (List.range phases.length).map fun n => onCircle x ^ n * onCircle x := by
  refine List.ext_getElem (by simp) fun n inside _ => ?_
  rw [List.length_map] at inside
  have same := onCircle_congr (trip.phase n _ (List.getElem?_eq_getElem inside))
  rw [onCircle_mul, pow_succ] at same
  simpa using same

/-- The points on the circle balance. -/
theorem sum_onCircle (trip : RoundTrip x phases) : (phases.map onCircle).sum = 0 := by
  have powers : (phases.map onCircle).sum = ∑ n ∈ Finset.range phases.length, onCircle x ^ n * onCircle x := by
    rw [trip.map_onCircle]
    rfl
  have geometric := geom_sum_mul (onCircle x) phases.length
  rw [trip.onCircle_pow_length, sub_self, mul_eq_zero_iff_right (sub_ne_zero.mpr trip.onCircle_ne_one)] at geometric
  rw [powers, ← Finset.sum_mul, geometric, zero_mul]

theorem sum_cos (trip : RoundTrip x phases) : (phases.map Real.cos).sum = 0 := by
  have real := congrArg Complex.reAddGroupHom trip.sum_onCircle
  rw [map_list_sum, List.map_map, map_zero] at real
  exact (congrArg List.sum (List.map_congr_left fun θ _ => (onCircle_re θ).symm)).trans real

theorem sum_sin (trip : RoundTrip x phases) : (phases.map Real.sin).sum = 0 := by
  have imaginary := congrArg Complex.imAddGroupHom trip.sum_onCircle
  rw [map_list_sum, List.map_map, map_zero] at imaginary
  exact (congrArg List.sum (List.map_congr_left fun θ _ => (onCircle_im θ).symm)).trans imaginary

/-- Twice the phases make a round trip as well, if a step is less than half a turn. -/
theorem double (trip : RoundTrip x phases) (half : x < Real.pi) : RoundTrip (2 * x) (phases.map (2 * ·)) where
  positive := by linarith [trip.positive]
  below := by linarith
  whole := by
    have twice := trip.whole.add trip.whole
    rwa [← two_mul, add_zero, mul_left_comm, ← List.length_map (2 * ·)] at twice
  phase n θ at_n := by
    rw [List.getElem?_map, Option.map_eq_some_iff] at at_n
    obtain ⟨θ, at_n, rfl⟩ := at_n
    have twice := (trip.phase n θ at_n).add (trip.phase n θ at_n)
    rwa [← two_mul, ← two_mul, mul_left_comm] at twice

/-- Only the constant part is left of a sum of the first two harmonics. -/
theorem sum_harmonics (trip : RoundTrip x phases) (half : x < Real.pi) (a b c d e : ℝ) :
    (phases.map fun θ => a + b * Real.cos (2 * θ) + c * Real.sin (2 * θ) + d * Real.sin θ + e * Real.cos θ).sum =
      phases.length * a := by
  have cosines := (trip.double half).sum_cos
  have sines := (trip.double half).sum_sin
  rw [List.map_map] at cosines sines
  simp only [Function.comp_def] at cosines sines
  simp only [List.sum_map_add, List.sum_map_mul_left, cosines, sines, trip.sum_cos, trip.sum_sin]
  simp

/-- Correlating a tone with the sine gives its part in phase. -/
theorem sum_sin_mul (trip : RoundTrip x phases) (half : x < Real.pi) (a b c : ℝ) :
    (phases.map fun θ => Real.sin θ * (a * Real.sin θ + b * Real.cos θ + c)).sum = phases.length * (a / 2) := by
  rw [← trip.sum_harmonics half (a / 2) (-(a / 2)) (b / 2) c 0]
  congr 2
  funext θ
  rw [Real.cos_two_mul', Real.sin_two_mul]
  linear_combination (a / 2) * Real.sin_sq_add_cos_sq θ

/-- Correlating it with the cosine gives the part a quarter turn ahead. -/
theorem sum_cos_mul (trip : RoundTrip x phases) (half : x < Real.pi) (a b c : ℝ) :
    (phases.map fun θ => Real.cos θ * (a * Real.sin θ + b * Real.cos θ + c)).sum = phases.length * (b / 2) := by
  rw [← trip.sum_harmonics half (b / 2) (b / 2) (a / 2) 0 c]
  congr 2
  funext θ
  rw [Real.cos_two_mul', Real.sin_two_mul]
  linear_combination (b / 2) * Real.sin_sq_add_cos_sq θ

end RoundTrip

end Maglev
