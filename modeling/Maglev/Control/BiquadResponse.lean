import Mathlib.Algebra.Order.Field.Basic
import Mathlib.Tactic.NormNum
import Maglev.Control.Biquad
import Maglev.Lib.DifferenceEquation
import Maglev.Lib.Machine

namespace Maglev

section

variable {K : Type*} [Field K] [LinearOrder K]

/-- Calls of `BiquadUpdate` one after the other. -/
def biquadMachine : Machine (Biquad K) K K where
  step b input :=
    let after := biquadUpdate b input
    (after.1, [after.2])

/-- What the filter returns for the first `count` values of an input. -/
def Taps.filtered (c : Taps K) (b : Biquad K) (x : ℕ → K) (count : ℕ) : List K :=
  biquadMachine.outputs (biquadInit b c.b0 c.b1 c.b2 c.a1 c.a2) ((List.range count).map x)

/-- The filter after `n` values of which none was limited. -/
def Taps.after (c : Taps K) (x : ℕ → K) (n : ℕ) : Biquad K :=
  ⟨c.b0, c.b1, c.b2, c.a1, c.a2, delayed 1 x n, delayed 2 x n, delayed 1 (c.response x) n, delayed 2 (c.response x) n⟩

variable (c : Taps K) (b : Biquad K) {x x' : ℕ → K} {count : ℕ}

theorem biquadUpdate_after {n : ℕ} (low : fltMin ≤ c.response x n) (high : c.response x n ≤ fltMax) :
    biquadUpdate (c.after x n) (x n) = (c.after x (n + 1), c.response x n) := by
  have raw := c.response_eq x n
  simp only [biquadUpdate, biquadUpdateLim, Taps.after, ← raw, cMax_eq, cMin_eq, max_eq_left low, min_eq_left high,
    delayed_one_succ, delayed_two_succ]

/-- As long as the plain response stays between the limits, the filter returns it. -/
theorem Taps.filtered_eq (low : ∀ n < count, fltMin ≤ c.response x n) (high : ∀ n < count, c.response x n ≤ fltMax) :
    biquadMachine.final (biquadInit b c.b0 c.b1 c.b2 c.a1 c.a2) ((List.range count).map x) = c.after x count ∧
      c.filtered b x count = (List.range count).map (c.response x) := by
  unfold Taps.filtered
  induction count with
  | zero => exact ⟨rfl, rfl⟩
  | succ n ih =>
    obtain ⟨state, returned⟩ := ih (fun m below => low m (by omega)) (fun m below => high m (by omega))
    have last := biquadUpdate_after c (low n (by omega)) (high n (by omega))
    rw [List.range_succ, List.map_append, List.map_append, Machine.final_append, Machine.outputs_append, state, returned]
    simp only [List.map_singleton, Machine.final_cons, Machine.final_nil, Machine.outputs_cons, Machine.outputs_nil,
      biquadMachine, last, List.append_nil, and_self]

variable [IsStrictOrderedRing K]

theorem fltMin_le_fltMax : (fltMin : K) ≤ fltMax := by
  norm_num [fltMin, fltMax]

/-- Nothing below the lower limit is ever returned. -/
theorem fltMin_le_outputs (inputs : List K) : ∀ v ∈ biquadMachine.outputs b inputs, fltMin ≤ v := by
  refine biquadMachine.forall_outputs (fun b input => ?_) b inputs
  simp only [biquadMachine, biquadUpdate, List.forall_mem_singleton]
  exact le_biquadUpdateLim b input fltMin_le_fltMax

/-- The filter is the plain one for an input whose response never goes beyond the limits. -/
theorem Taps.filtered_eq_iff (high : ∀ n < count, c.response x n < fltMax) :
    c.filtered b x count = (List.range count).map (c.response x) ↔ ∀ n < count, fltMin ≤ c.response x n := by
  constructor
  · intro same n below
    have returned : c.response x n ∈ c.filtered b x count := by
      rw [same]
      exact List.mem_map_of_mem (List.mem_range.mpr below)
    exact fltMin_le_outputs _ _ _ returned
  · intro low
    exact (c.filtered_eq b low fun n below => (high n below).le).2

/-- For inputs whose plain response stays below `FLT_MAX` in size, the filter returns that
response exactly if it never falls below `FLT_MIN`; among such inputs the filter is linear. -/
theorem biquadMachine_isPlain_iff :
    (∀ (x : ℕ → K) (count : ℕ), (∀ n < count, |c.response x n| < fltMax) →
      (c.filtered b x count = (List.range count).map (c.response x) ↔ ∀ n < count, fltMin ≤ c.response x n)) ∧
    ∀ (α β : K) (x x' : ℕ → K) (count : ℕ),
      (∀ y ∈ [x, x', fun n => α * x n + β * x' n], ∀ n < count, fltMin ≤ c.response y n ∧ c.response y n < fltMax) →
      c.filtered b (fun n => α * x n + β * x' n) count =
        List.zipWith (fun u v => α * u + β * v) (c.filtered b x count) (c.filtered b x' count) := by
  constructor
  · intro x count bounded
    exact c.filtered_eq_iff b fun n below => (abs_lt.mp (bounded n below)).2
  · intro α β x x' count within
    have plain (y : ℕ → K) (member : y ∈ [x, x', fun n => α * x n + β * x' n]) :
        c.filtered b y count = (List.range count).map (c.response y) :=
      (c.filtered_eq_iff b fun n below => (within y member n below).2).mpr fun n below => (within y member n below).1
    rw [plain _ (by simp), plain x (by simp), plain x' (by simp), List.zipWith_map, List.zipWith_self]
    refine List.map_congr_left fun n _ => ?_
    exact c.response_combination α β x x' n

end

def clearedBiquad : Biquad ℚ := ⟨0, 0, 0, 0, 0, 0, 0, 0, 0⟩

/-- A filter that weighs its last input and its last output. -/
def lag : Taps ℚ := ⟨1, 1 / 2, 0, -1 / 2, 0⟩

theorem biquadMachine_isPlain_lag :
    lag.filtered clearedBiquad (fun n => n + 1) 3 = [1, 3, 11 / 2] ∧
      lag.filtered clearedBiquad (fun n => 2 * (n + 1) + 3 * 1) 3 =
        List.zipWith (fun u v => 2 * u + 3 * v) (lag.filtered clearedBiquad (fun n => n + 1) 3)
          (lag.filtered clearedBiquad (fun _ => 1) 3) := by
  obtain ⟨plain, linear⟩ := biquadMachine_isPlain_iff lag clearedBiquad
  refine ⟨((plain _ 3 (by decide +kernel)).mpr (by decide +kernel)).trans (by decide +kernel), ?_⟩
  refine linear 2 3 (fun n => n + 1) (fun _ => 1) 3 ?_
  simp only [List.forall_mem_cons, List.not_mem_nil, false_implies, implies_true, and_true]
  decide +kernel

/-- A filter that is only a wire. -/
def wire : Taps ℚ := ⟨1, 0, 0, 0, 0⟩

/-- `FLT_MIN` is above zero, so the filter returns it in place of a negative value. -/
theorem biquadMachine_limitsNegative :
    (∀ n < 1, |wire.response (fun _ => -1) n| < fltMax) ∧
      (List.range 1).map (wire.response fun _ => -1) = [-1] ∧
      wire.filtered clearedBiquad (fun _ => -1) 1 = [fltMin] ∧ wire.filtered clearedBiquad (fun _ => 1) 1 = [1] ∧
      (fltMin : ℚ) ≠ -1 := by
  decide +kernel

end Maglev
