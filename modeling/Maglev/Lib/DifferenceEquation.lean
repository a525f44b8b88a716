import Mathlib.Order.MinMax
import Mathlib.Tactic.Ring

namespace Maglev

variable {K : Type*} [CommRing K]

/-- A sequence `k` steps ago, with zeros before its start. -/
def delayed (k : ℕ) (x : ℕ → K) (n : ℕ) : K := if k ≤ n then x (n - k) else 0

theorem delayed_one_zero (x : ℕ → K) : delayed 1 x 0 = 0 := rfl

theorem delayed_two_zero (x : ℕ → K) : delayed 2 x 0 = 0 := rfl

theorem delayed_one_succ (x : ℕ → K) (n : ℕ) : delayed 1 x (n + 1) = x n := by
  simp [delayed]

theorem delayed_two_succ (x : ℕ → K) (n : ℕ) : delayed 2 x (n + 1) = delayed 1 x n := by
  unfold delayed
  by_cases one : 1 ≤ n
  · rw [if_pos one, if_pos (by omega), show n + 1 - 2 = n - 1 by omega]
  · rw [if_neg one, if_neg (by omega)]

theorem delayed_congr {x x' : ℕ → K} {n : ℕ} (same : ∀ m < n, x m = x' m) {k : ℕ} (some : 0 < k) :
    delayed k x n = delayed k x' n := by
  unfold delayed
  split_ifs with inside
  · exact same _ (by omega)
  · rfl

/-- The coefficients of a linear difference equation of the second order. -/
structure Taps (K : Type*) where
  b0 : K
  b1 : K
  b2 : K
  a1 : K
  a2 : K

/-- The solution of the equation for an input, with a zero past. -/
def Taps.response (c : Taps K) (x : ℕ → K) : ℕ → K
  | 0 => c.b0 * x 0
  | 1 => c.b0 * x 1 + c.b1 * x 0 - c.a1 * c.response x 0
  | n + 2 => c.b0 * x (n + 2) + c.b1 * x (n + 1) + c.b2 * x n - c.a1 * c.response x (n + 1) - c.a2 * c.response x n

/-- The equation itself, the same for every step. -/
theorem Taps.response_eq (c : Taps K) (x : ℕ → K) (n : ℕ) :
    c.response x n = c.b0 * x n + c.b1 * delayed 1 x n + c.b2 * delayed 2 x n -
      c.a1 * delayed 1 (c.response x) n - c.a2 * delayed 2 (c.response x) n := by
  match n with
  | 0 => simp [response, delayed_one_zero, delayed_two_zero]
  | 1 => simp [response, delayed_one_succ, delayed_two_succ, delayed_one_zero]
  | n + 2 => simp only [response, delayed_one_succ, delayed_two_succ]

/-- The solution depends linearly on the input. -/
theorem Taps.response_combination (c : Taps K) (α β : K) (x x' : ℕ → K) (n : ℕ) :
    c.response (fun n => α * x n + β * x' n) n = α * c.response x n + β * c.response x' n := by
  induction n using Nat.twoStepInduction with
  | zero =>
    simp only [response]
    ring
  | one =>
    simp only [response]
    ring
  | more n first second =>
    rw [response, first, second, response, response]
    ring

section Capped

variable [LinearOrder K] (c : Taps K) (top : K)

/-- The solution whose values are cut off at `top`, also where they enter the equation again. -/
def Taps.capped (x : ℕ → K) : ℕ → K
  | 0 => min (c.b0 * x 0) top
  | 1 => min (c.b0 * x 1 + c.b1 * x 0 - c.a1 * capped x 0) top
  | n + 2 =>
    min (c.b0 * x (n + 2) + c.b1 * x (n + 1) + c.b2 * x n - c.a1 * capped x (n + 1) - c.a2 * capped x n) top

/-- What the equation gives for a step before it is cut off. -/
def Taps.uncapped (x : ℕ → K) (n : ℕ) : K :=
  c.b0 * x n + c.b1 * delayed 1 x n + c.b2 * delayed 2 x n - c.a1 * delayed 1 (c.capped top x) n -
    c.a2 * delayed 2 (c.capped top x) n

theorem Taps.capped_eq (x : ℕ → K) (n : ℕ) : c.capped top x n = min (c.uncapped top x n) top := by
  match n with
  | 0 => simp [capped, uncapped, delayed_one_zero, delayed_two_zero]
  | 1 => simp [capped, uncapped, delayed_one_succ, delayed_two_succ, delayed_one_zero]
  | n + 2 => simp only [capped, uncapped, delayed_one_succ, delayed_two_succ]

/-- What is still to come has no influence. -/
theorem Taps.capped_congr {x x' : ℕ → K} (n : ℕ) (same : ∀ m ≤ n, x m = x' m) :
    c.capped top x n = c.capped top x' n := by
  induction n using Nat.strongRecOn with
  | ind n ih =>
    have past (k : ℕ) (some : 0 < k) : delayed k (c.capped top x) n = delayed k (c.capped top x') n :=
      delayed_congr (fun m before => ih m before fun i below => same i (by omega)) some
    have input (k : ℕ) (some : 0 < k) : delayed k x n = delayed k x' n :=
      delayed_congr (fun m before => same m (by omega)) some
    simp only [capped_eq, uncapped, same n le_rfl, input 1 one_pos, input 2 two_pos, past 1 one_pos, past 2 two_pos]

end Capped

end Maglev
