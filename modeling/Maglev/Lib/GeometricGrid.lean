import Mathlib.Algebra.Order.Archimedean.Basic
import Mathlib.Data.Set.Card
import Mathlib.Order.Interval.Finset.Nat

namespace Maglev

/-- The points `low * ratio ^ j` up to `high`. -/
structure GeometricGrid (K : Type*) [Field K] [LinearOrder K] where
  low : K
  high : K
  ratio : K
  positive : 0 < low
  ordered : low ≤ high
  growing : 1 < ratio

namespace GeometricGrid

variable {K : Type*} [Field K] [LinearOrder K] (grid : GeometricGrid K)

def point (j : ℕ) : K := grid.low * grid.ratio ^ j

/-- The number of points. -/
noncomputable def size : ℕ := {j : ℕ | grid.point j ≤ grid.high}.ncard

/-- All points in turn, again and again. -/
noncomputable def sweep (k : ℕ) : K := grid.point (k % grid.size)

/-- A step by the ratio that goes back to the beginning whenever it leaves the range. -/
def next (x : K) : K :=
  if x * grid.ratio < grid.low ∨ x * grid.ratio > grid.high then grid.low else x * grid.ratio

@[simp] theorem point_zero : grid.point 0 = grid.low := by
  simp [point]

theorem point_succ (j : ℕ) : grid.point (j + 1) = grid.point j * grid.ratio := by
  rw [point, point, pow_succ, mul_assoc]

@[simp] theorem sweep_zero : grid.sweep 0 = grid.low := by
  rw [sweep, Nat.zero_mod, point_zero]

theorem next_eq_low_iff {x : K} :
    grid.next x = grid.low ↔ x * grid.ratio ≤ grid.low ∨ grid.high < x * grid.ratio := by
  unfold next
  split_ifs with outside
  · exact iff_of_true rfl (outside.imp_left le_of_lt)
  · constructor
    · exact fun same => Or.inl same.le
    · rintro (least | above)
      · exact least.antisymm (not_lt.mp (outside ∘ Or.inl))
      · exact absurd (Or.inr above) outside

variable [IsStrictOrderedRing K]

theorem strictMono_point : StrictMono grid.point :=
  fun _ _ less => mul_lt_mul_of_pos_left (pow_lt_pow_right₀ grid.growing less) grid.positive

theorem low_le_point (j : ℕ) : grid.low ≤ grid.point j := by
  rw [← grid.point_zero]
  exact grid.strictMono_point.monotone (Nat.zero_le j)

theorem low_le_sweep (k : ℕ) : grid.low ≤ grid.sweep k := grid.low_le_point _

variable [Archimedean K]

/-- The points of the grid are the first ones. -/
theorem exists_point_le_high_iff : ∃ count, ∀ j, grid.point j ≤ grid.high ↔ j < count := by
  have leaves : ∃ n, grid.high < grid.point n := by
    obtain ⟨n, large⟩ := pow_unbounded_of_one_lt (grid.high / grid.low) grid.growing
    exact ⟨n, (div_lt_iff₀' grid.positive).mp large⟩
  refine ⟨Nat.find leaves, fun j => ⟨fun inside => ?_, fun before => not_lt.mp (Nat.find_min leaves before)⟩⟩
  by_contra past
  have larger := grid.strictMono_point.monotone (not_lt.mp past)
  exact absurd (Nat.find_spec leaves) (not_lt.mpr (larger.trans inside))

theorem point_le_high_iff (j : ℕ) : grid.point j ≤ grid.high ↔ j < grid.size := by
  obtain ⟨count, first⟩ := grid.exists_point_le_high_iff
  have points : {j : ℕ | grid.point j ≤ grid.high} = Finset.range count := by
    ext j
    simp [first]
  rw [size, points, Set.ncard_coe_finset, Finset.card_range]
  exact first j

theorem one_le_size : 1 ≤ grid.size := by
  rw [Nat.one_le_iff_ne_zero, ← Nat.pos_iff_ne_zero, ← point_le_high_iff, point_zero]
  exact grid.ordered

/-- A step leads from each point to the next one of the sweep. -/
theorem next_sweep (k : ℕ) : grid.next (grid.sweep k) = grid.sweep (k + 1) := by
  have inside : k % grid.size < grid.size := Nat.mod_lt k grid.one_le_size
  rw [next, sweep, sweep, ← Nat.mod_add_mod k grid.size 1, ← point_succ]
  rcases Nat.lt_or_ge (k % grid.size + 1) grid.size with before | last
  · have atMost := (grid.point_le_high_iff _).mpr before
    rw [Nat.mod_eq_of_lt before, if_neg]
    exact not_or.mpr ⟨not_lt.mpr (grid.low_le_point _), not_lt.mpr atMost⟩
  · have past : grid.high < grid.point (k % grid.size + 1) :=
      not_le.mp fun atMost => absurd ((grid.point_le_high_iff _).mp atMost) (not_lt.mpr last)
    have whole : k % grid.size + 1 = grid.size := by omega
    rw [if_pos (Or.inr past), whole, Nat.mod_self, point_zero]

end GeometricGrid

end Maglev
