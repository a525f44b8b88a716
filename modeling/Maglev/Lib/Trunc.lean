import Mathlib.Algebra.Order.Floor.Ring
import Mathlib.Algebra.Order.Ring.Abs
import Mathlib.Tactic.Linarith

namespace Maglev

variable {K : Type*} [Field K] [LinearOrder K] [FloorRing K]

/-- The conversion of a number to an integer type in C: towards zero. -/
def trunc (x : K) : ℤ := if 0 ≤ x then ⌊x⌋ else ⌈x⌉

/-- The conversion to `int32_t`; C leaves it undefined for what does not fit. -/
def i32OfFloat (x : K) : Option ℤ := if -2 ^ 31 ≤ trunc x ∧ trunc x < 2 ^ 31 then some (trunc x) else none

/-- The conversion to `uint32_t`. -/
def u32OfFloat (x : K) : Option ℕ := if 0 ≤ trunc x ∧ trunc x < 2 ^ 32 then some (trunc x).toNat else none

theorem trunc_of_nonneg {x : K} (nonneg : 0 ≤ x) : trunc x = ⌊x⌋ := if_pos nonneg

theorem i32OfFloat_eq_some {x : K} {n : ℤ} : i32OfFloat x = some n ↔ trunc x = n ∧ -2 ^ 31 ≤ n ∧ n < 2 ^ 31 := by
  unfold i32OfFloat
  split_ifs with fits
  · constructor
    · rintro ⟨⟩
      exact ⟨rfl, fits⟩
    · rintro ⟨rfl, _⟩
      rfl
  · refine iff_of_false (by simp) ?_
    rintro ⟨rfl, inside⟩
    exact fits inside

theorem trunc_nonneg {x : K} (nonneg : 0 ≤ x) : 0 ≤ trunc x := by
  rw [trunc_of_nonneg nonneg]
  exact Int.floor_nonneg.mpr nonneg

variable [IsStrictOrderedRing K]

/-- What is in the range of the type loses less than one in the conversion. -/
theorem u32OfFloat_close {x : K} (nonneg : 0 ≤ x) (fits : x < 2 ^ 32) :
    ∃ n, u32OfFloat x = some n ∧ |(n : K) - x| < 1 := by
  have below : ⌊x⌋ < 2 ^ 32 := Int.floor_lt.mpr (by exact_mod_cast fits)
  have floor := trunc_of_nonneg nonneg
  have converts : 0 ≤ trunc x ∧ trunc x < 2 ^ 32 := ⟨trunc_nonneg nonneg, floor ▸ below⟩
  refine ⟨(trunc x).toNat, if_pos converts, ?_⟩
  have value : ((trunc x).toNat : K) = ⌊x⌋ := by
    rw [← Int.cast_natCast, Int.toNat_of_nonneg converts.1, floor]
  rw [value, abs_sub_lt_iff]
  have low := Int.floor_le x
  have high := Int.lt_floor_add_one x
  constructor <;> linarith

end Maglev
