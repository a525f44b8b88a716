import Mathlib.Algebra.Ring.Nat
import Mathlib.Tactic.Common

namespace Maglev

/-! Counters of a fixed width, which wrap. -/

variable {w : ℕ} (a b : BitVec w)

theorem toNat_add_cases :
    (a + b).toNat = if a.toNat + b.toNat < 2 ^ w then a.toNat + b.toNat else a.toNat + b.toNat - 2 ^ w := by
  have first := a.isLt
  have second := b.isLt
  rw [BitVec.toNat_add]
  split_ifs with fits
  · exact Nat.mod_eq_of_lt fits
  · rw [Nat.mod_eq_sub_mod (by omega), Nat.mod_eq_of_lt (by omega)]

theorem toNat_sub_cases :
    (a - b).toNat = if b.toNat ≤ a.toNat then a.toNat - b.toNat else a.toNat + 2 ^ w - b.toNat := by
  have first := a.isLt
  have second := b.isLt
  rw [BitVec.toNat_sub]
  split_ifs with passed
  · rw [Nat.mod_eq_sub_mod (by omega), Nat.mod_eq_of_lt (by omega)]
    omega
  · rw [Nat.mod_eq_of_lt (by omega)]
    omega

/-- A counter that has passed the sum `last + delay` is one that has advanced by more
than `delay` since `last`, exactly if the sum wraps when the counter does. -/
theorem deadline_agrees_iff (now last delay : BitVec w) :
    (last + delay < now ↔ delay < now - last) ↔ (2 ^ w ≤ last.toNat + delay.toNat ↔ now < last) := by
  have bounds : now.toNat < 2 ^ w ∧ last.toNat < 2 ^ w ∧ delay.toNat < 2 ^ w := ⟨now.isLt, last.isLt, delay.isLt⟩
  rw [BitVec.lt_def, BitVec.lt_def, BitVec.lt_def, toNat_add_cases, toNat_sub_cases]
  split_ifs
  all_goals omega

end Maglev
