import Mathlib.Algebra.Order.Field.Basic
import Mathlib.Algebra.Order.Group.MinMax
import Mathlib.Tactic.Linarith
import Mathlib.Tactic.NormNum.OfScientific
import Mathlib.Tactic.Ring
import Maglev.Control.Biquad
import Maglev.Lib.Machine

namespace Maglev

section

variable {K : Type*} [Field K] [LinearOrder K]

/-- Calls of `BiquadUpdateLim` with limits on both sides of zero, as `MotorControlCb` makes them. -/
def compensatorMachine (limit : K) : Machine (Biquad K) K K where
  step b error :=
    let after := biquadUpdateLim b error (-limit) limit
    (after.1, [after.2])

/-- The compensator with the coefficients of `MotorControlInit`. -/
def compensator (b : Biquad K) : Biquad K := biquadInit b 163.85044 49.155133 (-114.69531) (-1.4) 0.4

/-- The compensator after some errors, from its reset on. -/
def compensatorAfter (limit : K) (b : Biquad K) (errors : List K) : Biquad K :=
  (compensatorMachine limit).final (compensator b) errors

/-- The compensator with a given past. -/
def compensatorWith (in1 in2 out1 out2 : K) : Biquad K :=
  ⟨163.85044, 49.155133, -114.69531, -1.4, 0.4, in1, in2, out1, out2⟩

/-- The same filter with everything it remembers turned over. -/
def Biquad.mirror (b : Biquad K) : Biquad K :=
  { b with in1 := -b.in1, in2 := -b.in2, out1 := -b.out1, out2 := -b.out2 }

/-- Both outputs that the filter remembers are at one value. -/
def Biquad.StaysAt (b : Biquad K) (out : K) : Prop := b.out1 = out ∧ b.out2 = out

/-- What is returned does not go up again, and stays below the limit. -/
def Falls (limit : K) (returned : List K) : Prop := returned.Pairwise (· ≥ ·) ∧ ∀ v ∈ returned, v < limit

variable {limit : K}

/-- A call forgets the older error and the older output. -/
theorem biquadUpdateLim_compensatorWith (in1 in2 out1 out2 error : K) :
    let out := min (max (163.85044 * error + 49.155133 * in1 + -114.69531 * in2 - -1.4 * out1 - 0.4 * out2) (-limit)) limit
    biquadUpdateLim (compensatorWith in1 in2 out1 out2) error (-limit) limit =
      (compensatorWith error in1 out out1, out) := by
  simp only [biquadUpdateLim, compensatorWith, cMin_eq, cMax_eq]

theorem compensatorMachine_step (in1 in2 out1 out2 error : K) :
    let out := min (max (163.85044 * error + 49.155133 * in1 + -114.69531 * in2 - -1.4 * out1 - 0.4 * out2) (-limit)) limit
    (compensatorMachine limit).step (compensatorWith in1 in2 out1 out2) error =
      (compensatorWith error in1 out out1, [out]) := by
  simp only [compensatorMachine, biquadUpdateLim_compensatorWith]

/-- What is remembered of the outputs are the last two values that were returned. -/
theorem compensatorAfter_remembers (b : Biquad K) (errors : List K) (error : K) :
    let before := compensatorAfter limit b errors
    let after := compensatorAfter limit b (errors ++ [error])
    (compensatorMachine limit).outputs before [error] = [after.out1] ∧ after.out2 = before.out1 := by
  simp [compensatorAfter, Machine.final_append, compensatorMachine, biquadUpdateLim]

theorem compensatorAfter_eq (b : Biquad K) (errors : List K) :
    ∃ in1 in2 out1 out2, compensatorAfter limit b errors = compensatorWith in1 in2 out1 out2 := by
  refine (compensatorMachine limit).final_invariant
    (P := fun b => ∃ in1 in2 out1 out2, b = compensatorWith in1 in2 out1 out2) ?_ ⟨0, 0, 0, 0, rfl⟩ errors
  rintro _ error ⟨in1, in2, out1, out2, rfl⟩
  rw [compensatorMachine_step]
  exact ⟨_, _, _, _, rfl⟩

/-- With the same error twice, that is all that is remembered of the errors. -/
theorem compensatorAfter_replicate (b : Biquad K) (history : List K) {k : ℕ} (twice : 2 ≤ k) (error : K) :
    ∃ out1 out2,
      compensatorAfter limit b (history ++ List.replicate k error) = compensatorWith error error out1 out2 := by
  obtain ⟨k, rfl⟩ := Nat.exists_eq_add_of_le' twice
  obtain ⟨in1, in2, out1, out2, state⟩ := @compensatorAfter_eq K _ _ limit b (history ++ List.replicate k error)
  unfold compensatorAfter at state ⊢
  rw [← List.replicate_append_replicate, ← List.append_assoc, Machine.final_append, state]
  simp only [List.replicate, Machine.final_cons, Machine.final_nil, compensatorMachine_step]
  exact ⟨_, _, rfl⟩

variable [IsStrictOrderedRing K]

/-- The memory of a run stays between the limits. -/
theorem compensatorAfter_bounded (nonneg : 0 ≤ limit) (b : Biquad K) (errors : List K) :
    |(compensatorAfter limit b errors).out1| ≤ limit ∧ |(compensatorAfter limit b errors).out2| ≤ limit := by
  have kept (b : Biquad K) (error : K) (bounded : |b.out1| ≤ limit ∧ |b.out2| ≤ limit) :
      |((compensatorMachine limit).step b error).1.out1| ≤ limit ∧
        |((compensatorMachine limit).step b error).1.out2| ≤ limit := by
    refine ⟨abs_le.mpr ⟨?_, ?_⟩, bounded.1⟩
    · exact le_biquadUpdateLim b error (neg_le_self nonneg)
    · exact biquadUpdateLim_le b error
  refine (compensatorMachine limit).final_invariant (P := fun b => |b.out1| ≤ limit ∧ |b.out2| ≤ limit) kept ?_ errors
  simpa [compensator, biquadInit, biquadReset] using nonneg

/-- While the error is negative, an output that does not rise is followed by a lower one, or
stays at the lower limit. -/
theorem compensator_falls_step {e out1 out2 : K} (positive : 0 < e) (falling : out1 ≤ out2) (low : -limit ≤ out1)
    (high : out1 ≤ limit) :
    ∃ out, (compensatorMachine limit).step (compensatorWith (-e) (-e) out1 out2) (-e) =
        (compensatorWith (-e) (-e) out out1, [out]) ∧
      -limit ≤ out ∧ out ≤ out1 ∧ (-limit < out1 → out < out1) := by
  refine ⟨_, compensatorMachine_step _ _ _ _ _, ?_⟩
  have below : 163.85044 * -e + 49.155133 * -e + -114.69531 * -e - -1.4 * out1 - 0.4 * out2 < out1 := by
    linarith
  refine ⟨le_min (le_max_right _ _) (low.trans high), ?_, fun above => ?_⟩
  · exact (min_le_left _ _).trans (max_le below.le low)
  · exact (min_le_left _ _).trans_lt (max_lt below above)

theorem compensator_falls {e : K} (positive : 0 < e) (m : ℕ) {out1 out2 : K} (falling : out1 ≤ out2)
    (low : -limit ≤ out1) (high : out1 ≤ limit) :
    let returned := (compensatorMachine limit).outputs (compensatorWith (-e) (-e) out1 out2) (List.replicate m (-e))
    returned.Pairwise (· ≥ ·) ∧ ∀ v ∈ returned, v ≤ out1 ∧ (-limit < out1 → v < out1) := by
  induction m generalizing out1 out2 with
  | zero => simp
  | succ m ih =>
    obtain ⟨out, step, bounded, lower, strictly⟩ := compensator_falls_step positive falling low high
    obtain ⟨ordered, rest⟩ := ih lower bounded (lower.trans high)
    rw [List.replicate_succ, Machine.outputs_cons, step, List.singleton_append]
    refine ⟨List.pairwise_cons.mpr ⟨fun v member => (rest v member).1, ordered⟩, List.forall_mem_cons.mpr ⟨?_, ?_⟩⟩
    · exact ⟨lower, strictly⟩
    · intro v member
      have under := (rest v member).1
      exact ⟨under.trans lower, fun above => under.trans_lt (strictly above)⟩

theorem clamp_neg (nonneg : 0 ≤ limit) (r : K) : min (max (-r) (-limit)) limit = -min (max r (-limit)) limit := by
  have low : min (-limit) limit = -limit := min_eq_left (neg_le_self nonneg)
  rw [max_neg_neg, inf_sup_right, low, ← min_neg_neg, neg_neg]

/-- The limits are symmetric, so a run on the opposite errors is the opposite run. -/
theorem compensatorMachine_mirror (nonneg : 0 ≤ limit) (b : Biquad K) (error : K) :
    (compensatorMachine limit).step b.mirror (-error) =
      (((compensatorMachine limit).step b error).1.mirror, ((compensatorMachine limit).step b error).2.map (-·)) := by
  have raw : b.b0 * -error + b.b1 * -b.in1 + b.b2 * -b.in2 - b.a1 * -b.out1 - b.a2 * -b.out2 =
      -(b.b0 * error + b.b1 * b.in1 + b.b2 * b.in2 - b.a1 * b.out1 - b.a2 * b.out2) := by ring
  simp only [compensatorMachine, biquadUpdateLim, Biquad.mirror, cMin_eq, cMax_eq, raw, clamp_neg nonneg,
    List.map_singleton]

/-- From saturation at the upper limit, whatever has led there. -/
theorem compensator_leaves {e : K} (positive : 0 < limit) (error : 0 < e) (m : ℕ) :
    Falls limit ((compensatorMachine limit).outputs (compensatorWith (-e) (-e) limit limit) (List.replicate m (-e))) := by
  have below : -limit < limit := neg_lt_self positive
  obtain ⟨ordered, rest⟩ := compensator_falls error m (le_refl limit) below.le (le_refl limit)
  exact ⟨ordered, fun v member => (rest v member).2 below⟩

omit [IsStrictOrderedRing K] in
theorem compensatorAfter_saturated {e : K} (b : Biquad K) (history : List K) {k : ℕ} (twice : 2 ≤ k) {out : K}
    (stays : (compensatorAfter limit b (history ++ List.replicate k e)).StaysAt out) :
    compensatorAfter limit b (history ++ List.replicate k e) = compensatorWith e e out out := by
  obtain ⟨out1, out2, state⟩ := @compensatorAfter_replicate K _ _ limit b history k twice e
  rw [state] at stays ⊢
  obtain ⟨last, before⟩ := stays
  rw [show out1 = out from last, show out2 = out from before]

/-- The compensator does not wind up: it remembers its last two outputs, which are never
beyond the limits, and when two outputs at a limit meet an error of the other sign that has
been there for two steps, the next outputs leave the limit at once and never turn back while
the error stays. They are the same whatever the history was and however long the saturation
has lasted. -/
theorem compensator_noWindup (positive : 0 < limit) (b : Biquad K) :
    (∀ errors, |(compensatorAfter limit b errors).out1| ≤ limit ∧ |(compensatorAfter limit b errors).out2| ≤ limit) ∧
    (∀ errors error,
      let before := compensatorAfter limit b errors
      let after := compensatorAfter limit b (errors ++ [error])
      (compensatorMachine limit).outputs before [error] = [after.out1] ∧ after.out2 = before.out1) ∧
    ∀ e > 0, ∃ falling : ℕ → List K, (∀ m, Falls limit (falling m)) ∧
      ∀ (history : List K) (k : ℕ), 2 ≤ k →
        ((compensatorAfter limit b (history ++ List.replicate k (-e))).StaysAt limit →
          ∀ m, (compensatorMachine limit).outputs (compensatorAfter limit b (history ++ List.replicate k (-e)))
            (List.replicate m (-e)) = falling m) ∧
        ((compensatorAfter limit b (history ++ List.replicate k e)).StaysAt (-limit) →
          ∀ m, (compensatorMachine limit).outputs (compensatorAfter limit b (history ++ List.replicate k e))
            (List.replicate m e) = (falling m).map (-·)) := by
  refine ⟨compensatorAfter_bounded positive.le b, compensatorAfter_remembers b, fun e error => ?_⟩
  refine ⟨fun m => (compensatorMachine limit).outputs (compensatorWith (-e) (-e) limit limit) (List.replicate m (-e)),
    compensator_leaves positive error, fun history k twice => ⟨?_, ?_⟩⟩
  · intro stays m
    rw [compensatorAfter_saturated b history twice stays]
  · intro stays m
    have mirrored := ((compensatorMachine limit).run_symmetry (List.replicate m (-e))
      (fun b e _ => compensatorMachine_mirror positive.le b e) (compensatorWith (-e) (-e) limit limit)).2
    have opposite : (compensatorWith (-e) (-e) limit limit).mirror = compensatorWith e e (-limit) (-limit) := by
      simp [compensatorWith, Biquad.mirror]
    rw [compensatorAfter_saturated b history twice stays, ← mirrored, opposite, List.map_replicate, neg_neg]

end

/-- The error has been slightly negative for three steps, and the last two outputs are at
the upper limit. -/
theorem compensator_noWindup_threeErrors :
    let b : Biquad ℚ := ⟨0, 0, 0, 0, 0, 0, 0, 0, 0⟩
    let saturated := compensatorAfter 1 b ([1, -1] ++ List.replicate 3 (-(1 / 1000)))
    saturated.StaysAt 1 ∧ ∀ m, Falls 1 ((compensatorMachine 1).outputs saturated (List.replicate m (-(1 / 1000)))) := by
  intro b saturated
  have stays : saturated.StaysAt 1 := ⟨by decide +kernel, by decide +kernel⟩
  obtain ⟨-, -, leaves⟩ := compensator_noWindup (show (0 : ℚ) < 1 by norm_num) b
  obtain ⟨falling, falls, same⟩ := leaves (1 / 1000) (by norm_num)
  refine ⟨stays, fun m => ?_⟩
  rw [(same [1, -1] 3 (by decide)).1 stays m]
  exact falls m

end Maglev
