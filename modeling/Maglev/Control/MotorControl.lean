import Mathlib.Algebra.Order.Field.Basic
import Mathlib.Data.List.GetD
import Mathlib.Tactic.NormNum.OfScientific
import Maglev.Control.Compensator
import Maglev.Control.FreqResponse
import Maglev.Lib.DifferenceEquation

namespace Maglev

/-- The motor with what its functions reach besides: the record of the loop gain
measurement, the compare registers of the timer and the line that enables the bridge. A
register holds no value after a conversion that C leaves undefined. -/
structure Drive (K : Type*) where
  motor : MotorControl K
  iaFreq : FreqResponse K
  ccr : Fin 4 → Option ℕ
  faultClear : Bool

/-- What the drive sees. `measurement` is whatever the background thread makes of the
record of the loop gain measurement; the settings come from the command handler. -/
inductive DriveInput (K : Type*)
  | callback (jeoc : Bool) (iA iB : K)
  | setEnabled (enabled : Bool)
  | setTarget (iTarget : K)
  | measurement (iaFreq : FreqResponse K)

section

variable {K : Type*} [Field K] [LinearOrder K] [FloorRing K] (lib : MathLib K)

/-- `MotorControlInit`, as far as it computes something: it fails where C leaves the
result undefined. -/
def motorControlInit (d : Drive K) : Option (Drive K) :=
  let m := d.motor
  if m.pwmFreq = 0 then none
  else
    let period := m.clockFreq / m.pwmFreq
    (i32OfFloat (period * 0.95 : K)).map fun maxDutyCount =>
      { d with
        motor := { m with
          iaCompensator := biquadInit m.iaCompensator 163.85044 49.155133 (-114.69531) (-1.4) 0.4
          config := { frequency := m.clockFreq, period }
          maxDutyCount }
        ccr := Function.update d.ccr 3 (u32OfFloat (period * 0.97 : K)) }

/-- The drive after a call, and the values that were converted for the register. -/
def motorControlCb (d : Drive K) (jeoc : Bool) (iA _iB : K) : Drive K × List K :=
  let m := if jeoc then d.motor else { d.motor with errorCount := d.motor.errorCount + 1 }
  if m.enabled then
    let (iaFreq, iaError) := freqResponseUpdate lib d.iaFreq (m.iTarget - iA)
    let (iaCompensator, va) := biquadUpdateLim m.iaCompensator iaError (-m.maxDutyCount) m.maxDutyCount
    ({ motor := { m with iaCompensator, iA }
       iaFreq
       ccr := Function.update d.ccr 0 (u32OfFloat va)
       faultClear := true }, [va])
  else
    ({ motor := { m with iaCompensator := biquadReset m.iaCompensator, iA }
       iaFreq := d.iaFreq
       ccr := Function.update (Function.update (Function.update d.ccr 0 (some 0)) 1 (some 0)) 2 (some 0)
       faultClear := false }, [])

def driveMachine : Machine (Drive K) (DriveInput K) K where
  step
    | d, .callback jeoc iA iB => motorControlCb lib d jeoc iA iB
    | d, .setEnabled enabled => ({ d with motor.enabled := enabled }, [])
    | d, .setTarget iTarget => ({ d with motor.iTarget := iTarget }, [])
    | d, .measurement iaFreq => ({ d with iaFreq }, [])

/-- What a step converts is a duty, and the register then holds it up to less than one
count of what the compensator remembers. -/
def AppliesDuty (d : Drive K) (input : DriveInput K) : Prop :=
  let after := ((driveMachine lib).step d input).1
  ∀ va ∈ ((driveMachine lib).step d input).2, 0 ≤ va ∧ va ≤ after.motor.maxDutyCount ∧
    ∃ duty, after.ccr 0 = some duty ∧ |(duty : K) - after.motor.iaCompensator.out1| < 1

/-- What the callbacks take from outside of the compensator, and the errors since its last
reset, the one of the last callback included. -/
structure Demand (K : Type*) where
  enabled : Bool
  iTarget : K
  iaFreq : FreqResponse K
  errors : List K

/-- The same inputs without the compensator and the registers: each callback of an enabled
drive shows the errors since the last reset. -/
def demandMachine : Machine (Demand K) (DriveInput K) (List K) where
  step
    | s, .callback _ iA _ =>
      if s.enabled then
        let error := s.iTarget - iA
        let errors := s.errors ++ [error + s.iaFreq.excitation lib]
        ({ s with iaFreq := (freqResponseUpdate lib s.iaFreq error).1, errors }, [errors])
      else ({ s with errors := [] }, [])
    | s, .setEnabled enabled => ({ s with enabled }, [])
    | s, .setTarget iTarget => ({ s with iTarget }, [])
    | s, .measurement iaFreq => ({ s with iaFreq }, [])

/-- What a drive whose compensator has been reset starts from. -/
def Drive.demand (d : Drive K) : Demand K := ⟨d.motor.enabled, d.motor.iTarget, d.iaFreq, []⟩

/-- The difference equation of the compensator. -/
def compensatorTaps : Taps K := ⟨163.85044, 49.155133, -114.69531, -1.4, 0.4⟩

/-- The last of some errors does not ask for a negative voltage, if the equation is cut off
at the highest duty and nowhere else. -/
def AsksForward (maxDutyCount : ℤ) (errors : List K) : Prop :=
  0 ≤ compensatorTaps.uncapped (maxDutyCount : K) (errors.getD · 0) (errors.length - 1)

instance (maxDutyCount : ℤ) (errors : List K) : Decidable (AsksForward maxDutyCount errors) :=
  inferInstanceAs (Decidable (_ ≤ _))

/-- The compensator after some errors that have never asked for a negative voltage. -/
def compensatorAt (maxDutyCount : ℤ) (errors : List K) : Biquad K :=
  let x : ℕ → K := (errors.getD · 0)
  let y := compensatorTaps.capped (maxDutyCount : K) x
  compensatorWith (delayed 1 x errors.length) (delayed 2 x errors.length) (delayed 1 y errors.length)
    (delayed 2 y errors.length)

/-- The drive is where the errors since the last reset have led it. -/
structure Tracks (maxDutyCount : ℤ) (d : Drive K) (s : Demand K) : Prop where
  enabled : s.enabled = d.motor.enabled
  iTarget : s.iTarget = d.motor.iTarget
  iaFreq : s.iaFreq = d.iaFreq
  limit : d.motor.maxDutyCount = maxDutyCount
  compensator : d.motor.iaCompensator = compensatorAt maxDutyCount s.errors

variable {d : Drive K}

omit [FloorRing K] in
theorem freqResponseUpdate_returned (fr : FreqResponse K) (sample : K) :
    (freqResponseUpdate lib fr sample).2 = sample + fr.excitation lib := by
  unfold freqResponseUpdate freqResponseUpdateWithOffset FreqResponse.excitation
  split
  · rfl
  · exact (add_zero sample).symm

/-- The call of an enabled drive, in terms of the two functions it calls. -/
theorem motorControlCb_enabled (on : d.motor.enabled = true) (jeoc : Bool) (iA iB : K) :
    let error := d.motor.iTarget - iA
    let limited := biquadUpdateLim d.motor.iaCompensator (error + d.iaFreq.excitation lib) (-d.motor.maxDutyCount)
      d.motor.maxDutyCount
    let after := motorControlCb lib d jeoc iA iB
    after.1.motor.iaCompensator = limited.1 ∧ after.1.motor.maxDutyCount = d.motor.maxDutyCount ∧
      after.1.ccr 0 = u32OfFloat limited.2 ∧ after.2 = [limited.2] ∧ after.1.motor.enabled = true ∧
      after.1.motor.iTarget = d.motor.iTarget ∧ after.1.iaFreq = (freqResponseUpdate lib d.iaFreq error).1 := by
  have returned := freqResponseUpdate_returned lib d.iaFreq (d.motor.iTarget - iA)
  cases jeoc <;> simp [motorControlCb, on, returned]

theorem motorControlCb_disabled (off : d.motor.enabled = false) (jeoc : Bool) (iA iB : K) :
    let after := motorControlCb lib d jeoc iA iB
    after.1.motor.iaCompensator = biquadReset d.motor.iaCompensator ∧
      after.1.motor.maxDutyCount = d.motor.maxDutyCount ∧ after.2 = [] ∧ after.1.motor.enabled = false ∧
      after.1.motor.iTarget = d.motor.iTarget ∧ after.1.iaFreq = d.iaFreq := by
  cases jeoc <;> simp [motorControlCb, off]

omit [FloorRing K] in
/-- What the filter remembers can be read off a longer list of errors just as well. -/
theorem compensatorAt_eq (maxDutyCount : ℤ) (errors later : List K) :
    let x : ℕ → K := ((errors ++ later).getD · 0)
    let y := compensatorTaps.capped (maxDutyCount : K) x
    compensatorAt maxDutyCount errors =
      compensatorWith (delayed 1 x errors.length) (delayed 2 x errors.length) (delayed 1 y errors.length)
        (delayed 2 y errors.length) := by
  intro x y
  have input (m : ℕ) (before : m < errors.length) : errors.getD m 0 = x m :=
    (List.getD_append errors later 0 m before).symm
  have output (m : ℕ) (before : m < errors.length) :
      compensatorTaps.capped (maxDutyCount : K) (errors.getD · 0) m = y m :=
    compensatorTaps.capped_congr _ m fun i below => input i (by omega)
  simp only [compensatorAt, delayed_congr input one_pos, delayed_congr input two_pos, delayed_congr output one_pos,
    delayed_congr output two_pos]

omit [FloorRing K] in
/-- As long as it is not asked for a negative voltage, the filter goes on as the equation
that is cut off at the highest duty only. -/
theorem biquadUpdateLim_compensatorAt {maxDutyCount : ℤ} (errors : List K) (error : K) :
    let raw := compensatorTaps.uncapped (maxDutyCount : K) ((errors ++ [error]).getD · 0) errors.length
    (biquadUpdateLim (compensatorAt maxDutyCount errors) error (-maxDutyCount) maxDutyCount).2 =
        min (max raw (-maxDutyCount)) maxDutyCount ∧
      (-(maxDutyCount : K) ≤ raw →
        (biquadUpdateLim (compensatorAt maxDutyCount errors) error (-maxDutyCount) maxDutyCount).1 =
          compensatorAt maxDutyCount (errors ++ [error])) := by
  intro raw
  have last : (errors ++ [error]).getD errors.length 0 = error := by simp
  have returned : (biquadUpdateLim (compensatorAt maxDutyCount errors) error (-maxDutyCount) maxDutyCount).2 =
      min (max raw (-maxDutyCount)) maxDutyCount := by
    rw [compensatorAt_eq maxDutyCount errors [error], biquadUpdateLim_compensatorWith]
    simp only [raw, Taps.uncapped, last]
    rfl
  refine ⟨returned, fun above => ?_⟩
  have capped : compensatorTaps.capped (maxDutyCount : K) ((errors ++ [error]).getD · 0) errors.length =
      min raw maxDutyCount := compensatorTaps.capped_eq _ _ _
  rw [max_eq_left above, ← capped] at returned
  rw [compensatorAt_eq maxDutyCount errors [error], biquadUpdateLim_compensatorWith] at returned ⊢
  simp only at returned
  simp only [returned, compensatorAt, List.length_append, List.length_singleton, delayed_one_succ, delayed_two_succ,
    last]

variable {lib}

omit [FloorRing K] in
/-- A reset forgets all errors. -/
theorem compensatorAt_reset (maxDutyCount : ℤ) (errors : List K) :
    biquadReset (compensatorAt maxDutyCount errors) = compensatorAt maxDutyCount [] := by
  simp only [biquadReset, compensatorAt, compensatorWith, List.length_nil, delayed_one_zero, delayed_two_zero]

/-- What is asked of a callback, in terms of what the filter returns. -/
theorem appliesDuty_callback (jeoc : Bool) (iA iB : K) :
    AppliesDuty lib d (.callback jeoc iA iB) ↔
      (d.motor.enabled = true →
        let va := (biquadUpdateLim d.motor.iaCompensator (d.motor.iTarget - iA + d.iaFreq.excitation lib)
          (-d.motor.maxDutyCount) d.motor.maxDutyCount).2
        0 ≤ va ∧ va ≤ d.motor.maxDutyCount ∧ ∃ duty, u32OfFloat va = some duty ∧ |(duty : K) - va| < 1) := by
  simp only [AppliesDuty, driveMachine]
  cases enabled : d.motor.enabled with
  | false =>
    obtain ⟨-, -, converted, -⟩ := motorControlCb_disabled lib enabled jeoc iA iB
    rw [converted]
    simp
  | true =>
    obtain ⟨compensator, limit, register, converted, -⟩ := motorControlCb_enabled lib enabled jeoc iA iB
    rw [converted, register, limit, compensator, biquadUpdateLim_out1, List.forall_mem_singleton]
    simp

theorem driveMachine_limit (d : Drive K) (input : DriveInput K) :
    ((driveMachine lib).step d input).1.motor.maxDutyCount = d.motor.maxDutyCount := by
  cases input with
  | callback jeoc iA iB =>
    cases enabled : d.motor.enabled with
    | false => exact (motorControlCb_disabled lib enabled jeoc iA iB).2.1
    | true => exact (motorControlCb_enabled lib enabled jeoc iA iB).2.1
  | setEnabled | setTarget | measurement => rfl

variable [IsStrictOrderedRing K]

/-- What `MotorControlInit` leaves. -/
theorem tracks_of_init {started : Drive K} (init : motorControlInit d = some started) :
    Tracks started.motor.maxDutyCount started started.demand ∧ 0 ≤ started.motor.maxDutyCount ∧
      started.motor.maxDutyCount < 2 ^ 31 := by
  simp only [motorControlInit, Option.ite_none_left_eq_some] at init
  obtain ⟨-, init⟩ := init
  obtain ⟨maxDutyCount, converts, rfl⟩ := Option.map_eq_some_iff.mp init
  obtain ⟨value, -, bounded⟩ := i32OfFloat_eq_some.mp converts
  refine ⟨⟨rfl, rfl, rfl, rfl, ?_⟩, ?_, bounded⟩
  · simp only [biquadInit, biquadReset, compensatorAt, compensatorWith, Drive.demand, List.length_nil,
      delayed_one_zero, delayed_two_zero]
  · dsimp only
    rw [← value]
    exact trunc_nonneg (by positivity)

/-- A limited output that is not negative is a duty, and survives the conversion. -/
theorem limited_duty_iff {maxDutyCount : ℤ} (nonneg : 0 ≤ maxDutyCount) (bounded : maxDutyCount < 2 ^ 31) (raw : K) :
    let va := min (max raw (-maxDutyCount)) maxDutyCount
    (0 ≤ va ∧ va ≤ maxDutyCount ∧ ∃ duty, u32OfFloat va = some duty ∧ |(duty : K) - va| < 1) ↔
      maxDutyCount = 0 ∨ 0 ≤ raw := by
  intro va
  have high : (0 : K) ≤ maxDutyCount := Int.cast_nonneg nonneg
  have fits : (maxDutyCount : K) < 2 ^ 32 := by exact_mod_cast bounded.trans (by norm_num)
  have most : va ≤ maxDutyCount := min_le_right _ _
  have sign : 0 ≤ va ↔ maxDutyCount = 0 ∨ 0 ≤ raw := by
    rw [le_min_iff, le_max_iff, neg_nonneg]
    constructor
    · rintro ⟨forward | closed, _⟩
      · exact Or.inr forward
      · exact Or.inl (le_antisymm (by exact_mod_cast closed) nonneg)
    · rintro (closed | forward)
      · exact ⟨Or.inr (by rw [closed, Int.cast_zero]), high⟩
      · exact ⟨Or.inl forward, high⟩
  constructor
  · rintro ⟨forward, _⟩
    exact sign.mp forward
  · intro asked
    have forward := sign.mpr asked
    exact ⟨forward, most, u32OfFloat_close forward (most.trans_lt fits)⟩

/-- A drive that may not apply any duty does as it is told. -/
theorem appliesDuty_of_closed (closed : d.motor.maxDutyCount = 0) (input : DriveInput K) : AppliesDuty lib d input := by
  cases input with
  | callback jeoc iA iB =>
    refine (appliesDuty_callback jeoc iA iB).mpr fun _ => ?_
    simp only [biquadUpdateLim, cMin_eq, cMax_eq, closed]
    exact (limited_duty_iff le_rfl (by norm_num) _).mpr (Or.inl rfl)
  | setEnabled | setTarget | measurement => simp [AppliesDuty, driveMachine]

section

variable {maxDutyCount : ℤ} {s : Demand K}

theorem Tracks.appliesDuty_iff (tracks : Tracks maxDutyCount d s) (positive : 0 < maxDutyCount)
    (bounded : maxDutyCount < 2 ^ 31) (input : DriveInput K) :
    AppliesDuty lib d input ↔ ∀ errors ∈ ((demandMachine lib).step s input).2, AsksForward maxDutyCount errors := by
  obtain ⟨enabled, iTarget, iaFreq, limit, compensator⟩ := tracks
  cases input with
  | callback jeoc iA iB =>
    rw [appliesDuty_callback, compensator, limit, ← enabled, ← iTarget, ← iaFreq]
    cases on : s.enabled with
    | false => simp [demandMachine, on]
    | true =>
      have returned := (@biquadUpdateLim_compensatorAt K _ _ maxDutyCount s.errors
        (s.iTarget - iA + s.iaFreq.excitation lib)).1
      simp only [demandMachine, on, if_true, List.forall_mem_singleton, forall_const, returned, AsksForward,
        List.length_append, List.length_singleton, Nat.add_sub_cancel]
      exact (limited_duty_iff positive.le bounded _).trans (or_iff_right positive.ne')
  | setEnabled | setTarget | measurement => simp [AppliesDuty, driveMachine, demandMachine]

theorem Tracks.step (tracks : Tracks maxDutyCount d s) (positive : 0 < maxDutyCount) (input : DriveInput K)
    (forward : ∀ errors ∈ ((demandMachine lib).step s input).2, AsksForward maxDutyCount errors) :
    Tracks maxDutyCount ((driveMachine lib).step d input).1 ((demandMachine lib).step s input).1 := by
  obtain ⟨enabled, iTarget, iaFreq, limit, compensator⟩ := tracks
  have kept := (@driveMachine_limit K _ _ _ lib d input).trans limit
  cases input with
  | callback jeoc iA iB =>
    cases on : s.enabled with
    | false =>
      obtain ⟨reset, -, -, enabled', iTarget', iaFreq'⟩ :=
        motorControlCb_disabled lib (enabled.symm.trans on) jeoc iA iB
      simp only [demandMachine, on, Bool.false_eq_true, if_false]
      refine ⟨enabled'.symm, iTarget.trans iTarget'.symm, iaFreq.trans iaFreq'.symm, kept, reset.trans ?_⟩
      rw [compensator, compensatorAt_reset]
    | true =>
      obtain ⟨updated, -, -, -, enabled', iTarget', iaFreq'⟩ :=
        motorControlCb_enabled lib (enabled.symm.trans on) jeoc iA iB
      simp only [demandMachine, on, if_true, List.forall_mem_singleton, AsksForward, List.length_append,
        List.length_singleton, Nat.add_sub_cancel] at forward ⊢
      refine ⟨enabled'.symm, iTarget.trans iTarget'.symm, ?_, kept, updated.trans ?_⟩
      · rw [iTarget, iaFreq]
        exact iaFreq'.symm
      · rw [compensator, limit, ← iTarget, ← iaFreq]
        have low : -(maxDutyCount : K) ≤ 0 := neg_nonpos.mpr (Int.cast_nonneg positive.le)
        exact (biquadUpdateLim_compensatorAt s.errors _).2 (low.trans forward)
  | setEnabled => exact ⟨rfl, iTarget, iaFreq, kept, compensator⟩
  | setTarget => exact ⟨enabled, rfl, iaFreq, kept, compensator⟩
  | measurement => exact ⟨enabled, iTarget, rfl, kept, compensator⟩

/-- Up to the first error that asks for a negative voltage the drive follows the equation, and
it is there that it first does not apply a duty. -/
theorem Tracks.everywhere_iff (tracks : Tracks maxDutyCount d s) (positive : 0 < maxDutyCount)
    (bounded : maxDutyCount < 2 ^ 31) (inputs : List (DriveInput K)) :
    (driveMachine lib).Everywhere (AppliesDuty lib) d inputs ↔
      ∀ errors ∈ (demandMachine lib).outputs s inputs, AsksForward maxDutyCount errors :=
  (driveMachine lib).everywhere_iff_outputs
    (fun _ _ input tracks applied => tracks.step positive input ((tracks.appliesDuty_iff positive bounded input).mp applied))
    (fun _ _ input tracks => tracks.appliesDuty_iff positive bounded input) tracks inputs

end

/-- **The drive writes the duty its compensator asks for, at every callback, if and only if
the compensator never asks for a negative one** (or may not ask for any). What it asks for is
the difference equation over the errors since the last reset, cut off at `max_duty_count`. -/
theorem driveMachine_appliesDuty_iff {started : Drive K} (init : motorControlInit d = some started)
    (inputs : List (DriveInput K)) :
    (driveMachine lib).Everywhere (AppliesDuty lib) started inputs ↔
      started.motor.maxDutyCount = 0 ∨
        ∀ errors ∈ (demandMachine lib).outputs started.demand inputs,
          AsksForward started.motor.maxDutyCount errors := by
  obtain ⟨tracks, nonneg, bounded⟩ := tracks_of_init init
  rcases nonneg.eq_or_lt with closed | positive
  · have always := (driveMachine lib).everywhere_of_invariant (P := AppliesDuty lib)
      (fun d input still => (driveMachine_limit d input).trans still)
      (fun d input still => appliesDuty_of_closed still input) closed.symm inputs
    exact iff_of_true always (Or.inl closed.symm)
  · rw [tracks.everywhere_iff positive bounded]
    exact (or_iff_right positive.ne').symm

end

/-- `m1` and `ia_freq` as they are initialised, with the registers cleared. -/
def staticDrive : Drive ℚ where
  motor :=
    { enabled := false
      iTarget := 0
      errorCount := 0
      iA := 0
      iaCompensator := ⟨0, 0, 0, 0, 0, 0, 0, 0, 0⟩
      pwmFreq := 35000
      clockFreq := 168000000
      maxDutyCount := 0
      config := ⟨0, 0⟩ }
  iaFreq := ⟨⟨35000, 400, 400, 20, 0.2, 20, false⟩, 0, 0, 0, 0, 0, 0, 0, 0, 0⟩
  ccr := fun _ => some 0
  faultClear := false

/-- The same after `MotorControlInit`. -/
def startedDrive : Drive ℚ :=
  { staticDrive with
    motor := { staticDrive.motor with
      iaCompensator := ⟨163.85044, 49.155133, -114.69531, -1.4, 0.4, 0, 0, 0, 0⟩
      config := ⟨168000000, 4800⟩
      maxDutyCount := 4560 }
    ccr := Function.update staticDrive.ccr 3 (some 4656) }

theorem motorControlInit_staticDrive : motorControlInit staticDrive = some startedDrive := by
  have duty : i32OfFloat ((4800 : ℕ) * 0.95 : ℚ) = some 4560 := by decide +kernel
  have sample : u32OfFloat ((4800 : ℕ) * 0.97 : ℚ) = some 4656 := by decide +kernel
  have period : 168000000 / 35000 = 4800 := by norm_num
  simp only [motorControlInit, staticDrive, period, duty, sample, startedDrive]
  rfl

/-- A target above the current and then on it, a reset, and the same with a measurement. -/
theorem driveMachine_appliesDuty_forward :
    (driveMachine tableLib).Everywhere (AppliesDuty tableLib) startedDrive
      [.setEnabled true, .setTarget 1, .callback true 0 0, .callback true (1 / 2) 0, .callback false 1 0,
        .setEnabled false, .callback true 2 0, .setEnabled true,
        .measurement { startedDrive.iaFreq with f := 1, samplesRemaining := 8 }, .callback true 0 0,
        .callback true 0 0] :=
  (driveMachine_appliesDuty_iff motorControlInit_staticDrive _).mpr (by decide +kernel)

/-- A current above the target asks for a negative voltage. The lower limit lets it
through, and there is no such value for the register. -/
theorem driveMachine_negativeDuty :
    motorControlInit staticDrive = some startedDrive ∧
      let inputs := [.setEnabled true, .callback true 1 0]
      (driveMachine tableLib).outputs startedDrive inputs = [-163.85044] ∧
      ((driveMachine tableLib).final startedDrive inputs).ccr 0 = none ∧
      ¬ (driveMachine tableLib).Everywhere (AppliesDuty tableLib) startedDrive inputs := by
  refine ⟨motorControlInit_staticDrive, by decide +kernel, by decide +kernel, ?_⟩
  rintro ⟨-, applies, -⟩
  obtain ⟨forward, -⟩ := applies (-163.85044) (by decide +kernel)
  norm_num at forward

end Maglev
