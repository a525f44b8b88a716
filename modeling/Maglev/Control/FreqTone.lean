import Maglev.Control.FreqConfigured
import Maglev.Lib.Harmonics

namespace Maglev

/-- The functions of the mathematical library over the real numbers. -/
noncomputable def realLib (powf : ℝ → ℝ → ℝ) : MathLib ℝ where
  pi := Real.pi
  sinf := Real.sin
  cosf := Real.cos
  powf

section

variable {K : Type*} [Field K] [LinearOrder K] [FloorRing K] (lib : MathLib K)

/-- Calls of `FreqResponse_Update`, each with the phase that it leaves, which is the one it
has used if a measurement was going on. -/
def sampleMachine : Machine (FreqResponse K) K K where
  step fr sample :=
    let after := (freqResponseUpdate lib fr sample).1
    (after, [after.theta])

variable {lib} {fr : FreqResponse K}

theorem sampleMachine_final (samples : List K) : (sampleMachine lib).final fr samples =
    (freqCalls lib).final fr (updateCalls (samples.map fun v => (v, v))) := by
  simp only [Machine.final, updateCalls, List.map_map, List.foldl_map]
  rfl

theorem length_outputs_updateCalls (values : List (K × K)) :
    ((freqCalls lib).outputs fr (updateCalls values)).length ≤ values.length := by
  induction values generalizing fr with
  | nil => exact le_rfl
  | cons v rest ih =>
    have here : ((freqCalls lib).step fr (.update v.1 v.2)).2.length ≤ 1 := by
      simp only [freqCalls]
      split_ifs <;> simp
    have later := @ih ((freqCalls lib).step fr (.update v.1 v.2)).1
    rw [updateCalls, List.map_cons, Machine.outputs_cons, List.length_append, List.length_cons]
    unfold updateCalls at later
    omega

/-- If all calls take part in a measurement, their phases are those of the updates. -/
theorem sampleMachine_outputs {samples : List K} {updates : List (ActiveUpdate K)}
    (seen : (freqCalls lib).outputs fr (updateCalls (samples.map fun v => (v, v))) = updates.map .active)
    (all : updates.length = samples.length) :
    (sampleMachine lib).outputs fr samples = updates.map (·.theta) := by
  induction samples generalizing fr updates with
  | nil => rw [List.length_eq_zero_iff.mp all]; rfl
  | cons v rest ih =>
    have shorter := @length_outputs_updateCalls K _ _ _ lib (freqResponseUpdate lib fr v).1 (rest.map fun v => (v, v))
    simp only [updateCalls, List.map_cons, Machine.outputs_cons, freqCalls] at seen
    by_cases active : fr.samplesRemaining ≠ 0
    · rw [if_pos active] at seen
      cases updates with
      | nil => simp at all
      | cons u others =>
        rw [List.singleton_append, List.map_cons, List.cons.injEq, FreqEvent.active.injEq] at seen
        obtain ⟨rfl, later⟩ := seen
        exact congrArg (_ :: ·) (ih later (Nat.succ.inj all))
    · rw [if_neg active, List.nil_append] at seen
      have fewer := (congrArg List.length seen).symm.trans_le shorter
      rw [List.length_map, List.length_map, all] at fewer
      exact absurd fewer (Nat.not_succ_le_self _)

end

section

variable {powf : ℝ → ℝ → ℝ} {cfg : FreqConfig ℝ} {result : FreqResponseResult ℝ} {updates : List (ActiveUpdate ℝ)}

/-- The phases of a measurement over whole wavelengths make whole turns. -/
theorem MeasuredBy.roundTrip (measured : MeasuredBy (realLib powf) cfg result updates) (positive : 0 < result.freq)
    (below : result.freq < cfg.fs / 2) (whole : result.freq * updates.length = cfg.wavelengthsPerFrequency * cfg.fs) :
    RoundTrip (2 * Real.pi * result.freq / cfg.fs) (updates.map (·.theta)) where
  positive := by
    have := Real.pi_pos
    have : 0 < cfg.fs := by linarith
    positivity
  below := by
    have := Real.pi_pos
    rw [div_lt_iff₀ (by linarith)]
    nlinarith
  whole := by
    have turns : updates.length * (2 * Real.pi * result.freq / cfg.fs) =
        cfg.wavelengthsPerFrequency • (2 * Real.pi) := by
      have : cfg.fs ≠ 0 := by linarith
      rw [zsmul_eq_mul]
      field_simp
      linear_combination whole
    rw [List.length_map, turns]
    exact AddCommGroup.zsmul_modEq_zero _
  phase n θ at_n := by
    rw [List.getElem?_map, Option.map_eq_some_iff] at at_n
    obtain ⟨u, at_n, rfl⟩ := at_n
    exact_mod_cast measured.phase n u at_n

/-- Values that are a tone at the phases of the updates. -/
def IsTone (updates : List (ActiveUpdate ℝ)) (value : ActiveUpdate ℝ → ℝ) (a b c : ℝ) : Prop :=
  ∀ u ∈ updates, value u = a * Real.sin u.theta + b * Real.cos u.theta + c

/-- Correlating a tone with sine and cosine gives its two parts. -/
theorem IsTone.correlated {value : ActiveUpdate ℝ → ℝ} {a b c x : ℝ} (tone : IsTone updates value a b c)
    (trip : RoundTrip x (updates.map (·.theta))) (half : x < Real.pi) (nonempty : 1 ≤ updates.length) :
    (updates.map fun u => Real.sin u.theta * value u).sum * (2 / updates.length) = a ∧
      (updates.map fun u => Real.cos u.theta * value u).sum * (2 / updates.length) = b := by
  have count : (updates.length : ℝ) ≠ 0 := Nat.cast_ne_zero.mpr (by omega)
  have at_phase (weight : ℝ → ℝ) : (updates.map fun u => weight u.theta * value u) =
      (updates.map (·.theta)).map fun θ => weight θ * (a * Real.sin θ + b * Real.cos θ + c) := by
    rw [List.map_map]
    exact List.map_congr_left fun u member => congrArg (weight u.theta * ·) (tone u member)
  rw [at_phase, at_phase, trip.sum_sin_mul half, trip.sum_cos_mul half, List.length_map]
  constructor
  all_goals field_simp

/-- The result of measuring a tone. -/
theorem MeasuredBy.tone (measured : MeasuredBy (realLib powf) cfg result updates) (positive : 0 < result.freq)
    (below : result.freq < cfg.fs / 2) (whole : result.freq * updates.length = cfg.wavelengthsPerFrequency * cfg.fs)
    {a b c : ℝ} (tone : IsTone updates ActiveUpdate.sample a b c) (same : ∀ u ∈ updates, u.offset = u.sample) :
    result = ⟨result.freq, a, b, a + cfg.magnitude, b⟩ := by
  have trip := measured.roundTrip positive below whole
  have half : 2 * Real.pi * result.freq / cfg.fs < Real.pi := by
    rw [div_lt_iff₀ (by linarith)]
    nlinarith [Real.pi_pos]
  -- the excitation is the same tone with the magnitude added to the part in phase
  have excited : IsTone updates (cfg.excitation (realLib powf)) (a + cfg.magnitude) b c := by
    intro u member
    rw [FreqConfig.excitation, same u member, tone u member]
    change _ + Real.sin u.theta * cfg.magnitude = _
    ring
  obtain ⟨real, imag⟩ := tone.correlated trip half measured.nonempty
  obtain ⟨excReal, excImag⟩ := excited.correlated trip half measured.nonempty
  obtain ⟨freq, _, _, _, _⟩ := result
  rw [FreqResponseResult.mk.injEq]
  exact ⟨rfl, measured.real.trans real, measured.imag.trans imag, measured.excReal.trans excReal,
    measured.excImag.trans excImag⟩

/-- Once a frequency with whole wavelengths is configured, `FreqResponse_Update` is called with
as many samples as it has, which are a tone at the phases that the calls use. The next
`FreqResponse_Poll` emits the tone's parts without its constant, and those of the tone with
the excitation added. -/
theorem sampleMachine_tone (powf : ℝ → ℝ → ℝ) (fr : FreqResponse ℝ) (zero : fr.samplesRemaining = 0)
    (emits : fr.emit = true) (f : ℝ) (configured : (freqResponsePoll (realLib powf) fr).1.f = f)
    (wavelengths : 1 ≤ fr.wavelengthsPerFrequency) (count : ℕ)
    (whole : f * count = fr.wavelengthsPerFrequency * fr.fs) (positive : 0 < f) (below : f < fr.fs / 2) (a b c : ℝ)
    (samples : List ℝ) (length : samples.length = count)
    (tone : samples = ((sampleMachine (realLib powf)).outputs (freqResponsePoll (realLib powf) fr).1 samples).map
      fun θ => a * Real.sin θ + b * Real.cos θ + c) :
    ∃ next, (freqResponsePoll (realLib powf)
        ((sampleMachine (realLib powf)).final (freqResponsePoll (realLib powf) fr).1 samples)).2 =
      [.emitted ⟨f, a, b, a + fr.magnitude, b⟩, .configured next] := by
  have exactly : fr.fs / f * fr.wavelengthsPerFrequency = count := by
    rw [div_mul_eq_mul_div, div_eq_iff positive.ne', mul_comm, ← whole, mul_comm]
  have enough : f ≤ fr.fs * fr.wavelengthsPerFrequency := by
    have : (1 : ℝ) ≤ fr.wavelengthsPerFrequency := by exact_mod_cast wavelengths
    nlinarith
  have all : ((samples.map fun v => (v, v)).length : ℤ) = fr.sampleCount f := by
    rw [FreqConfig.sampleCount, exactly, Int.floor_natCast, List.length_map, length]
  obtain ⟨updates, next, same, seen, events, freq, measured⟩ :=
    configured_emits zero configured emits positive enough _ all
  rw [← sampleMachine_final] at events freq measured
  have taken : updates.map (·.sample) = samples := by
    simpa [Function.comp_def] using congrArg (List.map Prod.fst) same
  have number : updates.length = samples.length := by rw [← taken, List.length_map]
  have offset (u) (member : u ∈ updates) : u.offset = u.sample := by
    have pair : (u.sample, u.offset) ∈ samples.map fun v => (v, v) := same ▸ List.mem_map_of_mem member
    obtain ⟨v, -, both⟩ := List.mem_map.mp pair
    rw [Prod.mk.injEq] at both
    exact both.2.symm.trans both.1
  have is_tone : IsTone updates ActiveUpdate.sample a b c := by
    have phases := tone
    rw [sampleMachine_outputs seen number, List.map_map, ← taken] at phases
    exact List.map_inj_left.mp phases
  rw [← length, ← number] at whole
  rw [← freq] at positive below whole ⊢
  have parts := measured.tone positive below whole is_tone offset
  refine ⟨next, events.trans ?_⟩
  rw [← parts]

end

/-- Where a measurement is: the samples that are left, the increment and the phase. -/
structure AtPhase (fr : FreqResponse ℝ) (left : ℕ) (increment θ : ℝ) : Prop where
  left : fr.samplesRemaining = left
  increment : fr.thetaIncrement = increment
  theta : fr.theta = θ

section

variable (powf : ℝ → ℝ → ℝ) {fr : FreqResponse ℝ} {n : ℕ} {x θ θ' : ℝ}

theorem AtPhase.call (before : AtPhase fr (n + 1) x θ)
    (wrapped : (if θ + x > 2 * Real.pi then θ + x - 2 * Real.pi else θ + x) = θ') (v : ℝ) :
    ∃ after, AtPhase after n x θ' ∧ ∀ rest, (sampleMachine (realLib powf)).outputs fr (v :: rest) =
      θ' :: (sampleMachine (realLib powf)).outputs after rest := by
  obtain ⟨left, increment, theta⟩ := before
  have active : fr.samplesRemaining ≠ 0 := by omega
  have phase : ((sampleMachine (realLib powf)).step fr v).1.theta = θ' := by
    rw [← wrapped, ← increment, ← theta]
    simp only [sampleMachine, freqResponseUpdate, freqResponseUpdateWithOffset, if_pos active]
    rfl
  refine ⟨((sampleMachine (realLib powf)).step fr v).1, ⟨?_, ?_, phase⟩, fun rest => ?_⟩
  · simp only [sampleMachine, freqResponseUpdate, freqResponseUpdateWithOffset, if_pos active]
    omega
  · simp only [sampleMachine, freqResponseUpdate, freqResponseUpdateWithOffset, if_pos active, increment]
  · rw [Machine.outputs_cons, ← phase]
    rfl

/-- Four samples to a wavelength, from its beginning or, before the wrap, from its end. -/
theorem AtPhase.wavelength (before : AtPhase fr (n + 4) (Real.pi / 2) θ) (start : θ = 0 ∨ θ = 2 * Real.pi)
    (s t u v : ℝ) :
    ∃ after, AtPhase after n (Real.pi / 2) (2 * Real.pi) ∧
      ∀ rest, (sampleMachine (realLib powf)).outputs fr (s :: t :: u :: v :: rest) =
        [Real.pi / 2, Real.pi, Real.pi + Real.pi / 2, 2 * Real.pi] ++
          (sampleMachine (realLib powf)).outputs after rest := by
  have positive := Real.pi_pos
  have inside {φ : ℝ} (under : φ ≤ 2 * Real.pi) : (if φ > 2 * Real.pi then φ - 2 * Real.pi else φ) = φ :=
    if_neg (not_lt.mpr under)
  have quarter : (if θ + Real.pi / 2 > 2 * Real.pi then θ + Real.pi / 2 - 2 * Real.pi else θ + Real.pi / 2) =
      Real.pi / 2 := by
    rcases start with rfl | rfl
    · rw [inside (by linarith), zero_add]
    · rw [if_pos (by linarith), add_sub_cancel_left]
  obtain ⟨_, half, first⟩ := before.call powf quarter s
  obtain ⟨_, threeQuarters, second⟩ := half.call powf ((inside (by linarith)).trans (add_halves Real.pi)) t
  obtain ⟨_, last, third⟩ := threeQuarters.call powf (inside (by linarith)) u
  have whole : Real.pi + Real.pi / 2 + Real.pi / 2 = 2 * Real.pi := by ring
  obtain ⟨after, done, fourth⟩ := last.call powf ((inside (by linarith)).trans whole) v
  refine ⟨after, done, fun rest => ?_⟩
  rw [first, second, third, fourth]
  rfl

end

/-- Four samples to each of two wavelengths of the only frequency. -/
noncomputable def twoWavelengths : FreqResponse ℝ := ⟨⟨4, 1, 1, 1, 5, 2, true⟩, 0, 0, 0, 0, 0, 0, 0, 0, 0⟩

/-- The phase goes round twice, and the constant is not in the result. -/
theorem sampleMachine_tone_twoWavelengths :
    let lib := realLib fun _ _ => 1
    ∃ next, (freqResponsePoll lib ((sampleMachine lib).final (freqResponsePoll lib twoWavelengths).1
      [3, -2, -1, 4, 3, -2, -1, 4])).2 = [.emitted ⟨1, 2, 3, 2 + 5, 3⟩, .configured next] := by
  intro lib
  have configured : (freqResponsePoll lib twoWavelengths).1.f = 1 := by
    rw [poll_f twoWavelengths rfl]
    norm_num [twoWavelengths]
  have start : AtPhase (freqResponsePoll lib twoWavelengths).1 8 (Real.pi / 2) 0 := by
    rw [poll_eq_configure twoWavelengths rfl, configured]
    refine ⟨?_, ?_, rfl⟩
    · simp only [FreqResponse.configure, twoWavelengths]
      norm_num [trunc]
    · simp only [FreqResponse.configure, twoWavelengths, lib, realLib]
      ring
  obtain ⟨_, middle, first⟩ := start.wavelength (fun _ _ => 1) (Or.inl rfl) 3 (-2) (-1) 4
  obtain ⟨_, -, second⟩ := middle.wavelength (fun _ _ => 1) (Or.inr rfl) 3 (-2) (-1) 4
  refine sampleMachine_tone (fun _ _ => 1) twoWavelengths rfl rfl 1 configured (by decide) 8 ?_ one_pos ?_ 2 3 1
    [3, -2, -1, 4, 3, -2, -1, 4] rfl ?_
  · norm_num [twoWavelengths]
  · norm_num [twoWavelengths]
  · rw [first, second, Machine.outputs_nil]
    norm_num [Real.sin_add, Real.cos_add]

end Maglev
