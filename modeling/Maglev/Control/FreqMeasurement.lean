import Mathlib.Algebra.Group.ModEq
import Mathlib.Algebra.BigOperators.Group.List.Basic
import Mathlib.Algebra.Order.Field.Basic
import Mathlib.Tactic.Ring
import Maglev.Control.FreqInterleaving

namespace Maglev

section

variable {K : Type*} [Field K] [LinearOrder K] [FloorRing K] (lib : MathLib K)

/-- The number of samples for one frequency. -/
def FreqConfig.sampleCount (cfg : FreqConfig K) (f : K) : ℤ := ⌊cfg.fs / f * cfg.wavelengthsPerFrequency⌋

/-- The value the bridge is driven with at an active update. -/
def FreqConfig.excitation (cfg : FreqConfig K) (u : ActiveUpdate K) : K := u.offset + lib.sinf u.theta * cfg.magnitude

/-- The settings for which every frequency that is reached has a sample. -/
structure FreqConfig.Measurable (cfg : FreqConfig K) : Prop where
  positive : 0 < cfg.fMin
  ordered : cfg.fMin ≤ cfg.fMax
  enough : cfg.fMax ≤ cfg.fs * cfg.wavelengthsPerFrequency

/-- The updates are all those of one frequency: as many as belong to it, each with its
phase up to whole turns, and the result has their sums, scaled. -/
structure MeasuredBy (cfg : FreqConfig K) (result : FreqResponseResult K) (updates : List (ActiveUpdate K)) :
    Prop where
  count : (updates.length : ℤ) = cfg.sampleCount result.freq
  nonempty : 1 ≤ updates.length
  phase : ∀ (n : ℕ) u, updates[n]? = some u →
    u.theta ≡ (n + 1) * (2 * lib.pi * result.freq / cfg.fs) [PMOD 2 * lib.pi]
  real : result.real = (updates.map fun u => lib.sinf u.theta * u.sample).sum * (2 / updates.length)
  imag : result.imag = (updates.map fun u => lib.cosf u.theta * u.sample).sum * (2 / updates.length)
  excReal : result.excReal = (updates.map fun u => lib.sinf u.theta * cfg.excitation lib u).sum * (2 / updates.length)
  excImag : result.excImag = (updates.map fun u => lib.cosf u.theta * cfg.excitation lib u).sum * (2 / updates.length)

/-- A measurement in progress, after the given updates. -/
structure Measuring (cfg : FreqConfig K) (fr : FreqResponse K) (updates : List (ActiveUpdate K)) : Prop where
  config : fr.toFreqConfig = cfg
  atLeast : cfg.fMin ≤ fr.f
  atMost : fr.f ≤ cfg.fMax
  count : fr.samplesRemaining + updates.length = cfg.sampleCount fr.f
  left : 0 ≤ fr.samplesRemaining
  increment : fr.thetaIncrement = 2 * lib.pi / (cfg.fs / fr.f)
  normalization : fr.normalizationFactor = 2 / (cfg.sampleCount fr.f : K)
  theta : fr.theta ≡ updates.length * fr.thetaIncrement [PMOD 2 * lib.pi]
  phase : ∀ (n : ℕ) u, updates[n]? = some u → u.theta ≡ (n + 1) * fr.thetaIncrement [PMOD 2 * lib.pi]
  sinSum : fr.sinSum = (updates.map fun u => lib.sinf u.theta * u.sample).sum
  cosSum : fr.cosSum = (updates.map fun u => lib.cosf u.theta * u.sample).sum
  sinExcSum : fr.sinExcSum = (updates.map fun u => lib.sinf u.theta * cfg.excitation lib u).sum
  cosExcSum : fr.cosExcSum = (updates.map fun u => lib.cosf u.theta * cfg.excitation lib u).sum

/-- Every result that is emitted is measured by the updates since the last configuration. -/
def EmitsMeasured (cfg : FreqConfig K) (events : List (FreqEvent K)) : Prop :=
  ∀ pre result post, events = pre ++ .emitted result :: post → ∃ before updates,
    pre = before ++ .configured result.freq :: updates.map .active ∧ MeasuredBy lib cfg result updates

/-- The states that whole calls reach, with what they have shown. -/
inductive Tracked (cfg : FreqConfig K) (out : List (FreqEvent K)) (fr : FreqResponse K) : Prop
  | fresh : fr.toFreqConfig = cfg → fr.f < cfg.fMin → fr.samplesRemaining = 0 → out = [] → Tracked cfg out fr
  | measuring (before : List (FreqEvent K)) (updates : List (ActiveUpdate K)) :
      out = before ++ .configured fr.f :: updates.map .active → Measuring lib cfg fr updates →
      EmitsMeasured lib cfg out → Tracked cfg out fr

variable {lib} {cfg : FreqConfig K} {events out : List (FreqEvent K)}

theorem EmitsMeasured.nil : EmitsMeasured lib cfg [] := by
  intro pre result post split
  simp at split

theorem EmitsMeasured.restrict (emits : EmitsMeasured lib cfg events) (begins : out <+: events) :
    EmitsMeasured lib cfg out := by
  obtain ⟨rest, rfl⟩ := begins
  rintro pre result post rfl
  exact emits pre result (post ++ rest) (by simp)

theorem EmitsMeasured.concat {event : FreqEvent K} (emits : EmitsMeasured lib cfg events)
    (last : ∀ result, event = .emitted result → ∃ before updates,
      events = before ++ .configured result.freq :: updates.map .active ∧ MeasuredBy lib cfg result updates) :
    EmitsMeasured lib cfg (events ++ [event]) := by
  intro pre result post split
  rcases post.eq_nil_or_concat with rfl | ⟨rest, final, rfl⟩
  · obtain ⟨rfl, same⟩ := List.append_inj' split rfl
    exact last result (List.singleton_inj.mp same)
  · have snoc : events ++ [event] = (pre ++ .emitted result :: rest) ++ [final] := by simpa using split
    obtain ⟨rfl, -⟩ := List.append_inj' snoc rfl
    exact emits pre result rest rfl

omit [FloorRing K] in
theorem update_f (fr : FreqResponse K) (sample offset : K) :
    (freqResponseUpdateWithOffset lib fr sample offset).1.f = fr.f := by
  unfold freqResponseUpdateWithOffset
  split <;> rfl

omit [FloorRing K] in
theorem update_theta {fr : FreqResponse K} (active : fr.samplesRemaining ≠ 0) (sample offset : K) :
    (freqResponseUpdateWithOffset lib fr sample offset).1.theta ≡ fr.theta + fr.thetaIncrement [PMOD 2 * lib.pi] := by
  simp only [freqResponseUpdateWithOffset, if_pos active]
  split
  · rw [AddCommGroup.sub_modEq_iff_modEq_add, AddCommGroup.modEq_comm, AddCommGroup.add_modEq_left]
    exact AddCommGroup.self_modEq_zero
  · rfl

theorem freqCalls_config (fr : FreqResponse K) (input : FreqInput K) :
    ((freqCalls lib).step fr input).1.toFreqConfig = fr.toFreqConfig := by
  cases input with
  | poll =>
    simp only [freqCalls, freqResponsePoll]
    split <;> rfl
  | update sample offset =>
    simp only [freqCalls, freqResponseUpdateWithOffset]
    split <;> rfl

theorem freqCalls_final_config (fr : FreqResponse K) (calls : List (FreqInput K)) :
    ((freqCalls lib).final fr calls).toFreqConfig = fr.toFreqConfig :=
  (freqCalls lib).final_invariant (fun fr' input kept => (freqCalls_config fr' input).trans kept) rfl calls

theorem poll_eq_configure (fr : FreqResponse K) (zero : fr.samplesRemaining = 0) :
    (freqResponsePoll lib fr).1 = fr.configure lib (freqResponsePoll lib fr).1.f := by
  simp only [freqResponsePoll, if_pos zero]
  rfl

theorem poll_f (fr : FreqResponse K) (zero : fr.samplesRemaining = 0) :
    (freqResponsePoll lib fr).1.f =
      if fr.f * lib.powf 10 (1 / fr.frequenciesPerDecade) < fr.fMin ∨
        fr.f * lib.powf 10 (1 / fr.frequenciesPerDecade) > fr.fMax then fr.fMin
      else fr.f * lib.powf 10 (1 / fr.frequenciesPerDecade) := by
  simp only [freqResponsePoll, if_pos zero]

theorem fMin_le_poll_f (fr : FreqResponse K) (zero : fr.samplesRemaining = 0) :
    fr.fMin ≤ (freqResponsePoll lib fr).1.f := by
  rw [poll_f fr zero]
  split_ifs with outside
  · exact le_rfl
  · exact not_lt.mp (outside ∘ Or.inl)

theorem poll_f_le_fMax (fr : FreqResponse K) (zero : fr.samplesRemaining = 0) (ordered : fr.fMin ≤ fr.fMax) :
    (freqResponsePoll lib fr).1.f ≤ fr.fMax := by
  rw [poll_f fr zero]
  split_ifs with outside
  · exact ordered
  · exact not_lt.mp (outside ∘ Or.inr)

/-- An update in a measurement goes to the next phase and takes the sample in. -/
theorem Measuring.update {fr : FreqResponse K} {updates : List (ActiveUpdate K)}
    (measuring : Measuring lib cfg fr updates) (active : fr.samplesRemaining ≠ 0) (sample offset : K) :
    Measuring lib cfg (freqResponseUpdateWithOffset lib fr sample offset).1
      (updates ++ [⟨(freqResponseUpdateWithOffset lib fr sample offset).1.theta, sample, offset⟩]) := by
  have theta : (freqResponseUpdateWithOffset lib fr sample offset).1.theta ≡
      (updates.length + 1) * fr.thetaIncrement [PMOD 2 * lib.pi] := by
    have moved := (update_theta active sample offset).trans (measuring.theta.add_right fr.thetaIncrement)
    rwa [← add_one_mul] at moved
  have magnitude : fr.magnitude = cfg.magnitude := by rw [← measuring.config]
  have count := measuring.count
  have left := measuring.left
  generalize next : (freqResponseUpdateWithOffset lib fr sample offset).1 = after at theta ⊢
  simp only [freqResponseUpdateWithOffset, if_pos active] at next
  subst next
  constructor
  · exact measuring.config
  · exact measuring.atLeast
  · exact measuring.atMost
  · simp only [List.length_append, List.length_singleton]
    push_cast
    linarith
  · change 0 ≤ fr.samplesRemaining - 1
    omega
  · exact measuring.increment
  · exact measuring.normalization
  · simpa using theta
  · intro n u at_n
    rcases lt_or_ge n updates.length with earlier | last
    · rw [List.getElem?_append_left earlier] at at_n
      exact measuring.phase n u at_n
    · rw [List.getElem?_append_right last, List.getElem?_singleton] at at_n
      obtain ⟨now, ⟨⟩⟩ := Option.ite_none_right_eq_some.mp at_n
      obtain rfl : n = updates.length := by omega
      exact theta
  · simp [measuring.sinSum]
  · simp [measuring.cosSum]
  · simp [measuring.sinExcSum, FreqConfig.excitation, magnitude]
  · simp [measuring.cosExcSum, FreqConfig.excitation, magnitude]

/-- Calls with these samples and offsets. -/
def updateCalls (values : List (K × K)) : List (FreqInput K) := values.map fun v => .update v.1 v.2

/-- Updates for which samples are left all take part, one after the other. -/
theorem Measuring.run {fr : FreqResponse K} {updates : List (ActiveUpdate K)}
    (measuring : Measuring lib cfg fr updates) (values : List (K × K)) (enough : values.length ≤ fr.samplesRemaining) :
    ∃ taken : List (ActiveUpdate K), taken.map (fun u => (u.sample, u.offset)) = values ∧
      (freqCalls lib).outputs fr (updateCalls values) = taken.map .active ∧
      ((freqCalls lib).final fr (updateCalls values)).f = fr.f ∧
      ((freqCalls lib).final fr (updateCalls values)).samplesRemaining = fr.samplesRemaining - values.length ∧
      Measuring lib cfg ((freqCalls lib).final fr (updateCalls values)) (updates ++ taken) := by
  induction values generalizing fr updates with
  | nil => exact ⟨[], rfl, rfl, rfl, (sub_zero _).symm, by rwa [List.append_nil]⟩
  | cons v rest ih =>
    rw [List.length_cons] at enough
    have active : fr.samplesRemaining ≠ 0 := by omega
    have fewer : (freqResponseUpdateWithOffset lib fr v.1 v.2).1.samplesRemaining = fr.samplesRemaining - 1 := by
      simp only [freqResponseUpdateWithOffset, if_pos active]
    obtain ⟨taken, same, seen, kept, remaining, after⟩ := ih (measuring.update active v.1 v.2) (by omega)
    refine ⟨⟨(freqResponseUpdateWithOffset lib fr v.1 v.2).1.theta, v.1, v.2⟩ :: taken, ?_, ?_, ?_, ?_, ?_⟩
    · rw [List.map_cons, same]
    · exact congrArg₂ (· ++ ·) (if_pos active) seen
    · exact kept.trans (update_f fr v.1 v.2)
    · refine remaining.trans ?_
      rw [fewer, List.length_cons]
      omega
    · rwa [List.append_assoc] at after

theorem Tracked.update {fr : FreqResponse K} (tracked : Tracked lib cfg out fr) (sample offset : K) :
    Tracked lib cfg (out ++ ((freqCalls lib).step fr (.update sample offset)).2)
      ((freqCalls lib).step fr (.update sample offset)).1 := by
  rcases tracked with ⟨config, low, zero, rfl⟩ | ⟨before, updates, seen, measuring, emits⟩
  · simp only [freqCalls, update_of_zero zero, if_neg (not_not_intro zero), List.append_nil]
    exact .fresh config low zero rfl
  · by_cases zero : fr.samplesRemaining = 0
    · simp only [freqCalls, update_of_zero zero, if_neg (not_not_intro zero), List.append_nil]
      exact .measuring before updates seen measuring emits
    · simp only [freqCalls, if_pos zero]
      refine .measuring before _ ?_ (measuring.update zero sample offset) (emits.concat (by simp))
      rw [seen, update_f, List.map_append, List.append_assoc, List.cons_append]
      rfl

variable [IsStrictOrderedRing K]

theorem FreqConfig.Measurable.one_le_sampleCount (measurable : cfg.Measurable) {f : K} (atLeast : cfg.fMin ≤ f)
    (atMost : f ≤ cfg.fMax) : 1 ≤ cfg.sampleCount f := by
  have positive : 0 < f := measurable.positive.trans_le atLeast
  rw [FreqConfig.sampleCount, Int.le_floor, Int.cast_one, div_mul_eq_mul_div, one_le_div positive]
  exact atMost.trans measurable.enough

/-- With no sample left, the sums are those of all samples of the frequency. -/
theorem Measuring.measuredBy {fr : FreqResponse K} {updates : List (ActiveUpdate K)} (measurable : cfg.Measurable)
    (measuring : Measuring lib cfg fr updates) (zero : fr.samplesRemaining = 0) :
    MeasuredBy lib cfg fr.result updates := by
  have count : (updates.length : ℤ) = cfg.sampleCount fr.f := by
    rw [← measuring.count, zero, zero_add]
  have scaled : fr.normalizationFactor = 2 / (updates.length : K) := by
    rw [measuring.normalization, ← count, Int.cast_natCast]
  have increment : fr.thetaIncrement = 2 * lib.pi * fr.f / cfg.fs := by
    rw [measuring.increment, div_div_eq_mul_div]
  have some := measurable.one_le_sampleCount measuring.atLeast measuring.atMost
  constructor
  · exact count
  · omega
  · intro n u at_n
    rw [FreqResponse.result, ← increment]
    exact measuring.phase n u at_n
  · rw [← measuring.sinSum, ← scaled, FreqResponse.result]
  · rw [← measuring.cosSum, ← scaled, FreqResponse.result]
  · rw [← measuring.sinExcSum, ← scaled, FreqResponse.result]
  · rw [← measuring.cosExcSum, ← scaled, FreqResponse.result]

theorem FreqConfig.Measurable.trunc_samples (measurable : cfg.Measurable) {f : K} (atLeast : cfg.fMin ≤ f)
    (atMost : f ≤ cfg.fMax) : trunc (cfg.fs / f * cfg.wavelengthsPerFrequency) = cfg.sampleCount f := by
  have some := measurable.one_le_sampleCount atLeast atMost
  exact trunc_of_nonneg (Int.floor_nonneg.mp (zero_le_one.trans some))

/-- A call that finds no sample left begins the measurement of a frequency in the range. -/
theorem measuring_poll {fr : FreqResponse K} (measurable : fr.toFreqConfig.Measurable)
    (zero : fr.samplesRemaining = 0) : Measuring lib fr.toFreqConfig (freqResponsePoll lib fr).1 [] := by
  have atLeast : fr.fMin ≤ (freqResponsePoll lib fr).1.f := fMin_le_poll_f fr zero
  have atMost : (freqResponsePoll lib fr).1.f ≤ fr.fMax := poll_f_le_fMax fr zero measurable.ordered
  rw [poll_eq_configure fr zero]
  generalize (freqResponsePoll lib fr).1.f = f at atLeast atMost
  have some := measurable.one_le_sampleCount atLeast atMost
  have samples := measurable.trunc_samples atLeast atMost
  constructor
  · rfl
  · exact atLeast
  · exact atMost
  · exact (add_zero _).trans samples
  · exact (zero_le_one.trans some).trans_eq samples.symm
  · rfl
  · exact congrArg (fun n : ℤ => (2 : K) / n) samples
  all_goals simp [FreqResponse.configure]

theorem Tracked.poll {fr : FreqResponse K} (measurable : cfg.Measurable) (tracked : Tracked lib cfg out fr) :
    Tracked lib cfg (out ++ (freqResponsePoll lib fr).2) (freqResponsePoll lib fr).1 := by
  by_cases zero : fr.samplesRemaining = 0
  · rw [freqResponsePoll_events lib zero, ← List.append_assoc]
    rcases tracked with ⟨rfl, low, -, rfl⟩ | ⟨before, updates, seen, measuring, emits⟩
    · rw [if_neg (not_le.mpr low)]
      exact .measuring [] [] rfl (measuring_poll measurable zero) (EmitsMeasured.nil.concat (by simp))
    · obtain rfl := measuring.config
      refine .measuring _ [] rfl (measuring_poll measurable zero) (EmitsMeasured.concat ?_ (by simp))
      split_ifs
      · refine emits.concat ?_
        rintro result ⟨⟩
        exact ⟨before, updates, seen, measuring.measuredBy measurable zero⟩
      all_goals simpa using emits
  · have idle : freqResponsePoll lib fr = (fr, []) := if_neg zero
    rw [idle, List.append_nil]
    exact tracked

theorem freqCalls_emitsMeasured {fr : FreqResponse K} (measurable : fr.toFreqConfig.Measurable) (low : fr.f < fr.fMin)
    (zero : fr.samplesRemaining = 0) (calls : List (FreqInput K)) :
    EmitsMeasured lib fr.toFreqConfig ((freqCalls lib).outputs fr calls) := by
  have tracked :
      Tracked lib fr.toFreqConfig ([] ++ (freqCalls lib).outputs fr calls) ((freqCalls lib).final fr calls) := by
    refine Machine.outputs_invariant _ (fun out fr input tracked => ?_) (.fresh rfl low zero rfl) calls
    cases input with
    | poll => exact tracked.poll measurable
    | update sample offset => exact tracked.update sample offset
  rcases tracked with ⟨-, -, -, silent⟩ | ⟨_, _, _, _, emits⟩
  · rw [List.nil_append] at silent
    exact silent ▸ .nil
  · exact emits

omit [Field K] [LinearOrder K] [FloorRing K] [IsStrictOrderedRing K] in
theorem emitted_before {before earlier : List (FreqEvent K)} {f : K} {updates : List (ActiveUpdate K)}
    {result : FreqResponseResult K}
    (begins : earlier ++ [FreqEvent.emitted result] <+:
      before ++ FreqEvent.configured f :: updates.map FreqEvent.active) :
    earlier ++ [FreqEvent.emitted result] <+: before := by
  rcases List.prefix_or_prefix_of_prefix begins (List.prefix_append before _) with inside | ⟨rest, joined⟩
  · exact inside
  · rcases rest.eq_nil_or_concat with rfl | ⟨rest, last, rfl⟩
    · exact ⟨[], by simpa using joined.symm⟩
    · -- an emit would have to stand among the updates
      rw [← joined, List.prefix_append_right_inj, List.concat_eq_append] at begins
      have same : last = .emitted result := by
        rw [List.concat_eq_append, ← List.append_assoc] at joined
        exact List.singleton_inj.mp (List.append_inj' joined rfl).2
      have among := begins.subset (List.mem_append_right _ (List.mem_singleton_self last))
      simp [same] at among

/-- Wherever the interrupts fall between the assignments of the thread, a result that is
emitted with a frequency has the sums of exactly the samples of that frequency, taken since
its configuration was complete; and every earlier result was emitted before that, so that no
update is counted twice. -/
theorem freqMachine_emitsMeasured (s : Polling K) (atPc : s.pc = .checkRemaining)
    (measurable : s.fr.toFreqConfig.Measurable) (low : s.fr.f < s.fr.fMin) (zero : s.fr.samplesRemaining = 0)
    (inputs : List (FreqInput K)) (pre post : List (FreqEvent K)) (result : FreqResponseResult K)
    (emits : (freqMachine lib).outputs s inputs = pre ++ .emitted result :: post) :
    ∃ before updates, pre = before ++ .configured result.freq :: updates.map .active ∧
      MeasuredBy lib s.fr.toFreqConfig result updates ∧
      ∀ earlier result', earlier ++ [.emitted result'] <+: pre → earlier ++ [.emitted result'] <+: before := by
  obtain ⟨calls, begins⟩ := freqMachine_serial atPc inputs
  have measured := (freqCalls_emitsMeasured measurable low zero calls).restrict begins
  obtain ⟨before, updates, rfl, by_updates⟩ := measured pre result post emits
  exact ⟨before, updates, rfl, by_updates, fun earlier result' => emitted_before⟩

end

/-- Settings for which there are two samples of a frequency. -/
def twoSamples : Polling ℚ where
  fr := ⟨⟨2, 1, 2, 1, 1, 1, true⟩, 0, 0, 0, 0, 0, 0, 0, 0, 0⟩
  pc := .checkRemaining
  result := ⟨0, 0, 0, 0, 0⟩
  samplesPerWavelength := 0
  samples := 0

/-- The interrupt comes once inside the configuration, and twice after it. -/
def twoSamplesRun : List (FreqInput ℚ) :=
  List.replicate 9 .poll ++ [.update 5 5] ++ List.replicate 6 .poll ++ [.update 7 8, .update 9 9] ++
    List.replicate 9 .poll

/-- What it shows before the result. -/
def twoSamplesSeen : List (FreqEvent ℚ) := [.configured 1, .active ⟨3, 7, 8⟩, .active ⟨6, 9, 9⟩]

theorem freqMachine_emitsMeasured_twoSamples :
    (freqMachine tableLib).outputs twoSamples twoSamplesRun = twoSamplesSeen ++ .emitted ⟨1, 9, -7, 10, -8⟩ :: [] ∧
    ∃ before updates, twoSamplesSeen = before ++ .configured 1 :: updates.map .active ∧
      MeasuredBy tableLib twoSamples.fr.toFreqConfig ⟨1, 9, -7, 10, -8⟩ updates ∧
      ∀ earlier result', earlier ++ [.emitted result'] <+: twoSamplesSeen →
        earlier ++ [.emitted result'] <+: before := by
  have run : (freqMachine tableLib).outputs twoSamples twoSamplesRun =
      twoSamplesSeen ++ .emitted ⟨1, 9, -7, 10, -8⟩ :: [] := by decide +kernel
  have measurable : twoSamples.fr.toFreqConfig.Measurable := ⟨by decide, by decide, by decide +kernel⟩
  exact ⟨run, freqMachine_emitsMeasured twoSamples rfl measurable (by decide) rfl twoSamplesRun _ _ _ run⟩

end Maglev
