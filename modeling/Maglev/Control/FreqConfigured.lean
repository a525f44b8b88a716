import Maglev.Control.FreqMeasurement

namespace Maglev

variable {K : Type*} [Field K] [LinearOrder K] [FloorRing K] {lib : MathLib K} {fr : FreqResponse K} {f : K}

/-- The same measurement with its frequency as the only one of the range. -/
def FreqResponse.narrow (fr : FreqResponse K) (f : K) : FreqResponse K := { fr with fMin := f, fMax := f }

theorem narrow_poll (zero : fr.samplesRemaining = 0) (configured : (freqResponsePoll lib fr).1.f = f) :
    (freqResponsePoll lib (fr.narrow f)).1 = (freqResponsePoll lib fr).1.narrow f := by
  have only : (freqResponsePoll lib (fr.narrow f)).1.f = f := by
    rw [poll_f (fr.narrow f) zero]
    split_ifs with outside
    · rfl
    · exact (not_lt.mp (outside ∘ Or.inr)).antisymm (not_lt.mp (outside ∘ Or.inl))
  rw [poll_eq_configure fr zero, poll_eq_configure (fr.narrow f) zero, configured, only]
  rfl

theorem narrow_update (sample offset : K) :
    (freqCalls lib).step (fr.narrow f) (.update sample offset) =
      (((freqCalls lib).step fr (.update sample offset)).1.narrow f,
        ((freqCalls lib).step fr (.update sample offset)).2) := by
  by_cases active : fr.samplesRemaining ≠ 0
  · have active' : (fr.narrow f).samplesRemaining ≠ 0 := active
    simp only [freqCalls, freqResponseUpdateWithOffset, if_pos active, if_pos active']
    rfl
  · have idle : (fr.narrow f).samplesRemaining = 0 := not_not.mp active
    simp only [freqCalls, update_of_zero idle, update_of_zero (not_not.mp active), if_neg active]
    simp only [idle, ne_eq, not_true, if_false]

theorem narrow_updates (lib : MathLib K) (fr : FreqResponse K) (f : K) (values : List (K × K)) :
    (freqCalls lib).final (fr.narrow f) (updateCalls values) =
        ((freqCalls lib).final fr (updateCalls values)).narrow f ∧
      (freqCalls lib).outputs (fr.narrow f) (updateCalls values) =
        (freqCalls lib).outputs fr (updateCalls values) := by
  have symmetric (fr : FreqResponse K) (call) (update : call ∈ updateCalls values) :
      (freqCalls lib).step (fr.narrow f) (id call) =
        (((freqCalls lib).step fr call).1.narrow f, ((freqCalls lib).step fr call).2.map id) := by
    obtain ⟨v, -, rfl⟩ := List.mem_map.mp update
    rw [List.map_id]
    exact narrow_update v.1 v.2
  simpa only [List.map_id] using (freqCalls lib).run_symmetry _ symmetric fr

variable [IsStrictOrderedRing K]

/-- As many updates as a frequency has samples measure it, whatever the range is. -/
theorem configured_measuredBy (zero : fr.samplesRemaining = 0) (configured : (freqResponsePoll lib fr).1.f = f)
    (positive : 0 < f) (enough : f ≤ fr.fs * fr.wavelengthsPerFrequency) (values : List (K × K))
    (all : (values.length : ℤ) = fr.sampleCount f) :
    ∃ taken : List (ActiveUpdate K), taken.map (fun u => (u.sample, u.offset)) = values ∧
      (freqCalls lib).outputs (freqResponsePoll lib fr).1 (updateCalls values) = taken.map .active ∧
      ((freqCalls lib).final (freqResponsePoll lib fr).1 (updateCalls values)).f = f ∧
      ((freqCalls lib).final (freqResponsePoll lib fr).1 (updateCalls values)).samplesRemaining = 0 ∧
      MeasuredBy lib fr.toFreqConfig
        ((freqCalls lib).final (freqResponsePoll lib fr).1 (updateCalls values)).result taken := by
  have measurable : (fr.narrow f).toFreqConfig.Measurable := ⟨positive, le_rfl, enough⟩
  have measuring : Measuring lib (fr.narrow f).toFreqConfig ((freqResponsePoll lib fr).1.narrow f) [] := by
    rw [← narrow_poll zero configured]
    exact measuring_poll measurable zero
  have samples : ((freqResponsePoll lib fr).1.narrow f).samplesRemaining = values.length := by
    rw [all, ← configured]
    exact (add_zero _).symm.trans measuring.count
  obtain ⟨taken, same, seen, kept, remaining, done⟩ := measuring.run values samples.ge
  rw [samples, sub_self] at remaining
  have measured := done.measuredBy measurable remaining
  obtain ⟨final, outputs⟩ := narrow_updates lib (freqResponsePoll lib fr).1 f values
  rw [final] at kept remaining measured
  rw [outputs] at seen
  refine ⟨taken, same, seen, kept.trans configured, remaining, ?_⟩
  -- the ends of the range do not occur in what is measured
  exact ⟨measured.count, measured.nonempty, measured.phase, measured.real, measured.imag, measured.excReal,
    measured.excImag⟩

/-- The next call emits what they have measured. -/
theorem configured_emits (zero : fr.samplesRemaining = 0) (configured : (freqResponsePoll lib fr).1.f = f)
    (emits : fr.emit = true) (positive : 0 < f) (enough : f ≤ fr.fs * fr.wavelengthsPerFrequency)
    (values : List (K × K)) (all : (values.length : ℤ) = fr.sampleCount f) :
    ∃ (taken : List (ActiveUpdate K)) (next : K),
      let after := (freqCalls lib).final (freqResponsePoll lib fr).1 (updateCalls values)
      taken.map (fun u => (u.sample, u.offset)) = values ∧
      (freqCalls lib).outputs (freqResponsePoll lib fr).1 (updateCalls values) = taken.map .active ∧
      (freqResponsePoll lib after).2 = [.emitted after.result, .configured next] ∧
      after.result.freq = f ∧ MeasuredBy lib fr.toFreqConfig after.result taken := by
  obtain ⟨taken, same, seen, kept, remaining, measured⟩ :=
    configured_measuredBy zero configured positive enough values all
  have config : ((freqCalls lib).final (freqResponsePoll lib fr).1
      (updateCalls values)).toFreqConfig = fr.toFreqConfig :=
    freqCalls_final_config fr (.poll :: updateCalls values)
  have events := freqResponsePoll_events lib remaining
  rw [config, kept, if_pos (configured ▸ fMin_le_poll_f fr zero), emits, if_pos rfl] at events
  exact ⟨taken, _, same, seen, events, kept, measured⟩

end Maglev
