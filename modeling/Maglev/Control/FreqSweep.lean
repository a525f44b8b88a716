import Maglev.Control.FreqConfigured
import Maglev.Lib.GeometricGrid

namespace Maglev

section

variable {K : Type*}

/-- The frequencies of the results that are emitted. -/
def emittedFreqs (events : List (FreqEvent K)) : List K :=
  events.filterMap fun
    | .emitted result => some result.freq
    | _ => none

theorem emittedFreqs_append (events rest : List (FreqEvent K)) :
    emittedFreqs (events ++ rest) = emittedFreqs events ++ emittedFreqs rest := List.filterMap_append

theorem emittedFreqs_active (updates : List (ActiveUpdate K)) : emittedFreqs (updates.map .active) = [] := by
  simp [emittedFreqs]

variable [Field K] [LinearOrder K] [FloorRing K] (lib : MathLib K)

/-- The divisions of a call have divisors other than zero. -/
def DividesByNonzero : FreqResponse K → FreqInput K → Prop
  | fr, .poll => fr.samplesRemaining = 0 →
    let after := (freqResponsePoll lib fr).1
    after.f ≠ 0 ∧ fr.fs / after.f ≠ 0 ∧ after.samplesRemaining ≠ 0
  | _, .update _ _ => True

/-- The grid that the settings describe. -/
structure SweepsOver (cfg : FreqConfig K) (grid : GeometricGrid K) : Prop where
  low : cfg.fMin = grid.low
  high : cfg.fMax = grid.high
  ratio : lib.powf 10 (1 / cfg.frequenciesPerDecade) = grid.ratio
  enough : cfg.fMax ≤ cfg.fs * cfg.wavelengthsPerFrequency
  emits : cfg.emit = true

variable {lib} {cfg : FreqConfig K} {grid : GeometricGrid K}

omit [FloorRing K] in
theorem SweepsOver.measurable (sweeps : SweepsOver lib cfg grid) : cfg.Measurable where
  positive := sweeps.low ▸ grid.positive
  ordered := sweeps.low ▸ sweeps.high ▸ grid.ordered
  enough := sweeps.enough

/-- The call goes to the next point of the grid. -/
theorem SweepsOver.next_f {fr : FreqResponse K} (sweeps : SweepsOver lib fr.toFreqConfig grid)
    (zero : fr.samplesRemaining = 0) : (freqResponsePoll lib fr).1.f = grid.next fr.f := by
  rw [poll_f fr zero, sweeps.low, sweeps.high, sweeps.ratio, GeometricGrid.next]

theorem SweepsOver.emittedFreqs_poll {fr : FreqResponse K} (sweeps : SweepsOver lib fr.toFreqConfig grid)
    (zero : fr.samplesRemaining = 0) :
    emittedFreqs (freqResponsePoll lib fr).2 = if grid.low ≤ fr.f then [fr.f] else [] := by
  rw [freqResponsePoll_events lib zero, sweeps.low, sweeps.emits, if_pos rfl]
  split_ifs <;> rfl

/-- Where the sweep is: nothing is measured yet, or the frequency is the point behind
those that are emitted. -/
inductive Sweeping (grid : GeometricGrid K) (out : List (FreqEvent K)) (fr : FreqResponse K) : Prop
  | fresh : fr.samplesRemaining = 0 → fr.f < grid.low → grid.next fr.f = grid.low → emittedFreqs out = [] →
      Sweeping grid out fr
  | measuring (count : ℕ) : fr.f = grid.sweep count → emittedFreqs out = (List.range count).map grid.sweep →
      Sweeping grid out fr

variable {out : List (FreqEvent K)} {fr : FreqResponse K}

theorem Sweeping.update (sweeping : Sweeping grid out fr) (sample offset : K) :
    Sweeping grid (out ++ ((freqCalls lib).step fr (.update sample offset)).2)
      ((freqCalls lib).step fr (.update sample offset)).1 := by
  have silent : emittedFreqs ((freqCalls lib).step fr (.update sample offset)).2 = [] := by
    simp only [freqCalls]
    split <;> rfl
  rcases sweeping with ⟨zero, low, first, none⟩ | ⟨count, at_count, emitted⟩
  · have same : ((freqCalls lib).step fr (.update sample offset)).1 = fr :=
      congrArg Prod.fst (update_of_zero zero sample offset)
    rw [same]
    exact .fresh zero low first (by rw [emittedFreqs_append, none, silent, List.append_nil])
  · refine .measuring count ((update_f fr sample offset).trans at_count) ?_
    rw [emittedFreqs_append, emitted, silent, List.append_nil]

variable [IsStrictOrderedRing K]

theorem Sweeping.poll (sweeps : SweepsOver lib fr.toFreqConfig grid) (sweeping : Sweeping grid out fr) :
    Sweeping grid (out ++ (freqResponsePoll lib fr).2) (freqResponsePoll lib fr).1 := by
  by_cases zero : fr.samplesRemaining = 0
  · have emits := sweeps.emittedFreqs_poll zero
    rcases sweeping with ⟨-, low, first, none⟩ | ⟨count, at_count, emitted⟩
    · refine .measuring 0 ((sweeps.next_f zero).trans (first.trans grid.sweep_zero.symm)) ?_
      rw [emittedFreqs_append, none, emits, if_neg (not_le.mpr low)]
      rfl
    · refine .measuring (count + 1) ?_ ?_
      · rw [sweeps.next_f zero, at_count, grid.next_sweep]
      · rw [emittedFreqs_append, emitted, emits, at_count, if_pos (grid.low_le_sweep count), List.range_succ,
          List.map_append, List.map_singleton]
  · have idle : freqResponsePoll lib fr = (fr, []) := if_neg zero
    rw [idle, List.append_nil]
    exact sweeping

/-- From a start that leads to the lowest frequency, the emitted ones are a part of the sweep. -/
theorem SweepsOver.emittedFreqs_outputs (sweeps : SweepsOver lib fr.toFreqConfig grid) (low : fr.f < grid.low)
    (zero : fr.samplesRemaining = 0) (first : grid.next fr.f = grid.low) (calls : List (FreqInput K)) :
    ∃ count, emittedFreqs ((freqCalls lib).outputs fr calls) = (List.range count).map grid.sweep := by
  have start : fr.toFreqConfig = fr.toFreqConfig ∧ Sweeping grid [] fr := ⟨rfl, .fresh zero low first rfl⟩
  have run := Machine.outputs_invariant (freqCalls lib)
    (P := fun out fr' => fr'.toFreqConfig = fr.toFreqConfig ∧ Sweeping grid out fr') ?_ start calls
  · rw [List.nil_append] at run
    obtain ⟨-, ⟨-, -, -, none⟩ | ⟨count, -, emitted⟩⟩ := run
    · exact ⟨0, none⟩
    · exact ⟨count, emitted⟩
  · rintro out fr' input ⟨config, sweeping⟩
    refine ⟨(freqCalls_config fr' input).trans config, ?_⟩
    cases input with
    | poll => exact sweeping.poll (config ▸ sweeps)
    | update sample offset => exact sweeping.update sample offset

/-- Whatever the first frequency is, it is emitted after as many updates as it has samples. -/
theorem SweepsOver.exists_first (sweeps : SweepsOver lib fr.toFreqConfig grid) (low : fr.f < grid.low)
    (zero : fr.samplesRemaining = 0) :
    ∃ calls, emittedFreqs ((freqCalls lib).outputs fr calls) = [grid.next fr.f] := by
  have measuring : Measuring lib fr.toFreqConfig (freqResponsePoll lib fr).1 [] :=
    measuring_poll sweeps.measurable zero
  have first := sweeps.next_f zero
  have positive := sweeps.measurable.positive.trans_le measuring.atLeast
  have enough := measuring.atMost.trans sweeps.enough
  have some := sweeps.measurable.one_le_sampleCount measuring.atLeast measuring.atMost
  rw [first] at positive enough some
  let values : List (K × K) := List.replicate (fr.sampleCount (grid.next fr.f)).toNat (0, 0)
  have all : (values.length : ℤ) = fr.sampleCount (grid.next fr.f) := by
    rw [List.length_replicate, Int.toNat_of_nonneg (zero_le_one.trans some)]
  obtain ⟨taken, next, -, seen, events, freq, -⟩ :=
    configured_emits zero first sweeps.emits positive enough values all
  have shown := (freqCalls lib).outputs_append (freqResponsePoll lib fr).1 (updateCalls values) [.poll]
  rw [seen, Machine.outputs_cons, Machine.outputs_nil, List.append_nil] at shown
  replace shown := shown.trans (congrArg (taken.map FreqEvent.active ++ ·) events)
  have silent := sweeps.emittedFreqs_poll zero
  rw [if_neg (not_le.mpr low)] at silent
  refine ⟨.poll :: (updateCalls values ++ [.poll]), ?_⟩
  rw [Machine.outputs_cons, emittedFreqs_append]
  refine (congrArg₂ (· ++ ·) silent (congrArg emittedFreqs shown)).trans ?_
  rw [emittedFreqs_append, emittedFreqs_active, ← freq]
  rfl

theorem SweepsOver.dividesByNonzero (sweeps : SweepsOver lib fr.toFreqConfig grid) (input : FreqInput K) :
    DividesByNonzero lib fr input := by
  cases input with
  | update => trivial
  | poll =>
    intro zero
    have measuring : Measuring lib fr.toFreqConfig (freqResponsePoll lib fr).1 [] :=
      measuring_poll sweeps.measurable zero
    have positive := sweeps.measurable.positive.trans_le measuring.atLeast
    have some := sweeps.measurable.one_le_sampleCount measuring.atLeast measuring.atMost
    have count := measuring.count
    have sampled : fr.fs ≠ 0 := by
      intro none
      have enough := (sweeps.measurable.positive.trans_le sweeps.measurable.ordered).trans_le sweeps.enough
      rw [none, zero_mul] at enough
      exact lt_irrefl 0 enough
    refine ⟨positive.ne', div_ne_zero sampled positive.ne', ?_⟩
    rw [List.length_nil, Nat.cast_zero, add_zero] at count
    rw [count]
    omega

/-- Every frequency that is emitted has been measured, and no call divides by zero. The
emitted frequencies are those of the grid in turn, from the lowest on, in every run exactly
if the first step leads to the lowest one or out of the range. -/
theorem freqCalls_sweep (lib : MathLib K) (fr : FreqResponse K) (grid : GeometricGrid K)
    (sweeps : SweepsOver lib fr.toFreqConfig grid) (low : fr.f < fr.fMin) (zero : fr.samplesRemaining = 0) :
    1 ≤ grid.size ∧
    (∀ calls, EmitsMeasured lib fr.toFreqConfig ((freqCalls lib).outputs fr calls) ∧
      (freqCalls lib).Everywhere (DividesByNonzero lib) fr calls) ∧
    ((∀ calls, ∃ count, emittedFreqs ((freqCalls lib).outputs fr calls) = (List.range count).map grid.sweep) ↔
      fr.f * grid.ratio ≤ fr.fMin ∨ fr.fMax < fr.f * grid.ratio) := by
  refine ⟨grid.one_le_size, fun calls => ⟨freqCalls_emitsMeasured sweeps.measurable low zero calls, ?_⟩, ?_⟩
  · have kept (fr' : FreqResponse K) (input : FreqInput K) (config : fr'.toFreqConfig = fr.toFreqConfig) :
        ((freqCalls lib).step fr' input).1.toFreqConfig = fr.toFreqConfig :=
      (freqCalls_config fr' input).trans config
    refine Machine.everywhere_of_invariant _ kept (fun fr' input config => ?_) rfl calls
    exact (config ▸ sweeps : SweepsOver lib _ grid).dividesByNonzero input
  · rw [sweeps.low] at low
    rw [sweeps.low, sweeps.high, ← grid.next_eq_low_iff]
    constructor
    · intro swept
      obtain ⟨calls, first⟩ := sweeps.exists_first low zero
      obtain ⟨count, emitted⟩ := swept calls
      have one : count = 1 := by simpa using congrArg List.length (emitted.symm.trans first)
      simpa [one, first] using emitted
    · exact fun first calls => sweeps.emittedFreqs_outputs low zero first calls

/-- So it is wherever the interrupts fall between the assignments of the thread. -/
theorem freqMachine_emittedFreqs {s : Polling K} (atPc : s.pc = .checkRemaining)
    (sweeps : SweepsOver lib s.fr.toFreqConfig grid) (low : s.fr.f < grid.low) (zero : s.fr.samplesRemaining = 0)
    (first : grid.next s.fr.f = grid.low) (inputs : List (FreqInput K)) :
    ∃ count, emittedFreqs ((freqMachine lib).outputs s inputs) = (List.range count).map grid.sweep := by
  obtain ⟨calls, begins⟩ := freqMachine_serial atPc inputs
  obtain ⟨count, emitted⟩ := sweeps.emittedFreqs_outputs low zero first calls
  have part : emittedFreqs _ <+: emittedFreqs _ := begins.filterMap _
  rw [emitted, List.prefix_iff_eq_take, ← List.map_take, List.take_range] at part
  exact ⟨_, part⟩

end

/-- The frequencies 1 and 2. -/
def octave : GeometricGrid ℚ := ⟨1, 2, 2, by decide, by decide, by decide⟩

/-- Two sweeps, the second one not to its end. -/
def octaveCalls : List (FreqInput ℚ) :=
  [.poll, .update 7 8, .poll, .update 9 9, .poll, .update 5 5, .poll, .update 3 3, .update 4 4, .poll]

theorem freqCalls_sweep_octave :
    emittedFreqs ((freqCalls tableLib).outputs twoSamples.fr octaveCalls) = [1, 2, 1] ∧
      ∃ count, emittedFreqs ((freqCalls tableLib).outputs twoSamples.fr octaveCalls) =
        (List.range count).map octave.sweep := by
  have sweeps : SweepsOver tableLib twoSamples.fr.toFreqConfig octave := ⟨rfl, rfl, rfl, by decide +kernel, rfl⟩
  obtain ⟨-, -, swept⟩ := freqCalls_sweep tableLib twoSamples.fr octave sweeps (by decide) rfl
  exact ⟨by decide +kernel, swept.mpr (Or.inl (by decide +kernel)) octaveCalls⟩

/-- An interrupt between two assignments of the thread does not disturb the sweep. -/
theorem freqMachine_emittedFreqs_twoSamples :
    emittedFreqs ((freqMachine tableLib).outputs twoSamples twoSamplesRun) = [1] ∧
      ∃ count, emittedFreqs ((freqMachine tableLib).outputs twoSamples twoSamplesRun) =
        (List.range count).map octave.sweep := by
  have sweeps : SweepsOver tableLib twoSamples.fr.toFreqConfig octave := ⟨rfl, rfl, rfl, by decide +kernel, rfl⟩
  have first : octave.next twoSamples.fr.f = octave.low := by decide +kernel
  exact ⟨by decide +kernel, freqMachine_emittedFreqs rfl sweeps (by decide) rfl first twoSamplesRun⟩

/-- Frequencies from 2 to 4, after one below them that was not set to zero. -/
def leftOver : FreqResponse ℚ := ⟨⟨4, 2, 4, 1, 1, 1, true⟩, 3 / 2, 0, 0, 0, 0, 0, 0, 0, 0⟩

def leftOverGrid : GeometricGrid ℚ := ⟨2, 4, 2, by decide, by decide, by decide⟩

/-- The first frequency that is measured is 3, which is not on the grid. -/
theorem freqCalls_sweep_leftOver :
    SweepsOver tableLib leftOver.toFreqConfig leftOverGrid ∧ leftOver.f < leftOver.fMin ∧
      leftOver.samplesRemaining = 0 ∧
      emittedFreqs ((freqCalls tableLib).outputs leftOver [.poll, .update 0 0, .poll]) = [3] ∧
      ¬ ∃ count, emittedFreqs ((freqCalls tableLib).outputs leftOver [.poll, .update 0 0, .poll]) =
        (List.range count).map leftOverGrid.sweep := by
  have emitted : emittedFreqs ((freqCalls tableLib).outputs leftOver [.poll, .update 0 0, .poll]) = [3] := by
    decide +kernel
  refine ⟨⟨rfl, rfl, rfl, by decide +kernel, rfl⟩, by decide +kernel, rfl, emitted, ?_⟩
  rintro ⟨count, swept⟩
  rw [emitted] at swept
  have one : count = 1 := by simpa using (congrArg List.length swept).symm
  have same : (3 : ℚ) = leftOverGrid.low := by simpa [one] using swept
  exact absurd same (by decide +kernel)

end Maglev
