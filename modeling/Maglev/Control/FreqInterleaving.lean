import Maglev.Control.FreqResponse

namespace Maglev

variable {K : Type*} [Field K] [LinearOrder K] [FloorRing K] (lib : MathLib K)

/-- The rest of a call that nothing interrupts any more. -/
inductive Completes : Polling K → FreqResponse K → List (FreqEvent K) → Prop
  | done {s} : s.pc = .checkRemaining → Completes s s.fr []
  | step {s next after out events} : s.pc ≠ .checkRemaining → freqResponsePollStep lib s = (next, out) →
      Completes next after events → Completes s after (out ++ events)

theorem freqResponsePoll_events {fr : FreqResponse K} (zero : fr.samplesRemaining = 0) :
    (freqResponsePoll lib fr).2 =
      (if fr.f ≥ fr.fMin then if fr.emit then [.emitted fr.result] else [] else []) ++
        [.configured (freqResponsePoll lib fr).1.f] := by
  simp only [freqResponsePoll, if_pos zero]

theorem completes_stepFreq {s : Polling K} (atPc : s.pc = .stepFreq) (zero : s.fr.samplesRemaining = 0) :
    Completes lib s (freqResponsePoll lib s.fr).1 [.configured (freqResponsePoll lib s.fr).1.f] := by
  obtain ⟨fr, pc, result, samplesPerWavelength, samples⟩ := s
  subst atPc
  have configured {f : K} (range : f = (freqResponsePoll lib fr).1.f) :
      Completes lib ⟨{ fr with f }, .takeSamplesPerWavelength, result, samplesPerWavelength, samples⟩
        (freqResponsePoll lib fr).1 [.configured (freqResponsePoll lib fr).1.f] := by
    simp only [freqResponsePoll, if_pos zero] at range ⊢
    rw [← range]
    exact .step (by simp) rfl <| .step (by simp) rfl <| .step (by simp) rfl <| .step (by simp) rfl <|
      .step (by simp) rfl <| .step (by simp) rfl <| .step (by simp) rfl <| .step (by simp) rfl <|
      .step (by simp) rfl <| .step (by simp) rfl <| .done rfl
  have stepped : (freqResponsePoll lib fr).1.f =
      let f := fr.f * lib.powf 10 (1 / fr.frequenciesPerDecade)
      if f < fr.fMin ∨ f > fr.fMax then fr.fMin else f := by
    simp only [freqResponsePoll, if_pos zero]
  let f := fr.f * lib.powf 10 (1 / fr.frequenciesPerDecade)
  let moved : Polling K := ⟨{ fr with f }, .checkRange, result, samplesPerWavelength, samples⟩
  by_cases outside : f < fr.fMin ∨ f > fr.fMax
  · have reset := configured (stepped.trans (if_pos outside)).symm
    have test : freqResponsePollStep lib moved = ({ moved with pc := .resetFreq }, []) :=
      congrArg (fun next => (next, [])) (if_pos outside)
    exact .step (by simp) rfl <| .step (by simp [moved]) test <| .step (by simp) rfl reset
  · have kept := configured (stepped.trans (if_neg outside)).symm
    have test : freqResponsePollStep lib moved = ({ moved with pc := .takeSamplesPerWavelength }, []) :=
      congrArg (fun next => (next, [])) (if_neg outside)
    exact .step (by simp) rfl <| .step (by simp [moved]) test kept

/-- From behind the first test, the steps of the thread add up to the whole call. -/
theorem completes_checkMin {s : Polling K} (atPc : s.pc = .checkMin) (zero : s.fr.samplesRemaining = 0) :
    Completes lib s (freqResponsePoll lib s.fr).1 (freqResponsePoll lib s.fr).2 := by
  rw [freqResponsePoll_events lib zero]
  obtain ⟨fr, pc, result, samplesPerWavelength, samples⟩ := s
  subst atPc
  have rest {result : FreqResponseResult K} := @completes_stepFreq K _ _ _ lib
    ⟨fr, .stepFreq, result, samplesPerWavelength, samples⟩ rfl zero
  let begun : Polling K := ⟨fr, .checkMin, result, samplesPerWavelength, samples⟩
  by_cases reached : fr.f ≥ fr.fMin
  · have test : freqResponsePollStep lib begun = ({ begun with pc := .checkEmit }, []) :=
      congrArg (fun next => (next, [])) (if_pos reached)
    rw [if_pos reached]
    by_cases set : fr.emit
    · have handler :
          freqResponsePollStep lib { begun with pc := .checkEmit } = ({ begun with pc := .takeFreq }, []) :=
        congrArg (fun next => (next, [])) (if_pos set)
      rw [if_pos set, List.singleton_append]
      exact .step (by simp) test <| .step (by simp) handler <| .step (by simp) rfl <|
        .step (by simp) rfl <| .step (by simp) rfl <| .step (by simp) rfl <| .step (by simp) rfl <|
        .step (by simp) rfl rest
    · have handler :
          freqResponsePollStep lib { begun with pc := .checkEmit } = ({ begun with pc := .stepFreq }, []) :=
        congrArg (fun next => (next, [])) (if_neg set)
      rw [if_neg set]
      exact .step (by simp) test <| .step (by simp) handler rest
  · have test : freqResponsePollStep lib begun = ({ begun with pc := .stepFreq }, []) :=
      congrArg (fun next => (next, [])) (if_neg reached)
    rw [if_neg reached]
    exact .step (by simp) test rest

/-- The run so far is one of whole calls, with at most the beginning of a further one. -/
inductive Serial (start : FreqResponse K) (out : List (FreqEvent K)) (s : Polling K) : Prop
  | between (calls : List (FreqInput K)) : s.pc = .checkRemaining → s.fr = (freqCalls lib).final start calls →
      out = (freqCalls lib).outputs start calls → Serial start out s
  | inside (calls : List (FreqInput K)) (events : List (FreqEvent K)) : s.pc ≠ .checkRemaining →
      s.fr.samplesRemaining = 0 → Completes lib s ((freqCalls lib).final start calls) events →
      out ++ events = (freqCalls lib).outputs start calls → Serial start out s

variable {lib}

omit [FloorRing K] in
theorem update_of_zero {fr : FreqResponse K} (zero : fr.samplesRemaining = 0) (sample offset : K) :
    freqResponseUpdateWithOffset lib fr sample offset = (fr, sample) := if_neg (not_not_intro zero)

/-- The thread gives up the token only with the last assignment of a call. -/
theorem pollStep_samplesRemaining {s : Polling K} (inside : s.pc ≠ .checkRemaining)
    (still : (freqResponsePollStep lib s).1.pc ≠ .checkRemaining) :
    (freqResponsePollStep lib s).1.fr.samplesRemaining = s.fr.samplesRemaining := by
  obtain ⟨fr, pc, result, samplesPerWavelength, samples⟩ := s
  cases pc with
  | checkRemaining => exact absurd rfl inside
  | setRemaining => exact absurd rfl still
  | checkMin | checkEmit | checkRange =>
    simp only [freqResponsePollStep]
    split <;> rfl
  | _ => rfl

theorem Completes.next {s : Polling K} {after : FreqResponse K} {events : List (FreqEvent K)}
    (completes : Completes lib s after events) (inside : s.pc ≠ .checkRemaining) :
    ∃ rest, events = (freqResponsePollStep lib s).2 ++ rest ∧
      Completes lib (freqResponsePollStep lib s).1 after rest := by
  cases completes with
  | done atPc => exact absurd atPc inside
  | step _ moves completes =>
    rw [moves]
    exact ⟨_, rfl, completes⟩

theorem Completes.finished {s : Polling K} {after : FreqResponse K} {events : List (FreqEvent K)}
    (completes : Completes lib s after events) (atPc : s.pc = .checkRemaining) : after = s.fr ∧ events = [] := by
  cases completes with
  | done => exact ⟨rfl, rfl⟩
  | step inside => exact absurd atPc inside

theorem Serial.poll {start : FreqResponse K} {out : List (FreqEvent K)} {s : Polling K}
    (serial : Serial lib start out s) :
    Serial lib start (out ++ (freqResponsePollStep lib s).2) (freqResponsePollStep lib s).1 := by
  rcases serial with ⟨calls, atPc, state, events⟩ | ⟨calls, events, inside, zero, completes, joined⟩
  · have test : freqResponsePollStep lib s =
        (if s.fr.samplesRemaining = 0 then { s with pc := .checkMin } else s, []) := by
      simp only [freqResponsePollStep, atPc]
    rw [test, List.append_nil]
    by_cases zero : s.fr.samplesRemaining = 0
    · have whole := completes_checkMin lib (s := { s with pc := .checkMin }) rfl zero
      rw [if_pos zero]
      refine .inside (calls ++ [.poll]) (freqResponsePoll lib s.fr).2 (by simp) zero ?_ ?_
      · rw [Machine.final_append, ← state]
        exact whole
      · rw [Machine.outputs_append, ← state, ← events]
        simp [freqCalls]
    · rw [if_neg zero]
      exact .between calls atPc state events
  · obtain ⟨rest, rfl, remaining⟩ := completes.next inside
    rw [← List.append_assoc] at joined
    by_cases left : (freqResponsePollStep lib s).1.pc = .checkRemaining
    · obtain ⟨state, rfl⟩ := remaining.finished left
      exact .between calls left state.symm (by simpa using joined)
    · exact .inside calls rest left ((pollStep_samplesRemaining inside left).trans zero) remaining joined

theorem Serial.update {start : FreqResponse K} {out : List (FreqEvent K)} {s : Polling K}
    (serial : Serial lib start out s) (sample offset : K) :
    Serial lib start (out ++ ((freqMachine lib).step s (.update sample offset)).2)
      ((freqMachine lib).step s (.update sample offset)).1 := by
  rcases serial with ⟨calls, atPc, state, events⟩ | ⟨calls, events, inside, zero, completes, joined⟩
  · refine .between (calls ++ [.update sample offset]) atPc ?_ ?_
    · rw [Machine.final_append, ← state]
      rfl
    · rw [Machine.outputs_append, ← state, ← events]
      simp [freqCalls, freqMachine]
  · -- the thread holds the token, so the interrupt returns at once
    have returns : (freqMachine lib).step s (.update sample offset) = (s, []) := by
      simp only [freqMachine, update_of_zero zero, if_neg (not_not_intro zero)]
    rw [returns, List.append_nil]
    exact .inside calls events inside zero completes joined

/-- Wherever the interrupts fall, what is seen is the beginning of what whole calls,
one after the other, would show. -/
theorem freqMachine_serial {s : Polling K} (atPc : s.pc = .checkRemaining) (inputs : List (FreqInput K)) :
    ∃ calls, (freqMachine lib).outputs s inputs <+: (freqCalls lib).outputs s.fr calls := by
  have serial : Serial lib s.fr ([] ++ (freqMachine lib).outputs s inputs) ((freqMachine lib).final s inputs) := by
    refine Machine.outputs_invariant _ (fun out s input serial => ?_) (.between [] atPc rfl rfl) inputs
    cases input with
    | poll => exact serial.poll
    | update sample offset => exact serial.update sample offset
  rcases serial with ⟨calls, -, -, events⟩ | ⟨calls, events, -, -, -, joined⟩
  · exact ⟨calls, events ▸ List.prefix_refl _⟩
  · exact ⟨calls, events, joined⟩

end Maglev
