import Mathlib.Data.Rat.Floor
import Maglev.Lib.Machine
import Maglev.Lib.Trunc

namespace Maglev

/-- What the code takes from the mathematical library. -/
structure MathLib (K : Type*) where
  pi : K
  sinf : K → K
  cosf : K → K
  powf : K → K → K

/-- Values at a few angles, enough to run the code on. -/
def tableLib : MathLib ℚ where
  pi := 3
  sinf theta := if theta = 3 then 0 else 1
  cosf theta := if theta = 3 then -1 else 0
  powf _ _ := 2

/-- The fields of `freq_response_t` that its functions only read; of `emit` only
whether it is set. -/
structure FreqConfig (K : Type*) where
  fs : K
  fMin : K
  fMax : K
  frequenciesPerDecade : K
  magnitude : K
  wavelengthsPerFrequency : ℤ
  emit : Bool
  deriving DecidableEq

structure FreqResponse (K : Type*) extends FreqConfig K where
  f : K
  theta : K
  thetaIncrement : K
  normalizationFactor : K
  samplesRemaining : ℤ
  sinSum : K
  cosSum : K
  sinExcSum : K
  cosExcSum : K
  deriving DecidableEq

structure FreqResponseResult (K : Type*) where
  freq : K
  real : K
  imag : K
  excReal : K
  excImag : K
  deriving DecidableEq

/-- An update that takes part in a measurement, with the phase it uses. -/
structure ActiveUpdate (K : Type*) where
  theta : K
  sample : K
  offset : K
  deriving DecidableEq

section

variable {K : Type*} [Field K] [LinearOrder K] [FloorRing K] (lib : MathLib K)

/-- The state and the returned value. -/
def freqResponseUpdateWithOffset (fr : FreqResponse K) (sample offset : K) : FreqResponse K × K :=
  if fr.samplesRemaining ≠ 0 then
    let theta := fr.theta + fr.thetaIncrement
    let theta := if theta > 2 * lib.pi then theta - 2 * lib.pi else theta
    let sinTheta := lib.sinf theta
    let cosTheta := lib.cosf theta
    let excitation := offset + sinTheta * fr.magnitude
    ({ fr with
        theta
        sinSum := fr.sinSum + sinTheta * sample
        cosSum := fr.cosSum + cosTheta * sample
        sinExcSum := fr.sinExcSum + sinTheta * excitation
        cosExcSum := fr.cosExcSum + cosTheta * excitation
        samplesRemaining := fr.samplesRemaining - 1 }, excitation)
  else (fr, sample)

def freqResponseUpdate (fr : FreqResponse K) (sample : K) : FreqResponse K × K :=
  freqResponseUpdateWithOffset lib fr sample sample

/-- What the next update adds to the value that it returns. -/
def FreqResponse.excitation (fr : FreqResponse K) : K :=
  if fr.samplesRemaining ≠ 0 then
    let theta := fr.theta + fr.thetaIncrement
    lib.sinf (if theta > 2 * lib.pi then theta - 2 * lib.pi else theta) * fr.magnitude
  else 0

/-- What can be seen of a run: the end of a configuration, the updates that take part
in a measurement, and the calls of `emit`. -/
inductive FreqEvent (K : Type*)
  | configured (f : K)
  | active (update : ActiveUpdate K)
  | emitted (result : FreqResponseResult K)
  deriving DecidableEq

def FreqResponse.result (fr : FreqResponse K) : FreqResponseResult K where
  freq := fr.f
  real := fr.sinSum * fr.normalizationFactor
  imag := fr.cosSum * fr.normalizationFactor
  excReal := fr.sinExcSum * fr.normalizationFactor
  excImag := fr.cosExcSum * fr.normalizationFactor

/-- A call of `FreqResponse_Poll` that nothing interrupts. -/
def freqResponsePoll (fr : FreqResponse K) : FreqResponse K × List (FreqEvent K) :=
  if fr.samplesRemaining = 0 then
    let emitted := if fr.f ≥ fr.fMin then if fr.emit then [.emitted fr.result] else [] else []
    let f := fr.f * lib.powf 10 (1 / fr.frequenciesPerDecade)
    let f := if f < fr.fMin ∨ f > fr.fMax then fr.fMin else f
    let samplesPerWavelength := fr.fs / f
    let samples := trunc (fr.fs / f * fr.wavelengthsPerFrequency)
    ({ fr with
        f
        thetaIncrement := 2 * lib.pi / samplesPerWavelength
        theta := 0
        sinSum := 0
        cosSum := 0
        sinExcSum := 0
        cosExcSum := 0
        normalizationFactor := 2 / samples
        samplesRemaining := samples }, emitted ++ [.configured f])
  else (fr, [])

/-- What such a call makes of the record once it has chosen the frequency. -/
def FreqResponse.configure (fr : FreqResponse K) (f : K) : FreqResponse K :=
  let samples := trunc (fr.fs / f * fr.wavelengthsPerFrequency)
  { fr with
    f
    thetaIncrement := 2 * lib.pi / (fr.fs / f)
    theta := 0
    sinSum := 0
    cosSum := 0
    sinExcSum := 0
    cosExcSum := 0
    normalizationFactor := 2 / samples
    samplesRemaining := samples }

/-- What happens next: the background thread is given time, or the interrupt comes. -/
inductive FreqInput (K : Type*)
  | poll
  | update (sample offset : K)

/-- Whole calls of the two functions, one after the other. -/
def freqCalls : Machine (FreqResponse K) (FreqInput K) (FreqEvent K) where
  step
    | fr, .poll => freqResponsePoll lib fr
    | fr, .update sample offset =>
      let after := (freqResponseUpdateWithOffset lib fr sample offset).1
      (after, if fr.samplesRemaining ≠ 0 then [.active ⟨after.theta, sample, offset⟩] else [])

/-- The points between the tests and assignments of `FreqResponse_Poll`; the thread
is at `checkRemaining` whenever it is not inside a call. -/
inductive PollPc
  | checkRemaining
  | checkMin
  | checkEmit
  | takeFreq
  | takeReal
  | takeImag
  | takeExcReal
  | takeExcImag
  | callEmit
  | stepFreq
  | checkRange
  | resetFreq
  | takeSamplesPerWavelength
  | setIncrement
  | resetTheta
  | resetSinSum
  | resetCosSum
  | resetSinExcSum
  | resetCosExcSum
  | takeSamples
  | setNormalization
  | setRemaining
  deriving DecidableEq, Repr

/-- The shared record and the local variables of the thread. -/
structure Polling (K : Type*) where
  fr : FreqResponse K
  pc : PollPc
  result : FreqResponseResult K
  samplesPerWavelength : K
  samples : ℤ
  deriving DecidableEq

/-- One test or assignment of `FreqResponse_Poll`. -/
def freqResponsePollStep (s : Polling K) : Polling K × List (FreqEvent K) :=
  let fr := s.fr
  match s.pc with
  | .checkRemaining => (if fr.samplesRemaining = 0 then { s with pc := .checkMin } else s, [])
  | .checkMin => (if fr.f ≥ fr.fMin then { s with pc := .checkEmit } else { s with pc := .stepFreq }, [])
  | .checkEmit => (if fr.emit then { s with pc := .takeFreq } else { s with pc := .stepFreq }, [])
  | .takeFreq => ({ s with result.freq := fr.f, pc := .takeReal }, [])
  | .takeReal => ({ s with result.real := fr.sinSum * fr.normalizationFactor, pc := .takeImag }, [])
  | .takeImag => ({ s with result.imag := fr.cosSum * fr.normalizationFactor, pc := .takeExcReal }, [])
  | .takeExcReal => ({ s with result.excReal := fr.sinExcSum * fr.normalizationFactor, pc := .takeExcImag }, [])
  | .takeExcImag => ({ s with result.excImag := fr.cosExcSum * fr.normalizationFactor, pc := .callEmit }, [])
  | .callEmit => ({ s with pc := .stepFreq }, [.emitted s.result])
  | .stepFreq => ({ s with fr.f := fr.f * lib.powf 10 (1 / fr.frequenciesPerDecade), pc := .checkRange }, [])
  | .checkRange =>
    (if fr.f < fr.fMin ∨ fr.f > fr.fMax then { s with pc := .resetFreq }
      else { s with pc := .takeSamplesPerWavelength }, [])
  | .resetFreq => ({ s with fr.f := fr.fMin, pc := .takeSamplesPerWavelength }, [])
  | .takeSamplesPerWavelength => ({ s with samplesPerWavelength := fr.fs / fr.f, pc := .setIncrement }, [])
  | .setIncrement =>
    ({ s with fr.thetaIncrement := 2 * lib.pi / s.samplesPerWavelength, pc := .resetTheta }, [])
  | .resetTheta => ({ s with fr.theta := 0, pc := .resetSinSum }, [])
  | .resetSinSum => ({ s with fr.sinSum := 0, pc := .resetCosSum }, [])
  | .resetCosSum => ({ s with fr.cosSum := 0, pc := .resetSinExcSum }, [])
  | .resetSinExcSum => ({ s with fr.sinExcSum := 0, pc := .resetCosExcSum }, [])
  | .resetCosExcSum => ({ s with fr.cosExcSum := 0, pc := .takeSamples }, [])
  | .takeSamples =>
    ({ s with samples := trunc (fr.fs / fr.f * fr.wavelengthsPerFrequency), pc := .setNormalization }, [])
  | .setNormalization => ({ s with fr.normalizationFactor := 2 / s.samples, pc := .setRemaining }, [])
  | .setRemaining => ({ s with fr.samplesRemaining := s.samples, pc := .checkRemaining }, [.configured fr.f])

/-- The steps of the thread, with whole updates anywhere between them. -/
def freqMachine : Machine (Polling K) (FreqInput K) (FreqEvent K) where
  step
    | s, .poll => freqResponsePollStep lib s
    | s, .update sample offset =>
      let after := (freqResponseUpdateWithOffset lib s.fr sample offset).1
      ({ s with fr := after }, if s.fr.samplesRemaining ≠ 0 then [.active ⟨after.theta, sample, offset⟩] else [])

end

end Maglev
