import Maglev.Lib.Consumer
import Maglev.Lib.Machine

namespace Maglev

/-- A machine that may have no result for an input, and then has none for the whole run. -/
structure PartialMachine (σ ι ο : Type*) where
  step : σ → ι → Option (σ × List ο)

namespace PartialMachine

variable {σ ι ο : Type*} (m : PartialMachine σ ι ο)

/-- The state after a list of inputs, with everything that is put out on the way. -/
def run : σ → List ι → Option (σ × List ο)
  | s, [] => some (s, [])
  | s, i :: rest => (m.step s i).bind fun (s, out) => (run s rest).map fun (s, more) => (s, out ++ more)

@[simp] theorem run_nil (s : σ) : m.run s [] = some (s, []) := rfl

theorem run_cons {s s' : σ} {i : ι} {out : List ο} (step : m.step s i = some (s', out)) (rest : List ι) :
    m.run s (i :: rest) = (m.run s' rest).map fun (s, more) => (s, out ++ more) := by
  rw [run, step]
  rfl

theorem run_cons_eq_some {s s' : σ} {i : ι} {rest : List ι} {out : List ο}
    (ran : m.run s (i :: rest) = some (s', out)) :
    ∃ between first later, m.step s i = some (between, first) ∧ m.run between rest = some (s', later) ∧
      out = first ++ later := by
  obtain ⟨⟨between, first⟩, stepped, ranRest⟩ := Option.bind_eq_some_iff.mp ran
  obtain ⟨⟨final, later⟩, finished, same⟩ := Option.map_eq_some_iff.mp ranRest
  cases same
  exact ⟨between, first, later, stepped, finished, rfl⟩

theorem run_append {s s' : σ} {first : List ι} {out : List ο} (ran : m.run s first = some (s', out)) (rest : List ι) :
    m.run s (first ++ rest) = (m.run s' rest).map fun (s, more) => (s, out ++ more) := by
  induction first generalizing s out with
  | nil =>
    cases ran
    simp
  | cons i first ih =>
    obtain ⟨between, now, later, stepped, finished, rfl⟩ := m.run_cons_eq_some ran
    rw [List.cons_append, m.run_cons stepped, ih finished, Option.map_map]
    congr 1
    funext
    simp

theorem run_append_eq_some {s s' : σ} {first rest : List ι} {out : List ο}
    (ran : m.run s (first ++ rest) = some (s', out)) :
    ∃ between now later, m.run s first = some (between, now) ∧ m.run between rest = some (s', later) ∧
      out = now ++ later := by
  induction first generalizing s out with
  | nil => exact ⟨s, [], out, rfl, ran, rfl⟩
  | cons i first ih =>
    obtain ⟨next, now, more, stepped, ranRest, rfl⟩ := m.run_cons_eq_some ran
    obtain ⟨between, before, later, ranFirst, finished, rfl⟩ := ih ranRest
    refine ⟨between, now ++ before, later, ?_, finished, (List.append_assoc ..).symm⟩
    rw [m.run_cons stepped, ranFirst]
    rfl

/-- What every step does to the state and puts out, and what composes, a whole run does. -/
theorem run_relation {R : σ → List ο → σ → Prop} {allowed : ι → Prop} (same : ∀ s, R s [] s)
    (step : ∀ s i s' out, allowed i → m.step s i = some (s', out) → R s out s')
    (trans : ∀ a b c out more, R a out b → R b more c → R a (out ++ more) c) {s s' : σ} {inputs : List ι}
    {out : List ο} (all : ∀ i ∈ inputs, allowed i) (ran : m.run s inputs = some (s', out)) : R s out s' := by
  induction inputs generalizing s out with
  | nil =>
    cases ran
    exact same _
  | cons i rest ih =>
    obtain ⟨now, later⟩ := List.forall_mem_cons.mp all
    obtain ⟨between, first, more, stepped, finished, rfl⟩ := m.run_cons_eq_some ran
    exact trans _ _ _ _ _ (step _ _ _ _ now stepped) (ih later finished)

/-- A partial machine follows a total one: related states have related successors, and
nothing is put out but what the total one does. -/
theorem run_simulates {τ : Type*} {abstract : Machine τ ι ο} {R : σ → τ → Prop} {allowed : ι → Prop}
    (step : ∀ s t i, R s t → allowed i →
      ∃ s', m.step s i = some (s', (abstract.step t i).2) ∧ R s' (abstract.step t i).1)
    {s : σ} {t : τ} (start : R s t) (inputs : List ι) (all : ∀ i ∈ inputs, allowed i) :
    ∃ s', m.run s inputs = some (s', abstract.outputs t inputs) ∧ R s' (abstract.final t inputs) := by
  induction inputs generalizing s t with
  | nil => exact ⟨s, rfl, start⟩
  | cons i rest ih =>
    obtain ⟨now, later⟩ := List.forall_mem_cons.mp all
    obtain ⟨s', taken, related⟩ := step s t i start now
    obtain ⟨final, ran, relatedFinal⟩ := ih related later
    refine ⟨final, ?_, relatedFinal⟩
    rw [m.run_cons taken, ran]
    rfl

/-- The machine as a consumer that never gives up. -/
def consumer : Consumer σ ι ο Unit where
  step s i := (m.step s i).map fun (s, out) => (s, out, ())
  going := ()

theorem consumer_step {s s' : σ} {i : ι} {out : List ο} (step : m.step s i = some (s', out)) :
    m.consumer.step s i = some (s', out, m.consumer.going) := congrArg (Option.map _) step

theorem run_of_consumer {s s' : σ} {inputs : List ι} {out : List ο} {res : Unit}
    (ran : m.consumer.run s inputs = some (s', out, res)) : m.run s inputs = some (s', out) := by
  induction inputs generalizing s out with
  | nil =>
    cases ran
    rfl
  | cons i rest ih =>
    obtain ⟨_, taken, later⟩ := Option.bind_eq_some_iff.mp ran
    obtain ⟨⟨between, first⟩, stepped, rfl⟩ := Option.map_eq_some_iff.mp taken
    rw [Consumer.andThen_going] at later
    obtain ⟨⟨_, more, _⟩, ranRest, same⟩ := Option.map_eq_some_iff.mp later
    cases same
    rw [m.run_cons stepped, ih ranRest]
    rfl

/-- A condition on the state and the input, at every step of a run. -/
abbrev Along (allowed : σ → ι → Prop) : σ → List ι → Prop := m.consumer.Along allowed

/-- A machine that has a result for every allowed input has one for a whole run. -/
theorem run_total {P : σ → Prop} {allowed : σ → ι → Prop}
    (step : ∀ s i, P s → allowed s i → ∃ s' out, m.step s i = some (s', out) ∧ P s') {s : σ} (start : P s)
    {inputs : List ι} (all : m.Along allowed s inputs) : ∃ s' out, m.run s inputs = some (s', out) ∧ P s' := by
  have total (s : σ) (i : ι) (held : P s) (now : allowed s i) : ∃ r, m.consumer.step s i = some r ∧ P r.1 := by
    obtain ⟨s', out, stepped, held'⟩ := step s i held now
    exact ⟨_, m.consumer_step stepped, held'⟩
  obtain ⟨⟨s', out, _⟩, ran, held⟩ := m.consumer.run_total total start all
  exact ⟨s', out, m.run_of_consumer ran, held⟩

end PartialMachine

end Maglev
