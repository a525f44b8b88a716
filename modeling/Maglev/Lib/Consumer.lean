import Mathlib.Data.List.Basic

namespace Maglev

/-- What takes one input after the other and may give up: with each input it says how it
goes, and takes the next one only as long as it says `going`. It can also have no result. -/
structure Consumer (σ ι ο ρ : Type*) where
  step : σ → ι → Option (σ × List ο × ρ)
  going : ρ

namespace Consumer

variable {σ ι ο ρ : Type*} [DecidableEq ρ] (c : Consumer σ ι ο ρ)

/-- A result, and what comes after it if the consumer goes on. -/
def andThen (r : σ × List ο × ρ) (next : σ → Option (σ × List ο × ρ)) : Option (σ × List ο × ρ) :=
  if r.2.2 = c.going then (next r.1).map fun (s, more, res) => (s, r.2.1 ++ more, res) else some r

def run : σ → List ι → Option (σ × List ο × ρ)
  | s, [] => some (s, [], c.going)
  | s, i :: rest => (c.step s i).bind (c.andThen · (run · rest))

@[simp] theorem run_nil (s : σ) : c.run s [] = some (s, [], c.going) := rfl

theorem run_cons (s : σ) (i : ι) (rest : List ι) :
    c.run s (i :: rest) = (c.step s i).bind (c.andThen · (c.run · rest)) := rfl

theorem andThen_going (s : σ) (out : List ο) (next : σ → Option (σ × List ο × ρ)) :
    c.andThen (s, out, c.going) next = (next s).map fun (s, more, res) => (s, out ++ more, res) := if_pos rfl

/-- Nothing has been put out yet. -/
@[simp] theorem andThen_silent (s : σ) (next : σ → Option (σ × List ο × ρ)) :
    c.andThen (s, [], c.going) next = next s := by
  simp [andThen_going]

theorem andThen_stopped {r : σ × List ο × ρ} (stopped : r.2.2 ≠ c.going) (next : σ → Option (σ × List ο × ρ)) :
    c.andThen r next = some r := if_neg stopped

theorem andThen_assoc (r : σ × List ο × ρ) (first next : σ → Option (σ × List ο × ρ)) :
    (c.andThen r first).bind (c.andThen · next) = c.andThen r fun s => (first s).bind (c.andThen · next) := by
  by_cases going : r.2.2 = c.going
  · obtain ⟨s, out, res⟩ := r
    obtain rfl : res = c.going := going
    rw [andThen_going, andThen_going]
    cases first s with
    | none => rfl
    | some r =>
      by_cases goesOn : r.2.2 = c.going
      · simp [andThen, goesOn, Option.map_map, Function.comp_def]
      · simp [andThen, goesOn]
  · rw [andThen_stopped c going, andThen_stopped c going, Option.bind_some, andThen_stopped c going]

theorem run_append (s : σ) (first rest : List ι) :
    c.run s (first ++ rest) = (c.run s first).bind (c.andThen · (c.run · rest)) := by
  induction first generalizing s with
  | nil => simp
  | cons i first ih =>
    rw [List.cons_append, run_cons, run_cons, Option.bind_assoc]
    congr 1
    funext r
    rw [andThen_assoc]
    congr 1
    funext s
    exact ih s

theorem run_invariant {P : σ → Prop} (kept : ∀ s i r, P s → c.step s i = some r → P r.1) {s : σ} (start : P s)
    {inputs : List ι} {r : σ × List ο × ρ} (ran : c.run s inputs = some r) : P r.1 := by
  induction inputs generalizing s r with
  | nil =>
    cases ran
    exact start
  | cons i rest ih =>
    obtain ⟨first, step, later⟩ := Option.bind_eq_some_iff.mp ran
    have next := kept s i first start step
    rw [andThen] at later
    split at later
    · obtain ⟨last, ranRest, rfl⟩ := Option.map_eq_some_iff.mp later
      have held := ih next ranRest
      exact held
    · rwa [← Option.some.inj later]

/-- The first inputs lead to the first outputs; if all inputs are taken, they are too. -/
theorem run_of_append {s : σ} {first rest : List ι} {r : σ × List ο × ρ} (ran : c.run s (first ++ rest) = some r) :
    ∃ r', c.run s first = some r' ∧ r'.2.1 <+: r.2.1 ∧ (r.2.2 = c.going → r'.2.2 = c.going) := by
  rw [run_append] at ran
  obtain ⟨r', ranFirst, later⟩ := Option.bind_eq_some_iff.mp ran
  refine ⟨r', ranFirst, ?_⟩
  by_cases going : r'.2.2 = c.going
  · rw [andThen, if_pos going] at later
    obtain ⟨rest, -, rfl⟩ := Option.map_eq_some_iff.mp later
    exact ⟨List.prefix_append _ _, fun _ => going⟩
  · rw [andThen_stopped c going] at later
    cases later
    exact ⟨List.prefix_rfl, id⟩

/-- What takes the inputs in pieces does the same as what takes them one by one, however
they are cut, if it does so for one piece. -/
theorem run_flatten {coarse : Consumer σ (List ι) ο ρ} {Inv : σ → Prop} (same : coarse.going = c.going)
    (piece : ∀ s p r, Inv s → c.run s p = some r → coarse.step s p = some r ∧ (r.2.2 = c.going → Inv r.1))
    {s : σ} (start : Inv s) (pieces : List (List ι)) {r : σ × List ο × ρ}
    (ran : c.run s pieces.flatten = some r) : coarse.run s pieces = some r := by
  induction pieces generalizing s r with
  | nil => simpa [same] using ran
  | cons p pieces ih =>
    rw [List.flatten_cons, run_append] at ran
    obtain ⟨first, ranFirst, later⟩ := Option.bind_eq_some_iff.mp ran
    obtain ⟨taken, kept⟩ := piece s p first start ranFirst
    rw [run_cons, taken, Option.bind_some]
    by_cases going : first.2.2 = c.going
    · obtain ⟨s', out, res⟩ := first
      obtain rfl : res = c.going := going
      rw [andThen_going] at later
      obtain ⟨rest, ranRest, rfl⟩ := Option.map_eq_some_iff.mp later
      rw [← same, andThen_going, ih (kept rfl) ranRest]
      rfl
    · rw [andThen_stopped c going] at later
      rw [andThen_stopped coarse (same ▸ going), later]

/-- A condition on the state and the input, at every input that is taken. -/
def Along (allowed : σ → ι → Prop) : σ → List ι → Prop
  | _, [] => True
  | s, i :: rest => allowed s i ∧ ∀ s' out, c.step s i = some (s', out, c.going) → Along allowed s' rest

/-- The same condition, found out by a run. -/
def check (allowed : σ → ι → Bool) : σ → List ι → Bool
  | _, [] => true
  | s, i :: rest => allowed s i && (c.step s i).all fun r => r.2.2 ≠ c.going || check allowed r.1 rest

theorem check_iff {allowed : σ → ι → Prop} [∀ s i, Decidable (allowed s i)] (s : σ) (inputs : List ι) :
    c.check (fun s i => decide (allowed s i)) s inputs = true ↔ c.Along allowed s inputs := by
  induction inputs generalizing s with
  | nil => exact iff_of_true rfl trivial
  | cons i rest ih =>
    rw [check, Along, Bool.and_eq_true, decide_eq_true_iff]
    cases c.step s i with
    | none => simp
    | some r =>
      obtain ⟨s', out, res⟩ := r
      by_cases going : res = c.going
      · simp [going, ih]
      · simp [going]

instance {allowed : σ → ι → Prop} [∀ s i, Decidable (allowed s i)] (s : σ) (inputs : List ι) :
    Decidable (c.Along allowed s inputs) := decidable_of_iff _ (c.check_iff s inputs)

/-- A consumer that has a result for every allowed input has one for a whole run. -/
theorem run_total {P : σ → Prop} {allowed : σ → ι → Prop}
    (step : ∀ s i, P s → allowed s i → ∃ r, c.step s i = some r ∧ P r.1) {s : σ} (start : P s) {inputs : List ι}
    (all : c.Along allowed s inputs) : ∃ r, c.run s inputs = some r ∧ P r.1 := by
  induction inputs generalizing s with
  | nil => exact ⟨_, rfl, start⟩
  | cons i rest ih =>
    obtain ⟨now, later⟩ := all
    obtain ⟨⟨s', out, res⟩, stepped, next⟩ := step s i start now
    by_cases going : res = c.going
    · subst going
      obtain ⟨⟨final, more, last⟩, ran, held⟩ := ih next (later s' out stepped)
      refine ⟨(final, out ++ more, last), ?_, held⟩
      rw [run_cons, stepped, Option.bind_some, andThen_going, ran]
      rfl
    · refine ⟨(s', out, res), ?_, next⟩
      rw [run_cons, stepped, Option.bind_some, c.andThen_stopped going]

end Consumer

end Maglev
