import Mathlib.Tactic.Common

namespace Maglev

/-- The states that a system reaches from `start`, with the labels of the steps on
the way. Only steps that meet `allowed` in the state before them are taken. -/
inductive Reaches {σ ℓ : Type*} (step : σ → ℓ → Option σ) (allowed : σ → ℓ → Prop) (start : σ) : List ℓ → σ → Prop
  | start : Reaches step allowed start [] start
  | next {labels s l s'} : Reaches step allowed start labels s → allowed s l → step s l = some s' →
      Reaches step allowed start (labels ++ [l]) s'

namespace Reaches

variable {σ ℓ : Type*} {step : σ → ℓ → Option σ} {allowed : σ → ℓ → Prop} {start s : σ} {labels : List ℓ}

/-- What holds at the start and is kept by every allowed step holds wherever the system gets. -/
theorem invariant {P : σ → Prop} (reach : Reaches step allowed start labels s) (atStart : P start)
    (kept : ∀ s l s', P s → allowed s l → step s l = some s' → P s') : P s := by
  induction reach with
  | start => exact atStart
  | next _ allowed taken ih => exact kept _ _ _ ih allowed taken

end Reaches

/-- The state after a list of steps that are all enabled. -/
def execute {σ ℓ : Type*} (step : σ → ℓ → Option σ) (s : σ) : List ℓ → Option σ
  | [] => some s
  | l :: rest => (step s l).bind fun s => execute step s rest

/-- The steps of a system without those that are not allowed. -/
def guarded {σ ℓ : Type*} (step : σ → ℓ → Option σ) (allowed : σ → ℓ → Prop) [∀ s l, Decidable (allowed s l)]
    (s : σ) (l : ℓ) : Option σ := if allowed s l then step s l else none

/-- A run that can be executed leads to a state that is reached. -/
theorem reaches_of_execute {σ ℓ : Type*} {step : σ → ℓ → Option σ} {allowed : σ → ℓ → Prop}
    [∀ s l, Decidable (allowed s l)] {start s middle : σ} {labels rest : List ℓ}
    (reach : Reaches step allowed start labels middle) (ran : execute (guarded step allowed) middle rest = some s) :
    Reaches step allowed start (labels ++ rest) s := by
  induction rest generalizing labels middle with
  | nil =>
    have same : middle = s := by simpa [execute] using ran
    simpa [same] using reach
  | cons l rest ih =>
    rw [execute, Option.bind_eq_some_iff] at ran
    obtain ⟨next, taken, later⟩ := ran
    obtain ⟨may, stepped⟩ := Option.ite_none_right_eq_some.mp taken
    have reached := ih (.next reach may stepped) later
    rwa [List.append_assoc] at reached

end Maglev
