import Mathlib.Tactic.Common

namespace Maglev

/-- A machine that takes inputs one at a time, and may put out several values for each. -/
structure Machine (σ ι ο : Type*) where
  step : σ → ι → σ × List ο

namespace Machine

variable {σ ι ο : Type*} (m : Machine σ ι ο)

/-- The state after a list of inputs. -/
def final (s : σ) (inputs : List ι) : σ := inputs.foldl (fun s i => (m.step s i).1) s

/-- Everything that is put out on the way. -/
def outputs : σ → List ι → List ο
  | _, [] => []
  | s, i :: rest => (m.step s i).2 ++ outputs (m.step s i).1 rest

@[simp] theorem final_nil (s : σ) : m.final s [] = s := rfl

@[simp] theorem final_cons (s : σ) (i : ι) (rest : List ι) :
    m.final s (i :: rest) = m.final (m.step s i).1 rest := rfl

@[simp] theorem outputs_nil (s : σ) : m.outputs s [] = [] := rfl

@[simp] theorem outputs_cons (s : σ) (i : ι) (rest : List ι) :
    m.outputs s (i :: rest) = (m.step s i).2 ++ m.outputs (m.step s i).1 rest := rfl

theorem final_append (s : σ) (first rest : List ι) :
    m.final s (first ++ rest) = m.final (m.final s first) rest := List.foldl_append ..

theorem outputs_append (s : σ) (first rest : List ι) :
    m.outputs s (first ++ rest) = m.outputs s first ++ m.outputs (m.final s first) rest := by
  induction first generalizing s with
  | nil => rfl
  | cons i first ih => simp only [List.cons_append, outputs_cons, final_cons, ih, List.append_assoc]

/-- What every step keeps holds after every run. -/
theorem final_invariant {P : σ → Prop} (kept : ∀ s i, P s → P (m.step s i).1) {s : σ} (start : P s)
    (inputs : List ι) : P (m.final s inputs) := by
  induction inputs generalizing s with
  | nil => exact start
  | cons i rest ih => exact ih (kept s i start)

/-- The same for a property of the state and of all that has been put out so far. -/
theorem outputs_invariant {P : List ο → σ → Prop}
    (kept : ∀ out s i, P out s → P (out ++ (m.step s i).2) (m.step s i).1) {out : List ο} {s : σ} (start : P out s)
    (inputs : List ι) : P (out ++ m.outputs s inputs) (m.final s inputs) := by
  induction inputs generalizing out s with
  | nil => simpa using start
  | cons i rest ih =>
    rw [outputs_cons, ← List.append_assoc]
    exact ih (kept out s i start)

/-- What holds of all that any step puts out holds of all that any run does. -/
theorem forall_outputs {P : ο → Prop} (each : ∀ s i, ∀ o ∈ (m.step s i).2, P o) (s : σ) (inputs : List ι) :
    ∀ o ∈ m.outputs s inputs, P o := by
  induction inputs generalizing s with
  | nil => simp
  | cons i rest ih =>
    rw [outputs_cons, List.forall_mem_append]
    exact ⟨each s i, ih _⟩

/-- A symmetry of the steps is one of the runs. -/
theorem run_symmetry {f : σ → σ} {g : ι → ι} {h : ο → ο} (inputs : List ι)
    (symmetric : ∀ s, ∀ i ∈ inputs, m.step (f s) (g i) = (f (m.step s i).1, (m.step s i).2.map h)) (s : σ) :
    m.final (f s) (inputs.map g) = f (m.final s inputs) ∧
      m.outputs (f s) (inputs.map g) = (m.outputs s inputs).map h := by
  induction inputs generalizing s with
  | nil => exact ⟨rfl, rfl⟩
  | cons i rest ih =>
    obtain ⟨here, later⟩ := forall_and.mp fun s => List.forall_mem_cons.mp (symmetric s)
    obtain ⟨state, returned⟩ := ih later (m.step s i).1
    rw [List.map_cons, final_cons, outputs_cons, here, state, returned, final_cons, outputs_cons, List.map_append]
    exact ⟨rfl, rfl⟩

/-- A condition on the state before a step and its input, at every step of a run. -/
def Everywhere (P : σ → ι → Prop) : σ → List ι → Prop
  | _, [] => True
  | s, i :: rest => P s i ∧ Everywhere P (m.step s i).1 rest

instance decidableEverywhere {P : σ → ι → Prop} [∀ s i, Decidable (P s i)] :
    ∀ s inputs, Decidable (m.Everywhere P s inputs)
  | _, [] => inferInstanceAs (Decidable True)
  | s, i :: rest =>
    have : Decidable (m.Everywhere P (m.step s i).1 rest) := decidableEverywhere (m.step s i).1 rest
    inferInstanceAs (Decidable (P s i ∧ m.Everywhere P (m.step s i).1 rest))

/-- Two conditions that agree in the states of an invariant agree on every run. -/
theorem everywhere_congr {P Q : σ → ι → Prop} {Inv : σ → Prop} (kept : ∀ s i, Inv s → Inv (m.step s i).1)
    (same : ∀ s i, Inv s → (P s i ↔ Q s i)) {s : σ} (start : Inv s) (inputs : List ι) :
    m.Everywhere P s inputs ↔ m.Everywhere Q s inputs := by
  induction inputs generalizing s with
  | nil => exact Iff.rfl
  | cons i rest ih => exact and_congr (same s i start) (ih (kept s i start))

/-- A condition that holds in the states of an invariant holds on every run. -/
theorem everywhere_of_invariant {P : σ → ι → Prop} {Inv : σ → Prop} (kept : ∀ s i, Inv s → Inv (m.step s i).1)
    (holds : ∀ s i, Inv s → P s i) {s : σ} (start : Inv s) (inputs : List ι) : m.Everywhere P s inputs := by
  induction inputs generalizing s with
  | nil => trivial
  | cons i rest ih => exact ⟨holds s i start, ih (kept s i start)⟩

/-- A condition that holds at every step holds on every run. -/
theorem everywhere_of_forall {P : σ → ι → Prop} (holds : ∀ s i, P s i) (s : σ) (inputs : List ι) :
    m.Everywhere P s inputs := by
  induction inputs generalizing s with
  | nil => trivial
  | cons i rest ih => exact ⟨holds s i, ih (m.step s i).1⟩

/-- A condition on the steps of one machine is one on what another puts out, if the other
follows it for as long as the condition holds. -/
theorem everywhere_iff_outputs {σ' ο' : Type*} {m' : Machine σ' ι ο'} {R : σ → σ' → Prop} {P : σ → ι → Prop}
    {Q : ο' → Prop} (kept : ∀ s s' i, R s s' → P s i → R (m.step s i).1 (m'.step s' i).1)
    (same : ∀ s s' i, R s s' → (P s i ↔ ∀ o ∈ (m'.step s' i).2, Q o)) {s : σ} {s' : σ'} (start : R s s')
    (inputs : List ι) : m.Everywhere P s inputs ↔ ∀ o ∈ m'.outputs s' inputs, Q o := by
  induction inputs generalizing s s' with
  | nil => simp [Everywhere]
  | cons i rest ih =>
    rw [outputs_cons, List.forall_mem_append, Everywhere, ← same s s' i start]
    exact and_congr_right fun now => ih (kept s s' i start now)

/-- A machine whose inputs come in blocks answers block by block, when each block
leads from every state of a class to a state of that class. -/
theorem outputs_blocks {β : Type*} {P : σ → Prop} {block : β → List ι} {answer : β → List ο}
    (answered : ∀ s, P s → ∀ b, P (m.final s (block b)) ∧ m.outputs s (block b) = answer b) {s : σ} (start : P s)
    (blocks : List β) : m.outputs s (blocks.flatMap block) = blocks.flatMap answer := by
  induction blocks generalizing s with
  | nil => rfl
  | cons b rest ih =>
    obtain ⟨next, output⟩ := answered s start b
    rw [List.flatMap_cons, outputs_append, output, ih next, List.flatMap_cons]

theorem final_blocks {β : Type*} {P : σ → Prop} {block : β → List ι} (kept : ∀ s, P s → ∀ b, P (m.final s (block b)))
    {s : σ} (start : P s) (blocks : List β) : P (m.final s (blocks.flatMap block)) := by
  induction blocks generalizing s with
  | nil => exact start
  | cons b rest ih =>
    rw [List.flatMap_cons, final_append]
    exact ih (kept s start b)

end Machine

end Maglev
