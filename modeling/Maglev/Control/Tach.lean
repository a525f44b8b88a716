import Mathlib.Algebra.Order.Group.Unbundled.Int
import Mathlib.Algebra.Ring.Int.Defs
import Mathlib.Data.List.Chain
import Mathlib.Tactic.Linarith

namespace Maglev

/-- `hall_sensors_state_e`. -/
inductive HallSensorsState
  | low
  | state0
  | state60
  | state120
  | state180
  | state240
  | state300
  | high
  deriving DecidableEq, Repr

def hallSensorsStateToSegment : HallSensorsState → ℤ
  | .state60 => 1
  | .state120 => 2
  | .state180 => 3
  | .state240 => 4
  | .state300 => 5
  | .low | .high | .state0 => 0

structure Tach where
  currentSegment : ℤ
  counter : ℤ
  deriving DecidableEq, Repr

/-- The values of an `int`. -/
def FitsInt (n : ℤ) : Prop := -2 ^ 31 ≤ n ∧ n < 2 ^ 31

instance (n : ℤ) : Decidable (FitsInt n) := inferInstanceAs (Decidable (_ ∧ _))

/-- It leaves the counter as it is. -/
def tachInit (tach : Tach) (initialState : HallSensorsState) : Tach :=
  { tach with currentSegment := hallSensorsStateToSegment initialState }

/-- The difference of two segments after both corrections. -/
def segmentDiff (newSegment currentSegment : ℤ) : ℤ :=
  let segmentDiff := newSegment - currentSegment
  let segmentDiff := if segmentDiff > 2 then segmentDiff - 6 else segmentDiff
  if segmentDiff < -2 then segmentDiff + 6 else segmentDiff

/-- The state and the returned counter. There is none when the addition overflows, which C
leaves undefined. -/
def tachUpdate (tach : Tach) (currentState : HallSensorsState) : Option (Tach × ℤ) :=
  let newSegment := hallSensorsStateToSegment currentState
  let counter := tach.counter + segmentDiff newSegment tach.currentSegment
  if FitsInt counter then some (⟨newSegment, counter⟩, counter) else none

/-- Calls one after the other, with everything they return. -/
def tachUpdates : Tach → List HallSensorsState → Option (Tach × List ℤ)
  | tach, [] => some (tach, [])
  | tach, state :: rest =>
    (tachUpdate tach state).bind fun (tach, counter) =>
      (tachUpdates tach rest).map fun (tach, counters) => (tach, counter :: counters)

/-- What the sensors show at a position of the rotor, counted in segments. -/
def hallState (position : ℤ) : HallSensorsState :=
  match (position % 6).toNat with
  | 0 => .state0
  | 1 => .state60
  | 2 => .state120
  | 3 => .state180
  | 4 => .state240
  | _ => .state300

/-- The tachometer at a position, with a given count. -/
def Tach.at (position counter : ℤ) : Tach := ⟨position % 6, counter⟩

theorem hallState_segment (position : ℤ) : hallSensorsStateToSegment (hallState position) = position % 6 := by
  have range : position % 6 = 0 ∨ position % 6 = 1 ∨ position % 6 = 2 ∨ position % 6 = 3 ∨ position % 6 = 4 ∨
      position % 6 = 5 := by omega
  rcases range with value | value | value | value | value | value <;> simp [hallState, hallSensorsStateToSegment, value]

theorem tachInit_hallState (tach : Tach) (position : ℤ) :
    tachInit tach (hallState position) = .at position tach.counter := by
  rw [tachInit, hallState_segment, Tach.at]

/-- The corrections recover every move by at most two segments, over the seam and back. -/
theorem segmentDiff_of_near {p q : ℤ} (near : |q - p| ≤ 2) : segmentDiff (q % 6) (p % 6) = q - p := by
  rw [abs_le] at near
  unfold segmentDiff
  dsimp only
  split_ifs <;> omega

theorem tachUpdate_at {p q counter : ℤ} (near : |q - p| ≤ 2) (fits : FitsInt (counter + (q - p))) :
    tachUpdate (.at p counter) (hallState q) = some (.at q (counter + (q - p)), counter + (q - p)) := by
  simp only [tachUpdate, Tach.at, hallState_segment, segmentDiff_of_near near, if_pos fits]

theorem tachUpdates_cons {tach next : Tach} {state : HallSensorsState} {counter : ℤ}
    (update : tachUpdate tach state = some (next, counter)) (rest : List HallSensorsState) :
    tachUpdates tach (state :: rest) =
      (tachUpdates next rest).map fun (tach, counters) => (tach, counter :: counters) := by
  rw [tachUpdates, update]
  rfl

/-- A path of the rotor from a position: no step is longer than two segments. -/
def Path (start : ℤ) (path : List ℤ) : Prop := (start :: path).IsChain fun p q => |q - p| ≤ 2

/-- The count along a path is the position, up to where it started. -/
theorem tachUpdates_at {start counter : ℤ} {path : List ℤ} (near : Path start path)
    (fits : ∀ p ∈ path, FitsInt (counter + (p - start))) :
    tachUpdates (.at start counter) (path.map hallState) =
      some (.at (path.getLastD start) (counter + (path.getLastD start - start)),
        path.map fun p => counter + (p - start)) := by
  induction path generalizing start counter with
  | nil => simp [tachUpdates]
  | cons p path ih =>
    obtain ⟨step, rest⟩ := List.isChain_cons_cons.mp near
    obtain ⟨here, later⟩ := List.forall_mem_cons.mp fits
    have shift (q : ℤ) : counter + (p - start) + (q - p) = counter + (q - start) := by omega
    have onward := @ih p (counter + (p - start)) rest (fun q member => (shift q).symm ▸ later q member)
    rw [List.map_cons, tachUpdates_cons (tachUpdate_at step here), onward]
    simp only [shift, Option.map_some, List.getLastD_cons, List.map_cons]

/-- Along a path and back to its start. -/
def thereAndBack (start : ℤ) (path : List ℤ) : List ℤ := path ++ (start :: path).reverse

theorem Path.thereAndBack {start : ℤ} {path : List ℤ} (near : Path start path) :
    Path start (thereAndBack start path) := by
  have back : (start :: path).reverse.IsChain fun p q => |q - p| ≤ 2 := by
    rw [List.isChain_reverse]
    exact near.imp fun p q step => (abs_sub_comm p q).trans_le step
  refine near.append back fun p last q first => ?_
  rw [List.head?_reverse] at first
  obtain rfl : p = q := Option.some.inj (last.symm.trans first)
  simp

theorem thereAndBack_getLastD (start : ℤ) (path : List ℤ) : (thereAndBack start path).getLastD start = start := by
  rw [thereAndBack, List.reverse_cons, ← List.append_assoc]
  exact List.getLastD_concat ..

theorem tachUpdates_append (tach : Tach) (first rest : List HallSensorsState) :
    tachUpdates tach (first ++ rest) =
      (tachUpdates tach first).bind fun (tach, counters) =>
        (tachUpdates tach rest).map fun (tach, more) => (tach, counters ++ more) := by
  induction first generalizing tach with
  | nil => simp [tachUpdates]
  | cons state first ih =>
    simp only [List.cons_append, tachUpdates, ih]
    cases tachUpdate tach state with
    | none => rfl
    | some update =>
      obtain ⟨next, counter⟩ := update
      simp only [Option.bind_some]
      cases tachUpdates next first with
      | none => rfl
      | some updates => simp [Function.comp_def]

/-- The tachometer follows the rotor: every call returns how far it has moved, and any
number of ways there and back leaves the tachometer as it was. -/
theorem tachUpdates_tracks (tach : Tach) {start : ℤ} {path : List ℤ} (near : Path start path)
    (fits : ∀ p ∈ start :: path, FitsInt (tach.counter + (p - start))) :
    (tachUpdates (tachInit tach (hallState start)) (path.map hallState)).map Prod.snd =
        some (path.map fun p => tach.counter + (p - start)) ∧
      ∀ times : ℕ, (tachUpdates (tachInit tach (hallState start))
        ((List.replicate times (thereAndBack start path)).flatten.map hallState)).map Prod.fst =
          some (tachInit tach (hallState start)) := by
  have round : ∀ p ∈ thereAndBack start path, FitsInt (tach.counter + (p - start)) := by
    intro p member
    refine fits p ?_
    rcases List.mem_append.mp member with there | back
    · exact List.mem_cons_of_mem start there
    · exact List.mem_reverse.mp back
  rw [tachInit_hallState]
  constructor
  · rw [tachUpdates_at near (List.forall_mem_cons.mp fits).2]
    rfl
  · intro times
    have once := tachUpdates_at near.thereAndBack round
    rw [thereAndBack_getLastD, sub_self, add_zero] at once
    induction times with
    | zero => rfl
    | succ times ih =>
      rw [List.replicate_succ, List.flatten_cons, List.map_append, tachUpdates_append, once, Option.bind_some,
        Option.map_map]
      exact ih

theorem tachUpdates_tracks_seam :
    (tachUpdates (tachInit ⟨0, 40⟩ (hallState 4)) ([6, 7, 5, 3].map hallState)).map Prod.snd =
        some [42, 43, 41, 39] ∧
      (tachUpdates (tachInit ⟨0, 40⟩ (hallState 4))
        ((List.replicate 1000 (thereAndBack 4 [6, 7, 5, 3])).flatten.map hallState)).map Prod.fst =
          some (tachInit ⟨0, 40⟩ (hallState 4)) := by
  have near : Path 4 [6, 7, 5, 3] := by unfold Path; decide
  obtain ⟨counters, rounds⟩ := tachUpdates_tracks ⟨0, 40⟩ near (by decide)
  exact ⟨counters, rounds 1000⟩

def HallSensorsState.Valid (state : HallSensorsState) : Prop := state ≠ .low ∧ state ≠ .high

instance (state : HallSensorsState) : Decidable state.Valid := inferInstanceAs (Decidable (_ ∧ _))

/-- A valid state, with the invalid codes that are read before it. -/
structure Reading where
  glitches : List HallSensorsState
  state : HallSensorsState
  invalid : ∀ code ∈ glitches, ¬ code.Valid
  valid : state.Valid

def Reading.codes (r : Reading) : List HallSensorsState := r.glitches ++ [r.state]

/-- Segments that are the same or next to each other on the circle. -/
def Adjacent (state next : HallSensorsState) : Prop :=
  (hallSensorsStateToSegment next - hallSensorsStateToSegment state) % 6 ∈ [0, 1, 5]

instance (state next : HallSensorsState) : Decidable (Adjacent state next) :=
  inferInstanceAs (Decidable (_ ∈ _))

/-- The places where going over segment 0 makes half a turn twice, or once instead of less. -/
def halfTurns : List (HallSensorsState × HallSensorsState) :=
  [(.state180, .state180), (.state180, .state120), (.state240, .state180)]

/-- The number of such places that have invalid codes in them. -/
def miscounts : HallSensorsState → List Reading → ℕ
  | _, [] => 0
  | before, r :: rest =>
    (if r.glitches ≠ [] ∧ (before, r.state) ∈ halfTurns then 1 else 0) + miscounts r.state rest

/-- The sum of all differences along some codes. -/
def moved : ℤ → List HallSensorsState → ℤ
  | _, [] => 0
  | segment, state :: rest =>
    segmentDiff (hallSensorsStateToSegment state) segment + moved (hallSensorsStateToSegment state) rest

theorem moved_append (segment : ℤ) (first : List HallSensorsState) (state : HallSensorsState)
    (rest : List HallSensorsState) :
    moved segment (first ++ state :: rest) =
      moved segment (first ++ [state]) + moved (hallSensorsStateToSegment state) rest := by
  induction first generalizing segment with
  | nil => simp [moved]
  | cons code first ih => simp only [List.cons_append, moved, ih, add_assoc]

theorem counter_of_tachUpdates {tach after : Tach} {states : List HallSensorsState} {counters : List ℤ}
    (run : tachUpdates tach states = some (after, counters)) :
    after.counter = tach.counter + moved tach.currentSegment states := by
  induction states generalizing tach counters with
  | nil =>
    cases run
    simp [moved]
  | cons state rest ih =>
    rw [tachUpdates, Option.bind_eq_some_iff] at run
    obtain ⟨⟨next, counter⟩, update, run⟩ := run
    obtain ⟨⟨last, more⟩, onward, ⟨⟩⟩ := Option.map_eq_some_iff.mp run
    unfold tachUpdate at update
    obtain ⟨-, ⟨⟩⟩ := Option.ite_none_right_eq_some.mp update
    rw [ih onward, moved, add_assoc]

/-- Invalid codes lead to segment 0, and the first of them is the only one that counts. -/
theorem moved_glitches {glitches : List HallSensorsState} (invalid : ∀ code ∈ glitches, ¬ code.Valid)
    (some : glitches ≠ []) (segment : ℤ) (state : HallSensorsState) :
    moved segment (glitches ++ [state]) =
      segmentDiff 0 segment + segmentDiff (hallSensorsStateToSegment state) 0 := by
  have zero {code : HallSensorsState} (bad : ¬ code.Valid) : hallSensorsStateToSegment code = 0 := by
    cases code <;> first | rfl | exact absurd (by decide) bad
  have stays : segmentDiff 0 0 = 0 := by decide
  induction glitches generalizing segment with
  | nil => exact absurd rfl some
  | cons code rest ih =>
    obtain ⟨bad, others⟩ := List.forall_mem_cons.mp invalid
    rw [List.cons_append, moved, zero bad]
    cases rest with
    | nil => simp [moved]
    | cons next rest => rw [ih others (by simp), stays, zero_add]

/-- The way over segment 0, compared with the direct one, for all pairs of neighbours. -/
theorem segmentDiff_over_zero {before next : HallSensorsState} (valid : before.Valid) (valid' : next.Valid)
    (adjacent : Adjacent before next) :
    segmentDiff 0 (hallSensorsStateToSegment before) + segmentDiff (hallSensorsStateToSegment next) 0 =
      segmentDiff (hallSensorsStateToSegment next) (hallSensorsStateToSegment before) +
        6 * (if (before, next) ∈ halfTurns then 1 else 0) := by
  revert adjacent valid valid'
  cases before <;> cases next <;> decide

theorem moved_readings {before : HallSensorsState} (valid : before.Valid) {readings : List Reading}
    (slow : (before :: readings.map Reading.state).IsChain Adjacent) :
    moved (hallSensorsStateToSegment before) (readings.flatMap Reading.codes) =
      moved (hallSensorsStateToSegment before) (readings.map Reading.state) + 6 * miscounts before readings := by
  induction readings generalizing before with
  | nil => simp [moved, miscounts]
  | cons r rest ih =>
    obtain ⟨adjacent, slow⟩ := List.isChain_cons_cons.mp slow
    have onward := ih r.valid slow
    have direct := segmentDiff_over_zero valid r.valid adjacent
    rw [List.flatMap_cons, Reading.codes, List.append_assoc, List.singleton_append, moved_append, onward,
      List.map_cons, moved, miscounts]
    by_cases glitches : r.glitches = []
    · simp only [glitches, List.nil_append, moved, ne_eq, not_true_eq_false, false_and, if_false]
      omega
    · rw [moved_glitches r.invalid glitches, direct]
      simp only [glitches, ne_eq, not_false_eq_true, true_and]
      split <;> push_cast <;> omega

/-- Invalid codes in the readings change the count by a whole turn at each place where they
stand for half a turn, and nowhere else. -/
theorem tachUpdates_glitches (tach : Tach) {first : HallSensorsState} (valid : first.Valid) {readings : List Reading}
    (slow : (first :: readings.map Reading.state).IsChain Adjacent) {glitched clean : Tach}
    {counters counters' : List ℤ}
    (run : tachUpdates (tachInit tach first) (readings.flatMap Reading.codes) = some (glitched, counters))
    (run' : tachUpdates (tachInit tach first) (readings.map Reading.state) = some (clean, counters')) :
    glitched.counter = clean.counter + 6 * miscounts first readings ∧
      (glitched.counter = clean.counter ↔ miscounts first readings = 0) := by
  have counted : glitched.counter = clean.counter + 6 * miscounts first readings := by
    rw [counter_of_tachUpdates run, counter_of_tachUpdates run']
    simp only [tachInit]
    rw [moved_readings valid slow, add_assoc]
  refine ⟨counted, ?_⟩
  omega

/-- One invalid code before a valid state. -/
def afterLow (state : HallSensorsState) (valid : state.Valid) : Reading :=
  ⟨[.low], state, by decide, valid⟩

theorem tachUpdates_glitches_forward :
    let readings := [afterLow .state180 (by decide), afterLow .state240 (by decide)]
    tachUpdates (tachInit ⟨0, 0⟩ .state120) (readings.flatMap Reading.codes) = some (⟨4, 2⟩, [-2, 1, 4, 2]) ∧
      tachUpdates (tachInit ⟨0, 0⟩ .state120) (readings.map Reading.state) = some (⟨4, 2⟩, [1, 2]) ∧
      miscounts .state120 readings = 0 := by
  intro readings
  have glitched : tachUpdates (tachInit ⟨0, 0⟩ .state120) (readings.flatMap Reading.codes) =
      some (⟨4, 2⟩, [-2, 1, 4, 2]) := by decide
  have clean : tachUpdates (tachInit ⟨0, 0⟩ .state120) (readings.map Reading.state) = some (⟨4, 2⟩, [1, 2]) := by
    decide
  exact ⟨glitched, clean, (tachUpdates_glitches ⟨0, 0⟩ (by decide) (by decide) glitched clean).2.mp rfl⟩

/-- At 180 degrees, a code that is not valid counts as half a turn forwards, and so does the
way back from it. -/
theorem tachUpdates_halfTurn :
    tachUpdates (tachInit ⟨0, 0⟩ .state180) ([afterLow .state180 (by decide)].flatMap Reading.codes) =
        some (⟨3, 6⟩, [3, 6]) ∧
      tachUpdates (tachInit ⟨0, 0⟩ .state180) ([afterLow .state180 (by decide)].map Reading.state) =
        some (⟨3, 0⟩, [0]) := by
  decide

end Maglev
