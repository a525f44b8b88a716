import Mathlib.Data.BitVec
import Maglev.Lib.Machine
import Maglev.Lib.Ticks

namespace Maglev

/-- `systime_t` and `sysinterval_t`: both have 32 bits. -/
abbrev SysTime := BitVec 32

def stFrequency : ℕ := 10000

/-- The macro `TIME_MS2I`. -/
def timeMs2i (msecs : ℕ) : SysTime := BitVec.ofNat 32 ((msecs * stFrequency + 999) / 1000)

/-- The macro `TIME_I2MS`. -/
def timeI2ms (interval : SysTime) : BitVec 32 :=
  BitVec.ofNat 32 ((interval.toNat * 1000 + stFrequency - 1) / stFrequency)

def heartbeatInterval : BitVec 32 := 1000

/-- What the publish loop of `_CommTask` keeps from one iteration to the next. -/
structure PublishLoop where
  telemCb : Bool
  nextOutpub : SysTime
  timeLastHeartbeat : SysTime
  deriving DecidableEq, Repr

/-- What an iteration finds: its readings of the system time, and what `telem_cb`
returns if it is called. -/
structure PublishRound where
  timeNow : SysTime
  delay : SysTime
  heartbeatNow : SysTime
  deriving DecidableEq, Repr

/-- What an iteration publishes; of the heartbeat, its uptime. -/
structure Published where
  telemetry : Bool
  heartbeat : Option SysTime
  deriving DecidableEq, Repr

def heartbeat (c : PublishLoop) (timeNow : SysTime) : PublishLoop × Option SysTime :=
  if timeI2ms (timeNow - c.timeLastHeartbeat) ≥ heartbeatInterval then
    ({ c with timeLastHeartbeat := timeNow }, some timeNow)
  else (c, none)

/-- The test for telemetry: the time is compared as it is. -/
def PublishLoop.telemetryDue (c : PublishLoop) (timeNow : SysTime) : Bool :=
  c.telemCb && decide (timeNow > c.nextOutpub)

/-- The body of the loop. -/
def publishIteration (c : PublishLoop) (i : PublishRound) : PublishLoop × Published :=
  let telemetry := c.telemetryDue i.timeNow
  let c := if telemetry then { c with nextOutpub := i.timeNow + i.delay } else c
  let beat := heartbeat c i.heartbeatNow
  (beat.1, { telemetry, heartbeat := beat.2 })

/-- The loop with the time of its last publish, or of its start, and the delay that was
returned then. The code does not read either of them. -/
structure Publishing where
  loop : PublishLoop
  lastPublish : SysTime
  lastDelay : SysTime
  deriving DecidableEq, Repr

/-- The loop as it is entered, with a handler for the telemetry. -/
def Publishing.start (now timeLastHeartbeat : SysTime) : Publishing where
  loop := { telemCb := true, nextOutpub := now, timeLastHeartbeat }
  lastPublish := now
  lastDelay := 0

def publishMachine : Machine Publishing PublishRound Published where
  step s i :=
    let after := publishIteration s.loop i
    (if after.2.telemetry then ⟨after.1, i.timeNow, i.delay⟩ else { s with loop := after.1 }, [after.2])

/-- Telemetry is published if more than the delay has elapsed since the last time, and
only then. -/
def KeepsDelay (s : Publishing) (i : PublishRound) : Prop :=
  (publishIteration s.loop i).2.telemetry = true ↔ i.timeNow - s.lastPublish > s.lastDelay

/-- The reading has wrapped since the last publish if the deadline has, and only then. -/
def WrapsTogether (s : Publishing) (i : PublishRound) : Prop :=
  2 ^ 32 ≤ s.lastPublish.toNat + s.lastDelay.toNat ↔ i.timeNow < s.lastPublish

instance (s : Publishing) (i : PublishRound) : Decidable (KeepsDelay s i) :=
  inferInstanceAs (Decidable (_ ↔ _))

instance (s : Publishing) (i : PublishRound) : Decidable (WrapsTogether s i) :=
  inferInstanceAs (Decidable (_ ↔ _))

/-- The deadline is the one that the last publish has set. -/
structure OnSchedule (s : Publishing) : Prop where
  handler : s.loop.telemCb = true
  deadline : s.loop.nextOutpub = s.lastPublish + s.lastDelay

theorem onSchedule_start (now timeLastHeartbeat : SysTime) : OnSchedule (.start now timeLastHeartbeat) :=
  ⟨rfl, (BitVec.add_zero now).symm⟩

theorem heartbeat_telemetry (c : PublishLoop) (timeNow : SysTime) :
    (heartbeat c timeNow).1.telemCb = c.telemCb ∧ (heartbeat c timeNow).1.nextOutpub = c.nextOutpub := by
  unfold heartbeat
  split <;> exact ⟨rfl, rfl⟩

theorem publishIteration_telemetry (c : PublishLoop) (i : PublishRound) :
    (publishIteration c i).2.telemetry = c.telemetryDue i.timeNow := rfl

/-- The heartbeat does not depend on the telemetry of the same round. -/
theorem publishIteration_heartbeat (c : PublishLoop) (i : PublishRound) :
    (publishIteration c i).2.heartbeat =
      if heartbeatInterval ≤ timeI2ms (i.heartbeatNow - c.timeLastHeartbeat) then some i.heartbeatNow else none := by
  have last : (if c.telemetryDue i.timeNow then { c with nextOutpub := i.timeNow + i.delay }
      else c).timeLastHeartbeat = c.timeLastHeartbeat := by
    split <;> rfl
  simp only [publishIteration, heartbeat, ge_iff_le]
  rw [last]
  split <;> rfl

/-- A round that publishes sets the deadline, and no other does. -/
theorem publishIteration_loop (c : PublishLoop) (i : PublishRound) :
    (publishIteration c i).1.telemCb = c.telemCb ∧
      (publishIteration c i).1.nextOutpub =
        if c.telemetryDue i.timeNow then i.timeNow + i.delay else c.nextOutpub := by
  simp only [publishIteration, heartbeat_telemetry]
  cases c.telemetryDue i.timeNow with
  | false | true => simp

theorem publishMachine_state (s : Publishing) (i : PublishRound) :
    (publishMachine.step s i).1 =
      if s.loop.telemetryDue i.timeNow then ⟨(publishIteration s.loop i).1, i.timeNow, i.delay⟩
      else { s with loop := (publishIteration s.loop i).1 } := rfl

theorem publishMachine_published (s : Publishing) (i : PublishRound) :
    (publishMachine.step s i).2 = [(publishIteration s.loop i).2] := rfl

theorem OnSchedule.step {s : Publishing} (schedule : OnSchedule s) (i : PublishRound) :
    OnSchedule (publishMachine.step s i).1 := by
  obtain ⟨handler, deadline⟩ := publishIteration_loop s.loop i
  rw [publishMachine_state]
  split_ifs at deadline ⊢
  · exact ⟨handler.trans schedule.handler, deadline⟩
  · exact ⟨handler.trans schedule.handler, deadline.trans schedule.deadline⟩

theorem OnSchedule.keepsDelay_iff {s : Publishing} (schedule : OnSchedule s) (i : PublishRound) :
    KeepsDelay s i ↔ WrapsTogether s i := by
  have due : s.loop.telemetryDue i.timeNow = true ↔ s.lastPublish + s.lastDelay < i.timeNow := by
    simp [PublishLoop.telemetryDue, schedule.handler, schedule.deadline]
  unfold KeepsDelay WrapsTogether
  rw [publishIteration_telemetry, due]
  exact deadline_agrees_iff i.timeNow s.lastPublish s.lastDelay

/-- The same round on a clock that is ahead by `k`. -/
def PublishRound.shift (k : SysTime) (i : PublishRound) : PublishRound :=
  { i with timeNow := i.timeNow + k, heartbeatNow := i.heartbeatNow + k }

/-- The same schedule on a clock that is ahead by `k`. -/
structure Ahead (k : SysTime) (s s' : Publishing) : Prop where
  lastPublish : s'.lastPublish = s.lastPublish + k
  lastDelay : s'.lastDelay = s.lastDelay

theorem Ahead.telemetryDue {k : SysTime} {s s' : Publishing} (ahead : Ahead k s s') {i : PublishRound}
    (keeps : KeepsDelay s i) (keeps' : KeepsDelay s' (i.shift k)) :
    s'.loop.telemetryDue (i.shift k).timeNow = s.loop.telemetryDue i.timeNow := by
  have elapsed : (i.shift k).timeNow - s'.lastPublish = i.timeNow - s.lastPublish := by
    rw [ahead.lastPublish]
    exact add_sub_add_right_eq_sub i.timeNow s.lastPublish k
  unfold KeepsDelay at keeps keeps'
  rw [publishIteration_telemetry] at keeps
  rw [publishIteration_telemetry, elapsed, ahead.lastDelay, ← keeps] at keeps'
  exact Bool.eq_iff_iff.mpr keeps'

theorem Ahead.step {k : SysTime} {s s' : Publishing} (ahead : Ahead k s s') {i : PublishRound}
    (same : s'.loop.telemetryDue (i.shift k).timeNow = s.loop.telemetryDue i.timeNow) :
    Ahead k (publishMachine.step s i).1 (publishMachine.step s' (i.shift k)).1 := by
  rw [publishMachine_state, publishMachine_state, same]
  split_ifs
  · exact ⟨rfl, rfl⟩
  · exact ⟨ahead.lastPublish, ahead.lastDelay⟩

/-- Where both keep the delay, a loop publishes in the same rounds as one on a clock that
is ahead of its own. -/
theorem Ahead.outputs {k : SysTime} {s s' : Publishing} (ahead : Ahead k s s') (rounds : List PublishRound)
    (keeps : publishMachine.Everywhere KeepsDelay s rounds)
    (keeps' : publishMachine.Everywhere KeepsDelay s' (rounds.map (.shift k))) :
    (publishMachine.outputs s' (rounds.map (.shift k))).map Published.telemetry =
      (publishMachine.outputs s rounds).map Published.telemetry := by
  induction rounds generalizing s s' with
  | nil => rfl
  | cons i rounds ih =>
    have same := ahead.telemetryDue keeps.1 keeps'.1
    have rest := ih (ahead.step same) keeps.2 keeps'.2
    rw [List.map_cons, Machine.outputs_cons, Machine.outputs_cons, List.map_append, List.map_append, rest,
      publishMachine_published, publishMachine_published, List.map_singleton, List.map_singleton,
      publishIteration_telemetry, publishIteration_telemetry, same]

/-- Whether telemetry is published depends on the time since the last publish alone, in
every round of a run, exactly if the deadline and the readings never wrap apart; two such
runs on clocks that differ by a constant publish in the same rounds. -/
theorem publishMachine_keepsDelay_iff (now timeLastHeartbeat : SysTime) (rounds : List PublishRound) :
    (publishMachine.Everywhere KeepsDelay (.start now timeLastHeartbeat) rounds ↔
      publishMachine.Everywhere WrapsTogether (.start now timeLastHeartbeat) rounds) ∧
    ∀ k, publishMachine.Everywhere WrapsTogether (.start now timeLastHeartbeat) rounds →
      publishMachine.Everywhere WrapsTogether (.start (now + k) (timeLastHeartbeat + k)) (rounds.map (.shift k)) →
      (publishMachine.outputs (.start (now + k) (timeLastHeartbeat + k)) (rounds.map (.shift k))).map
          Published.telemetry =
        (publishMachine.outputs (.start now timeLastHeartbeat) rounds).map Published.telemetry := by
  have keeps_iff (now timeLastHeartbeat : SysTime) (rounds : List PublishRound) :
      publishMachine.Everywhere KeepsDelay (.start now timeLastHeartbeat) rounds ↔
        publishMachine.Everywhere WrapsTogether (.start now timeLastHeartbeat) rounds :=
    publishMachine.everywhere_congr (fun _ i schedule => schedule.step i)
      (fun _ i schedule => schedule.keepsDelay_iff i) (onSchedule_start now timeLastHeartbeat) rounds
  refine ⟨keeps_iff now timeLastHeartbeat rounds, fun k wraps wraps' => ?_⟩
  have ahead : Ahead k (.start now timeLastHeartbeat) (.start (now + k) (timeLastHeartbeat + k)) := ⟨rfl, rfl⟩
  exact ahead.outputs rounds ((keeps_iff _ _ _).mpr wraps) ((keeps_iff _ _ _).mpr wraps')

/-- Three rounds with the delay of `dispatch_telemetry`, the second one too early. -/
def threeRounds (now : SysTime) : List PublishRound :=
  [⟨now + 1, timeMs2i 20, now + 2⟩, ⟨now + 100, timeMs2i 20, now + 101⟩, ⟨now + 202, timeMs2i 20, now + 203⟩]

theorem publishMachine_keepsDelay_early :
    publishMachine.Everywhere KeepsDelay (.start 1000 0) (threeRounds 1000) ∧
      (publishMachine.outputs (.start (1000 + 5000) (0 + 5000)) ((threeRounds 1000).map (.shift 5000))).map
        Published.telemetry = [true, false, true] := by
  obtain ⟨keeps_iff, shifted⟩ := publishMachine_keepsDelay_iff 1000 0 (threeRounds 1000)
  exact ⟨keeps_iff.mpr (by decide), (shifted 5000 (by decide) (by decide)).trans (by decide)⟩

/-- Shortly before the clock wraps, the first publish sets a deadline behind the wrap. The
readings seem to have passed it already, so the second round publishes; on a clock that
starts at zero it does not. -/
theorem publishMachine_wrappedDeadline :
    ¬ publishMachine.Everywhere KeepsDelay (.start 0xffffff6a 0) (threeRounds 0xffffff6a) ∧
      (publishMachine.outputs (.start 0xffffff6a 0) (threeRounds 0xffffff6a)).map Published.telemetry =
        [true, true, false] ∧
      (publishMachine.outputs (.start 0 0) (threeRounds 0)).map Published.telemetry = [true, false, true] := by
  decide

end Maglev
