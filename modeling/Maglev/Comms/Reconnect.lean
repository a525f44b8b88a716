import Maglev.Lib.Reach

namespace Maglev

/-- `mqtt_connection_status_t`. -/
inductive ConnectionStatus
  | accepted
  | refusedProtocolVersion
  | refusedIdentifier
  | refusedServer
  | refusedUsernamePass
  | refusedNotAuthorized
  | disconnected
  | timeout
  deriving DecidableEq, Repr

/-- The connection state of the MQTT client, as far as its callers can tell. -/
inductive ClientState
  | disconnected
  | connecting
  | connected
  deriving DecidableEq, Repr

/-- A call of `mqtt_cb` that has not returned yet: it stores the status first and the flag last. -/
structure Callback where
  status : ConnectionStatus
  statusStored : Bool
  deriving DecidableEq, Repr

/-- The statements of the loop of `_CommTask` that touch what it shares with the
callback, and the sleeps between them. -/
inductive TaskPc
  | clearFlag
  | sleepBeforeConnect
  | connect
  | retrySleep
  | waitFlag
  | waitSleep
  | checkStatus
  | setInpub
  | subscribe
  | initOutpub
  | publishCheck
  | publishBody
  | publishSleep
  deriving DecidableEq, Repr

structure Reconnect where
  pc : TaskPc
  connectionStatus : ConnectionStatus
  connectionResponseReceived : Bool
  client : ClientState
  callback : Option Callback
  deriving DecidableEq, Repr

/-- The state in which `CommsInit` starts the task. -/
def Reconnect.init : Reconnect where
  pc := .clearFlag
  connectionStatus := .disconnected
  connectionResponseReceived := false
  client := .disconnected
  callback := none

/-- A step of the task. `succeeds` is what the client makes of a connection attempt;
it can only be true of one made while it is disconnected. -/
def taskStep (s : Reconnect) (succeeds : Bool) : Reconnect :=
  match s.pc with
  | .clearFlag => { s with connectionResponseReceived := false, pc := .sleepBeforeConnect }
  | .sleepBeforeConnect => { s with pc := .connect }
  | .connect =>
    if s.client = .disconnected ∧ succeeds then { s with client := .connecting, pc := .waitFlag }
    else { s with pc := .retrySleep }
  | .retrySleep => { s with pc := .connect }
  | .waitFlag => if s.connectionResponseReceived then { s with pc := .checkStatus } else { s with pc := .waitSleep }
  | .waitSleep => { s with pc := .waitFlag }
  | .checkStatus => if s.connectionStatus ≠ .accepted then { s with pc := .clearFlag } else { s with pc := .setInpub }
  | .setInpub => { s with pc := .subscribe }
  | .subscribe => { s with pc := .initOutpub }
  | .initOutpub => { s with pc := .publishCheck }
  | .publishCheck =>
    if s.connectionStatus = .accepted then { s with pc := .publishBody } else { s with pc := .clearFlag }
  | .publishBody => { s with pc := .publishSleep }
  | .publishSleep => { s with pc := .publishCheck }

/-- The steps of the task, the events of the client, and the stores of the callback. -/
inductive ReconnectLabel
  | task (succeeds : Bool)
  | accept
  | refuse (status : ConnectionStatus)
  | drop (status : ConnectionStatus)
  | store
  deriving DecidableEq, Repr

/-- Callbacks come from the one thread of the TCP/IP stack, so the client does
nothing more while one of them is under way. -/
def reconnectStep (s : Reconnect) : ReconnectLabel → Option Reconnect
  | .task succeeds => some (taskStep s succeeds)
  | .accept =>
    if s.client = .connecting ∧ s.callback = none then
      some { s with client := .connected, callback := some ⟨.accepted, false⟩ }
    else none
  | .refuse status =>
    if s.client = .connecting ∧ s.callback = none ∧ status ≠ .accepted then
      some { s with client := .disconnected, callback := some ⟨status, false⟩ }
    else none
  | .drop status =>
    if s.client = .connected ∧ s.callback = none ∧ status ≠ .accepted then
      some { s with client := .disconnected, callback := some ⟨status, false⟩ }
    else none
  | .store =>
    match s.callback with
    | none => none
    | some ⟨status, false⟩ => some { s with connectionStatus := status, callback := some ⟨status, true⟩ }
    | some ⟨_, true⟩ => some { s with connectionResponseReceived := true, callback := none }

/-- Neither of the loops of the task is stuck: it never retries against a live
connection, and it never waits for an answer that nobody will give. -/
structure NotStuck (s : Reconnect) : Prop where
  retry : s.pc = .connect ∨ s.pc = .retrySleep → s.client = .disconnected
  wait : s.pc = .waitFlag ∨ s.pc = .waitSleep → s.connectionResponseReceived = false →
    s.client = .connecting ∨ s.callback ≠ none

/-- The task does not clear the flag between the two stores of a callback. -/
def ClearsCleanly (s : Reconnect) : ReconnectLabel → Prop
  | .task _ => s.pc = .clearFlag → ∀ status, s.callback ≠ some ⟨status, true⟩
  | _ => True

theorem clearsCleanly_task (s : Reconnect) (succeeds : Bool) :
    (s.pc = .clearFlag → s.callback.all (!·.statusStored) = true) ↔ ClearsCleanly s (.task succeeds) := by
  refine imp_congr_right fun _ => ?_
  obtain ⟨pc, connectionStatus, flag, client, callback⟩ := s
  cases callback with
  | none => simp
  | some callback =>
    obtain ⟨status, stored⟩ := callback
    cases stored <;> simp

instance (s : Reconnect) : ∀ label, Decidable (ClearsCleanly s label)
  | .task succeeds => decidable_of_iff _ (clearsCleanly_task s succeeds)
  | .accept | .refuse _ | .drop _ | .store => inferInstanceAs (Decidable True)

/-- The connection attempt has not been answered yet, or the answer is under way. -/
inductive Pending : ClientState → Option Callback → ConnectionStatus → Prop
  | connecting {status} : Pending .connecting none status
  | accepting {status} : Pending .connected (some ⟨.accepted, false⟩) status
  | accepted : Pending .connected (some ⟨.accepted, true⟩) .accepted
  | refusing {answer status} : answer ≠ .accepted → Pending .disconnected (some ⟨answer, false⟩) status
  | refused {answer} : answer ≠ .accepted → Pending .disconnected (some ⟨answer, true⟩) answer

/-- The connection attempt has been answered; if it was accepted, the connection may
have been lost since. -/
inductive Answered : ClientState → Option Callback → ConnectionStatus → Prop
  | connected : Answered .connected none .accepted
  | dropping {answer} : answer ≠ .accepted → Answered .disconnected (some ⟨answer, false⟩) .accepted
  | dropped {answer} : answer ≠ .accepted → Answered .disconnected (some ⟨answer, true⟩) answer
  | closed {answer} : answer ≠ .accepted → Answered .disconnected none answer

/-- The parts of the loop, as the flag and the status divide it. -/
inductive Phase
  | clearing
  | attempting
  | waiting
  | serving

def TaskPc.phase : TaskPc → Phase
  | .clearFlag => .clearing
  | .sleepBeforeConnect | .connect | .retrySleep => .attempting
  | .waitFlag | .waitSleep => .waiting
  | _ => .serving

/-- What the flag and the status tell in each part of the loop. -/
def Orderly (s : Reconnect) : Prop :=
  match s.pc.phase with
  | .clearing => Answered s.client s.callback s.connectionStatus ∧ s.connectionStatus ≠ .accepted
  | .attempting => s.client = .disconnected ∧ s.callback = none ∧ s.connectionResponseReceived = false
  | .waiting =>
    s.connectionResponseReceived = false ∧ Pending s.client s.callback s.connectionStatus ∨
      s.connectionResponseReceived = true ∧ Answered s.client s.callback s.connectionStatus
  | .serving => s.connectionResponseReceived = true ∧ Answered s.client s.callback s.connectionStatus

theorem Pending.expected {client : ClientState} {callback : Option Callback} {status : ConnectionStatus}
    (pending : Pending client callback status) : client = .connecting ∨ callback ≠ none := by
  cases pending with
  | connecting => exact Or.inl rfl
  | accepting | accepted | refusing | refused => exact Or.inr (Option.some_ne_none _)

theorem Orderly.notStuck {s : Reconnect} (orderly : Orderly s) : NotStuck s := by
  constructor
  · rintro (atPc | atPc)
    all_goals
      simp only [Orderly, atPc, TaskPc.phase] at orderly
      exact orderly.1
  · intro waiting cleared
    rcases waiting with atPc | atPc
    all_goals
      simp only [Orderly, atPc, TaskPc.phase, cleared, true_and, Bool.false_eq_true, false_and, or_false] at orderly
      exact orderly.expected

/-- Whoever sees another status than an acceptance sees a closed connection. -/
theorem Answered.closed_of_clean {client : ClientState} {callback : Option Callback} {status : ConnectionStatus}
    (answered : Answered client callback status) (lost : status ≠ .accepted)
    (clean : ∀ status, callback ≠ some ⟨status, true⟩) : client = .disconnected ∧ callback = none := by
  cases answered with
  | connected | dropping => exact absurd rfl lost
  | dropped => exact absurd rfl (clean _)
  | closed => exact ⟨rfl, rfl⟩

theorem Orderly.task {s : Reconnect} (orderly : Orderly s) (succeeds : Bool)
    (clean : ClearsCleanly s (.task succeeds)) : Orderly (taskStep s succeeds) := by
  obtain ⟨pc, status, flag, client, callback⟩ := s
  cases pc with
  | clearFlag =>
    obtain ⟨answered, lost⟩ := orderly
    obtain ⟨closed, idle⟩ := answered.closed_of_clean lost (clean rfl)
    exact ⟨closed, idle, rfl⟩
  | sleepBeforeConnect | retrySleep => exact orderly
  | connect =>
    change client = .disconnected ∧ callback = none ∧ flag = false at orderly
    obtain ⟨rfl, rfl, rfl⟩ := orderly
    cases succeeds with
    | false => exact ⟨rfl, rfl, rfl⟩
    | true => exact Or.inl ⟨rfl, .connecting⟩
  | waitFlag =>
    cases flag with
    | false => exact orderly
    | true =>
      rcases orderly with ⟨cleared, _⟩ | answered
      · cases cleared
      · exact answered
  | waitSleep => exact orderly
  | checkStatus =>
    by_cases lost : status = .accepted
    · rw [taskStep, if_neg (not_not_intro lost)]
      exact orderly
    · rw [taskStep, if_pos lost]
      exact ⟨orderly.2, lost⟩
  | setInpub | subscribe | initOutpub | publishBody | publishSleep => exact orderly
  | publishCheck =>
    by_cases lost : status = .accepted
    · rw [taskStep, if_pos lost]
      exact orderly
    · rw [taskStep, if_neg lost]
      exact ⟨orderly.2, lost⟩

theorem Answered.store {client : ClientState} {status answer : ConnectionStatus}
    (answered : Answered client (some ⟨answer, false⟩) status) : Answered client (some ⟨answer, true⟩) answer := by
  cases answered with
  | dropping lost => exact .dropped lost

/-- A status that is still to be stored is one that the task has not seen. -/
theorem Answered.unstored {client : ClientState} {status answer : ConnectionStatus}
    (answered : Answered client (some ⟨answer, false⟩) status) : status = .accepted := by
  cases answered
  rfl

theorem Answered.returned {client : ClientState} {status answer : ConnectionStatus}
    (answered : Answered client (some ⟨answer, true⟩) status) : Answered client none status := by
  cases answered with
  | dropped lost => exact .closed lost

theorem Pending.store {client : ClientState} {status answer : ConnectionStatus}
    (pending : Pending client (some ⟨answer, false⟩) status) : Pending client (some ⟨answer, true⟩) answer := by
  cases pending with
  | accepting => exact .accepted
  | refusing lost => exact .refused lost

theorem Pending.returned {client : ClientState} {status answer : ConnectionStatus}
    (pending : Pending client (some ⟨answer, true⟩) status) : Answered client none status := by
  cases pending with
  | accepted => exact .connected
  | refused lost => exact .closed lost

/-- A client that is connecting is one that the task waits for. -/
theorem Orderly.of_connecting {s : Reconnect} (orderly : Orderly s) (connecting : s.client = .connecting) :
    s.pc.phase = .waiting ∧ s.connectionResponseReceived = false := by
  have unanswered : ¬ Answered s.client s.callback s.connectionStatus := by
    rw [connecting]
    rintro ⟨⟩
  unfold Orderly at orderly
  cases part : s.pc.phase with
  | clearing =>
    rw [part] at orderly
    exact absurd orderly.1 unanswered
  | attempting =>
    rw [part] at orderly
    rw [orderly.1] at connecting
    cases connecting
  | waiting =>
    rw [part] at orderly
    rcases orderly with ⟨cleared, _⟩ | ⟨_, answered⟩
    · exact ⟨rfl, cleared⟩
    · exact absurd answered unanswered
  | serving =>
    rw [part] at orderly
    exact absurd orderly.2 unanswered

/-- A connection whose acceptance has been reported is one that the task knows of. -/
theorem Orderly.of_connected {s : Reconnect} (orderly : Orderly s) (connected : s.client = .connected)
    (idle : s.callback = none) :
    (s.pc.phase = .waiting ∨ s.pc.phase = .serving) ∧ s.connectionResponseReceived = true ∧
      s.connectionStatus = .accepted := by
  have known (answered : Answered s.client s.callback s.connectionStatus) : s.connectionStatus = .accepted := by
    rw [connected, idle] at answered
    generalize s.connectionStatus = status at answered
    cases answered
    rfl
  unfold Orderly at orderly
  cases part : s.pc.phase with
  | clearing =>
    rw [part] at orderly
    exact absurd (known orderly.1) orderly.2
  | attempting =>
    rw [part] at orderly
    rw [orderly.1] at connected
    cases connected
  | waiting =>
    rw [part] at orderly
    rcases orderly with ⟨_, pending⟩ | ⟨set, answered⟩
    · rw [connected, idle] at pending
      cases pending
    · exact ⟨Or.inl rfl, set, known answered⟩
  | serving =>
    rw [part] at orderly
    exact ⟨Or.inr rfl, orderly.1, known orderly.2⟩

theorem Orderly.answer {s : Reconnect} {client : ClientState} {callback : Option Callback} (orderly : Orderly s)
    (connecting : s.client = .connecting) (pending : Pending client callback s.connectionStatus) :
    Orderly { s with client, callback } := by
  obtain ⟨part, cleared⟩ := orderly.of_connecting connecting
  unfold Orderly
  simp only [part]
  exact Or.inl ⟨cleared, pending⟩

theorem Orderly.drop {s : Reconnect} {answer : ConnectionStatus} (orderly : Orderly s)
    (connected : s.client = .connected) (idle : s.callback = none) (lost : answer ≠ .accepted) :
    Orderly { s with client := .disconnected, callback := some ⟨answer, false⟩ } := by
  obtain ⟨part, set, status⟩ := orderly.of_connected connected idle
  unfold Orderly
  rcases part with part | part
  · simp only [part, status]
    exact Or.inr ⟨set, .dropping lost⟩
  · simp only [part, status]
    exact ⟨set, .dropping lost⟩

theorem Orderly.storeStatus {s : Reconnect} {answer : ConnectionStatus} (orderly : Orderly s)
    (running : s.callback = some ⟨answer, false⟩) :
    Orderly { s with connectionStatus := answer, callback := some ⟨answer, true⟩ } := by
  unfold Orderly at orderly ⊢
  simp only [running] at orderly ⊢
  generalize s.pc.phase = part at orderly ⊢
  cases part with
  | clearing => exact absurd orderly.1.unstored orderly.2
  | attempting => exact absurd orderly.2.1 (by simp)
  | waiting =>
    rcases orderly with ⟨cleared, pending⟩ | ⟨set, answered⟩
    · exact Or.inl ⟨cleared, pending.store⟩
    · exact Or.inr ⟨set, answered.store⟩
  | serving => exact ⟨orderly.1, orderly.2.store⟩

theorem Orderly.storeFlag {s : Reconnect} {answer : ConnectionStatus} (orderly : Orderly s)
    (running : s.callback = some ⟨answer, true⟩) :
    Orderly { s with connectionResponseReceived := true, callback := none } := by
  unfold Orderly at orderly ⊢
  simp only [running] at orderly ⊢
  generalize s.pc.phase = part at orderly ⊢
  cases part with
  | clearing => exact ⟨orderly.1.returned, orderly.2⟩
  | attempting => exact absurd orderly.2.1 (by simp)
  | waiting =>
    rcases orderly with ⟨_, pending⟩ | ⟨_, answered⟩
    · exact Or.inr ⟨trivial, pending.returned⟩
    · exact Or.inr ⟨trivial, answered.returned⟩
  | serving => exact ⟨trivial, orderly.2.returned⟩

/-- As long as the flag is not cleared between the two stores of a callback, the task
is never stuck, whatever the client does and however the steps interleave. -/
theorem reconnect_notStuck {labels : List ReconnectLabel} {s : Reconnect}
    (reach : Reaches reconnectStep ClearsCleanly .init labels s) : NotStuck s := by
  apply Orderly.notStuck
  refine reach.invariant ⟨.closed (by decide), by decide⟩ ?_
  intro s l s' orderly clean taken
  cases l with
  | task succeeds =>
    cases taken
    exact orderly.task succeeds clean
  | accept =>
    obtain ⟨⟨connecting, _⟩, ⟨⟩⟩ := Option.ite_none_right_eq_some.mp taken
    exact orderly.answer connecting .accepting
  | refuse answer =>
    obtain ⟨⟨connecting, _, lost⟩, ⟨⟩⟩ := Option.ite_none_right_eq_some.mp taken
    exact orderly.answer connecting (.refusing lost)
  | drop answer =>
    obtain ⟨⟨connected, idle, lost⟩, ⟨⟩⟩ := Option.ite_none_right_eq_some.mp taken
    exact orderly.drop connected idle lost
  | store =>
    rw [reconnectStep] at taken
    split at taken
    · cases taken
    · rename_i running
      cases taken
      exact orderly.storeStatus running
    · rename_i running
      cases taken
      exact orderly.storeFlag running

/-- The client accepts, the connection is lost, and the task clears the flag after both
stores of the callback and connects once more. -/
def lossAndReturn : List ReconnectLabel :=
  let step := ReconnectLabel.task true
  [step, step, step, .accept, .store, .store, step, step, step, step, step, step, step, .drop .disconnected, .store,
    .store, step, step, step, step, step]

theorem reconnect_notStuck_lossAndReturn :
    ∃ s, Reaches reconnectStep ClearsCleanly .init lossAndReturn s ∧ s.pc = .waitFlag ∧ s.client = .connecting ∧
      NotStuck s := by
  have ran : execute (guarded reconnectStep ClearsCleanly) .init lossAndReturn =
      some ⟨.waitFlag, .disconnected, false, .connecting, none⟩ := by decide
  have reach := reaches_of_execute .start ran
  exact ⟨_, reach, rfl, rfl, reconnect_notStuck reach⟩

/-- The connection is lost, and the task clears the flag after the callback has stored
the status and before it stores the flag. The next attempt then counts as answered
before it is, and the one after that meets the connection that came of it. -/
theorem reconnect_stuck : ∃ labels s, Reaches reconnectStep (fun _ _ => True) .init labels s ∧
    s.pc = .retrySleep ∧ s.client = .connected ∧ ¬ NotStuck s := by
  let step := ReconnectLabel.task true
  let connects := [step, step, step, .accept, .store, .store, step, step, step, step, step, step]
  let loses := [.drop .disconnected, .store, step, step, step, step, .store]
  let retries := [step, step, step, step, step, .accept, .store, .store, step, step]
  have ran : execute (guarded reconnectStep fun _ _ => True) .init (connects ++ loses ++ retries) =
      some ⟨.retrySleep, .accepted, true, .connected, none⟩ := by decide
  refine ⟨_, _, reaches_of_execute .start ran, rfl, rfl, fun notStuck => ?_⟩
  exact absurd (notStuck.retry (Or.inr rfl)) (by decide)

end Maglev
