import Maglev.Mqtt.Machine
import Maglev.Mqtt.Sending

namespace Maglev

open MqttFormat

theorem mqttClose_closed {client client' : MqttClient} {reason : Nat} {calls : List MqttCall}
    (closed : mqttClose client reason = some (client', calls)) :
    client'.conn = none ∧ client'.connState = .tcpDisconnected := by
  obtain ⟨requests, -, rest⟩ := Option.bind_eq_some_iff.mp closed
  dsimp only at rest
  split at rest
  case isTrue =>
    cases rest
    exact ⟨rfl, rfl⟩
  case isFalse disconnected =>
    cases rest
    exact ⟨rfl, not_not.mp disconnected⟩

/-- A connection that has failed is closed like any other. -/
theorem mqttTcpErrCb_reacts {client client' : MqttClient} {calls : List MqttCall}
    (failed : mqttTcpErrCb client = some (client', calls)) : Reacts client calls client' := by
  have does := mqttClose_does (by decide) failed
  exact Does.reacts ⟨⟨does.callback, does.order, does.waits⟩, Or.inl (mqttClose_closed failed).1⟩

theorem mqttTcpRecvCb_reacts {client client' : MqttClient} {p : Option (List Byte)} {err : Err}
    {calls : List MqttCall} (received : mqttTcpRecvCb client p err = some (client', calls)) :
    Reacts client calls client' := by
  cases p with
  | none => exact (mqttClose_does (by decide) received).reacts
  | some p =>
    rw [mqttTcpRecvCb] at received
    dsimp only at received
    split at received
    case isTrue =>
      cases received
      exact (does_same client).reacts
    case isFalse =>
      obtain ⟨⟨parsed, first, res⟩, parse, rest⟩ := Option.bind_eq_some_iff.mp received
      obtain ⟨⟨ended, closed⟩, finish, same⟩ := Option.bind_eq_some_iff.mp rest
      have now : Reacts client first parsed := reacts_rule.parse parse
      have later : Reacts parsed closed ended := (closeWhen_does id finish).reacts
      have watched : Reacts ended [] client' := by
        simp only [Option.some.injEq, Prod.mk.injEq] at same
        rw [← same.1]
        split
        · exact SameConnection.reacts ⟨rfl, rfl, rfl, rfl, rfl, rfl⟩ rfl
        · exact (does_same ended).reacts
      simp only [Option.some.injEq, Prod.mk.injEq] at same
      have all := (now.trans later).trans watched
      rwa [List.append_nil, same.2] at all

theorem mqttTcpSentCb_reacts {client client' : MqttClient} {calls : List MqttCall}
    (sent : mqttTcpSentCb client = some (client', calls)) : Reacts client calls client' := by
  unfold mqttTcpSentCb at sent
  split at sent
  case isFalse =>
    cases sent
    exact (does_same client).reacts
  case isTrue connected =>
    obtain ⟨⟨requests, completed⟩, -, rest⟩ := Option.bind_eq_some_iff.mp sent
    obtain ⟨final, written, same⟩ := Option.bind_eq_some_iff.mp rest
    cases same
    have idle : client.connState ≠ .mqttConnecting := by
      rw [connected]
      decide
    have first : Does client (completed.map .request) []
        { client with cyclicTick := 0#16, serverWatchdog := 0#16, requests } :=
      does_of_idle (requests_silent _) idle rfl rfl (.of_same rfl rfl)
    have both := (first.trans (MqttClient.send_does written)).reacts
    rwa [List.append_nil] at both

theorem mqttTcpPollCb_reacts {client client' : MqttClient} {calls : List MqttCall}
    (polled : mqttTcpPollCb client = some (client', calls)) : Reacts client calls client' := by
  unfold mqttTcpPollCb at polled
  split at polled
  · obtain ⟨final, written, same⟩ := Option.map_eq_some_iff.mp polled
    cases same
    exact (MqttClient.send_does written).reacts
  · cases polled
    exact (does_same client).reacts

/-- Anything may be counted while the client does not wait for the answer to its
connection request. -/
theorem reacts_of_idle {client client' : MqttClient} {calls : List MqttCall}
    (silent : calls.filterMap MqttCall.status? = []) (idle : client.connState ≠ .mqttConnecting)
    (state : client'.connState = client.connState) (callback : client'.connectCb = client.connectCb)
    (output : client'.output = client.output) (conn : client'.conn = client.conn) : Reacts client calls client' :=
  (does_of_idle silent idle state callback (.of_same output conn)).reacts

theorem reacts_timer {client : MqttClient} (idle : client.connState ≠ .mqttConnecting) (timer : Bool) :
    Reacts client [] { client with timer } := reacts_of_idle rfl idle rfl rfl rfl rfl

theorem pingWhenIdle_reacts {client : MqttClient} (idle : client.connState ≠ .mqttConnecting) :
    Reacts client [] (pingWhenIdle client) := by
  have small : pingreqPacket.body.length < 2 ^ 16 - 4 := by decide
  have output := mqttOutputAppendFixedHeader_eq client.output MqttMessageType.pingreq.code 0#8 0#8 0#8 0#16
  unfold pingWhenIdle
  split
  · split
    · rename_i space
      refine ⟨[pingreqPacket], List.forall_mem_singleton.mpr .pingreq, ?_⟩
      exact does_of_idle rfl idle rfl rfl (appended_packet small space output rfl)
    · exact (does_same client).reacts
  · exact reacts_of_idle rfl idle rfl rfl rfl rfl

theorem pingWhenIdle_state (client : MqttClient) : (pingWhenIdle client).connState = client.connState := by
  unfold pingWhenIdle
  split_ifs <;> rfl

/-- The timer of a client that does not wait for the answer to its connection request. -/
theorem mqttCyclicTimer_reacts {client client' : MqttClient} {calls : List MqttCall}
    (idle : client.connState ≠ .mqttConnecting) (ticked : mqttCyclicTimer client = some (client', calls)) :
    Reacts client calls client' := by
  unfold mqttCyclicTimer at ticked
  dsimp only at ticked
  split at ticked
  case h_1 waiting => exact absurd waiting idle
  case h_3 =>
    cases ticked
    exact reacts_of_idle rfl idle rfl rfl rfl rfl
  case h_2 connected =>
    obtain ⟨⟨requests, expired⟩, -, rest⟩ := Option.bind_eq_some_iff.mp ticked
    dsimp only at rest
    split at rest
    case isFalse =>
      cases rest
      exact reacts_of_idle (requests_silent _) idle rfl rfl rfl rfl
    case isTrue =>
      obtain ⟨⟨ended, closed⟩, finish, same⟩ := Option.bind_eq_some_iff.mp rest
      cases same
      have watched : Reacts client (expired.map .request)
          { client with requests, timer := false, serverWatchdog := client.serverWatchdog + 1#16 } :=
        reacts_of_idle (requests_silent _) idle rfl rfl rfl rfl
      have closes := closeWhen_does (fun _ => by decide) finish
      have idle' : ended.connState ≠ .mqttConnecting := by
        intro waiting
        have same := (closes.waits (by rw [MqttClient.state, waiting])).1
        exact idle (same.symm.trans waiting)
      have pinged := (watched.trans closes.reacts).trans (pingWhenIdle_reacts idle')
      rw [← pingWhenIdle_state] at idle'
      have all (timer : Bool) := pinged.trans (reacts_timer idle' timer)
      simp only [List.append_nil] at all
      exact all _

/-- While the client waits for the answer to its connection request, the timer counts, and
closes the connection in the end. -/
theorem mqttCyclicTimer_waiting {client client' : MqttClient} {calls : List MqttCall}
    (waiting : client.connState = .mqttConnecting) (ticked : mqttCyclicTimer client = some (client', calls)) :
    let counted := { client with cyclicTick := client.cyclicTick + 1#16, timer := false }
    if (client.cyclicTick + 1#16).toNat * mqttCyclicTimerInterval ≥ mqttConnectTimout then
      Does counted calls [] client' ∧ client'.connState = .tcpDisconnected
    else client' = { counted with timer := true } ∧ calls = [] := by
  intro counted
  unfold mqttCyclicTimer at ticked
  dsimp only at ticked
  split at ticked
  case h_2 connected => exact absurd (waiting.symm.trans connected) (by decide)
  case h_3 other _ => exact absurd waiting other
  case h_1 =>
    split at ticked
    case isTrue late =>
      rw [if_pos late]
      exact ⟨mqttClose_does (by decide) ticked, (mqttClose_closed ticked).2⟩
    case isFalse counting =>
      rw [if_neg counting]
      cases ticked
      exact ⟨rfl, rfl⟩

/-- The length of the packet of a call behind its fixed header. -/
def ClientInput.remaining : ClientInput → Nat
  | .connect info _ => connectLength info
  | .publish topic payload qos _ _ => 2 + topic.bytes.length + payload.length + if qos ≠ 0#8 then 2 else 0
  | .subUnsub topic _ _ sub => topic.bytes.length + 2 + 2 + if sub then 1 else 0
  | _ => 0

/-- The calls whose packets the client can count: up to four bytes go before the length, and
`mqtt_output_check_space` adds them up in 16 bits. -/
def ClientInput.Small (input : ClientInput) : Prop := input.remaining < 2 ^ 16 - 4

instance (input : ClientInput) : Decidable input.Small := inferInstanceAs (Decidable (_ < _))

-- A longer packet wraps the sum, and passes for one that fits.
example : mqttOutputCheckSpace ⟨0#16, 0#16, fun _ => 0#8⟩ 0xffff#16 = true := by decide

/-- The calls of the user that have to do with the connection. -/
def ClientInput.asks : ClientInput → Bool
  | .connect .. | .publish .. | .subUnsub .. | .disconnect => true
  | _ => false

/-- What a step of the client can do. -/
inductive ClientStep (client : MqttClient) : ClientInput → List ClientOutput → MqttClient → Prop
  | attempt {info attempt err client'} : client.connState = .tcpDisconnected → Attempted client info true err client' →
      ClientStep client (.connect info attempt) [.connectReturns err] client'
  | isconn {info attempt} : client.connState ≠ .tcpDisconnected →
      ClientStep client (.connect info attempt) [.connectReturns .isconn] client
  | publish {topic payload qos retain cb err client'} : Follows client [] client' →
      ((ClientInput.publish topic payload qos retain cb).Small →
        ∃ packet, publishPacket client topic payload qos retain = some packet ∧ Accepts client packet err client') →
      ClientStep client (.publish topic payload qos retain cb) [.publishReturns err] client'
  | subUnsub {topic qos cb sub err client'} : Follows client [] client' →
      ((ClientInput.subUnsub topic qos cb sub).Small →
        ∃ packet, subUnsubPacket client topic qos sub = some packet ∧ Accepts client packet err client') →
      ClientStep client (.subUnsub topic qos cb sub) [.subUnsubReturns err] client'
  | disconnect {client'} : client'.conn = none → client'.connState = .tcpDisconnected →
      ClientStep client .disconnect [.disconnectReturns] client'
  | disconnected : client.connState = .tcpDisconnected → ClientStep client .disconnect [.disconnectReturns] client
  | opens {client'} : client.connState = .tcpConnecting →
      Does { client with msgIdx := 0, connState := .mqttConnecting, timer := true, cyclicTick := 0#16 } [] [] client' →
      ClientStep client (.connected .ok) [] client'
  | counts : client.connState = .mqttConnecting →
      (client.cyclicTick + 1#16).toNat * mqttCyclicTimerInterval < mqttConnectTimout →
      ClientStep client .tick [] { client with cyclicTick := client.cyclicTick + 1#16, timer := true }
  | timesOut {calls client'} : client.connState = .mqttConnecting →
      Does { client with cyclicTick := client.cyclicTick + 1#16, timer := false } calls [] client' →
      client'.connState = .tcpDisconnected → ClientStep client .tick (calls.map .call) client'
  | reacts {input calls client'} : input.asks = false →
      (input = .tick → client.timer = true → client.connState ≠ .mqttConnecting) → Reacts client calls client' →
      ClientStep client input (calls.map .call) client'

theorem ClientStep.silent {client client' : MqttClient} {input : ClientInput} (passive : input.asks = false)
    (timed : input = .tick → client.timer = true → client.connState ≠ .mqttConnecting)
    (reacts : Reacts client [] client') : ClientStep client input [] client' := .reacts passive timed reacts

theorem whenEnabled_cases {enabled : Bool} {client client' : MqttClient} {result : MqttResult}
    {outs : List ClientOutput} (stepped : whenEnabled enabled client result = some (client', outs)) :
    (enabled = true ∧ ∃ calls, result = some (client', calls) ∧ outs = calls.map .call) ∨
      (enabled = false ∧ client' = client ∧ outs = []) := by
  unfold whenEnabled at stepped
  cases enabled with
  | true =>
    obtain ⟨⟨final, calls⟩, ran, same⟩ := Option.map_eq_some_iff.mp stepped
    cases same
    exact Or.inl ⟨rfl, calls, ran, rfl⟩
  | false =>
    cases stepped
    exact Or.inr ⟨rfl, rfl, rfl⟩

/-- The callbacks of the TCP layer, but for the one that opens the connection. -/
theorem clientStep_whenEnabled {enabled : Bool} {client client' : MqttClient} {result : MqttResult}
    {input : ClientInput} {outs : List ClientOutput} (passive : input.asks = false)
    (timed : input = .tick → client.timer = true → client.connState ≠ .mqttConnecting)
    (reacts : ∀ calls, enabled = true → result = some (client', calls) → Reacts client calls client')
    (stepped : whenEnabled enabled client result = some (client', outs)) : ClientStep client input outs client' := by
  rcases whenEnabled_cases stepped with ⟨on, calls, ran, rfl⟩ | ⟨off, rfl, rfl⟩
  · exact .reacts passive timed (reacts calls on ran)
  · exact .silent passive timed (does_same client').reacts

theorem clientStep_tick {client client' : MqttClient} {outs : List ClientOutput}
    (stepped : whenEnabled client.timer client (mqttCyclicTimer client) = some (client', outs)) :
    ClientStep client .tick outs client' := by
  by_cases waiting : client.connState = .mqttConnecting
  · rcases whenEnabled_cases stepped with ⟨on, calls, ran, rfl⟩ | ⟨off, rfl, rfl⟩
    · have ticked := mqttCyclicTimer_waiting waiting ran
      dsimp only at ticked
      split at ticked
      · exact .timesOut waiting ticked.1 ticked.2
      · rename_i counting
        obtain ⟨rfl, rfl⟩ := ticked
        exact .counts waiting (Nat.not_le.mp counting)
    · refine .silent rfl (fun _ on => ?_) (does_same client').reacts
      rw [on] at off
      cases off
  · exact clientStep_whenEnabled rfl (fun _ _ => waiting)
      (fun calls _ ran => mqttCyclicTimer_reacts waiting ran) stepped

theorem clientStep_disconnect {client client' : MqttClient} {calls : List MqttCall}
    (disconnected : mqttDisconnect client = some (client', calls)) :
    ClientStep client .disconnect (calls.map .call ++ [.disconnectReturns]) client' := by
  unfold mqttDisconnect at disconnected
  split at disconnected
  case isTrue =>
    obtain ⟨conn, state⟩ := mqttClose_closed disconnected
    obtain ⟨requests, -, rest⟩ := Option.bind_eq_some_iff.mp disconnected
    -- the state is set first so that the callback is not called
    cases rest
    exact .disconnect conn state
  case isFalse closed =>
    cases disconnected
    exact .disconnected (not_not.mp closed)

theorem clientMachine_step {client client' : MqttClient} {input : ClientInput} {outs : List ClientOutput}
    (stepped : clientMachine.step client input = some (client', outs)) :
    ClientStep client input outs client' := by
  cases input with
  | connect info attempt =>
    obtain ⟨⟨final, err⟩, ran, same⟩ := Option.map_eq_some_iff.mp stepped
    cases same
    by_cases disconnected : client.connState = .tcpDisconnected
    · exact .attempt disconnected (mqttClientConnect_attempted disconnected ran)
    · rw [mqttClientConnect, if_pos disconnected] at ran
      cases ran
      exact .isconn disconnected
  | publish topic payload qos retain cb =>
    obtain ⟨⟨final, err⟩, ran, same⟩ := Option.map_eq_some_iff.mp stepped
    cases same
    exact .publish (mqttPublish_follows ran) fun small => mqttPublish_accepts small ran
  | subUnsub topic qos cb sub =>
    obtain ⟨⟨final, err⟩, ran, same⟩ := Option.map_eq_some_iff.mp stepped
    cases same
    exact .subUnsub (mqttSubUnsub_follows ran) fun small => mqttSubUnsub_accepts small ran
  | setInpub pubCb dataCb =>
    cases stepped
    exact .silent rfl (by simp) (SameConnection.reacts ⟨rfl, rfl, rfl, rfl, rfl, rfl⟩ rfl)
  | disconnect =>
    obtain ⟨⟨final, calls⟩, ran, same⟩ := Option.map_eq_some_iff.mp stepped
    cases same
    exact clientStep_disconnect ran
  | connected err =>
    by_cases ok : err = .ok
    · subst ok
      rcases whenEnabled_cases stepped with ⟨on, calls, ran, rfl⟩ | ⟨off, rfl, rfl⟩
      · obtain ⟨final, sent, same⟩ := Option.map_eq_some_iff.mp ran
        cases same
        exact .opens (of_decide_eq_true on) (MqttClient.send_does sent)
      · exact .silent rfl (by simp) (does_same client').reacts
    · refine clientStep_whenEnabled rfl (by simp) (fun calls _ ran => ?_) stepped
      rw [mqttTcpConnectCb, if_pos ok] at ran
      cases ran
      exact (does_same client).reacts
  | received p err => exact clientStep_whenEnabled rfl (by simp) (fun _ _ => mqttTcpRecvCb_reacts) stepped
  | sent => exact clientStep_whenEnabled rfl (by simp) (fun _ _ => mqttTcpSentCb_reacts) stepped
  | polled => exact clientStep_whenEnabled rfl (by simp) (fun _ _ => mqttTcpPollCb_reacts) stepped
  | failed => exact clientStep_whenEnabled rfl (by simp) (fun _ _ => mqttTcpErrCb_reacts) stepped
  | tick => exact clientStep_tick stepped
  | window sndBuf refusals =>
    cases stepped
    have same : Appended client []
        { client with conn := client.conn.map fun pcb => { pcb with sndBuf, refusals } } := by
      refine ⟨id, ?_⟩
      simp [MqttClient.stream, outputStream, Function.comp_def]
    exact .silent rfl (by simp) ⟨[], List.forall_mem_nil _, does_of_appended rfl rfl rfl rfl rfl same⟩

/-- What is told of the connection: that an attempt has begun, that the user has closed it,
and the statuses in between. -/
inductive ConnEvent
  | started
  | ended
  | told (status : Nat)

def ClientOutput.event? : ClientOutput → Option ConnEvent
  | .connectReturns .ok => some .started
  | .disconnectReturns => some .ended
  | .call (.connection status) => some (.told status)
  | _ => none

/-- The order in which it is told. -/
def connStep : ClientState → ConnEvent → Option ClientState
  | .disconnected, .started => some .connecting
  | _, .started => none
  | _, .ended => some .disconnected
  | state, .told status => notified state status

def connRun (state : ClientState) (outs : List ClientOutput) : Option ClientState :=
  (outs.filterMap ClientOutput.event?).foldlM connStep state

theorem connRun_append (state : ClientState) (first rest : List ClientOutput) :
    connRun state (first ++ rest) = (connRun state first).bind (connRun · rest) := by
  simp [connRun, List.filterMap_append, List.foldlM_append]

theorem connRun_calls (state : ClientState) (calls : List MqttCall) :
    connRun state (calls.map .call) = notifiedAll state calls := by
  have events : (calls.map ClientOutput.call).filterMap ClientOutput.event? =
      (calls.filterMap MqttCall.status?).map .told := by
    rw [List.filterMap_map, List.map_filterMap]
    congr 1
    funext call
    cases call <;> rfl
  rw [connRun, notifiedAll, events, List.foldlM_map]
  congr 1
  funext state status
  cases state <;> rfl

/-- What is told in a step is in order, and leads to the state of the client. -/
def Tells (client : MqttClient) (outs : List ClientOutput) (client' : MqttClient) : Prop :=
  Heard client → connRun client.state outs = some client'.state ∧ Heard client'

theorem Follows.tells {client client' : MqttClient} {calls : List MqttCall}
    (follows : Follows client calls client') : Tells client (calls.map .call) client' := by
  intro heard
  rw [connRun_calls]
  exact ⟨follows.order heard, follows.heard heard⟩

/-- The result of a function is no event of the connection. -/
theorem Follows.tells_result {client client' : MqttClient} {out : ClientOutput} (follows : Follows client [] client')
    (silent : out.event? = none) : Tells client [out] client' := by
  have nothing (state : ClientState) : connRun state [out] = some state := by
    rw [connRun, List.filterMap_cons_none silent]
    rfl
  intro heard
  rw [nothing]
  exact follows.tells heard

theorem Attempted.tells {client client' : MqttClient} {info : MqttConnectClientInfo} {err : Err}
    (attempted : Attempted client info true err client') (disconnected : client.connState = .tcpDisconnected) :
    Tells client [.connectReturns err] client' := by
  intro _
  rw [MqttClient.state_eq_disconnected.mpr disconnected]
  cases attempted with
  | started => exact ⟨rfl, fun _ => rfl⟩
  | failed failure =>
    refine ⟨?_, fun connected => absurd rfl connected⟩
    cases err with
    | ok => exact absurd rfl failure
    | _ => rfl

theorem ClientStep.tells {client client' : MqttClient} {input : ClientInput} {outs : List ClientOutput}
    (step : ClientStep client input outs client') : Tells client outs client' := by
  cases step with
  | attempt disconnected attempted => exact attempted.tells disconnected
  | isconn connected => exact fun heard => ⟨rfl, heard⟩
  | publish follows | subUnsub follows => exact follows.tells_result rfl
  | disconnect _ closed =>
    intro _
    rw [MqttClient.state_eq_disconnected.mpr closed]
    refine ⟨?_, fun connected => absurd closed connected⟩
    cases client.state <;> rfl
  | disconnected closed =>
    intro heard
    rw [MqttClient.state_eq_disconnected.mpr closed]
    exact ⟨rfl, heard⟩
  | opens connecting does =>
    intro heard
    have told := does.tells fun _ => heard (by rw [connecting]; decide)
    refine ⟨?_, told.2⟩
    rw [MqttClient.state, connecting]
    exact told.1
  | counts waiting _ =>
    exact fun heard => ⟨rfl, heard⟩
  | timesOut waiting does _ => exact does.tells
  | reacts _ _ reacts =>
    obtain ⟨packets, -, does⟩ := reacts
    exact does.tells

/-- In every run of the client the user is told of the connection in order. An attempt is
answered once, an accepted connection is reported lost once, nothing is told in between or
after the end, and what has been told is what the state is. -/
theorem clientMachine_tells {client client' : MqttClient} {inputs : List ClientInput} {outs : List ClientOutput}
    (heard : Heard client) (ran : clientMachine.run client inputs = some (client', outs)) :
    connRun client.state outs = some client'.state := by
  have tells : Tells client outs client' := by
    refine clientMachine.run_relation ?_ (fun _ _ _ _ _ stepped => (clientMachine_step stepped).tells) ?_
      (fun _ _ => trivial) ran
    · exact fun s heard => ⟨rfl, heard⟩
    · intro a b c out more now later heard
      obtain ⟨first, heard'⟩ := now heard
      rw [connRun_append, first]
      exact later heard'
  exact (tells heard).1

/-- Connects, is accepted by the server, and loses the connection. -/
def lostConnection : List ClientInput :=
  [.connect ⟨.ofBytes [], 0#16, none, 0#8, false⟩ (.started 100 []), .connected .ok,
    .received (some [0x20#8, 2#8, 0#8, 0#8]) .ok, .failed]

theorem clientMachine_tells_lostConnection : ∃ client outs,
    clientMachine.run (MqttClient.zero false) lostConnection = some (client, outs) ∧
      connRun .disconnected outs = some client.state := by
  have runs : (clientMachine.run (MqttClient.zero false) lostConnection).isSome = true := by decide +kernel
  obtain ⟨⟨client, outs⟩, ran⟩ := Option.isSome_iff_exists.mp runs
  exact ⟨client, outs, ran, clientMachine_tells (fun connected => absurd rfl connected) ran⟩

end Maglev
