import Maglev.Mqtt.Safety

namespace Maglev

/-- The client has asked for a connection, and the timer has come so often since. -/
structure AwaitsConnack (client : MqttClient) (ticks : Nat) : Prop where
  state : client.connState = .mqttConnecting
  callback : client.connectCb = true
  timer : client.timer = true
  counted : client.cyclicTick.toNat = ticks
  inTime : ticks * mqttCyclicTimerInterval < mqttConnectTimout

/-- The user has been told what has become of the attempt, or has given it up. -/
def Concluded (outs : List ClientOutput) : Prop :=
  (∃ status, .call (.connection status) ∈ outs) ∨ .disconnectReturns ∈ outs

theorem Concluded.mono {outs more : List ClientOutput} (concluded : Concluded outs) (among : outs ⊆ more) :
    Concluded more :=
  concluded.imp (fun ⟨status, told⟩ => ⟨status, among told⟩) fun ended => among ended

theorem not_concluded_nil : ¬ Concluded [] := by simp [Concluded]

/-- Whatever takes the client out of its waiting is told. -/
theorem Follows.told {client client' : MqttClient} {calls : List MqttCall}
    (follows : Follows client calls client') (heard : Heard client) (connecting : client.state = .connecting)
    (left : client'.state ≠ .connecting) : Concluded (calls.map .call) := by
  cases told : calls.filterMap MqttCall.status? with
  | nil =>
    have followed := follows.order heard
    rw [notifiedAll_silent _ told, connecting] at followed
    exact absurd (Option.some.inj followed).symm left
  | cons status rest =>
    have member : status ∈ calls.filterMap MqttCall.status? := told ▸ List.mem_cons_self
    obtain ⟨call, made, tells⟩ := List.mem_filterMap.mp member
    cases call with
    | connection status => exact Or.inl ⟨status, List.mem_map_of_mem made⟩
    | inpub | request => cases tells

theorem Follows.concludes {client client' : MqttClient} {calls : List MqttCall} {ticks : Nat}
    (follows : Follows client calls client') (waiting : AwaitsConnack client ticks) :
    AwaitsConnack client' ticks ∨ Concluded (calls.map .call) := by
  by_cases waits : client'.state = .connecting
  · obtain ⟨state, counted⟩ := follows.waits waits
    obtain ⟨tick, timer⟩ := counted waiting.state
    exact Or.inl ⟨state.trans waiting.state, follows.callback.trans waiting.callback, timer.trans waiting.timer,
      tick ▸ waiting.counted, waiting.inTime⟩
  · exact Or.inr (follows.told (fun _ => waiting.callback) (by rw [MqttClient.state, waiting.state]) waits)

theorem ClientStep.concludes {client client' : MqttClient} {input : ClientInput} {outs : List ClientOutput}
    {ticks : Nat} (step : ClientStep client input outs client') (waiting : AwaitsConnack client ticks) :
    AwaitsConnack client' (ticks + if input.isTick then 1 else 0) ∨ Concluded outs := by
  have inTime := waiting.inTime
  rw [mqttCyclicTimerInterval, mqttConnectTimout] at inTime
  have next : (client.cyclicTick + 1#16).toNat = ticks + 1 := by
    rw [BitVec.toNat_add, waiting.counted]
    exact Nat.mod_eq_of_lt (show ticks + 1 < 2 ^ 16 by omega)
  cases step with
  | attempt disconnected | disconnected disconnected => exact absurd (waiting.state.symm.trans disconnected) (by decide)
  | isconn => exact Or.inl waiting
  | publish follows | subUnsub follows =>
    exact Or.inl ((follows.concludes waiting).resolve_right not_concluded_nil)
  | disconnect => exact Or.inr (Or.inr List.mem_cons_self)
  | opens connecting => exact absurd (waiting.state.symm.trans connecting) (by decide)
  | counts _ below => exact Or.inl ⟨waiting.state, waiting.callback, rfl, next, next ▸ below⟩
  | timesOut _ does closed =>
    refine Or.inr (does.told (fun _ => waiting.callback) (by rw [MqttClient.state, waiting.state]) ?_)
    rw [MqttClient.state, closed]
    decide
  | reacts _ other reacts =>
    obtain ⟨packets, -, does⟩ := reacts
    have noTick : input.isTick = false := by
      cases input with
      | tick => exact absurd waiting.state (other rfl waiting.timer)
      | _ => rfl
    rw [noTick]
    exact does.concludes waiting

/-- By induction on the inputs: every tick brings the end nearer. -/
theorem AwaitsConnack.concludes {client client' : MqttClient} {ticks : Nat} {inputs : List ClientInput}
    {outs : List ClientOutput} (waiting : AwaitsConnack client ticks)
    (late : mqttConnectTimout ≤ (ticks + inputs.countP ClientInput.isTick) * mqttCyclicTimerInterval)
    (ran : clientMachine.run client inputs = some (client', outs)) : Concluded outs := by
  induction inputs generalizing client ticks outs with
  | nil => exact absurd waiting.inTime (Nat.not_lt.mpr late)
  | cons input inputs ih =>
    obtain ⟨between, first, more, stepped, finished, rfl⟩ := clientMachine.run_cons_eq_some ran
    rcases (clientMachine_step stepped).concludes waiting with still | concluded
    · rw [List.countP_cons, Nat.add_comm (List.countP _ _), ← Nat.add_assoc] at late
      exact (ih still late finished).mono (List.subset_append_right first more)
    · exact concluded.mono (List.subset_append_left first more)

/-- Once the TCP connection is up, the user hears what has become of the attempt within the
connect timeout, or gives it up, whatever the server, the TCP layer and the user do in the
meantime short of a hazard. -/
theorem clientMachine_concludes {client : MqttClient} {inputs : List ClientInput} (safe : Safe client)
    (connecting : client.connState = .tcpConnecting) (callback : client.connectCb = true)
    (admissible : clientMachine.Along Admissible client (.connected .ok :: inputs))
    (late : mqttConnectTimout ≤ inputs.countP ClientInput.isTick * mqttCyclicTimerInterval) :
    ∃ client' outs, clientMachine.run client (.connected .ok :: inputs) = some (client', outs) ∧ Concluded outs := by
  obtain ⟨client', outs, ran, -⟩ :=
    clientMachine.run_total (fun _ _ safe admissible => Safe.step safe admissible) safe admissible
  refine ⟨client', outs, ran, ?_⟩
  obtain ⟨between, first, more, stepped, finished, rfl⟩ := clientMachine.run_cons_eq_some ran
  rcases whenEnabled_cases stepped with ⟨-, calls, opened, rfl⟩ | ⟨off, -, -⟩
  · obtain ⟨final, sent, same⟩ := Option.map_eq_some_iff.mp opened
    cases same
    have asked : AwaitsConnack
        { client with msgIdx := 0, connState := .mqttConnecting, timer := true, cyclicTick := 0#16 } 0 :=
      ⟨rfl, callback, rfl, rfl, by decide⟩
    have waiting := ((MqttClient.send_does sent).toFollows.concludes asked).resolve_right not_concluded_nil
    exact waiting.concludes (by rwa [Nat.zero_add]) finished
  · exact absurd connecting (of_decide_eq_false off)

/-- Nothing but the timer happens. -/
theorem clientMachine_concludes_silence : ∃ client outs,
    clientMachine.run { setUpClient with connState := .tcpConnecting, connectCb := true }
      (.connected .ok :: List.replicate 20 .tick) = some (client, outs) ∧ Concluded outs := by
  obtain ⟨pending, lost, accounted, -⟩ := represents_initial
  have alive : Alive { setUpClient with connState := .tcpConnecting, connectCb := true } :=
    ⟨ConnState.noConfusion, rfl, pending, accounted.queued⟩
  have unframed : ¬ (ConnState.tcpConnecting = .mqttConnecting ∨ ConnState.tcpConnecting = .mqttConnected) := by decide
  exact clientMachine_concludes (alive.safe fun listening => absurd listening unframed) rfl rfl (by decide +kernel)
    (by decide)

end Maglev
