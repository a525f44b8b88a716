import Maglev.Mqtt.Connection
import Maglev.Mqtt.Incoming

namespace Maglev

/-- A queue that the loops get through. Not every other request has to be unused: a
subscription that is answered without a result keeps its request for good. -/
def Sane (q : RequestQueue) : Prop := ∃ pending, Queued q pending

theorem Sane.create {q q' : RequestQueue} (sane : Sane q) {pktId : BitVec 16} {cb : Option Nat} {r : RequestPtr}
    (created : mqttCreateRequest q pktId cb = some (r, q')) :
    (∃ q'', mqttAppendRequest q' r = some q'' ∧ Sane q'') ∧ Sane (mqttDeleteRequest q' r) := by
  obtain ⟨pending, queued⟩ := sane
  obtain ⟨-, other, rfl, queued'⟩ := mqttCreateRequest_queued queued created
  have ends : (q.set r { q.reqList r with next := none, cb, pktId }).next r = none := by
    rw [RequestQueue.set_next, Function.update_self]
  obtain ⟨q'', appended, longer, -, -⟩ := mqttAppendRequest_queued queued' other ends
  exact ⟨⟨q'', appended, _, longer⟩, _, queued'.set other _⟩

/-- A request is taken out, and may be given back. -/
theorem Sane.take {q : RequestQueue} (sane : Sane q) (pktId : BitVec 16) :
    ∃ q' taken, mqttTakeRequest q pktId = some (q', taken) ∧ Sane q' ∧
      ∀ r, taken = some r → Sane (mqttDeleteRequest q' r) := by
  obtain ⟨pending, queued⟩ := sane
  rcases queued.take pktId with ⟨-, taken⟩ | ⟨before, r, time, after, q', rfl, -, -, taken, kept, apart⟩
  · exact ⟨q, none, taken, ⟨pending, queued⟩, by simp⟩
  · refine ⟨q', some r, taken, ⟨_, kept.queued⟩, ?_⟩
    rintro r ⟨⟩
    exact ⟨_, kept.queued.set apart _⟩

/-- By induction on the fuel, which is more than there are requests. -/
theorem Queued.complete {fuel : Nat} {q : RequestQueue} {pending : List (RequestPtr × Nat)} (queued : Queued q pending)
    (enough : pending.length < fuel) : ∃ q' calls, completeUnanswered q fuel = some (q', calls) ∧ Sane q' := by
  induction fuel generalizing q pending with
  | zero => exact absurd enough (Nat.not_lt_zero _)
  | succ fuel ih =>
    rcases queued.take 0#16 with ⟨-, taken⟩ | ⟨before, r, time, after, q', rfl, -, -, taken, kept, apart⟩
    · exact ⟨q, [], by rw [completeUnanswered, taken]; rfl, pending, queued⟩
    · have deleted : Queued (mqttDeleteRequest q' r) (before ++ after) := kept.queued.set apart _
      obtain ⟨q'', calls, completed, sane⟩ := ih deleted (by simp at enough ⊢; omega)
      refine ⟨q'', (q'.reqList r).call .ok ++ calls, ?_, sane⟩
      rw [completeUnanswered, taken]
      simp only [Option.bind_eq_bind, Option.bind_some, completed]

theorem Sane.complete {q : RequestQueue} (sane : Sane q) :
    ∃ q' calls, completeUnanswered q (mqttReqMaxInFlight + 1) = some (q', calls) ∧ Sane q' := by
  obtain ⟨pending, queued⟩ := sane
  exact queued.complete (Nat.lt_succ_of_le queued.length_le)

theorem Sane.elapse {q : RequestQueue} (sane : Sane q) :
    ∃ q' calls, mqttRequestTimeElapsed q mqttReqMaxInFlight (BitVec.ofNat 8 mqttCyclicTimerInterval) = some (q', calls) ∧
      Sane q' := by
  obtain ⟨pending, queued⟩ := sane
  obtain ⟨q', calls, ran, elapsed⟩ := mqttRequestTimeElapsed_elapsed queued
    (show 0 < (BitVec.ofNat 8 mqttCyclicTimerInterval).toNat by decide) queued.length_le
  exact ⟨q', calls, ran, _, elapsed.queued⟩

theorem Sane.clear {q : RequestQueue} (sane : Sane q) : ∃ q', mqttClearRequests q = some q' := by
  obtain ⟨pending, queued⟩ := sane
  have few : (pending.map Prod.fst).length ≤ mqttReqMaxInFlight := by
    rw [List.length_map]
    exact queued.length_le
  obtain ⟨q', ran, -, -⟩ := clearFrom_eq queued.linked queued.distinct few
  exact ⟨q', ran⟩

/-- What the functions of an open connection rely on. -/
structure Alive (client : MqttClient) : Prop where
  opened : client.connState ≠ .tcpDisconnected
  conn : client.conn.isSome = true
  requests : Sane client.requests

/-- An incoming publish does no harm once the callbacks are set, unless its topic claims a
length for which the sum with the two bytes of the length wraps around. -/
def Tolerable (client : MqttClient) (fixedHdrIdx : Nat) : Prop :=
  client.dataCb = true ∧ (client.msgIdx ≤ mqttVarHeaderBufferLen → client.word fixedHdrIdx < 2 ^ 16 - 2)

instance (client : MqttClient) (fixedHdrIdx : Nat) : Decidable (Tolerable client fixedHdrIdx) :=
  inferInstanceAs (Decidable (_ ∧ _))

theorem announcePublish_total (client : MqttClient) {fixedHdrIdx length : Nat}
    (within : fixedHdrIdx + length ≤ mqttVarHeaderBufferLen) (sum : client.word fixedHdrIdx < 2 ^ 16 - 2 ∨ length = 0)
    (remainingLength : Nat) (qos : Byte) : ∃ announced,
      announcePublish client fixedHdrIdx length remainingLength qos = some announced ∧
        ∀ client' calls offset, announced = some (client', calls, offset) →
          0 < length ∧ client'.dataCb = client.dataCb ∧ client'.connState = client.connState ∧
            client'.conn = client.conn ∧ client'.requests = client.requests := by
  have tail : 0 < topicTail qos := by
    unfold topicTail
    split <;> decide
  simp only [announcePublish]
  split
  · exact ⟨none, rfl, by simp⟩
  · rename_i enough
    have some : 0 < length := by omega
    have short : (2 + client.word fixedHdrIdx) % 2 ^ 16 = 2 + client.word fixedHdrIdx :=
      Nat.mod_eq_of_lt (by omega)
    rw [if_neg (by omega)]
    refine ⟨_, rfl, ?_⟩
    rintro client' calls offset ⟨⟩
    exact ⟨some, rfl, rfl, rfl, rfl⟩

namespace Alive

variable {client : MqttClient}

theorem of_same {client' : MqttClient} (alive : Alive client) (state : client'.connState = client.connState)
    (conn : client'.conn = client.conn) (requests : client'.requests = client.requests) : Alive client' :=
  ⟨state ▸ alive.opened, conn ▸ alive.conn, requests ▸ alive.requests⟩

theorem send (alive : Alive client) : ∃ client', client.send = some client' ∧ Alive client' ∧ SameInput client client' ∧
    client'.connState = client.connState := by
  obtain ⟨pcb, conn⟩ := Option.isSome_iff_exists.mp alive.conn
  exact ⟨_, congrArg (Option.map _) conn, ⟨alive.opened, rfl, alive.requests⟩, ⟨rfl, rfl, rfl⟩, rfl⟩

theorem respond (alive : Alive client) (msg : MqttMessageType) (pktId : BitVec 16) (qos : Byte) :
    ∃ client', pubAckRecRelResponse client msg pktId qos = some client' ∧ Alive client' := by
  unfold pubAckRecRelResponse
  split
  · have put : Alive { client with
        output := mqttOutputAppendU16 (mqttOutputAppendFixedHeader client.output msg.code 0#8 qos 0#8 2#16) pktId } :=
      alive.of_same rfl rfl rfl
    obtain ⟨client', sent, alive', -⟩ := put.send
    exact ⟨client', sent, alive'⟩
  · exact ⟨client, rfl, alive⟩

theorem payload (alive : Alive client) (data : client.dataCb = true)
    (payloadStart payloadLength remainingLength : Nat) (qos : Byte) :
    ∃ client' calls, publishPayload client payloadStart payloadLength remainingLength qos = some (client', calls) ∧
      Alive client' := by
  simp only [publishPayload, data, if_true]
  split
  · split
    · obtain ⟨client', responded, alive'⟩ := alive.respond (publishResponse qos) client.inpubPktId 0#8
      exact ⟨client', _, by rw [responded]; rfl, alive'⟩
    · exact ⟨client, _, rfl, alive⟩
  · exact ⟨client, [], rfl, alive⟩

theorem publish (alive : Alive client) {fixedHdrIdx length : Nat}
    (within : fixedHdrIdx + length ≤ mqttVarHeaderBufferLen)
    (tolerable : Tolerable client fixedHdrIdx ∨ length = 0 ∧ client.msgIdx ≤ mqttVarHeaderBufferLen)
    (remainingLength : Nat) : ∃ client' calls res,
      receivedPublish client fixedHdrIdx length remainingLength = some (client', calls, res) ∧ Alive client' := by
  simp only [receivedPublish]
  split
  · rename_i first
    have sum : client.word fixedHdrIdx < 2 ^ 16 - 2 ∨ length = 0 :=
      tolerable.imp (fun tolerable => tolerable.2 first) And.left
    obtain ⟨announced, came, same⟩ := announcePublish_total client within sum remainingLength (mqttCtlPacketQos (client.rxBuffer 0))
    rw [came, Option.bind_some]
    cases announced with
    | none => exact ⟨client, [], _, rfl, alive⟩
    | some announced =>
      obtain ⟨client₁, calls, offset⟩ := announced
      obtain ⟨nonempty, data, state, conn, requests⟩ := same client₁ calls offset rfl
      have set : client₁.dataCb = true := data.trans (tolerable.resolve_right fun empty => by omega).1
      obtain ⟨client', more, handed, alive'⟩ := (alive.of_same state conn requests).payload set (fixedHdrIdx + offset)
        (length - offset) remainingLength (mqttCtlPacketQos (client.rxBuffer 0))
      exact ⟨client', calls ++ more, _, by simp only [handed]; rfl, alive'⟩
  · rename_i later
    have set : client.dataCb = true := (tolerable.resolve_right fun empty => later empty.2).1
    obtain ⟨client', calls, handed, alive'⟩ := alive.payload set fixedHdrIdx length remainingLength
      (mqttCtlPacketQos (client.rxBuffer 0))
    exact ⟨client', calls, _, by rw [handed]; rfl, alive'⟩

theorem answer (alive : Alive client) (pktType : Byte) (pktId : BitVec 16) (varHdrPayload length : Nat) :
    ∃ client' calls res, receivedAnswer client pktType pktId varHdrPayload length = some (client', calls, res) ∧
      Alive client' := by
  obtain ⟨requests, taken, took, sane, deleted⟩ := alive.requests.take pktId
  rw [receivedAnswer, took]
  cases taken with
  | none => exact ⟨_, _, _, rfl, alive.opened, alive.conn, sane⟩
  | some r =>
    simp only [Option.bind_eq_bind, Option.bind_some]
    split
    · exact ⟨_, _, _, rfl, alive.opened, alive.conn, sane⟩
    · exact ⟨_, _, _, rfl, alive.opened, alive.conn, deleted r rfl⟩

theorem reply (alive : Alive client) (pktType : Byte) (varHdrPayload length : Nat) :
    ∃ client' calls res, receivedReply client pktType varHdrPayload length = some (client', calls, res) ∧
      Alive client' := by
  have responds (msg : MqttMessageType) (pktId : BitVec 16) (qos : Byte) : ∃ client' calls res,
      (pubAckRecRelResponse client msg pktId qos).map (·, ([] : List MqttCall), mqttConnectAccepted) =
        some (client', calls, res) ∧ Alive client' := by
    obtain ⟨client', responded, alive'⟩ := alive.respond msg pktId qos
    exact ⟨client', _, _, by rw [responded]; rfl, alive'⟩
  simp only [receivedReply]
  split_ifs
  · exact ⟨client, _, _, rfl, alive⟩
  · exact responds ..
  · exact responds ..
  · exact alive.answer ..
  · exact ⟨client, _, _, rfl, alive⟩

theorem connack (alive : Alive client) (varHdrPayload : Nat) : Alive (receivedConnack client varHdrPayload).1 := by
  unfold receivedConnack
  split
  · dsimp only
    split
    · exact ⟨ConnState.noConfusion, alive.conn, alive.requests⟩
    · exact alive
  · exact alive

theorem message (alive : Alive client) {fixedHdrIdx length : Nat}
    (within : fixedHdrIdx + length ≤ mqttVarHeaderBufferLen)
    (tolerable : mqttCtlPacketType (client.rxBuffer 0) = MqttMessageType.publish.code →
      Tolerable client fixedHdrIdx ∨ length = 0 ∧ client.msgIdx ≤ mqttVarHeaderBufferLen)
    (remainingLength : Nat) : ∃ client' calls res,
      mqttMessageReceived client fixedHdrIdx length remainingLength = some (client', calls, res) ∧ Alive client' := by
  simp only [mqttMessageReceived]
  split_ifs with accepted pingresp publishes
  · exact ⟨_, _, _, rfl, alive.connack fixedHdrIdx⟩
  · exact ⟨client, _, _, rfl, alive⟩
  · exact alive.publish within (tolerable publishes) remainingLength
  · exact alive.reply ..

end Alive

/-- The bytes from which the parser is not safe: the sixth one of a length, the last one of a
length with which the index wraps around, and the one with which a publish that cannot be
tolerated is looked at. -/
def Hazard (client : MqttClient) (b : Byte) : Prop :=
  headerSize client = none ∧ (6 ≤ client.msgIdx ∨
      ∃ n ∈ headerSize (client.stored b), 2 ^ 32 ≤ lengthOf (client.stored b).rxBuffer n + n) ∨
    ∃ fixedHdrIdx ∈ headerSize client,
      let index := bodyIndex client fixedHdrIdx
      let copied := client.copied index [b]
      (bodyLeft client fixedHdrIdx - 1 = 0 ∨ index + 1 = mqttVarHeaderBufferLen) ∧
        mqttCtlPacketType (copied.rxBuffer 0) = MqttMessageType.publish.code ∧ ¬ Tolerable copied fixedHdrIdx

instance (client : MqttClient) (b : Byte) : Decidable (Hazard client b) := inferInstanceAs (Decidable (_ ∨ _))

theorem Alive.feedHeader {client : MqttClient} (alive : Alive client) (inHeader : client.msgIdx < 6) {b : Byte}
    (reachable : ∀ n, headerSize (client.stored b) = some n → lengthOf (client.stored b).rxBuffer n + n < 2 ^ 32) :
    ∃ r, Maglev.feedHeader client b = some r ∧ Alive r.1 := by
  have stored : Alive (client.stored b) := alive.of_same rfl rfl rfl
  simp only [Maglev.feedHeader]
  cases size : headerSize (client.stored b) with
  | none => exact ⟨_, rfl, stored⟩
  | some fixedHdrIdx =>
    have inside := (headerSize_eq_some.mp size).1
    have few : (client.stored b).msgIdx ≤ 6 := inHeader
    dsimp only
    rw [if_pos (reachable fixedHdrIdx size)]
    split
    · obtain ⟨client', calls, res, received, alive'⟩ := stored.message
        (show fixedHdrIdx + 0 ≤ mqttVarHeaderBufferLen by rw [mqttVarHeaderBufferLen]; omega)
        (fun _ => Or.inr ⟨rfl, by rw [mqttVarHeaderBufferLen]; omega⟩) 0
      exact ⟨_, by rw [received]; rfl, alive'.of_same rfl rfl rfl⟩
    · exact ⟨_, rfl, stored⟩

theorem Alive.feed {client : MqttClient} (alive : Alive client) {b : Byte} (safe : ¬ Hazard client b) :
    ∃ r, Maglev.feed client b = some r ∧ Alive r.1 := by
  cases size : headerSize client with
  | none =>
    obtain ⟨inHeader, reachable⟩ := not_or.mp fun hazard => safe (Or.inl ⟨size, hazard⟩)
    rw [Nat.not_le] at inHeader
    simp only [Maglev.feed, size, if_pos inHeader]
    exact alive.feedHeader inHeader fun n some => Nat.not_le.mp fun wraps => reachable ⟨n, some, wraps⟩
  | some fixedHdrIdx =>
    have index := bodyIndex_lt size
    have behind := le_bodyIndex client fixedHdrIdx
    have copied : Alive (client.copied (bodyIndex client fixedHdrIdx) [b]) := alive.of_same rfl rfl rfl
    simp only [Maglev.feed, size, feedBody, List.length_singleton]
    split
    · rename_i looked
      obtain ⟨client', calls, res, received, alive'⟩ := copied.message
        (show fixedHdrIdx + (bodyIndex client fixedHdrIdx + 1 - fixedHdrIdx) ≤ mqttVarHeaderBufferLen by omega)
        (fun publishes => Or.inl (by_contra fun intolerable => safe (Or.inr ⟨_, size, looked, publishes, intolerable⟩)))
        (bodyLeft client fixedHdrIdx - 1)
      rw [deliver, received]
      simp only [Option.bind_eq_bind, Option.bind_some]
      split
      · exact ⟨_, rfl, alive'.of_same rfl rfl rfl⟩
      · exact ⟨_, rfl, alive'⟩
    · exact ⟨_, rfl, copied⟩

/-- The parser gets through any bytes without a hazard. -/
theorem Alive.parse {client : MqttClient} (alive : Alive client) (framed : Framed client) {p : List Byte}
    (safe : byteParser.Along (fun client b => ¬ Hazard client b) client p) :
    ∃ client' calls res, mqttParseIncoming client p = some (client', calls, res) ∧ Alive client' ∧
      (res = mqttConnectAccepted → Framed client') := by
  obtain ⟨⟨client', calls, res⟩, ran, alive'⟩ := byteParser.run_total (fun _ _ alive safe => alive.feed safe) alive safe
  obtain ⟨parsed, framed'⟩ := mqttParseIncoming_eq framed ran
  exact ⟨client', calls, res, parsed, alive', framed'⟩

/-- Between two calls: an open connection has all that it needs, a closed one has nothing
left, and what has been read of a packet is well framed. -/
structure Safe (client : MqttClient) : Prop where
  closed : client.connState = .tcpDisconnected → client.conn = none
  alive : client.connState ≠ .tcpDisconnected → Alive client
  framed : client.connState = .mqttConnecting ∨ client.connState = .mqttConnected → Framed client

theorem Alive.safe {client : MqttClient} (alive : Alive client)
    (framed : client.connState = .mqttConnecting ∨ client.connState = .mqttConnected → Framed client) : Safe client :=
  ⟨fun closed => absurd closed alive.opened, fun _ => alive, framed⟩

theorem safe_of_closed {client : MqttClient} (conn : client.conn = none) (state : client.connState = .tcpDisconnected) :
    Safe client := by
  refine ⟨fun _ => conn, fun connected => absurd state connected, ?_⟩
  rw [state]
  rintro (listening | listening) <;> cases listening

/-- A call that leaves the connection and the parser alone. -/
theorem Safe.of_alive {client client' : MqttClient} (safe : Safe client) (alive : Alive client')
    (state : client'.connState = client.connState) (same : SameInput client client') : Safe client' :=
  alive.safe fun listening => same.framed (safe.framed (state ▸ listening))

theorem Sane.close {client : MqttClient} (sane : Sane client.requests) (reason : Nat) :
    ∃ client' calls, mqttClose client reason = some (client', calls) ∧ Safe client' := by
  obtain ⟨requests, cleared⟩ := sane.clear
  have total : ∃ r, mqttClose client reason = some r := by
    rw [mqttClose, cleared]
    simp only [Option.bind_eq_bind, Option.bind_some]
    split <;> exact ⟨_, rfl⟩
  obtain ⟨⟨client', calls⟩, closed⟩ := total
  obtain ⟨conn, state⟩ := mqttClose_closed closed
  exact ⟨client', calls, closed, safe_of_closed conn state⟩

theorem Alive.sendRequest {client : MqttClient} (alive : Alive client) (pktId : BitVec 16) (cb : Option Nat)
    (remainingLength : BitVec 16) (append : MqttRingbuf → MqttRingbuf) :
    ∃ client' err, client.sendRequest pktId cb remainingLength append = some (client', err) ∧ Alive client' ∧
      SameInput client client' ∧ client'.connState = client.connState := by
  unfold MqttClient.sendRequest MqttClient.request
  cases created : mqttCreateRequest client.requests pktId cb with
  | none => exact ⟨client, .mem, rfl, alive, ⟨rfl, rfl, rfl⟩, rfl⟩
  | some request =>
    obtain ⟨r, requests⟩ := request
    obtain ⟨⟨requests', appended, sane⟩, deleted⟩ := alive.requests.create created
    by_cases space : mqttOutputCheckSpace client.output remainingLength = true
    · have put : Alive { client with output := append client.output, requests := requests' } :=
        ⟨alive.opened, alive.conn, sane⟩
      obtain ⟨client', sent, alive', input, state⟩ := put.send
      refine ⟨client', .ok, ?_, alive', ⟨input.index, input.buffer, input.keepAlive⟩, state⟩
      simp only [if_pos space, Option.bind_eq_bind, appended, Option.bind_some, sent]
    · refine ⟨{ client with requests := mqttDeleteRequest requests r }, .mem, ?_,
        ⟨alive.opened, alive.conn, deleted⟩, ⟨rfl, rfl, rfl⟩, rfl⟩
      simp only [if_neg space]

/-- What the user may ask for, as the functions assert it, and what the server may send. -/
def Admissible (client : MqttClient) : ClientInput → Prop
  | .connect info _ =>
    ∃ will ∈ willFlags info, info.clientId.bytes.length ≤ 0xFFFF ∧
      2 + 4 + 1 + 1 + 2 + will.2 + 2 + info.clientId.bytes.length ≤ 0xFFFF
  | .publish topic payload _ _ _ =>
    topic.bytes.length ≤ 0xFFFF - 2 ∧ 2 + topic.bytes.length + payload.length ≤ 0xFFFF
  | .subUnsub topic qos _ sub =>
    topic.bytes.length ≤ 0xFFFF - 2 ∧ topic.bytes.length + 2 + 2 + (if sub then 1 else 0) ≤ 0xFFFF ∧ qos.toNat < 3
  | .received p err =>
    ∀ bytes ∈ p, err = .ok → client.listens = true →
      byteParser.Along (fun client b => ¬ Hazard client b) client bytes
  | _ => True

instance (client : MqttClient) : (input : ClientInput) → Decidable (Admissible client input)
  | .connect .. => inferInstanceAs (Decidable (∃ will ∈ _, _))
  | .publish .. | .subUnsub .. => inferInstanceAs (Decidable (_ ∧ _))
  | .received p _ => inferInstanceAs (Decidable (∀ bytes ∈ p, _))
  | .setInpub .. | .disconnect | .connected _ | .sent | .polled | .failed | .tick | .window .. =>
    inferInstanceAs (Decidable True)

/-- The functions that return without doing anything do so before they need anything. -/
theorem Safe.publish {client : MqttClient} (safe : Safe client) {topic : CString} {payload : List Byte}
    (asserted : topic.bytes.length ≤ 0xFFFF - 2 ∧ 2 + topic.bytes.length + payload.length ≤ 0xFFFF) (qos retain : Byte)
    (cb : Option Nat) :
    ∃ client' err, mqttPublish client topic payload qos retain cb = some (client', err) ∧ Safe client' := by
  unfold mqttPublish
  split
  · exact ⟨client, _, rfl, safe⟩
  · rename_i connected
    rw [if_pos asserted]
    have numbered : Alive (client.publishId qos).1 ∧ SameInput client (client.publishId qos).1 := by
      unfold MqttClient.publishId
      split <;> exact ⟨(safe.alive connected).of_same rfl rfl rfl, ⟨rfl, rfl, rfl⟩⟩
    obtain ⟨client', err, sent, alive, same, state⟩ := numbered.1.sendRequest (client.publishId qos).2 cb
      (BitVec.ofNat 16 (2 + topic.bytes.length + payload.length) + if qos ≠ 0#8 then 2#16 else 0#16)
      (appendPublish topic payload qos retain (client.publishId qos).2
        (BitVec.ofNat 16 (2 + topic.bytes.length + payload.length) + if qos ≠ 0#8 then 2#16 else 0#16))
    exact ⟨client', err, sent,
      safe.of_alive alive (state.trans (publishId_same client qos).state) (numbered.2.trans same)⟩

theorem Safe.subUnsub {client : MqttClient} (safe : Safe client) {topic : CString} {qos : Byte} {sub : Bool}
    (asserted : topic.bytes.length ≤ 0xFFFF - 2 ∧ topic.bytes.length + 2 + 2 + (if sub then 1 else 0) ≤ 0xFFFF ∧
      qos.toNat < 3) (cb : Option Nat) :
    ∃ client' err, mqttSubUnsub client topic qos cb sub = some (client', err) ∧ Safe client' := by
  unfold mqttSubUnsub
  rw [if_pos asserted]
  split
  · exact ⟨client, _, rfl, safe⟩
  · rename_i connected
    have numbered : Alive (msgGeneratePacketId client).1 := (safe.alive connected).of_same rfl rfl rfl
    obtain ⟨client', err, sent, alive, same, state⟩ := numbered.sendRequest (msgGeneratePacketId client).2 cb
      (BitVec.ofNat 16 (topic.bytes.length + 2 + 2 + if sub then 1 else 0))
      (appendSubUnsub topic qos sub (msgGeneratePacketId client).2
        (BitVec.ofNat 16 (topic.bytes.length + 2 + 2 + if sub then 1 else 0)))
    exact ⟨client', err, sent, safe.of_alive alive state ⟨same.index, same.buffer, same.keepAlive⟩⟩

theorem Safe.connect {client : MqttClient} (safe : Safe client) {info : MqttConnectClientInfo} {will : Byte × Nat}
    (given : willFlags info = some will) (asserted : info.clientId.bytes.length ≤ 0xFFFF ∧
      2 + 4 + 1 + 1 + 2 + will.2 + 2 + info.clientId.bytes.length ≤ 0xFFFF) (attempt : TcpAttempt) :
    ∃ client' err, mqttClientConnect client info true attempt = some (client', err) ∧ Safe client' := by
  unfold mqttClientConnect
  split
  · exact ⟨client, _, rfl, safe⟩
  · have failed : Safe (client.prepared info true) := safe_of_closed rfl rfl
    simp only [given, Option.bind_some]
    rw [if_pos asserted]
    split
    · refine ⟨_, _, rfl, ?_⟩
      cases attempt with
      | noMemory | bindFails | connectFails => exact failed
      | started sndBuf refusals =>
        obtain ⟨pending, lost, accounted, -⟩ := represents_initial
        refine Alive.safe ⟨ConnState.noConfusion, rfl, pending, accounted.queued⟩ ?_
        rintro (listening | listening) <;> cases listening
    · exact ⟨_, _, rfl, failed⟩

theorem Safe.disconnect {client : MqttClient} (safe : Safe client) :
    ∃ client' calls, mqttDisconnect client = some (client', calls) ∧ Safe client' := by
  unfold mqttDisconnect
  split
  · rename_i connected
    have sane : Sane { client with connState := .tcpDisconnected }.requests := (safe.alive connected).requests
    exact sane.close 0
  · exact ⟨client, [], rfl, safe⟩

theorem Safe.of_same {client client' : MqttClient} (safe : Safe client) (state : client'.connState = client.connState)
    (conn : client'.conn = client.conn) (requests : client'.requests = client.requests)
    (same : SameInput client client') : Safe client' where
  closed := fun closed => conn.trans (safe.closed (state ▸ closed))
  alive := fun connected => (safe.alive (state ▸ connected)).of_same state conn requests
  framed := fun listening => same.framed (safe.framed (state ▸ listening))

theorem Alive.closeWhen {client : MqttClient} (alive : Alive client) {bad : Prop} [Decidable bad]
    (framed : ¬ bad → Framed client) (reason : Nat) :
    ∃ client' calls, Maglev.closeWhen bad client reason = some (client', calls) ∧ Safe client' := by
  unfold Maglev.closeWhen
  split
  · exact alive.requests.close reason
  · rename_i good
    exact ⟨client, [], rfl, alive.safe fun _ => framed good⟩

theorem listens_state {client : MqttClient} (listens : client.listens = true) :
    client.connState = .mqttConnecting ∨ client.connState = .mqttConnected := by
  simpa [MqttClient.listens] using (Bool.and_eq_true_iff.mp listens).2

theorem Safe.received {client : MqttClient} (safe : Safe client) {p : Option (List Byte)} {err : Err}
    (admissible : Admissible client (.received p err)) (listens : client.listens = true) :
    ∃ client' calls, mqttTcpRecvCb client p err = some (client', calls) ∧ Safe client' := by
  have listening := listens_state listens
  have alive := safe.alive (by rcases listening with state | state <;> rw [state] <;> decide)
  cases p with
  | none => exact alive.requests.close mqttConnectDisconnected
  | some p =>
    unfold mqttTcpRecvCb
    dsimp only
    split
    · exact ⟨client, [], rfl, safe⟩
    · rename_i ok
      obtain rfl : err = .ok := not_not.mp ok
      obtain ⟨client₁, calls, res, parsed, alive₁, framed₁⟩ := alive.parse (safe.framed listening) (admissible p rfl rfl listens)
      obtain ⟨client₂, closed, ended, safe₂⟩ := @Alive.closeWhen client₁ alive₁ (res ≠ mqttConnectAccepted) _
        (fun accepted => framed₁ (not_not.mp accepted)) res
      simp only [parsed, ended, Option.bind_eq_bind, Option.bind_some]
      refine ⟨_, _, rfl, ?_⟩
      split
      · exact safe₂.of_same rfl rfl rfl ⟨rfl, rfl, rfl⟩
      · exact safe₂

theorem Safe.sent {client : MqttClient} (safe : Safe client) :
    ∃ client' calls, mqttTcpSentCb client = some (client', calls) ∧ Safe client' := by
  unfold mqttTcpSentCb
  split
  · rename_i connected
    have alive := safe.alive (by rw [connected]; decide)
    obtain ⟨requests, calls, completed, sane⟩ := alive.requests.complete
    have counted : Alive { client with cyclicTick := 0#16, serverWatchdog := 0#16, requests } :=
      ⟨alive.opened, alive.conn, sane⟩
    obtain ⟨client', sent, alive', same, state⟩ := counted.send
    refine ⟨client', calls.map .request, ?_, safe.of_alive alive' state ⟨same.index, same.buffer, same.keepAlive⟩⟩
    simp only [completed, Option.bind_eq_bind, Option.bind_some, sent]
  · exact ⟨client, [], rfl, safe⟩

theorem Safe.polled {client : MqttClient} (safe : Safe client) :
    ∃ client' calls, mqttTcpPollCb client = some (client', calls) ∧ Safe client' := by
  unfold mqttTcpPollCb
  split
  · rename_i connected
    obtain ⟨client', sent, alive', same, state⟩ := (safe.alive (by rw [connected]; decide)).send
    exact ⟨client', [], by rw [sent]; rfl, safe.of_alive alive' state same⟩
  · exact ⟨client, [], rfl, safe⟩

theorem Safe.failed {client : MqttClient} (safe : Safe client) (open_ : client.conn.isSome = true) :
    ∃ client' calls, mqttTcpErrCb client = some (client', calls) ∧ Safe client' := by
  have connected : client.connState ≠ .tcpDisconnected := by
    intro closed
    rw [safe.closed closed] at open_
    cases open_
  have sane : Sane { client with conn := none }.requests := (safe.alive connected).requests
  exact sane.close mqttConnectDisconnected

theorem Safe.connected {client : MqttClient} (safe : Safe client) (connecting : client.connState = .tcpConnecting)
    (err : Err) : ∃ client' calls, mqttTcpConnectCb client err = some (client', calls) ∧ Safe client' := by
  unfold mqttTcpConnectCb
  split
  · exact ⟨client, [], rfl, safe⟩
  · have alive := safe.alive (by rw [connecting]; decide)
    have asked : Alive { client with msgIdx := 0, connState := .mqttConnecting, timer := true, cyclicTick := 0#16 } :=
      ⟨ConnState.noConfusion, alive.conn, alive.requests⟩
    obtain ⟨client', sent, alive', same, -⟩ := asked.send
    exact ⟨client', [], by rw [sent]; rfl, alive'.safe fun _ => same.framed (framed_of_zero rfl)⟩

theorem pingWhenIdle_same (client : MqttClient) :
    (pingWhenIdle client).conn = client.conn ∧ (pingWhenIdle client).requests = client.requests ∧
      SameInput client (pingWhenIdle client) := by
  unfold pingWhenIdle
  split_ifs <;> exact ⟨rfl, rfl, rfl, rfl, rfl⟩

theorem Safe.ticked {client : MqttClient} (safe : Safe client) :
    ∃ client' calls, mqttCyclicTimer client = some (client', calls) ∧ Safe client' := by
  unfold mqttCyclicTimer
  dsimp only
  split
  · rename_i waiting
    have alive := safe.alive (by rw [waiting]; decide)
    split
    · have sane : Sane { client with cyclicTick := client.cyclicTick + 1#16, timer := false }.requests := alive.requests
      exact sane.close mqttConnectTimeout
    · exact ⟨_, [], rfl, safe.of_same rfl rfl rfl ⟨rfl, rfl, rfl⟩⟩
  · rename_i connected
    have alive := safe.alive (by rw [connected]; decide)
    have framed := safe.framed (Or.inr connected)
    obtain ⟨requests, expired, elapsed, sane⟩ := alive.requests.elapse
    simp only [elapsed, Option.bind_eq_bind, Option.bind_some]
    split
    · have watched : Alive
          { client with requests, timer := false, serverWatchdog := client.serverWatchdog + 1#16 } :=
        ⟨alive.opened, alive.conn, sane⟩
      have same : SameInput client
          { client with requests, timer := false, serverWatchdog := client.serverWatchdog + 1#16 } := ⟨rfl, rfl, rfl⟩
      obtain ⟨client₁, closed, ended, safe₁⟩ := @Alive.closeWhen _ watched
        ((client.serverWatchdog + 1#16).toNat * mqttCyclicTimerInterval >
          client.keepAlive.toNat + client.keepAlive.toNat / 2) _ (fun _ => same.framed framed) mqttConnectTimeout
      obtain ⟨conn, requests₁, input⟩ := pingWhenIdle_same client₁
      simp only [ended, Option.bind_some]
      exact ⟨_, _, rfl, safe₁.of_same (pingWhenIdle_state client₁) conn requests₁
        ⟨input.index, input.buffer, input.keepAlive⟩⟩
    · refine ⟨_, _, rfl, ?_⟩
      have timed : Alive { client with requests, timer := true } := ⟨alive.opened, alive.conn, sane⟩
      exact safe.of_alive timed rfl ⟨rfl, rfl, rfl⟩
  · exact ⟨_, [], rfl, safe.of_same rfl rfl rfl ⟨rfl, rfl, rfl⟩⟩

theorem Safe.whenEnabled {client : MqttClient} (safe : Safe client) {enabled : Bool} {result : MqttResult}
    (total : enabled = true → ∃ client' calls, result = some (client', calls) ∧ Safe client') :
    ∃ client' outs, Maglev.whenEnabled enabled client result = some (client', outs) ∧ Safe client' := by
  cases enabled with
  | false => exact ⟨client, [], rfl, safe⟩
  | true =>
    obtain ⟨client', calls, rfl, safe'⟩ := total rfl
    exact ⟨client', _, rfl, safe'⟩

theorem Safe.step {client : MqttClient} (safe : Safe client) {input : ClientInput}
    (admissible : Admissible client input) :
    ∃ client' outs, clientMachine.step client input = some (client', outs) ∧ Safe client' := by
  cases input with
  | connect info attempt =>
    obtain ⟨will, given, asserted⟩ := admissible
    obtain ⟨client', err, ran, safe'⟩ := safe.connect given asserted attempt
    exact ⟨client', _, by simp only [clientMachine, ran]; rfl, safe'⟩
  | publish topic payload qos retain cb =>
    obtain ⟨client', err, ran, safe'⟩ := safe.publish admissible qos retain cb
    exact ⟨client', _, by simp only [clientMachine, ran]; rfl, safe'⟩
  | subUnsub topic qos cb sub =>
    obtain ⟨client', err, ran, safe'⟩ := safe.subUnsub admissible cb
    exact ⟨client', _, by simp only [clientMachine, ran]; rfl, safe'⟩
  | setInpub pubCb dataCb => exact ⟨_, [], rfl, safe.of_same rfl rfl rfl ⟨rfl, rfl, rfl⟩⟩
  | disconnect =>
    obtain ⟨client', calls, ran, safe'⟩ := safe.disconnect
    exact ⟨client', _, by simp only [clientMachine, ran]; rfl, safe'⟩
  | connected err => exact safe.whenEnabled fun connecting => safe.connected (of_decide_eq_true connecting) err
  | received p err => exact safe.whenEnabled fun listens => safe.received admissible listens
  | sent => exact safe.whenEnabled fun _ => safe.sent
  | polled => exact safe.whenEnabled fun _ => safe.polled
  | failed => exact safe.whenEnabled safe.failed
  | tick => exact safe.whenEnabled fun _ => safe.ticked
  | window sndBuf refusals =>
    refine ⟨_, [], rfl, fun closed => ?_, fun connected => ?_, fun listening => ?_⟩
    · exact congrArg (Option.map _) (safe.closed closed)
    · have alive := safe.alive connected
      exact ⟨alive.opened, by rw [Option.isSome_map]; exact alive.conn, alive.requests⟩
    · have same : SameInput client { client with conn := client.conn.map fun pcb => { pcb with sndBuf, refusals } } :=
        ⟨rfl, rfl, rfl⟩
      exact same.framed (safe.framed listening)

/-- In any order of calls of the user, of the TCP layer and of the timer, and whatever bytes
come in, no assertion of the client fails, no loop of it runs for ever and nothing is
written outside of its buffers, unless the bytes hold one of the hazards. -/
theorem clientMachine_safe {client : MqttClient} (safe : Safe client) {inputs : List ClientInput}
    (admissible : clientMachine.Along Admissible client inputs) :
    ∃ client' outs, clientMachine.run client inputs = some (client', outs) ∧ Safe client' :=
  clientMachine.run_total (fun _ _ safe admissible => safe.step admissible) safe admissible

/-- A published message is sent while a message of the server has come in only in part. -/
theorem clientMachine_safe_partOfMessage : ∃ client outs,
    clientMachine.run setUpClient
        [.received (some [0x30#8]) .ok, .publish (.ofBytes [0x61#8]) [7#8] 0#8 0#8 none] =
      some (client, outs) ∧ Safe client := by
  obtain ⟨pending, lost, accounted, -⟩ := represents_initial
  have alive : Alive setUpClient := ⟨ConnState.noConfusion, rfl, pending, accounted.queued⟩
  exact clientMachine_safe (alive.safe fun _ => framed_of_zero rfl) (by decide +kernel)

-- The hazard is real: with this length of the topic its terminator goes behind the buffer.
example : byteParser.run setUpClient [0x30#8, 4#8, 0xff#8, 0xfe#8, 0x61#8, 0x62#8] matches none := by
  decide +kernel

end Maglev
