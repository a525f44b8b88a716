import Maglev.Mqtt.Effects

namespace Maglev

open MqttFormat

/-- What follows the fixed header of a publish. -/
def publishBody (topic : CString) (payload : List Byte) (qos : Byte) (pktId : BitVec 16) : List Byte :=
  string topic.bytes ++ (if qos ≠ 0#8 then u16 pktId.toNat else []) ++ payload

/-- The packet of a publish. -/
def publishPacket (client : MqttClient) (topic : CString) (payload : List Byte) (qos retain : Byte) : Option Packet :=
  Packet.of? (controlByte MqttMessageType.publish.code 0#8 qos retain)
    (publishBody topic payload qos (client.publishId qos).2)

/-- What follows the fixed header of a subscription, or of its end. -/
def subUnsubBody (topic : CString) (qos : Byte) (sub : Bool) (pktId : BitVec 16) : List Byte :=
  u16 pktId.toNat ++ string topic.bytes ++ if sub then [qos] else []

def subUnsubPacket (client : MqttClient) (topic : CString) (qos : Byte) (sub : Bool) : Option Packet :=
  Packet.of? (controlByte (if sub then MqttMessageType.subscribe else .unsubscribe).code 0#8 1#8 0#8)
    (subUnsubBody topic qos sub (msgGeneratePacketId client).2)

theorem Packet.of?_eq {control : Byte} {body : List Byte} (short : body.length < 2 ^ 16) :
    ∃ packet, Packet.of? control body = some packet ∧ packet.control = control ∧ packet.body = body :=
  ⟨⟨control, body, by omega⟩, dif_pos _, rfl, rfl⟩

theorem publishId_same (client : MqttClient) (qos : Byte) : SameConnection client (client.publishId qos).1 := by
  unfold MqttClient.publishId
  split <;> exact ⟨rfl, rfl, rfl, rfl, rfl, rfl⟩

/-- Only a request for which there is room is taken. -/
theorem MqttClient.request_same (client : MqttClient) (pktId : BitVec 16) (cb : Option Nat)
    (remainingLength : BitVec 16) : SameConnection client (client.request pktId cb remainingLength).1 ∧
      ((client.request pktId cb remainingLength).2 ≠ none →
        mqttOutputCheckSpace client.output remainingLength = true) := by
  unfold MqttClient.request
  split
  · exact ⟨⟨rfl, rfl, rfl, rfl, rfl, rfl⟩, fun none => absurd rfl none⟩
  · split
    · rename_i space
      exact ⟨⟨rfl, rfl, rfl, rfl, rfl, rfl⟩, fun _ => space⟩
    · exact ⟨⟨rfl, rfl, rfl, rfl, rfl, rfl⟩, fun none => absurd rfl none⟩

theorem SameConnection.does {client client' : MqttClient} (same : SameConnection client client') :
    Does client [] [] client' :=
  does_of_appended rfl same.state same.callback same.tick same.timer (.of_same same.output same.conn)

/-- The packet is put out if and only if the call succeeds. -/
inductive Accepts (client : MqttClient) (packet : Packet) : Err → MqttClient → Prop
  | accepted {client' : MqttClient} : client'.conn ≠ none → Does client [] [packet] client' →
      Accepts client packet .ok client'
  | refused {err : Err} {client' : MqttClient} : err ≠ .ok → Does client [] [] client' →
      Accepts client packet err client'

theorem SameConnection.accepts {client between client' : MqttClient} {packet : Packet} {err : Err}
    (same : SameConnection client between) (accepts : Accepts between packet err client') :
    Accepts client packet err client' := by
  cases accepts with
  | accepted connected does => exact .accepted connected (same.does.trans does)
  | refused failure does => exact .refused failure (same.does.trans does)

theorem MqttClient.send_conn {client client' : MqttClient} (sent : client.send = some client') :
    client'.conn ≠ none := by
  obtain ⟨pcb, -, rfl⟩ := Option.map_eq_some_iff.mp sent
  exact Option.some_ne_none _

/-- What the user is told does not depend on the packet. -/
theorem MqttClient.sendRequest_follows {client client' : MqttClient} {pktId : BitVec 16} {cb : Option Nat}
    {remainingLength : BitVec 16} {append : MqttRingbuf → MqttRingbuf} {err : Err}
    (sent : client.sendRequest pktId cb remainingLength append = some (client', err)) : Follows client [] client' := by
  have same := (client.request_same pktId cb remainingLength).1
  unfold MqttClient.sendRequest at sent
  split at sent
  · rename_i refused found
    rw [found] at same
    cases sent
    exact same.does.toFollows
  · rename_i taken r found
    rw [found] at same
    obtain ⟨requests, -, rest⟩ := Option.bind_eq_some_iff.mp sent
    obtain ⟨final, written, done⟩ := Option.bind_eq_some_iff.mp rest
    cases done
    have put : Follows client [] { taken with output := append taken.output, requests } :=
      follows_of_silent rfl same.state same.callback fun _ => ⟨same.tick, same.timer⟩
    exact put.trans (MqttClient.send_does written).toFollows

theorem MqttClient.sendRequest_accepts {client client' : MqttClient} {pktId : BitVec 16} {cb : Option Nat}
    {append : MqttRingbuf → MqttRingbuf} {packet : Packet} {err : Err} (small : packet.body.length < 2 ^ 16 - 4)
    (appended : ∀ rb, append rb = rb.pushAll 8 packet.bytes)
    (sent : client.sendRequest pktId cb (BitVec.ofNat 16 packet.body.length) append = some (client', err)) :
    Accepts client packet err client' := by
  have same := client.request_same pktId cb (BitVec.ofNat 16 packet.body.length)
  unfold MqttClient.sendRequest at sent
  split at sent
  · rename_i refused found
    rw [found] at same
    cases sent
    exact .refused (by decide) same.1.does
  · rename_i taken r found
    rw [found] at same
    obtain ⟨kept, space⟩ := same
    obtain ⟨requests, -, rest⟩ := Option.bind_eq_some_iff.mp sent
    obtain ⟨final, written, done⟩ := Option.bind_eq_some_iff.mp rest
    cases done
    obtain ⟨state, callback, tick, timer, output, conn⟩ := kept
    refine .accepted (MqttClient.send_conn written)
      (put_packet ?_ ?_ ?_ ?_ ?_ ?_ small (space (Option.some_ne_none r)) written)
    · exact state
    · exact callback
    · exact tick
    · exact timer
    · exact conn
    · exact (appended taken.output).trans (congrArg (·.pushAll 8 packet.bytes) output)

theorem appendPublish_eq {topic : CString} {payload : List Byte} {qos retain : Byte} {pktId : BitVec 16}
    {packet : Packet} (small : packet.body.length < 2 ^ 16)
    (control : packet.control = controlByte MqttMessageType.publish.code 0#8 qos retain)
    (body : packet.body = publishBody topic payload qos pktId) (rb : MqttRingbuf) :
    appendPublish topic payload qos retain pktId (BitVec.ofNat 16 packet.body.length) rb =
      rb.pushAll 8 packet.bytes := by
  have length : (BitVec.ofNat 16 packet.body.length).toNat = packet.body.length := by
    rw [BitVec.toNat_ofNat, Nat.mod_eq_of_lt small]
  have short : topic.bytes.length < 2 ^ 16 := by
    rw [body, publishBody, string] at small
    simp only [List.length_append] at small
    omega
  have identified : ∀ rb : MqttRingbuf, (if qos ≠ 0#8 then mqttOutputAppendU16 rb pktId else rb) =
      rb.pushAll 8 (if qos ≠ 0#8 then u16 pktId.toNat else []) := by
    intro rb
    split
    · exact mqttOutputAppendU16_eq rb pktId
    · rfl
  simp only [appendPublish]
  rw [mqttOutputAppendBuf_eq, identified, mqttOutputAppendString_eq _ short, mqttOutputAppendFixedHeader_eq, length]
  simp only [Ring.pushAll_append, Packet.bytes, Packet.header, control, body, publishBody, List.append_assoc,
    List.cons_append]

theorem u16_length (n : Nat) : (u16 n).length = 2 := rfl

theorem string_length (bytes : List Byte) : (string bytes).length = 2 + bytes.length := by
  rw [string, List.length_append, u16_length]

theorem publishBody_length (topic : CString) (payload : List Byte) (qos : Byte) (pktId : BitVec 16) :
    (publishBody topic payload qos pktId).length =
      2 + topic.bytes.length + payload.length + if qos ≠ 0#8 then 2 else 0 := by
  unfold publishBody
  split
  all_goals
    simp only [List.length_append, string_length, u16_length, List.length_nil]
    omega

theorem mqttPublish_follows {client client' : MqttClient} {topic : CString} {payload : List Byte} {qos retain : Byte}
    {cb : Option Nat} {err : Err} (published : mqttPublish client topic payload qos retain cb = some (client', err)) :
    Follows client [] client' := by
  unfold mqttPublish at published
  split at published
  · cases published
    exact (does_same client).toFollows
  · dsimp only at published
    split at published
    · exact (publishId_same client qos).does.toFollows.trans (MqttClient.sendRequest_follows published)
    · cases published

/-- A publish is put out whole if it is accepted, and not at all otherwise. -/
theorem mqttPublish_accepts {client client' : MqttClient} {topic : CString} {payload : List Byte}
    {qos retain : Byte} {cb : Option Nat} {err : Err}
    (small : 2 + topic.bytes.length + payload.length + (if qos ≠ 0#8 then 2 else 0) < 2 ^ 16 - 4)
    (published : mqttPublish client topic payload qos retain cb = some (client', err)) :
    ∃ packet, publishPacket client topic payload qos retain = some packet ∧ Accepts client packet err client' := by
  have length := publishBody_length topic payload qos (client.publishId qos).2
  have below : (publishBody topic payload qos (client.publishId qos).2).length < 2 ^ 16 - 4 := length ▸ small
  obtain ⟨packet, made, control, body⟩ := @Packet.of?_eq
    (controlByte MqttMessageType.publish.code 0#8 qos retain) _ (Nat.lt_trans below (by decide))
  refine ⟨packet, made, ?_⟩
  rw [← body] at below length
  unfold mqttPublish at published
  split at published
  · cases published
    exact .refused (by decide) (does_same client)
  · dsimp only at published
    split at published
    · have remaining : BitVec.ofNat 16 (2 + topic.bytes.length + payload.length) + (if qos ≠ 0#8 then 2#16 else 0#16) =
          BitVec.ofNat 16 packet.body.length := by
        rw [length]
        split
        · exact (BitVec.ofNat_add ..).symm
        · exact BitVec.add_zero _
      rw [remaining] at published
      have accepts := MqttClient.sendRequest_accepts below (appendPublish_eq (by omega) control body) published
      exact (publishId_same client qos).accepts accepts
    · cases published

theorem appendSubUnsub_eq {topic : CString} {qos : Byte} {sub : Bool} {pktId : BitVec 16} {packet : Packet}
    (valid : qos.toNat < 3) (small : packet.body.length < 2 ^ 16)
    (control : packet.control =
      controlByte (if sub then MqttMessageType.subscribe else .unsubscribe).code 0#8 1#8 0#8)
    (body : packet.body = subUnsubBody topic qos sub pktId) (rb : MqttRingbuf) :
    appendSubUnsub topic qos sub pktId (BitVec.ofNat 16 packet.body.length) rb = rb.pushAll 8 packet.bytes := by
  have length : (BitVec.ofNat 16 packet.body.length).toNat = packet.body.length := by
    rw [BitVec.toNat_ofNat, Nat.mod_eq_of_lt small]
  have short : topic.bytes.length < 2 ^ 16 := by
    rw [body, subUnsubBody] at small
    simp only [List.length_append, string_length] at small
    omega
  have asked : ∀ rb : MqttRingbuf, (if sub = true then mqttOutputAppendU8 rb (if qos.toNat ≤ 2 then qos else 2#8) else rb) =
      rb.pushAll 8 (if sub = true then [qos] else []) := by
    intro rb
    rw [if_pos (Nat.le_of_lt_succ valid)]
    split
    · exact mqttRingbufPut_eq rb qos
    · rfl
  simp only [appendSubUnsub]
  rw [asked, mqttOutputAppendString_eq _ short, mqttOutputAppendU16_eq, mqttOutputAppendFixedHeader_eq, length]
  simp only [Ring.pushAll_append, Packet.bytes, Packet.header, control, body, subUnsubBody, List.append_assoc,
    List.cons_append]

theorem mqttSubUnsub_follows {client client' : MqttClient} {topic : CString} {qos : Byte} {cb : Option Nat}
    {sub : Bool} {err : Err} (asked : mqttSubUnsub client topic qos cb sub = some (client', err)) :
    Follows client [] client' := by
  unfold mqttSubUnsub at asked
  dsimp only at asked
  generalize topic.bytes.length + 2 + 2 + (if sub then 1 else 0) = totalLen at asked
  split at asked
  · split at asked
    · cases asked
      exact (does_same client).toFollows
    · have same : SameConnection client (msgGeneratePacketId client).1 := ⟨rfl, rfl, rfl, rfl, rfl, rfl⟩
      exact same.does.toFollows.trans (MqttClient.sendRequest_follows asked)
  · cases asked

theorem mqttSubUnsub_accepts {client client' : MqttClient} {topic : CString} {qos : Byte} {cb : Option Nat}
    {sub : Bool} {err : Err} (small : topic.bytes.length + 2 + 2 + (if sub then 1 else 0) < 2 ^ 16 - 4)
    (asked : mqttSubUnsub client topic qos cb sub = some (client', err)) :
    ∃ packet, subUnsubPacket client topic qos sub = some packet ∧ Accepts client packet err client' := by
  have length : (subUnsubBody topic qos sub (msgGeneratePacketId client).2).length =
      topic.bytes.length + 2 + 2 + if sub then 1 else 0 := by
    unfold subUnsubBody
    split
    all_goals
      simp only [List.length_append, string_length, u16_length, List.length_cons, List.length_nil]
      omega
  have below : (subUnsubBody topic qos sub (msgGeneratePacketId client).2).length < 2 ^ 16 - 4 := length ▸ small
  obtain ⟨packet, made, control, body⟩ := @Packet.of?_eq
    (controlByte (if sub then MqttMessageType.subscribe else .unsubscribe).code 0#8 1#8 0#8) _
    (Nat.lt_trans below (by decide))
  refine ⟨packet, made, ?_⟩
  rw [← body] at below length
  unfold mqttSubUnsub at asked
  dsimp only at asked
  rw [← length] at asked
  split at asked
  · rename_i valid
    split at asked
    · cases asked
      exact .refused (by decide) (does_same client)
    · have append := appendSubUnsub_eq valid.2.2 (Nat.lt_trans below (by decide)) control body
      have accepts := MqttClient.sendRequest_accepts below append asked
      have same : SameConnection client (msgGeneratePacketId client).1 := ⟨rfl, rfl, rfl, rfl, rfl, rfl⟩
      exact same.accepts accepts
  · cases asked

/-- The topic and the message of a will. -/
def willBytes (info : MqttConnectClientInfo) : List Byte :=
  match info.will with
  | none => []
  | some (topic, msg) => string topic.bytes ++ string msg.bytes

/-- What follows the fixed header of a connection request. -/
def connectBody (info : MqttConnectClientInfo) (flags : Byte) : List Byte :=
  string (literal "MQTT") ++ [4#8, flags] ++ u16 info.keepAlive.toNat ++ string info.clientId.bytes ++ willBytes info

def connectPacket (info : MqttConnectClientInfo) : Option Packet :=
  (willFlags info).bind fun (flags, _) =>
    Packet.of? (controlByte MqttMessageType.connect.code 0#8 0#8 0#8) (connectBody info (flags ||| 0x02#8))

theorem appendWill_eq {info : MqttConnectClientInfo} {flags : Byte} {willLen : Nat}
    (given : willFlags info = some (flags, willLen)) (rb : MqttRingbuf) :
    appendWill rb info = rb.pushAll 8 (willBytes info) ∧ (willBytes info).length = willLen := by
  unfold willFlags at given
  unfold appendWill willBytes
  cases will : info.will with
  | none =>
    simp only [will] at given ⊢
    cases given
    exact ⟨rfl, rfl⟩
  | some texts =>
    obtain ⟨topic, msg⟩ := texts
    simp only [will] at given ⊢
    split at given
    · cases given
      rw [mqttOutputAppendString_eq _ (by omega), mqttOutputAppendString_eq _ (by omega), Ring.pushAll_append,
        List.length_append, string_length, string_length]
      exact ⟨rfl, by omega⟩
    · cases given

theorem appendConnect_eq {info : MqttConnectClientInfo} {flags : Byte} {packet : Packet}
    (will : ∀ rb : MqttRingbuf, appendWill rb info = rb.pushAll 8 (willBytes info))
    (small : packet.body.length < 2 ^ 16)
    (control : packet.control = controlByte MqttMessageType.connect.code 0#8 0#8 0#8)
    (body : packet.body = connectBody info flags) (rb : MqttRingbuf) :
    appendConnect info flags (BitVec.ofNat 16 packet.body.length) rb = rb.pushAll 8 packet.bytes := by
  have length : (BitVec.ofNat 16 packet.body.length).toNat = packet.body.length := by
    rw [BitVec.toNat_ofNat, Nat.mod_eq_of_lt small]
  have short : info.clientId.bytes.length < 2 ^ 16 := by
    rw [body, connectBody] at small
    simp only [List.length_append, string_length] at small
    omega
  have protocol : ∀ rb : MqttRingbuf, mqttOutputAppendString rb (literal "MQTT") 4#16 =
      rb.pushAll 8 (string (literal "MQTT")) := fun rb => mqttOutputAppendString_eq rb (by decide)
  have levels : ∀ rb : MqttRingbuf, mqttOutputAppendU8 (mqttOutputAppendU8 rb 4#8) flags = rb.pushAll 8 [4#8, flags] := by
    intro rb
    rw [mqttOutputAppendU8, mqttOutputAppendU8, mqttRingbufPut_eq, mqttRingbufPut_eq]
    rfl
  simp only [appendConnect]
  rw [will, mqttOutputAppendString_eq _ short, mqttOutputAppendU16_eq, levels, protocol,
    mqttOutputAppendFixedHeader_eq, length]
  simp only [Ring.pushAll_append, Packet.bytes, Packet.header, control, body, connectBody, List.append_assoc,
    List.cons_append]

/-- The length of a connection request behind its fixed header. -/
def connectLength (info : MqttConnectClientInfo) : Nat :=
  2 + 4 + 1 + 1 + 2 + (willBytes info).length + 2 + info.clientId.bytes.length

/-- What an attempt leaves when the client is disconnected: the connection request in the
ring of a new connection, or no connection. -/
inductive Attempted (client : MqttClient) (info : MqttConnectClientInfo) (connectCb : Bool) : Err → MqttClient → Prop
  | started {sndBuf : Nat} {refusals : List Bool} {output : MqttRingbuf} :
      (connectLength info < 2 ^ 16 - 4 → ∃ packet, connectPacket info = some packet ∧ output.length ≤ 2 ^ 8 ∧
        output.contents 8 = packet.bytes) →
      Attempted client info connectCb .ok { client.prepared info connectCb with
        conn := some ⟨sndBuf, [], refusals⟩, connState := .tcpConnecting, output }
  | failed {err : Err} : err ≠ .ok → Attempted client info connectCb err (client.prepared info connectCb)

/-- A request that is short enough to be counted is in the ring as a whole. -/
theorem appendConnect_put {client : MqttClient} {info : MqttConnectClientInfo} {connectCb : Bool} {flags : Byte}
    {willLen : Nat} (given : willFlags info = some (flags, willLen)) (small : connectLength info < 2 ^ 16 - 4)
    (space : mqttOutputCheckSpace (client.prepared info connectCb).output (BitVec.ofNat 16 (connectLength info)) = true) :
    let output := appendConnect info (flags ||| 0x02#8) (BitVec.ofNat 16 (connectLength info))
      (client.prepared info connectCb).output
    ∃ packet, connectPacket info = some packet ∧ output.length ≤ 2 ^ 8 ∧ output.contents 8 = packet.bytes := by
  have length : (connectBody info (flags ||| 0x02#8)).length = connectLength info := by
    have protocol : (literal "MQTT").length = 4 := by decide
    simp only [connectBody, connectLength, List.length_append, string_length, u16_length, List.length_cons,
      List.length_nil, protocol]
    omega
  rw [← length] at small space ⊢
  obtain ⟨packet, made, control, body⟩ := @Packet.of?_eq (controlByte MqttMessageType.connect.code 0#8 0#8 0#8) _
    (Nat.lt_trans small (by decide))
  have request : connectPacket info = some packet := by
    rw [connectPacket, given]
    exact made
  rw [← body] at small space ⊢
  have append := appendConnect_eq (fun rb => (appendWill_eq given rb).1) (Nat.lt_trans small (by decide)) control body
  obtain ⟨pushed, room⟩ := pushAll_packet small space
  have empty : (client.prepared info connectCb).output.contents 8 = [] := by
    simp [MqttClient.prepared, MqttClient.zero, Ring.contents, Ring.length]
  rw [empty, List.nil_append] at pushed
  rw [append]
  exact ⟨packet, request, room, pushed⟩

theorem mqttClientConnect_attempted {client client' : MqttClient} {info : MqttConnectClientInfo} {connectCb : Bool}
    {attempt : TcpAttempt} {err : Err} (disconnected : client.connState = .tcpDisconnected)
    (connected : mqttClientConnect client info connectCb attempt = some (client', err)) :
    Attempted client info connectCb err client' := by
  rw [mqttClientConnect, if_neg (not_not_intro disconnected)] at connected
  obtain ⟨⟨flags, willLen⟩, given, rest⟩ := Option.bind_eq_some_iff.mp connected
  have will := (appendWill_eq given ⟨0#16, 0#16, fun _ => 0#8⟩).2
  dsimp only at rest
  rw [← will, show 2 + 4 + 1 + 1 + 2 + (willBytes info).length + 2 + info.clientId.bytes.length = connectLength info from
    rfl] at rest
  split at rest
  case isFalse => cases rest
  case isTrue =>
    split at rest
    case isFalse =>
      cases rest
      exact .failed (by decide)
    case isTrue space =>
      cases attempt with
      | noMemory =>
        cases rest
        exact .failed (by decide)
      | bindFails failure refused | connectFails failure refused =>
        cases rest
        exact .failed refused
      | started sndBuf refusals =>
        cases rest
        exact .started fun small => appendConnect_put given small space

end Maglev
