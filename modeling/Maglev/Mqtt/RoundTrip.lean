import Maglev.Comms.Sessions
import Maglev.Mqtt.Sending

namespace Maglev

open MqttFormat

theorem mqttCtlPacketType_publish (qos retain : Byte) :
    mqttCtlPacketType (controlByte MqttMessageType.publish.code 0#8 qos retain) = MqttMessageType.publish.code := by
  unfold mqttCtlPacketType controlByte MqttMessageType.code
  ext i bound
  simp only [BitVec.getElem_ushiftRight, BitVec.getLsbD_and, BitVec.getLsbD_or, BitVec.getLsbD_shiftLeft]
  interval_cases i <;> simp [BitVec.getLsbD_of_ge]

theorem mqttCtlPacketQos_publish {qos : Byte} (valid : qos.toNat < 3) (retain : Byte) :
    mqttCtlPacketQos (controlByte MqttMessageType.publish.code 0#8 qos retain) = qos := by
  have low : qos &&& 3#8 = qos := by
    apply BitVec.eq_of_toNat_eq
    rw [BitVec.toNat_and]
    exact (Nat.and_two_pow_sub_one_eq_mod qos.toNat 2).trans (Nat.mod_eq_of_lt (by omega))
  rw [← low]
  unfold mqttCtlPacketQos controlByte MqttMessageType.code
  ext i bound
  simp only [BitVec.getElem_ushiftRight, BitVec.getLsbD_and, BitVec.getLsbD_or, BitVec.getLsbD_shiftLeft,
    BitVec.getElem_and]
  interval_cases i <;> simp [BitVec.getLsbD_of_ge]

/-- A publish as it is put out, seen as one that comes in. -/
def publishedMessage (topic : CString) (payload : List Byte) (qos retain : Byte) (pktId : BitVec 16) :
    PublishMessage where
  control := controlByte MqttMessageType.publish.code 0#8 qos retain
  topic := topic.bytes
  pktId
  payload

theorem publishedMessage_body {qos : Byte} (valid : qos.toNat < 3) (topic : CString) (payload : List Byte)
    (retain : Byte) (pktId : BitVec 16) :
    (publishedMessage topic payload qos retain pktId).body = publishBody topic payload qos pktId := by
  simp only [PublishMessage.body, PublishMessage.variableHeader, PublishMessage.identifier, PublishMessage.qos,
    publishedMessage, mqttCtlPacketQos_publish valid, publishBody]

theorem publishedMessage_fits {topic : CString} {payload : List Byte} {qos retain : Byte} {pktId : BitVec 16}
    (valid : qos.toNat < 3) (short : topic.bytes.length ≤ 120) (nonempty : qos = 0#8 → payload ≠ [])
    (small : 2 + topic.bytes.length + payload.length + (if qos ≠ 0#8 then 2 else 0) < 2 ^ 16 - 4) :
    (publishedMessage topic payload qos retain pktId).Fits := by
  have qosEq : (publishedMessage topic payload qos retain pktId).qos = qos := mqttCtlPacketQos_publish valid retain
  have length := publishBody_length topic payload qos pktId
  have below : (publishBody topic payload qos pktId).length < 2 ^ 16 := by
    split at length <;> omega
  have body := publishedMessage_body valid topic payload retain pktId
  refine ⟨mqttCtlPacketType_publish qos retain, ?_, ?_, ?_⟩
  · rw [body]
    omega
  · have few := lengthBytes_length (BitVec.ofNat 16 (publishBody topic payload qos pktId).length)
    rw [BitVec.toNat_ofNat, Nat.mod_eq_of_lt below] at few
    have tail : topicTail qos ≤ 2 := by
      unfold topicTail
      split <;> decide
    rw [PublishMessage.fixedHdrIdx, body, qosEq, mqttVarHeaderBufferLen]
    change 1 + _ + (2 + topic.bytes.length + topicTail qos) ≤ 128
    omega
  · rw [qosEq]
    exact nonempty

theorem publishPacket_bytes {client : MqttClient} {topic : CString} {payload : List Byte} {qos retain : Byte}
    {packet : Packet} (valid : qos.toNat < 3) (made : publishPacket client topic payload qos retain = some packet)
    (short : (publishedMessage topic payload qos retain (client.publishId qos).2).body.length < 2 ^ 28) :
    packet.bytes = ((publishedMessage topic payload qos retain (client.publishId qos).2).packet short).bytes := by
  have body := publishedMessage_body valid topic payload retain (client.publishId qos).2
  rw [publishPacket, Packet.of?, dif_pos (body ▸ short)] at made
  cases made
  simp only [Packet.bytes, Packet.header, PublishMessage.packet, body]
  rfl

/-- What one client publishes, another one reads: the bytes that an accepted publish adds to
the output, handed over in any segments to a client that is ready for them, lead to the
announcement of the topic and to fragments that make up the payload. -/
theorem mqttPublish_roundTrip {publisher publisher' : MqttClient} {topic : CString} {payload : List Byte}
    {qos retain : Byte} {cb : Option Nat} (valid : qos.toNat < 3) (short : topic.bytes.length ≤ 120)
    (nonempty : qos = 0#8 → payload ≠ [])
    (small : 2 + topic.bytes.length + payload.length + (if qos ≠ 0#8 then 2 else 0) < 2 ^ 16 - 4)
    (published : mqttPublish publisher topic payload qos retain cb = some (publisher', .ok)) :
    ∃ bytes, publisher'.stream = publisher.stream.map (· ++ bytes) ∧
      ∀ (receiver : MqttClient) (segments : List (List Byte)), Ready receiver → receiver.msgIdx = 0 →
        receiver.keepAlive = 0#16 → segments.flatten = bytes → ∃ receiver' calls fragments,
          recvMachine.run receiver segments = some (receiver', calls) ∧ Ready receiver' ∧ receiver'.msgIdx = 0 ∧
          calls.filterMap MqttCall.inpub? = .pub topic payload.length :: dataEvents fragments ∧
          fragments.flatten = payload := by
  obtain ⟨packet, made, accepts⟩ := mqttPublish_accepts small published
  have fits := @publishedMessage_fits topic payload qos retain (publisher.publishId qos).2 valid short nonempty small
  refine ⟨packet.bytes, ?_, ?_⟩
  · cases accepts with
    | refused failure => exact absurd rfl failure
    | accepted connected does =>
      have appended := does.emits.resolve_left connected
      simpa using appended.stream
  · intro receiver segments ready zero keepAlive sent
    obtain ⟨⟨receiver', ran, ready', zero'⟩, -⟩ := ready.publish zero fits
    rw [← publishPacket_bytes valid made fits.short, ← sent] at ran
    refine ⟨receiver', _, _, recvMachine_run (framed_of_zero zero) keepAlive segments ran, ready', zero', ?_,
      PublishMessage.fragments_flatten (publishedMessage topic payload qos retain (publisher.publishId qos).2)⟩
    rw [filterMap_inpub, PublishMessage.events]
    exact congrArg (fun topic => ClientEvent.pub topic payload.length :: _) (CString.ofBytes_bytes topic)

theorem mqttPublish_roundTrip_one : ∃ publisher bytes receiver calls fragments,
    mqttPublish setUpClient ⟨[0x61#8], by decide⟩ [7#8] 0#8 0#8 none = some (publisher, .ok) ∧
      publisher.stream = setUpClient.stream.map (· ++ bytes) ∧
      recvMachine.run setUpClient [bytes] = some (receiver, calls) ∧
      calls.filterMap MqttCall.inpub? = .pub ⟨[0x61#8], by decide⟩ 1 :: dataEvents fragments ∧
      fragments.flatten = [7#8] := by
  have accepted : (mqttPublish setUpClient ⟨[0x61#8], by decide⟩ [7#8] 0#8 0#8 none).any (·.2 == .ok) = true := by
    decide +kernel
  obtain ⟨⟨publisher, err⟩, published, ok⟩ := (Option.any_eq_true _ _).mp accepted
  cases eq_of_beq ok
  obtain ⟨bytes, stream, received⟩ := mqttPublish_roundTrip (by decide) (by decide) (by decide) (by decide) published
  obtain ⟨receiver, calls, fragments, ran, -, -, handed, payload⟩ :=
    received setUpClient [bytes] setUpClient_ready rfl rfl List.flatten_singleton
  exact ⟨publisher, bytes, receiver, calls, fragments, published, stream, ran, handed, payload⟩

end Maglev
