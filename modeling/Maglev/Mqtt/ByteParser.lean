import Maglev.Lib.Consumer
import Maglev.Mqtt.Client

namespace Maglev

/-- The highest bit of a length byte, which says that another one follows. -/
abbrev Continues (b : Byte) : Prop := b &&& 0x80#8 ≠ 0#8

/-- The remaining length that the first `n` bytes of a fixed header give. -/
def lengthOf (rx : Mem) : Nat → Nat
  | 0 => 0
  | n + 1 => if n = 0 then 0 else lengthOf rx n ||| ((rx n &&& 0x7f#8).toNat <<< ((n - 1) * 7)) % 2 ^ 32

/-- The length of the fixed header in the buffer, if it is complete. It has a byte for
the type, and one to five for the length; no packet has more than four, but the parser
takes a fifth one. -/
def headerSize (client : MqttClient) : Option Nat :=
  (List.range' 2 5).find? fun i => i ≤ client.msgIdx ∧ client.rxBuffer (i - 1) &&& 0x80#8 = 0#8

/-- A byte of the fixed header has been stored. -/
def MqttClient.stored (client : MqttClient) (b : Byte) : MqttClient :=
  { client with rxBuffer := Function.update client.rxBuffer client.msgIdx b, msgIdx := client.msgIdx + 1 }

/-- A byte of the fixed header. A packet without anything else is complete with it. No
result for a length with which the index of the parser wraps around. -/
def feedHeader (client : MqttClient) (b : Byte) : Option (MqttClient × List MqttCall × Nat) :=
  let client := client.stored b
  match headerSize client with
  | none => some (client, [], mqttConnectAccepted)
  | some fixedHdrIdx =>
    if lengthOf client.rxBuffer fixedHdrIdx = 0 then
      (mqttMessageReceived client fixedHdrIdx 0 0).map fun (client, calls, _) =>
        ({ client with msgIdx := 0 }, calls, mqttConnectAccepted)
    else if lengthOf client.rxBuffer fixedHdrIdx + fixedHdrIdx < 2 ^ 32 then some (client, [], mqttConnectAccepted)
    else none

/-- Where the next byte behind a fixed header goes. -/
def bodyIndex (client : MqttClient) (fixedHdrIdx : Nat) : Nat :=
  (client.msgIdx - fixedHdrIdx) % (mqttVarHeaderBufferLen - fixedHdrIdx) + fixedHdrIdx

/-- How many bytes of the message are still to come. -/
def bodyLeft (client : MqttClient) (fixedHdrIdx : Nat) : Nat :=
  lengthOf client.rxBuffer fixedHdrIdx + fixedHdrIdx - client.msgIdx

/-- Bytes of a message have been copied to the buffer. -/
def MqttClient.copied (client : MqttClient) (index : Nat) (bytes : List Byte) : MqttClient :=
  { client with rxBuffer := client.rxBuffer.store index bytes, msgIdx := client.msgIdx + bytes.length }

/-- What is done with a part of a message that ends before the index `end_` of the
buffer, when `left` bytes are still to come. -/
def deliver (client : MqttClient) (fixedHdrIdx end_ left : Nat) : Option (MqttClient × List MqttCall × Nat) := do
  let (client, calls, res) ← mqttMessageReceived client fixedHdrIdx (end_ - fixedHdrIdx) left
  if res = mqttConnectAccepted ∧ left = 0 then some ({ client with msgIdx := 0 }, calls, res)
  else some (client, calls, res)

/-- Bytes behind the fixed header. The message is looked at when it is complete and when
the buffer is full. -/
def feedBody (client : MqttClient) (fixedHdrIdx : Nat) (bytes : List Byte) :
    Option (MqttClient × List MqttCall × Nat) :=
  let index := bodyIndex client fixedHdrIdx
  let left := bodyLeft client fixedHdrIdx - bytes.length
  let client := client.copied index bytes
  if left = 0 ∨ index + bytes.length = mqttVarHeaderBufferLen then
    deliver client fixedHdrIdx (index + bytes.length) left
  else some (client, [], mqttConnectAccepted)

/-- The parser that takes one byte at a time. It has no result for a sixth length byte, whose
shift reaches the width of its operand. -/
def feed (client : MqttClient) (b : Byte) : Option (MqttClient × List MqttCall × Nat) :=
  match headerSize client with
  | none => if client.msgIdx < 6 then feedHeader client b else none
  | some fixedHdrIdx => feedBody client fixedHdrIdx [b]

/-- The bytes one after the other, up to the one at which the connection is given up. -/
def byteParser : Consumer MqttClient Byte MqttCall Nat := ⟨feed, mqttConnectAccepted⟩

/-- The parser of the source on one segment after the other. -/
def segmentParser : Consumer MqttClient (List Byte) MqttCall Nat := ⟨mqttParseIncoming, mqttConnectAccepted⟩

/-- What a message does not change of the client: the part that the parser works on, and
the interval of the keep-alive. -/
structure SameInput (client client' : MqttClient) : Prop where
  index : client'.msgIdx = client.msgIdx
  buffer : client'.rxBuffer = client.rxBuffer
  keepAlive : client'.keepAlive = client.keepAlive

theorem MqttClient.send_sameInput {client client' : MqttClient} (sent : client.send = some client') :
    SameInput client client' := by
  obtain ⟨pcb, -, rfl⟩ := Option.map_eq_some_iff.mp sent
  exact ⟨rfl, rfl, rfl⟩

theorem pubAckRecRelResponse_sameInput {client client' : MqttClient} {msg : MqttMessageType} {pktId : BitVec 16}
    {qos : Byte} (responded : pubAckRecRelResponse client msg pktId qos = some client') : SameInput client client' := by
  unfold pubAckRecRelResponse at responded
  split at responded
  · obtain ⟨index, buffer, keepAlive⟩ := MqttClient.send_sameInput responded
    exact ⟨index, buffer, keepAlive⟩
  · cases responded
    exact ⟨rfl, rfl, rfl⟩

theorem announcePublish_sameInput {client client' : MqttClient} {varHdrPayload length remainingLength offset : Nat}
    {qos : Byte} {calls : List MqttCall}
    (announced : announcePublish client varHdrPayload length remainingLength qos = some (some (client', calls, offset))) :
    SameInput client client' := by
  simp only [announcePublish] at announced
  split at announced
  · cases announced
  · split at announced
    · cases announced
    · simp only [Option.some.injEq, Prod.mk.injEq] at announced
      rw [← announced.1]
      exact ⟨rfl, rfl, rfl⟩

theorem receivedConnack_sameInput (client : MqttClient) (varHdrPayload : Nat) :
    SameInput client (receivedConnack client varHdrPayload).1 := by
  unfold receivedConnack
  dsimp only
  split_ifs <;> exact ⟨rfl, rfl, rfl⟩

theorem publishPayload_sameInput {client client' : MqttClient} {payloadStart payloadLength remainingLength : Nat}
    {qos : Byte} {calls : List MqttCall}
    (handed : publishPayload client payloadStart payloadLength remainingLength qos = some (client', calls)) :
    SameInput client client' := by
  simp only [publishPayload] at handed
  split_ifs at handed
  · obtain ⟨responding, responded, same⟩ := Option.map_eq_some_iff.mp handed
    cases same
    exact pubAckRecRelResponse_sameInput responded
  all_goals
    cases handed
    exact ⟨rfl, rfl, rfl⟩

theorem SameInput.trans {a b c : MqttClient} (first : SameInput a b) (next : SameInput b c) : SameInput a c :=
  ⟨next.index.trans first.index, next.buffer.trans first.buffer, next.keepAlive.trans first.keepAlive⟩

theorem receivedPublish_sameInput {client client' : MqttClient} {varHdrPayload length remainingLength res : Nat}
    {calls : List MqttCall}
    (received : receivedPublish client varHdrPayload length remainingLength = some (client', calls, res)) :
    SameInput client client' := by
  simp only [receivedPublish] at received
  split at received
  · obtain ⟨announced, came, finished⟩ := Option.bind_eq_some_iff.mp received
    cases announced with
    | none =>
      cases finished
      exact ⟨rfl, rfl, rfl⟩
    | some first =>
      obtain ⟨⟨final, data⟩, handed, same⟩ := Option.map_eq_some_iff.mp finished
      cases same
      exact (announcePublish_sameInput came).trans (publishPayload_sameInput handed)
  · obtain ⟨⟨final, data⟩, handed, same⟩ := Option.map_eq_some_iff.mp received
    cases same
    exact publishPayload_sameInput handed

theorem receivedAnswer_sameInput {client client' : MqttClient} {pktType : Byte} {pktId : BitVec 16}
    {varHdrPayload length res : Nat} {calls : List MqttCall}
    (received : receivedAnswer client pktType pktId varHdrPayload length = some (client', calls, res)) :
    SameInput client client' := by
  obtain ⟨⟨requests, taken⟩, -, finished⟩ := Option.bind_eq_some_iff.mp received
  cases taken with
  | none =>
    cases finished
    exact ⟨rfl, rfl, rfl⟩
  | some r =>
    dsimp only at finished
    split_ifs at finished
    all_goals
      cases finished
      exact ⟨rfl, rfl, rfl⟩

theorem receivedReply_sameInput {client client' : MqttClient} {pktType : Byte} {varHdrPayload length res : Nat}
    {calls : List MqttCall}
    (received : receivedReply client pktType varHdrPayload length = some (client', calls, res)) :
    SameInput client client' := by
  simp only [receivedReply] at received
  split_ifs at received
  · cases received
    exact ⟨rfl, rfl, rfl⟩
  · obtain ⟨responding, responded, same⟩ := Option.map_eq_some_iff.mp received
    cases same
    exact pubAckRecRelResponse_sameInput responded
  · obtain ⟨responding, responded, same⟩ := Option.map_eq_some_iff.mp received
    cases same
    exact pubAckRecRelResponse_sameInput responded
  · exact receivedAnswer_sameInput received
  · cases received
    exact ⟨rfl, rfl, rfl⟩

theorem mqttMessageReceived_sameInput {client client' : MqttClient} {fixedHdrIdx length remainingLength res : Nat}
    {calls : List MqttCall}
    (received : mqttMessageReceived client fixedHdrIdx length remainingLength = some (client', calls, res)) :
    SameInput client client' := by
  simp only [mqttMessageReceived] at received
  split_ifs at received
  · have kept := receivedConnack_sameInput client fixedHdrIdx
    rwa [Option.some.inj received] at kept
  · cases received
    exact ⟨rfl, rfl, rfl⟩
  · exact receivedPublish_sameInput received
  · exact receivedReply_sameInput received

end Maglev
