import Mathlib.Data.List.TakeWhile
import Maglev.Comms.Delivery
import Maglev.Mqtt.Output
import Maglev.Mqtt.Requests

namespace Maglev

def mqttVarHeaderBufferLen : Nat := 128

def mqttCyclicTimerInterval : Nat := 5

def mqttConnectTimout : Nat := 100

/-- The connection states of the client. -/
inductive ConnState
  | tcpDisconnected
  | tcpConnecting
  | mqttConnecting
  | mqttConnected
  deriving DecidableEq, Repr

/-- `enum mqtt_message_type`. -/
inductive MqttMessageType
  | connect
  | connack
  | publish
  | puback
  | pubrec
  | pubrel
  | pubcomp
  | subscribe
  | suback
  | unsubscribe
  | unsuback
  | pingreq
  | pingresp
  | disconnect
  deriving DecidableEq, Repr

def MqttMessageType.code : MqttMessageType → Byte
  | .connect => 1#8
  | .connack => 2#8
  | .publish => 3#8
  | .puback => 4#8
  | .pubrec => 5#8
  | .pubrel => 6#8
  | .pubcomp => 7#8
  | .subscribe => 8#8
  | .suback => 9#8
  | .unsubscribe => 10#8
  | .unsuback => 11#8
  | .pingreq => 12#8
  | .pingresp => 13#8
  | .disconnect => 14#8

/-- The values of `mqtt_connection_status_t` that the client itself gives. A server can
answer with any byte, and the cast makes a status of it. -/
def mqttConnectAccepted : Nat := 0

def mqttConnectDisconnected : Nat := 256

def mqttConnectTimeout : Nat := 257

/-- The calls that the client makes of its user. -/
inductive MqttCall
  | connection (status : Nat)
  | inpub (event : ClientEvent)
  | request (call : RequestCall)

/-- `struct mqtt_client_t`. Of the callbacks it is only told whether they are set. The
`timer` is no field of it: it says whether `mqtt_cyclic_timer` is among the timeouts of
the stack. -/
structure MqttClient where
  cyclicTick : BitVec 16
  keepAlive : BitVec 16
  serverWatchdog : BitVec 16
  pktIdSeq : BitVec 16
  inpubPktId : BitVec 16
  connState : ConnState
  conn : Option TcpPcb
  connectCb : Bool
  requests : RequestQueue
  dataCb : Bool
  pubCb : Bool
  msgIdx : Nat
  rxBuffer : Mem
  output : MqttRingbuf
  timer : Bool

/-- The client after `memset`, with the timeouts as they are. -/
def MqttClient.zero (timer : Bool) : MqttClient where
  cyclicTick := 0#16
  keepAlive := 0#16
  serverWatchdog := 0#16
  pktIdSeq := 0#16
  inpubPktId := 0#16
  connState := .tcpDisconnected
  conn := none
  connectCb := false
  requests := ⟨fun _ => ⟨none, none, 0#16, 0#16⟩, none⟩
  dataCb := false
  pubCb := false
  msgIdx := 0
  rxBuffer := fun _ => 0#8
  output := ⟨0#16, 0#16, fun _ => 0#8⟩
  timer

/-- The functions of the client have no result where an assertion halts the board and
where C leaves the behaviour open. -/
abbrev MqttResult := Option (MqttClient × List MqttCall)

def msgGeneratePacketId (client : MqttClient) : MqttClient × BitVec 16 :=
  let next := client.pktIdSeq + 1#16
  let id := if next = 0#16 then next + 1#16 else next
  ({ client with pktIdSeq := id }, id)

/-- `mqtt_output_send` on the output of the client, which needs a connection. -/
def MqttClient.send (client : MqttClient) : Option MqttClient :=
  client.conn.map fun pcb =>
    let (output, pcb) := mqttOutputSend client.output pcb
    { client with output, conn := some pcb }

def mqttClose (client : MqttClient) (reason : Nat) : MqttResult := do
  let requests ← mqttClearRequests client.requests
  let client := { client with conn := none, requests, timer := false }
  if client.connState ≠ .tcpDisconnected then
    some ({ client with connState := .tcpDisconnected }, if client.connectCb then [.connection reason] else [])
  else some (client, [])

/-- The connection is closed in some cases, and the function goes on in any case. -/
def closeWhen (bad : Prop) [Decidable bad] (client : MqttClient) (reason : Nat) : MqttResult :=
  if bad then mqttClose client reason else some (client, [])

/-- The response is left out when there is no room for it. -/
def pubAckRecRelResponse (client : MqttClient) (msg : MqttMessageType) (pktId : BitVec 16) (qos : Byte) :
    Option MqttClient :=
  if mqttOutputCheckSpace client.output 2#16 then
    let output := mqttOutputAppendFixedHeader client.output msg.code 0#8 qos 0#8 2#16
    { client with output := mqttOutputAppendU16 output pktId }.send
  else some client

/-- A ping is put out when nothing has been sent for the interval of the keep-alive. It is
sent with what follows it. -/
def pingWhenIdle (client : MqttClient) : MqttClient :=
  if client.cyclicTick.toNat * mqttCyclicTimerInterval ≥ client.keepAlive.toNat then
    if mqttOutputCheckSpace client.output 0#16 then
      { client with
        output := mqttOutputAppendFixedHeader client.output MqttMessageType.pingreq.code 0#8 0#8 0#8 0#16
        cyclicTick := 0#16 }
    else client
  else { client with cyclicTick := client.cyclicTick + 1#16 }

def mqttCyclicTimer (client : MqttClient) : MqttResult := do
  -- lwIP has taken the timeout off its list before the call
  let client := { client with timer := false }
  match client.connState with
  | .mqttConnecting =>
    let client := { client with cyclicTick := client.cyclicTick + 1#16 }
    if client.cyclicTick.toNat * mqttCyclicTimerInterval ≥ mqttConnectTimout then
      mqttClose client mqttConnectTimeout
    else some ({ client with timer := true }, [])
  | .mqttConnected =>
    let (requests, expired) ←
      mqttRequestTimeElapsed client.requests mqttReqMaxInFlight (BitVec.ofNat 8 mqttCyclicTimerInterval)
    let client := { client with requests }
    if client.keepAlive.toNat > 0 then
      let client := { client with serverWatchdog := client.serverWatchdog + 1#16 }
      let alive := client.keepAlive.toNat + client.keepAlive.toNat / 2
      let unresponsive := client.serverWatchdog.toNat * mqttCyclicTimerInterval > alive
      let (client, closed) ← closeWhen unresponsive client mqttConnectTimeout
      some ({ pingWhenIdle client with timer := !unresponsive }, expired.map .request ++ closed)
    else some ({ client with timer := true }, expired.map .request)
  | _ => some (client, [])

/-- The answer to a connection request. -/
def receivedConnack (client : MqttClient) (varHdrPayload : Nat) : MqttClient × List MqttCall × Nat :=
  if client.connState = .mqttConnecting then
    let res := (client.rxBuffer (varHdrPayload + 1)).toNat
    if res = mqttConnectAccepted then
      ({ client with cyclicTick := 0#16, connState := .mqttConnected },
        if client.connectCb then [.connection res] else [], res)
    else (client, [], res)
  else (client, [], mqttConnectAccepted)

/-- The characters before the first terminator. -/
def CString.ofBytes (bytes : List Byte) : CString where
  bytes := bytes.takeWhile (· ≠ 0#8)
  noNul := fun b member => by simpa using List.mem_takeWhile_imp member

def mqttCtlPacketType (fixedHdrByte0 : Byte) : Byte := (fixedHdrByte0 &&& 0xf0#8) >>> 4

def mqttCtlPacketQos (fixedHdrByte0 : Byte) : Byte := (fixedHdrByte0 &&& 0x6#8) >>> 1

/-- Two bytes of the buffer, the high one first. -/
def MqttClient.word (client : MqttClient) (i : Nat) : Nat :=
  (client.rxBuffer i).toNat * 256 + (client.rxBuffer (i + 1)).toNat

/-- What has to follow the topic: an identifier, or one byte so that the terminator fits. -/
def topicTail (qos : Byte) : Nat := if qos ≠ 0#8 then 2 else 1

def publishPktId (client : MqttClient) (afterTopic : Nat) (qos : Byte) : BitVec 16 :=
  if qos ≠ 0#8 then BitVec.ofNat 16 (client.word afterTopic) else 0#16

def publishOffset (afterTopic : Nat) (qos : Byte) : Nat := if qos ≠ 0#8 then afterTopic + 2 else afterTopic

def pubCall (client : MqttClient) (topic : CString) (totLen : Nat) : List MqttCall :=
  if client.pubCb then [.inpub (.pub topic totLen)] else []

/-- The announcement of a publish, whose topic has to be in the buffer: the calls, and
where its payload begins. No result if the terminator is written behind the buffer. -/
def announcePublish (client : MqttClient) (varHdrPayload length remainingLength : Nat) (qos : Byte) :
    Option (Option (MqttClient × List MqttCall × Nat)) :=
  let topicLen := client.word varHdrPayload
  let afterTopic := (2 + topicLen) % 2 ^ 16
  if afterTopic + topicTail qos > length then some none
  else if varHdrPayload + 2 + topicLen ≥ mqttVarHeaderBufferLen then none
  else
    let payloadOffset := publishOffset afterTopic qos
    let topic := CString.ofBytes (client.rxBuffer.read (varHdrPayload + 2) topicLen)
    let totLen := (remainingLength + (length - payloadOffset)) % 2 ^ 32
    some (some
      ({ client with inpubPktId := publishPktId client (varHdrPayload + afterTopic) qos },
        pubCall client topic totLen, payloadOffset))

def dataFlags (remainingLength : Nat) : BitVec 8 := if remainingLength = 0 then mqttDataFlagLast else 0#8

/-- The response to a publish that asks for one. -/
def publishResponse (qos : Byte) : MqttMessageType := if qos = 1#8 then .puback else .pubrec

/-- The payload that has come since the last call, and the response to the last of it. No
result if `data_cb` is not set. -/
def publishPayload (client : MqttClient) (payloadStart payloadLength remainingLength : Nat) (qos : Byte) :
    Option (MqttClient × List MqttCall) :=
  if payloadLength > 0 ∨ remainingLength = 0 then
    if client.dataCb then
      let payload := client.rxBuffer.read payloadStart payloadLength
      let data := MqttCall.inpub (.data payload (dataFlags remainingLength))
      if remainingLength = 0 ∧ qos ≠ 0#8 then
        (pubAckRecRelResponse client (publishResponse qos) client.inpubPktId 0#8).map (·, [data])
      else some (client, [data])
    else none
  else some (client, [])

/-- A publish, of which the part up to the end of the buffer is the first. -/
def receivedPublish (client : MqttClient) (varHdrPayload length remainingLength : Nat) :
    Option (MqttClient × List MqttCall × Nat) :=
  let qos := mqttCtlPacketQos (client.rxBuffer 0)
  if client.msgIdx ≤ mqttVarHeaderBufferLen then
    (announcePublish client varHdrPayload length remainingLength qos).bind fun
      | none => some (client, [], mqttConnectDisconnected)
      | some (client, calls, payloadOffset) =>
        (publishPayload client (varHdrPayload + payloadOffset) (length - payloadOffset) remainingLength qos).map
          fun (client, data) => (client, calls ++ data, mqttConnectAccepted)
  else
    (publishPayload client varHdrPayload length remainingLength qos).map
      fun (client, data) => (client, data, mqttConnectAccepted)

/-- What the callback of a request is told: only a subscription can be denied. -/
def replyErr (pktType result : Byte) : Err :=
  if pktType = MqttMessageType.suback.code ∧ result.toNat ≥ 3 then .abrt else .ok

/-- The answer to a request. A subscription that is answered without a result keeps its
request: it is neither pending nor deleted. -/
def receivedAnswer (client : MqttClient) (pktType : Byte) (pktId : BitVec 16) (varHdrPayload length : Nat) :
    Option (MqttClient × List MqttCall × Nat) := do
  let (requests, taken) ← mqttTakeRequest client.requests pktId
  match taken with
  | none => some ({ client with requests }, [], mqttConnectAccepted)
  | some r =>
    if pktType = MqttMessageType.suback.code ∧ length < 3 then
      some ({ client with requests }, [], mqttConnectDisconnected)
    else
      let calls := (requests.reqList r).call (replyErr pktType (client.rxBuffer (varHdrPayload + 2)))
      some ({ client with requests := mqttDeleteRequest requests r }, calls.map .request, mqttConnectAccepted)

/-- The messages that carry the identifier of a packet. -/
def receivedReply (client : MqttClient) (pktType : Byte) (varHdrPayload length : Nat) :
    Option (MqttClient × List MqttCall × Nat) :=
  let pktId := BitVec.ofNat 16 (client.word varHdrPayload)
  if pktId = 0#16 then some (client, [], mqttConnectDisconnected)
  else if pktType = MqttMessageType.pubrec.code then
    (pubAckRecRelResponse client .pubrel pktId 1#8).map (·, [], mqttConnectAccepted)
  else if pktType = MqttMessageType.pubrel.code then
    (pubAckRecRelResponse client .pubcomp pktId 0#8).map (·, [], mqttConnectAccepted)
  else if pktType = MqttMessageType.suback.code ∨ pktType = MqttMessageType.unsuback.code ∨
      pktType = MqttMessageType.pubcomp.code ∨ pktType = MqttMessageType.puback.code then
    receivedAnswer client pktType pktId varHdrPayload length
  else some (client, [], mqttConnectDisconnected)

def mqttMessageReceived (client : MqttClient) (fixedHdrIdx length remainingLength : Nat) :
    Option (MqttClient × List MqttCall × Nat) :=
  let pktType := mqttCtlPacketType (client.rxBuffer 0)
  if pktType = MqttMessageType.connack.code then some (receivedConnack client fixedHdrIdx)
  else if pktType = MqttMessageType.pingresp.code then some (client, [], mqttConnectAccepted)
  else if pktType = MqttMessageType.publish.code then receivedPublish client fixedHdrIdx length remainingLength
  else receivedReply client pktType fixedHdrIdx length

/-- The client and the local variables of the parser. -/
structure ParseState where
  client : MqttClient
  inOffset : Nat
  msgRemLen : Nat
  fixedHdrIdx : Nat
  b : Byte

/-- What a round of the parser's loop leaves, the calls it makes, and the status with
which the function returns in the middle of the input. -/
structure ParseRound where
  state : ParseState
  calls : List MqttCall
  returned : Option Nat

/-- A byte of the fixed header, from the buffer or from the input. No result if it is
written behind the buffer. -/
def parseHeaderByte (p : List Byte) (s : ParseState) : Option ParseState :=
  if s.fixedHdrIdx < s.client.msgIdx then
    some { s with b := s.client.rxBuffer s.fixedHdrIdx, fixedHdrIdx := s.fixedHdrIdx + 1 }
  else if s.client.msgIdx < mqttVarHeaderBufferLen then
    let b := p.getD s.inOffset 0#8
    some { s with
      client := { s.client with
        rxBuffer := Function.update s.client.rxBuffer s.client.msgIdx b
        msgIdx := (s.client.msgIdx + 1) % 2 ^ 32 }
      inOffset := s.inOffset + 1
      b
      fixedHdrIdx := s.fixedHdrIdx + 1 }
  else none

/-- What a byte of the fixed header means. No result if a shift reaches the width of its
operand. -/
def parseLength (s : ParseState) : Option ParseRound :=
  if s.fixedHdrIdx < 2 then some ⟨s, [], none⟩
  else
    let shift := (s.fixedHdrIdx - 2) * 7
    if shift < 32 then
      let msgRemLen := s.msgRemLen ||| ((s.b &&& 0x7f#8).toNat <<< shift) % 2 ^ 32
      if s.b &&& 0x80#8 ≠ 0#8 then some ⟨{ s with msgRemLen }, [], none⟩
      else if msgRemLen = 0 then
        -- what the message is answered with is not looked at
        (mqttMessageReceived s.client s.fixedHdrIdx 0 0).map fun (client, calls, _) =>
          ⟨{ s with client := { client with msgIdx := 0 }, msgRemLen, fixedHdrIdx := 0 }, calls, none⟩
      else
        let msgRemLen := (msgRemLen + s.fixedHdrIdx + 2 ^ 32 - s.client.msgIdx) % 2 ^ 32
        some ⟨{ s with msgRemLen }, [], none⟩
    else none

/-- A round in the fixed header. -/
def parseHeader (p : List Byte) (s : ParseState) : Option ParseRound := (parseHeaderByte p s).bind parseLength

/-- How the round ends after a part of a message has been looked at. -/
def messageAnswered (s : ParseState) : MqttClient × List MqttCall × Nat → ParseRound
  | (client, calls, res) =>
    if res ≠ mqttConnectAccepted then ⟨{ s with client }, calls, some res⟩
    else if s.msgRemLen = 0 then ⟨{ s with client := { client with msgIdx := 0 }, fixedHdrIdx := 0 }, calls, none⟩
    else ⟨{ s with client }, calls, none⟩

/-- A round behind the fixed header: as much as there is, up to the end of the message
and of the buffer. No result if it is copied behind the buffer. -/
def parseBody (p : List Byte) (s : ParseState) : Option ParseRound :=
  let window := mqttVarHeaderBufferLen - s.fixedHdrIdx
  let cpyStart := (s.client.msgIdx + 2 ^ 32 - s.fixedHdrIdx) % 2 ^ 32 % window + s.fixedHdrIdx
  let bufferSpace := mqttVarHeaderBufferLen - cpyStart
  let cpyLen := min (min (p.length - s.inOffset) s.msgRemLen) bufferSpace
  if cpyStart + cpyLen ≤ mqttVarHeaderBufferLen then
    let client := { s.client with
      rxBuffer := s.client.rxBuffer.store cpyStart ((p.drop s.inOffset).take cpyLen)
      msgIdx := (s.client.msgIdx + cpyLen) % 2 ^ 32 }
    let s : ParseState := { s with client, inOffset := s.inOffset + cpyLen, msgRemLen := s.msgRemLen - cpyLen }
    if s.msgRemLen = 0 ∨ cpyLen = bufferSpace then
      (mqttMessageReceived s.client s.fixedHdrIdx (cpyStart + cpyLen - s.fixedHdrIdx) s.msgRemLen).map
        (messageAnswered s)
    else some ⟨s, [], none⟩
  else none

def parseRound (p : List Byte) (s : ParseState) : Option ParseRound :=
  if s.fixedHdrIdx < 2 ∨ s.b &&& 0x80#8 ≠ 0#8 then parseHeader p s else parseBody p s

/-- The loop of the parser; no result if it takes more than `fuel` rounds. -/
def parseLoop (p : List Byte) : Nat → ParseState → Option (MqttClient × List MqttCall × Nat)
  | fuel, s =>
    if p.length ≤ s.inOffset then some (s.client, [], mqttConnectAccepted)
    else
      match fuel with
      | 0 => none
      | fuel + 1 => do
        let round ← parseRound p s
        match round.returned with
        | some res => some (round.state.client, round.calls, res)
        | none =>
          let (client, calls, res) ← parseLoop p fuel round.state
          some (client, round.calls ++ calls, res)

/-- Besides one for each byte of the input, the rounds are those that look at the fixed
header once more. -/
def mqttParseIncoming (client : MqttClient) (p : List Byte) : Option (MqttClient × List MqttCall × Nat) :=
  parseLoop p (p.length + 6) ⟨client, 0, 0, 0, 0#8⟩

/-- `p` is missing when the server has closed the connection. -/
def mqttTcpRecvCb (client : MqttClient) (p : Option (List Byte)) (err : Err) : MqttResult := do
  match p with
  | none => mqttClose client mqttConnectDisconnected
  | some p =>
    if err ≠ .ok then some (client, [])
    else
      let (client, calls, res) ← mqttParseIncoming client p
      let (client, closed) ← closeWhen (res ≠ mqttConnectAccepted) client res
      let client := if client.keepAlive ≠ 0#16 then { client with serverWatchdog := 0#16 } else client
      some (client, calls ++ closed)

def mqttTcpSentCb (client : MqttClient) : MqttResult := do
  if client.connState = .mqttConnected then
    let (requests, calls) ← completeUnanswered client.requests (mqttReqMaxInFlight + 1)
    let client ← { client with cyclicTick := 0#16, serverWatchdog := 0#16, requests }.send
    some (client, calls.map .request)
  else some (client, [])

def mqttTcpErrCb (client : MqttClient) : MqttResult :=
  mqttClose { client with conn := none } mqttConnectDisconnected

def mqttTcpPollCb (client : MqttClient) : MqttResult :=
  if client.connState = .mqttConnected then client.send.map (·, []) else some (client, [])

def mqttTcpConnectCb (client : MqttClient) (err : Err) : MqttResult :=
  if err ≠ .ok then some (client, [])
  else { client with msgIdx := 0, connState := .mqttConnecting, timer := true, cyclicTick := 0#16 }.send.map (·, [])

/-- The steps that `mqtt_publish` and `mqtt_sub_unsub` share: a request for the answer,
which is given back if there is no room for the packet. -/
def MqttClient.request (client : MqttClient) (pktId : BitVec 16) (cb : Option Nat) (remainingLength : BitVec 16) :
    MqttClient × Option RequestPtr :=
  match mqttCreateRequest client.requests pktId cb with
  | none => (client, none)
  | some (r, requests) =>
    if mqttOutputCheckSpace client.output remainingLength then ({ client with requests }, some r)
    else ({ client with requests := mqttDeleteRequest requests r }, none)

/-- The packet is put out by `append` once there is a request for it. -/
def MqttClient.sendRequest (client : MqttClient) (pktId : BitVec 16) (cb : Option Nat)
    (remainingLength : BitVec 16) (append : MqttRingbuf → MqttRingbuf) : Option (MqttClient × Err) :=
  match client.request pktId cb remainingLength with
  | (client, none) => some (client, .mem)
  | (client, some r) => do
    let requests ← mqttAppendRequest client.requests r
    let client ← { client with output := append client.output, requests }.send
    some (client, .ok)

/-- The identifier of a publish, which is only generated if it is to be answered. -/
def MqttClient.publishId (client : MqttClient) (qos : Byte) : MqttClient × BitVec 16 :=
  if qos ≠ 0#8 then msgGeneratePacketId client else (client, 0#16)

def appendPublish (topic : CString) (payload : List Byte) (qos retain : Byte) (pktId remainingLength : BitVec 16)
    (output : MqttRingbuf) : MqttRingbuf :=
  let output := mqttOutputAppendFixedHeader output MqttMessageType.publish.code 0#8 qos retain remainingLength
  let output := mqttOutputAppendString output topic.bytes (BitVec.ofNat 16 topic.bytes.length)
  let output := if qos ≠ 0#8 then mqttOutputAppendU16 output pktId else output
  mqttOutputAppendBuf output payload

/-- The payload is at hand, so that it is not `NULL` when it has a length. -/
def mqttPublish (client : MqttClient) (topic : CString) (payload : List Byte) (qos retain : Byte)
    (cb : Option Nat) : Option (MqttClient × Err) :=
  if client.connState = .tcpDisconnected then some (client, .conn)
  else
    let topicLen := topic.bytes.length
    let totalLen := 2 + topicLen + payload.length
    if topicLen ≤ 0xFFFF - 2 ∧ totalLen ≤ 0xFFFF then
      let (client, pktId) := client.publishId qos
      let remainingLength := BitVec.ofNat 16 totalLen + if qos ≠ 0#8 then 2#16 else 0#16
      client.sendRequest pktId cb remainingLength (appendPublish topic payload qos retain pktId remainingLength)
    else none

def appendSubUnsub (topic : CString) (qos : Byte) (sub : Bool) (pktId remainingLength : BitVec 16)
    (output : MqttRingbuf) : MqttRingbuf :=
  let msgType := if sub then MqttMessageType.subscribe else .unsubscribe
  let output := mqttOutputAppendFixedHeader output msgType.code 0#8 1#8 0#8 remainingLength
  let output := mqttOutputAppendU16 output pktId
  let output := mqttOutputAppendString output topic.bytes (BitVec.ofNat 16 topic.bytes.length)
  if sub then mqttOutputAppendU8 output (if qos.toNat ≤ 2 then qos else 2#8) else output

def mqttSubUnsub (client : MqttClient) (topic : CString) (qos : Byte) (cb : Option Nat) (sub : Bool) :
    Option (MqttClient × Err) :=
  let topicLen := topic.bytes.length
  let totalLen := topicLen + 2 + 2 + if sub then 1 else 0
  if topicLen ≤ 0xFFFF - 2 ∧ totalLen ≤ 0xFFFF ∧ qos.toNat < 3 then
    if client.connState = .tcpDisconnected then some (client, .conn)
    else
      let (client, pktId) := msgGeneratePacketId client
      let remainingLength := BitVec.ofNat 16 totalLen
      client.sendRequest pktId cb remainingLength (appendSubUnsub topic qos sub pktId remainingLength)
  else none

def mqttSetInpubCallback (client : MqttClient) (pubCb dataCb : Bool) : MqttClient :=
  { client with dataCb, pubCb }

/-- `struct mqtt_connect_client_info_t`, without the fields that are not used. -/
structure MqttConnectClientInfo where
  clientId : CString
  keepAlive : BitVec 16
  will : Option (CString × CString)
  willQos : Byte
  willRetain : Bool

/-- What becomes of the calls of the TCP functions in `mqtt_client_connect`. Nothing has been
written to a new connection. -/
inductive TcpAttempt
  | noMemory
  | bindFails (err : Err) (failure : err ≠ .ok)
  | connectFails (err : Err) (failure : err ≠ .ok)
  | started (sndBuf : Nat) (refusals : List Bool)

/-- The flags and the length that the will adds; no result if an assertion fails. -/
def willFlags (info : MqttConnectClientInfo) : Option (Byte × Nat) :=
  match info.will with
  | none => some (0#8, 0)
  | some (topic, msg) =>
    if topic.bytes.length ≤ 0xFF ∧ topic.bytes.length > 0 ∧ msg.bytes.length ≤ 0xFF then
      some (0x04#8 ||| ((info.willQos &&& 3#8) <<< 3) ||| (if info.willRetain then 0x20#8 else 0#8),
        2 + topic.bytes.length + 2 + msg.bytes.length)
    else none

def appendWill (output : MqttRingbuf) (info : MqttConnectClientInfo) : MqttRingbuf :=
  match info.will with
  | none => output
  | some (topic, msg) =>
    mqttOutputAppendString
      (mqttOutputAppendString output topic.bytes (BitVec.ofNat 16 topic.bytes.length))
      msg.bytes (BitVec.ofNat 16 msg.bytes.length)

def appendConnect (info : MqttConnectClientInfo) (flags : Byte) (remainingLength : BitVec 16)
    (output : MqttRingbuf) : MqttRingbuf :=
  let output := mqttOutputAppendFixedHeader output MqttMessageType.connect.code 0#8 0#8 0#8 remainingLength
  let output := mqttOutputAppendString output (literal "MQTT") 4#16
  let output := mqttOutputAppendU8 output 4#8
  let output := mqttOutputAppendU8 output flags
  let output := mqttOutputAppendU16 output info.keepAlive
  let output := mqttOutputAppendString output info.clientId.bytes (BitVec.ofNat 16 info.clientId.bytes.length)
  appendWill output info

/-- The client as it is set up for an attempt. -/
def MqttClient.prepared (client : MqttClient) (info : MqttConnectClientInfo) (connectCb : Bool) : MqttClient :=
  let zero := MqttClient.zero client.timer
  { zero with connectCb, keepAlive := info.keepAlive, requests := mqttInitRequests zero.requests }

/-- The TCP functions of an attempt, and the request that waits in the ring until there is
a connection. -/
def startConnect (client : MqttClient) (append : MqttRingbuf → MqttRingbuf) : TcpAttempt → MqttClient × Err
  | .noMemory => (client, .mem)
  | .bindFails err _ | .connectFails err _ => (client, err)
  | .started sndBuf refusals =>
    ({ client with
      conn := some ⟨sndBuf, [], refusals⟩
      connState := .tcpConnecting
      output := append client.output }, .ok)

def mqttClientConnect (client : MqttClient) (info : MqttConnectClientInfo) (connectCb : Bool)
    (attempt : TcpAttempt) : Option (MqttClient × Err) :=
  if client.connState ≠ .tcpDisconnected then some (client, .isconn)
  else
    let client := client.prepared info connectCb
    (willFlags info).bind fun (flags, willLen) =>
      let flags := flags ||| 0x02#8
      let len := 2 + 4 + 1 + 1 + 2 + willLen + 2 + info.clientId.bytes.length
      if info.clientId.bytes.length ≤ 0xFFFF ∧ len ≤ 0xFFFF then
        let remainingLength := BitVec.ofNat 16 len
        if mqttOutputCheckSpace client.output remainingLength then
          some (startConnect client (appendConnect info flags remainingLength) attempt)
        else some (client, .mem)
      else none

def mqttDisconnect (client : MqttClient) : MqttResult :=
  if client.connState ≠ .tcpDisconnected then mqttClose { client with connState := .tcpDisconnected } 0
  else some (client, [])

end Maglev
