import Maglev.Comms.Reconnect
import Maglev.Mqtt.Client
import Maglev.Mqtt.OutputSpec

namespace Maglev

open MqttFormat

/-- The connection as the callers of the client can tell it. -/
def MqttClient.state (client : MqttClient) : ClientState :=
  match client.connState with
  | .tcpDisconnected => .disconnected
  | .tcpConnecting | .mqttConnecting => .connecting
  | .mqttConnected => .connected

/-- A call of the connection callback. -/
def MqttCall.status? : MqttCall → Option Nat
  | .connection status => some status
  | _ => none

/-- An attempt is answered once, by an acceptance or by another status. A connection that
was accepted ends with another status. -/
def notified : ClientState → Nat → Option ClientState
  | .disconnected, _ => none
  | .connecting, status => some (if status = mqttConnectAccepted then .connected else .disconnected)
  | .connected, status => if status = mqttConnectAccepted then none else some .disconnected

def notifiedAll (state : ClientState) (calls : List MqttCall) : Option ClientState :=
  (calls.filterMap MqttCall.status?).foldlM notified state

/-- All bytes that have been put out on the connection. -/
def MqttClient.stream (client : MqttClient) : Option (List Byte) := client.conn.map (outputStream client.output)

/-- Whole packets have been put out, in this order, and nothing else. -/
structure Appended (client : MqttClient) (packets : List Packet) (client' : MqttClient) : Prop where
  room : client.output.length ≤ 2 ^ 8 → client'.output.length ≤ 2 ^ 8
  stream : client'.stream = client.stream.map (· ++ packets.flatMap Packet.bytes)

theorem Appended.of_same {client client' : MqttClient} (output : client'.output = client.output)
    (conn : client'.conn = client.conn) : Appended client [] client' where
  room := by
    rw [output]
    exact id
  stream := by simp [MqttClient.stream, output, conn, Function.comp_def]

theorem Appended.trans {a b c : MqttClient} {first rest : List Packet} (now : Appended a first b)
    (later : Appended b rest c) : Appended a (first ++ rest) c where
  room := fun room => later.room (now.room room)
  stream := by
    rw [later.stream, now.stream, Option.map_map]
    congr 1
    funext bytes
    simp

/-- A packet for which there is room is put into the ring. -/
theorem pushAll_packet {rb : MqttRingbuf} {packet : Packet} (small : packet.body.length < 2 ^ 16 - 4)
    (space : mqttOutputCheckSpace rb (BitVec.ofNat 16 packet.body.length) = true) :
    (rb.pushAll 8 packet.bytes).contents 8 = rb.contents 8 ++ packet.bytes ∧
      (rb.pushAll 8 packet.bytes).length ≤ 2 ^ 8 := by
  have length : (BitVec.ofNat 16 packet.body.length).toNat = packet.body.length := by
    rw [BitVec.toNat_ofNat, Nat.mod_eq_of_lt (by omega)]
  rw [mqttOutputCheckSpace_iff _ (by rw [length]; exact small), length] at space
  have bytes : packet.bytes.length = 1 + (lengthBytes packet.body.length).length + packet.body.length := by
    rw [Packet.bytes, Packet.header, List.length_append, List.length_cons]
    omega
  rw [← bytes] at space
  have pushed : (rb.pushAll 8 packet.bytes).contents 8 = rb.contents 8 ++ packet.bytes :=
    Ring.pushAll_contents (by decide) space
  have total := congrArg List.length pushed
  rw [Ring.contents_length, List.length_append, Ring.contents_length] at total
  exact ⟨pushed, total ▸ space⟩

theorem appended_packet {client client' : MqttClient} {packet : Packet} (small : packet.body.length < 2 ^ 16 - 4)
    (space : mqttOutputCheckSpace client.output (BitVec.ofNat 16 packet.body.length) = true)
    (output : client'.output = client.output.pushAll 8 packet.bytes) (conn : client'.conn = client.conn) :
    Appended client [packet] client' := by
  obtain ⟨pushed, room⟩ := pushAll_packet small space
  constructor
  · intro _
    rw [output]
    exact room
  · simp only [MqttClient.stream, output, conn, Option.map_map]
    congr 1
    funext pcb
    simp [outputStream, pushed]

/-- The user hears of every change of the connection. -/
def Heard (client : MqttClient) : Prop := client.connState ≠ .tcpDisconnected → client.connectCb = true

/-- What a function does that makes calls: the callback stays, the calls are in order, and as
long as the client waits for the answer to its connection request, the timer goes on as
before. -/
structure Follows (client : MqttClient) (calls : List MqttCall) (client' : MqttClient) : Prop where
  callback : client'.connectCb = client.connectCb
  order : Heard client → notifiedAll client.state calls = some client'.state
  waits : client'.state = .connecting → client'.connState = client.connState ∧
    (client.connState = .mqttConnecting → client'.cyclicTick = client.cyclicTick ∧ client'.timer = client.timer)

/-- The same of a function that puts out packets, and nothing but them. -/
structure Does (client : MqttClient) (calls : List MqttCall) (packets : List Packet) (client' : MqttClient) :
    Prop extends Follows client calls client' where
  emits : client'.conn = none ∨ Appended client packets client'

theorem notifiedAll_append (state : ClientState) (first rest : List MqttCall) :
    notifiedAll state (first ++ rest) = (notifiedAll state first).bind (notifiedAll · rest) := by
  simp [notifiedAll, List.filterMap_append, List.foldlM_append]

theorem notifiedAll_silent (state : ClientState) {calls : List MqttCall}
    (silent : calls.filterMap MqttCall.status? = []) : notifiedAll state calls = some state := by
  rw [notifiedAll, silent]
  rfl

theorem MqttClient.state_eq_disconnected {client : MqttClient} :
    client.state = .disconnected ↔ client.connState = .tcpDisconnected := by
  unfold MqttClient.state
  split <;> simp_all

/-- Nobody is told anything by a client that is disconnected. -/
theorem notifiedAll_disconnected {calls : List MqttCall} {state : ClientState}
    (followed : notifiedAll .disconnected calls = some state) : state = .disconnected := by
  unfold notifiedAll at followed
  cases told : calls.filterMap MqttCall.status? with
  | nil =>
    rw [told] at followed
    cases followed
    rfl
  | cons status rest =>
    rw [told] at followed
    cases followed

theorem Follows.heard {client client' : MqttClient} {calls : List MqttCall}
    (follows : Follows client calls client') (heard : Heard client) : Heard client' := by
  intro connected
  rw [follows.callback]
  refine heard fun closed => connected ?_
  have followed := follows.order heard
  rw [MqttClient.state_eq_disconnected.mpr closed] at followed
  exact MqttClient.state_eq_disconnected.mp (notifiedAll_disconnected followed)

theorem Follows.trans {a b c : MqttClient} {calls calls' : List MqttCall} (now : Follows a calls b)
    (later : Follows b calls' c) : Follows a (calls ++ calls') c where
  callback := later.callback.trans now.callback
  order := fun heard => by
    rw [notifiedAll_append, now.order heard]
    exact later.order (now.heard heard)
  waits := fun waiting => by
    obtain ⟨state, counted⟩ := later.waits waiting
    have waited : b.state = .connecting := by
      rwa [MqttClient.state, state] at waiting
    obtain ⟨state', counted'⟩ := now.waits waited
    refine ⟨state.trans state', fun connecting => ?_⟩
    obtain ⟨tick, timer⟩ := counted (state'.trans connecting)
    obtain ⟨tick', timer'⟩ := counted' connecting
    exact ⟨tick.trans tick', timer.trans timer'⟩

theorem Does.trans {a b c : MqttClient} {calls calls' : List MqttCall} {packets packets' : List Packet}
    (now : Does a calls packets b) (later : Does b calls' packets' c) :
    Does a (calls ++ calls') (packets ++ packets') c where
  toFollows := now.toFollows.trans later.toFollows
  emits := by
    rcases later.emits with closed | appended
    · exact Or.inl closed
    · rcases now.emits with closed | before
      · left
        have none := appended.stream
        rw [MqttClient.stream, MqttClient.stream, closed, Option.map_none, Option.map_none] at none
        exact Option.map_eq_none_iff.mp none
      · exact Or.inr (before.trans appended)

/-- A function that leaves the connection alone, and the timer as long as it matters. -/
theorem follows_of_silent {client client' : MqttClient} {calls : List MqttCall}
    (silent : calls.filterMap MqttCall.status? = []) (state : client'.connState = client.connState)
    (callback : client'.connectCb = client.connectCb)
    (counted : client.connState = .mqttConnecting →
      client'.cyclicTick = client.cyclicTick ∧ client'.timer = client.timer) : Follows client calls client' where
  callback
  order := fun _ => by
    rw [notifiedAll_silent _ silent, MqttClient.state, MqttClient.state, state]
  waits := fun _ => ⟨state, counted⟩

/-- A function that leaves the connection alone and puts out packets at most. -/
theorem does_of_appended {client client' : MqttClient} {calls : List MqttCall} {packets : List Packet}
    (silent : calls.filterMap MqttCall.status? = []) (state : client'.connState = client.connState)
    (callback : client'.connectCb = client.connectCb) (tick : client'.cyclicTick = client.cyclicTick)
    (timer : client'.timer = client.timer) (appended : Appended client packets client') :
    Does client calls packets client' where
  toFollows := follows_of_silent silent state callback fun _ => ⟨tick, timer⟩
  emits := Or.inr appended

/-- The same when the client does not wait for the answer to its connection request. -/
theorem does_of_idle {client client' : MqttClient} {calls : List MqttCall} {packets : List Packet}
    (silent : calls.filterMap MqttCall.status? = []) (idle : client.connState ≠ .mqttConnecting)
    (state : client'.connState = client.connState) (callback : client'.connectCb = client.connectCb)
    (appended : Appended client packets client') : Does client calls packets client' where
  toFollows := follows_of_silent silent state callback fun waiting => absurd waiting idle
  emits := Or.inr appended

theorem does_same (client : MqttClient) : Does client [] [] client :=
  does_of_appended rfl rfl rfl rfl rfl (.of_same rfl rfl)

theorem MqttClient.send_does {client client' : MqttClient} (sent : client.send = some client') :
    Does client [] [] client' := by
  obtain ⟨pcb, conn, rfl⟩ := Option.map_eq_some_iff.mp sent
  have kept := mqttOutputSend_sent client.output pcb
  refine does_of_appended rfl rfl rfl rfl rfl ⟨fun room => kept.length.trans room, ?_⟩
  simp [MqttClient.stream, conn, kept.stream]

/-- A packet for which there is room is put into the ring, and as much as possible is sent. -/
theorem put_packet {client put client' : MqttClient} {packet : Packet} (state : put.connState = client.connState)
    (callback : put.connectCb = client.connectCb) (tick : put.cyclicTick = client.cyclicTick)
    (timer : put.timer = client.timer) (conn : put.conn = client.conn)
    (output : put.output = client.output.pushAll 8 packet.bytes) (small : packet.body.length < 2 ^ 16 - 4)
    (space : mqttOutputCheckSpace client.output (BitVec.ofNat 16 packet.body.length) = true)
    (sent : put.send = some client') : Does client [] [packet] client' := by
  have does : Does client [] [packet] put :=
    does_of_appended rfl state callback tick timer (appended_packet small space output conn)
  exact does.trans (MqttClient.send_does sent)

/-- A packet with the identifier of another one, by which a step of its delivery is answered. -/
def responsePacket (msg : MqttMessageType) (pktId : BitVec 16) (qos : Byte) : Packet where
  control := controlByte msg.code 0#8 qos 0#8
  body := u16 pktId.toNat
  fits := by simp [u16]

def pingreqPacket : Packet where
  control := controlByte MqttMessageType.pingreq.code 0#8 0#8 0#8
  body := []
  fits := by simp

/-- The packets that the client puts out of its own accord. -/
inductive OwnPacket : Packet → Prop
  | puback (pktId : BitVec 16) : OwnPacket (responsePacket .puback pktId 0#8)
  | pubrec (pktId : BitVec 16) : OwnPacket (responsePacket .pubrec pktId 0#8)
  | pubrel (pktId : BitVec 16) : OwnPacket (responsePacket .pubrel pktId 1#8)
  | pubcomp (pktId : BitVec 16) : OwnPacket (responsePacket .pubcomp pktId 0#8)
  | pingreq : OwnPacket pingreqPacket

/-- What happens without a call of the user. -/
def Reacts (client : MqttClient) (calls : List MqttCall) (client' : MqttClient) : Prop :=
  ∃ packets, (∀ packet ∈ packets, OwnPacket packet) ∧ Does client calls packets client'

theorem Does.reacts {client client' : MqttClient} {calls : List MqttCall} (does : Does client calls [] client') :
    Reacts client calls client' := ⟨[], List.forall_mem_nil _, does⟩

theorem Reacts.trans {a b c : MqttClient} {calls calls' : List MqttCall} (now : Reacts a calls b)
    (later : Reacts b calls' c) : Reacts a (calls ++ calls') c := by
  obtain ⟨first, own, does⟩ := now
  obtain ⟨rest, ownRest, doesRest⟩ := later
  exact ⟨first ++ rest, List.forall_mem_append.mpr ⟨own, ownRest⟩, does.trans doesRest⟩

/-- The connection and the output are left alone. -/
structure SameConnection (client client' : MqttClient) : Prop where
  state : client'.connState = client.connState
  callback : client'.connectCb = client.connectCb
  tick : client'.cyclicTick = client.cyclicTick
  timer : client'.timer = client.timer
  output : client'.output = client.output
  conn : client'.conn = client.conn

theorem SameConnection.reacts {client client' : MqttClient} {calls : List MqttCall}
    (same : SameConnection client client') (silent : calls.filterMap MqttCall.status? = []) :
    Reacts client calls client' :=
  (does_of_appended silent same.state same.callback same.tick same.timer (.of_same same.output same.conn)).reacts

theorem requests_silent (calls : List RequestCall) :
    (calls.map MqttCall.request).filterMap MqttCall.status? = [] := by
  simp [List.filterMap_map, Function.comp_def, MqttCall.status?]

theorem pubAckRecRelResponse_output (rb : MqttRingbuf) (msg : MqttMessageType) (pktId : BitVec 16) (qos : Byte) :
    mqttOutputAppendU16 (mqttOutputAppendFixedHeader rb msg.code 0#8 qos 0#8 2#16) pktId =
      rb.pushAll 8 (responsePacket msg pktId qos).bytes := by
  rw [mqttOutputAppendU16_eq, mqttOutputAppendFixedHeader_eq, Ring.pushAll_append]
  rfl

theorem pubAckRecRelResponse_reacts {client client' : MqttClient} {msg : MqttMessageType} {pktId : BitVec 16}
    {qos : Byte} (own : OwnPacket (responsePacket msg pktId qos))
    (responded : pubAckRecRelResponse client msg pktId qos = some client') : Reacts client [] client' := by
  unfold pubAckRecRelResponse at responded
  split at responded
  case isTrue space =>
    have small : (responsePacket msg pktId qos).body.length < 2 ^ 16 - 4 := by simp [responsePacket, u16]
    refine ⟨_, List.forall_mem_singleton.mpr own, put_packet ?_ ?_ ?_ ?_ ?_ ?_ small space responded⟩
    case refine_6 => exact pubAckRecRelResponse_output client.output msg pktId qos
    all_goals rfl
  case isFalse =>
    cases responded
    exact (does_same client).reacts

/-- Only the answer to a connection request makes a connection. -/
theorem receivedConnack_does (client : MqttClient) (varHdrPayload : Nat) :
    Does client (receivedConnack client varHdrPayload).2.1 [] (receivedConnack client varHdrPayload).1 := by
  unfold receivedConnack
  split
  case isFalse => exact does_same client
  case isTrue waiting =>
    dsimp only
    split
    case isFalse => exact does_same client
    case isTrue accepted =>
      refine ⟨⟨rfl, fun heard => ?_, nofun⟩, Or.inr (.of_same rfl rfl)⟩
      have callback : client.connectCb = true := heard (by rw [waiting]; decide)
      simp [notifiedAll, callback, MqttCall.status?, MqttClient.state, waiting, notified, accepted]

theorem receivedAnswer_reacts {client client' : MqttClient} {pktType : Byte} {pktId : BitVec 16}
    {varHdrPayload length res : Nat} {calls : List MqttCall}
    (received : receivedAnswer client pktType pktId varHdrPayload length = some (client', calls, res)) :
    Reacts client calls client' := by
  obtain ⟨⟨requests, taken⟩, -, finished⟩ := Option.bind_eq_some_iff.mp received
  cases taken with
  | none =>
    cases finished
    exact SameConnection.reacts ⟨rfl, rfl, rfl, rfl, rfl, rfl⟩ rfl
  | some r =>
    dsimp only at finished
    split_ifs at finished
    · cases finished
      exact SameConnection.reacts ⟨rfl, rfl, rfl, rfl, rfl, rfl⟩ rfl
    · cases finished
      exact SameConnection.reacts ⟨rfl, rfl, rfl, rfl, rfl, rfl⟩ (requests_silent _)

/-- The parts of which the handling of incoming data is made up. What holds of each of them
and composes holds of the whole. -/
structure IncomingRule (R : MqttClient → List MqttCall → MqttClient → Prop) : Prop where
  trans {a b c : MqttClient} {calls more : List MqttCall} : R a calls b → R b more c → R a (calls ++ more) c
  input (client : MqttClient) (rxBuffer : Mem) (msgIdx : Nat) : R client [] { client with rxBuffer, msgIdx }
  identifier (client : MqttClient) (inpubPktId : BitVec 16) : R client [] { client with inpubPktId }
  told (client : MqttClient) (event : ClientEvent) : R client [.inpub event] client
  connack (client : MqttClient) (varHdrPayload : Nat) :
    R client (receivedConnack client varHdrPayload).2.1 (receivedConnack client varHdrPayload).1
  response {client client' : MqttClient} {msg : MqttMessageType} {pktId : BitVec 16} {qos : Byte} :
    OwnPacket (responsePacket msg pktId qos) → pubAckRecRelResponse client msg pktId qos = some client' →
      R client [] client'
  answer {client client' : MqttClient} {pktType : Byte} {pktId : BitVec 16} {varHdrPayload length res : Nat}
      {calls : List MqttCall} :
    receivedAnswer client pktType pktId varHdrPayload length = some (client', calls, res) → R client calls client'

namespace IncomingRule

variable {R : MqttClient → List MqttCall → MqttClient → Prop} (rule : IncomingRule R)

include rule

theorem same (client : MqttClient) : R client [] client := rule.input client client.rxBuffer client.msgIdx

theorem payload {client client' : MqttClient} {payloadStart payloadLength remainingLength : Nat} {qos : Byte}
    {calls : List MqttCall}
    (handed : publishPayload client payloadStart payloadLength remainingLength qos = some (client', calls)) :
    R client calls client' := by
  simp only [publishPayload] at handed
  split_ifs at handed
  · obtain ⟨responding, responded, same⟩ := Option.map_eq_some_iff.mp handed
    cases same
    have own : OwnPacket (responsePacket (publishResponse qos) client.inpubPktId 0#8) := by
      unfold publishResponse
      split
      · exact .puback _
      · exact .pubrec _
    exact rule.trans (rule.told client _) (rule.response own responded)
  · cases handed
    exact rule.told client _
  · cases handed
    exact rule.same client

theorem announcement {client client' : MqttClient} {varHdrPayload length remainingLength offset : Nat} {qos : Byte}
    {calls : List MqttCall}
    (announced : announcePublish client varHdrPayload length remainingLength qos = some (some (client', calls, offset))) :
    R client calls client' := by
  simp only [announcePublish] at announced
  split at announced
  · cases announced
  · split at announced
    · cases announced
    · simp only [Option.some.injEq, Prod.mk.injEq] at announced
      obtain ⟨rfl, rfl, -⟩ := announced
      unfold pubCall
      split
      · exact rule.trans (rule.told client _) (rule.identifier client _)
      · exact rule.identifier client _

theorem publish {client client' : MqttClient} {varHdrPayload length remainingLength res : Nat}
    {calls : List MqttCall}
    (received : receivedPublish client varHdrPayload length remainingLength = some (client', calls, res)) :
    R client calls client' := by
  simp only [receivedPublish] at received
  split at received
  · obtain ⟨announced, came, finished⟩ := Option.bind_eq_some_iff.mp received
    cases announced with
    | none =>
      cases finished
      exact rule.same client
    | some first =>
      obtain ⟨⟨final, data⟩, handed, same⟩ := Option.map_eq_some_iff.mp finished
      cases same
      exact rule.trans (rule.announcement came) (rule.payload handed)
  · obtain ⟨⟨final, data⟩, handed, same⟩ := Option.map_eq_some_iff.mp received
    cases same
    exact rule.payload handed

theorem reply {client client' : MqttClient} {pktType : Byte} {varHdrPayload length res : Nat} {calls : List MqttCall}
    (received : receivedReply client pktType varHdrPayload length = some (client', calls, res)) :
    R client calls client' := by
  simp only [receivedReply] at received
  split_ifs at received
  · cases received
    exact rule.same client
  · obtain ⟨responding, responded, same⟩ := Option.map_eq_some_iff.mp received
    cases same
    exact rule.response (.pubrel _) responded
  · obtain ⟨responding, responded, same⟩ := Option.map_eq_some_iff.mp received
    cases same
    exact rule.response (.pubcomp _) responded
  · exact rule.answer received
  · cases received
    exact rule.same client

theorem message {client client' : MqttClient} {fixedHdrIdx length remainingLength res : Nat} {calls : List MqttCall}
    (received : mqttMessageReceived client fixedHdrIdx length remainingLength = some (client', calls, res)) :
    R client calls client' := by
  simp only [mqttMessageReceived] at received
  split_ifs at received
  · have connack := rule.connack client fixedHdrIdx
    rw [Option.some.inj received] at connack
    exact connack
  · cases received
    exact rule.same client
  · exact rule.publish received
  · exact rule.reply received

theorem headerByte {p : List Byte} {s s' : ParseState} (parsed : parseHeaderByte p s = some s') :
    R s.client [] s'.client := by
  unfold parseHeaderByte at parsed
  split_ifs at parsed
  · cases parsed
    exact rule.same s.client
  · cases parsed
    exact rule.input s.client _ _

/-- A message that has been looked at, with the buffer empty again. -/
theorem emptied {client client' : MqttClient} {calls : List MqttCall} (looked : R client calls client') :
    R client calls { client' with msgIdx := 0 } := by
  have both := rule.trans looked (rule.input client' client'.rxBuffer 0)
  rwa [List.append_nil] at both

theorem length {s : ParseState} {round : ParseRound} (parsed : parseLength s = some round) :
    R s.client round.calls round.state.client := by
  have kept (msgRemLen : Nat) (same : some (ParseRound.mk { s with msgRemLen } [] none) = some round) :
      R s.client round.calls round.state.client := by
    cases same
    exact rule.same s.client
  unfold parseLength at parsed
  split at parsed
  · exact kept s.msgRemLen parsed
  · dsimp only at parsed
    split_ifs at parsed
    · exact kept _ parsed
    · obtain ⟨⟨client, calls, res⟩, received, same⟩ := Option.map_eq_some_iff.mp parsed
      cases same
      exact rule.emptied (rule.message received)
    · exact kept _ parsed

theorem answered {client : MqttClient} {s : ParseState} {result : MqttClient × List MqttCall × Nat}
    (looked : R client result.2.1 result.1) :
    R client (messageAnswered s result).calls (messageAnswered s result).state.client := by
  simp only [messageAnswered]
  split_ifs
  · exact looked
  · exact rule.emptied looked
  · exact looked

theorem round {p : List Byte} {s : ParseState} {round : ParseRound} (parsed : parseRound p s = some round) :
    R s.client round.calls round.state.client := by
  unfold parseRound at parsed
  split at parsed
  · obtain ⟨read, byte, looked⟩ := Option.bind_eq_some_iff.mp parsed
    exact rule.trans (rule.headerByte byte) (rule.length looked)
  · simp only [parseBody, Option.ite_none_right_eq_some] at parsed
    obtain ⟨-, parsed⟩ := parsed
    generalize s.client.rxBuffer.store _ _ = rxBuffer at parsed
    generalize (s.client.msgIdx + min _ _) % 2 ^ 32 = msgIdx at parsed
    split at parsed
    · obtain ⟨result, received, rfl⟩ := Option.map_eq_some_iff.mp parsed
      exact rule.answered (rule.trans (rule.input s.client rxBuffer msgIdx) (rule.message received))
    · cases parsed
      exact rule.input s.client rxBuffer msgIdx

/-- By induction on the rounds. -/
theorem parse {p : List Byte} {fuel : Nat} {s : ParseState} {client' : MqttClient} {calls : List MqttCall} {res : Nat}
    (parsed : parseLoop p fuel s = some (client', calls, res)) : R s.client calls client' := by
  induction fuel generalizing s client' calls res with
  | zero =>
    rw [parseLoop] at parsed
    split at parsed
    · cases parsed
      exact rule.same _
    · cases parsed
  | succ fuel ih =>
    rw [parseLoop] at parsed
    split at parsed
    · cases parsed
      exact rule.same _
    · obtain ⟨round, first, rest⟩ := Option.bind_eq_some_iff.mp parsed
      have now := rule.round first
      split at rest
      · cases rest
        exact now
      · obtain ⟨⟨client, more, res'⟩, later, same⟩ := Option.bind_eq_some_iff.mp rest
        cases same
        exact rule.trans now (ih later)

end IncomingRule

theorem reacts_rule : IncomingRule Reacts where
  trans := Reacts.trans
  input _ _ _ := SameConnection.reacts ⟨rfl, rfl, rfl, rfl, rfl, rfl⟩ rfl
  identifier _ _ := SameConnection.reacts ⟨rfl, rfl, rfl, rfl, rfl, rfl⟩ rfl
  told _ _ := SameConnection.reacts ⟨rfl, rfl, rfl, rfl, rfl, rfl⟩ rfl
  connack client varHdrPayload := (receivedConnack_does client varHdrPayload).reacts
  response := pubAckRecRelResponse_reacts
  answer := receivedAnswer_reacts

/-- The connection is gone, and the user has been told. -/
theorem mqttClose_does {client client' : MqttClient} {reason : Nat} {calls : List MqttCall}
    (failure : reason ≠ mqttConnectAccepted) (closed : mqttClose client reason = some (client', calls)) :
    Does client calls [] client' := by
  obtain ⟨requests, -, rest⟩ := Option.bind_eq_some_iff.mp closed
  dsimp only at rest
  split at rest
  case isTrue connected =>
    cases rest
    refine ⟨⟨rfl, fun heard => ?_, nofun⟩, Or.inl rfl⟩
    have callback : client.connectCb = true := heard connected
    cases state : client.connState with
    | tcpDisconnected => exact absurd state connected
    | _ => simp [notifiedAll, callback, MqttCall.status?, MqttClient.state, state, notified, failure]
  case isFalse disconnected =>
    cases rest
    have state : client.connState = .tcpDisconnected := not_not.mp disconnected
    refine ⟨⟨rfl, fun _ => rfl, fun waits => ?_⟩, Or.inl rfl⟩
    rw [MqttClient.state, state] at waits
    cases waits

theorem closeWhen_does {bad : Prop} [Decidable bad] {client client' : MqttClient} {reason : Nat}
    {calls : List MqttCall} (failure : bad → reason ≠ mqttConnectAccepted)
    (closed : closeWhen bad client reason = some (client', calls)) : Does client calls [] client' := by
  unfold closeWhen at closed
  split at closed
  case isTrue given => exact mqttClose_does (failure given) closed
  case isFalse =>
    cases closed
    exact does_same client

end Maglev
