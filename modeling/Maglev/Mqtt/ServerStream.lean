import Maglev.Lib.PartialMachine
import Maglev.Mqtt.Incoming

namespace Maglev

open MqttFormat

theorem feed_keepAlive {client : MqttClient} {b : Byte} {r : MqttClient × List MqttCall × Nat}
    (fed : feed client b = some r) : r.1.keepAlive = client.keepAlive := by
  unfold feed at fed
  split at fed
  · split_ifs at fed
    rw [feedHeader] at fed
    split at fed
    · cases fed
      rfl
    · split_ifs at fed
      · obtain ⟨answer, received, rfl⟩ := Option.map_eq_some_iff.mp fed
        exact (mqttMessageReceived_sameInput received).keepAlive
      · cases fed
        rfl
  · simp only [feedBody] at fed
    split_ifs at fed
    · obtain ⟨answer, received, finished⟩ := Option.bind_eq_some_iff.mp fed
      have same := (mqttMessageReceived_sameInput received).keepAlive
      dsimp only at finished
      split_ifs at finished
      all_goals
        cases finished
        exact same
    · cases fed
      rfl

/-- The data that the TCP layer hands over, segment by segment. -/
def recvMachine : PartialMachine MqttClient (List Byte) MqttCall where
  step client p := mqttTcpRecvCb client (some p) .ok

/-- Without a keep-alive, the callback for received data is the parser. -/
theorem recvMachine_run {client client' : MqttClient} (framed : Framed client) (keepAlive : client.keepAlive = 0#16)
    (segments : List (List Byte)) {calls : List MqttCall}
    (fed : byteParser.run client segments.flatten = some (client', calls, byteParser.going)) :
    recvMachine.run client segments = some (client', calls) := by
  induction segments generalizing client calls with
  | nil =>
    cases fed
    rfl
  | cons p segments ih =>
    rw [List.flatten_cons, Consumer.run_append] at fed
    obtain ⟨⟨between, first, res⟩, ranFirst, later⟩ := Option.bind_eq_some_iff.mp fed
    by_cases going : res = byteParser.going
    · subst going
      obtain ⟨parsed, framed'⟩ := mqttParseIncoming_eq framed ranFirst
      have kept : between.keepAlive = 0#16 :=
        byteParser.run_invariant (P := fun client => client.keepAlive = 0#16)
          (fun _ _ _ zero fed => (feed_keepAlive fed).trans zero) keepAlive ranFirst
      rw [Consumer.andThen_going] at later
      obtain ⟨⟨final, more, res⟩, ranRest, same⟩ := Option.map_eq_some_iff.mp later
      cases same
      have received : recvMachine.step client p = some (between, first) := by
        simp only [recvMachine, mqttTcpRecvCb, parsed, ne_eq, not_true_eq_false, if_false, Option.bind_eq_bind,
          Option.bind_some]
        simp [byteParser, closeWhen, kept]
      rw [recvMachine.run_cons received, ih (framed' rfl) kept ranRest]
      rfl
    · rw [byteParser.andThen_stopped going] at later
      cases later
      exact absurd rfl going

/-- A packet that carries the identifier of another one. A subscription is answered with
one result, since the client asks for one topic at a time. -/
structure Reply where
  control : Byte
  type : MqttMessageType
  pktId : BitVec 16
  results : List Byte
  coded : mqttCtlPacketType control = type.code
  kind : type ∈ [.puback, .pubrec, .pubrel, .pubcomp, .suback, .unsuback]
  identified : pktId ≠ 0#16
  answered : results.length = if type = .suback then 1 else 0

def Reply.body (r : Reply) : List Byte := u16 r.pktId.toNat ++ r.results

theorem Reply.body_length (r : Reply) : r.body.length = if r.type = .suback then 3 else 2 := by
  rw [Reply.body, List.length_append, r.answered]
  split_ifs <;> rfl

/-- What a server sends to a client that is connected. -/
inductive ServerPacket
  | publish (m : PublishMessage) (fits : m.Fits)
  | reply (r : Reply)
  | pingresp

def ServerPacket.packet : ServerPacket → Packet
  | .publish m fits => m.packet fits.short
  | .reply r => ⟨r.control, r.body, by rw [r.body_length]; split_ifs <;> decide⟩
  | .pingresp => ⟨0xd0#8, [], by decide⟩

def MqttCall.inpub? : MqttCall → Option ClientEvent
  | .inpub event => some event
  | _ => none

theorem filterMap_inpub (events : List ClientEvent) :
    (events.map MqttCall.inpub).filterMap MqttCall.inpub? = events := by
  simp [List.filterMap_map, Function.comp_def, MqttCall.inpub?]

/-- The callbacks for incoming data that a packet leads to. -/
def ServerPacket.events : ServerPacket → List ClientEvent
  | .publish m _ => m.events
  | _ => []

theorem Ready.answer {client : MqttClient} (ready : Ready client) (pktType : Byte) (pktId : BitVec 16)
    (varHdrPayload : Nat) {length : Nat} (whole : pktType = MqttMessageType.suback.code → 3 ≤ length) :
    ∃ client' calls, receivedAnswer client pktType pktId varHdrPayload length =
        some (client', calls, mqttConnectAccepted) ∧ calls.filterMap MqttCall.inpub? = [] ∧ Ready client' := by
  obtain ⟨waiting, represents⟩ := ready.requests
  obtain ⟨q, step, represents'⟩ := represents.answer pktId (replyErr pktType (client.rxBuffer (varHdrPayload + 2)))
  obtain ⟨⟨requests, taken⟩, took, same⟩ := Option.map_eq_some_iff.mp step
  rw [receivedAnswer, took]
  cases taken with
  | none =>
    obtain ⟨rfl, -⟩ := Prod.mk.inj same
    exact ⟨_, [], rfl, rfl, ready.connected, ready.conn, ready.pub, ready.data, _, represents'⟩
  | some r =>
    obtain ⟨rfl, -⟩ := Prod.mk.inj same
    refine ⟨_, _, if_neg fun small => ?_, ?_, ready.connected, ready.conn, ready.pub, ready.data, _, represents'⟩
    · have := whole small.1
      omega
    · simp [List.filterMap_map, Function.comp_def, MqttCall.inpub?]

theorem MqttMessageType.code_inj {a b : MqttMessageType} : a.code = b.code ↔ a = b := by
  refine ⟨fun same => ?_, congrArg _⟩
  revert same
  cases a <;> cases b <;> decide

/-- A reply in the buffer. -/
theorem Ready.reply {client : MqttClient} (ready : Ready client) (r : Reply) {fixedHdrIdx : Nat}
    (control : client.rxBuffer 0 = r.control) (held : Holds client.rxBuffer fixedHdrIdx r.body) :
    ∃ client' calls, mqttMessageReceived client fixedHdrIdx r.body.length 0 =
        some (client', calls, mqttConnectAccepted) ∧ calls.filterMap MqttCall.inpub? = [] ∧ Ready client' := by
  have word : client.word fixedHdrIdx = r.pktId.toNat := word_of_holds r.pktId.isLt (holds_append.mp held).1
  have id : BitVec.ofNat 16 (client.word fixedHdrIdx) = r.pktId := by rw [word, BitVec.ofNat_toNat, BitVec.setWidth_eq]
  have type : mqttCtlPacketType (client.rxBuffer 0) = r.type.code := by
    rw [control]
    exact r.coded
  have length := r.body_length
  have answer := @Ready.answer client ready r.type.code r.pktId fixedHdrIdx r.body.length fun suback => by
    rw [length, if_pos (MqttMessageType.code_inj.mp suback)]
  have responds (msg : MqttMessageType) (qos : Byte) : ∃ client' calls,
      (pubAckRecRelResponse client msg r.pktId qos).map (·, ([] : List MqttCall), mqttConnectAccepted) =
        some (client', calls, mqttConnectAccepted) ∧ calls.filterMap MqttCall.inpub? = [] ∧ Ready client' := by
    obtain ⟨client', responded, ready'⟩ := ready.respond msg r.pktId qos
    exact ⟨client', [], by rw [responded]; rfl, rfl, ready'⟩
  have kind := r.kind
  simp only [mqttMessageReceived, type, receivedReply, id, if_neg r.identified, MqttMessageType.code_inj] at answer ⊢
  generalize r.type = kindOf at *
  cases kindOf with
  | puback | pubcomp | suback | unsuback => simpa using answer
  | pubrec | pubrel => simpa using responds _ _
  | connect | connack | publish | subscribe | unsubscribe | pingreq | pingresp | disconnect => simp at kind

theorem Ready.reply_run {client : MqttClient} (ready : Ready client) (zero : client.msgIdx = 0) (r : Reply) :
    (∃ client' calls, byteParser.run client (ServerPacket.reply r).packet.bytes =
        some (client', calls, byteParser.going) ∧
      calls.filterMap MqttCall.inpub? = [] ∧ Ready client' ∧ client'.msgIdx = 0) ∧
    ∃ client', byteParser.run client (ServerPacket.reply r).packet.bytes.dropLast =
      some (client', [], byteParser.going) := by
  have few : r.body.length ≤ 3 := by
    rw [r.body_length]
    split_ifs <;> decide
  have nonempty : r.body ≠ [] := List.append_ne_nil_of_left_ne_nil (List.cons_ne_nil _ _) _
  obtain ⟨ran, read⟩ := byteParser_header zero (ServerPacket.reply r).packet nonempty
  have ready₁ := ready.copied 0 (ServerPacket.reply r).packet.header
  have whole (part : List Byte) : byteParser.run client ((ServerPacket.reply r).packet.header ++ part) =
      byteParser.run (client.copied 0 (ServerPacket.reply r).packet.header) part := by
    rw [Consumer.run_append, ran, Option.bind_some, Consumer.andThen_silent]
  generalize client.copied 0 (ServerPacket.reply r).packet.header = client₁ at read ready₁ whole
  have at_ : InMessage client₁ (ServerPacket.reply r).packet.header.length r.body := read.inMessage
  have bytes : (ServerPacket.reply r).packet.bytes = (ServerPacket.reply r).packet.header ++ r.body := rfl
  generalize (ServerPacket.reply r).packet.header.length = fixedHdrIdx at at_
  have inside := (headerSize_eq_some.mp at_.size).1
  have fits : r.body.length ≤ mqttVarHeaderBufferLen - fixedHdrIdx := by
    unfold mqttVarHeaderBufferLen
    omega
  have control : (client₁.copied fixedHdrIdx r.body).rxBuffer 0 = r.control := by
    rw [copied_before client₁ _ (by omega)]
    exact read.control
  obtain ⟨client', calls, received, silent, ready'⟩ := (ready₁.copied fixedHdrIdx r.body).reply r control
    (Mem.store_holds client₁.rxBuffer fixedHdrIdx r.body)
  rw [← Nat.add_sub_cancel_left fixedHdrIdx r.body.length] at received
  obtain ⟨final, delivered, ready'', zero', -⟩ := deliver_taken received ready'
  rw [bytes, List.dropLast_append_of_ne_nil nonempty, whole, whole, at_.last nonempty fits]
  exact ⟨⟨final, calls, delivered, silent, ready'', zero' rfl⟩, at_.cut fits⟩

theorem Ready.pingresp_run {client : MqttClient} (ready : Ready client) (zero : client.msgIdx = 0) :
    (∃ client', byteParser.run client ServerPacket.pingresp.packet.bytes = some (client', [], byteParser.going) ∧
      Ready client' ∧ client'.msgIdx = 0) ∧
    ∃ client', byteParser.run client ServerPacket.pingresp.packet.bytes.dropLast =
      some (client', [], byteParser.going) := by
  have control : (client.copied 0 ServerPacket.pingresp.packet.bytes).rxBuffer 0 = 0xd0#8 :=
    (holds_cons.mp (Mem.store_holds client.rxBuffer 0 ServerPacket.pingresp.packet.bytes)).1
  have received : mqttMessageReceived (client.copied 0 ServerPacket.pingresp.packet.bytes) 2 0 0 =
      some (client.copied 0 ServerPacket.pingresp.packet.bytes, [], mqttConnectAccepted) := by
    rw [mqttMessageReceived, control, if_neg (by decide), if_pos (by decide)]
  refine ⟨⟨_, byteParser_empty zero _ rfl received, ?_, rfl⟩, client.stored 0xd0#8, ?_⟩
  · exact ⟨ready.connected, ready.conn, ready.pub, ready.data, ready.requests⟩
  · have bytes : ServerPacket.pingresp.packet.bytes.dropLast = [0xd0#8] := by decide
    rw [bytes, Consumer.run_cons, (byteParser_control zero 0xd0#8).1, Option.bind_some, Consumer.andThen_silent]
    rfl

/-- A packet does what it is there for, and leaves the client ready for the next one.
Without its last byte, it hands over less. -/
theorem Ready.packet {client : MqttClient} (ready : Ready client) (zero : client.msgIdx = 0) (p : ServerPacket) :
    (∃ client' calls, byteParser.run client p.packet.bytes = some (client', calls, byteParser.going) ∧
      calls.filterMap MqttCall.inpub? = p.events ∧ Ready client' ∧ client'.msgIdx = 0) ∧
    ∃ client' calls, byteParser.run client p.packet.bytes.dropLast = some (client', calls, byteParser.going) ∧
      calls.filterMap MqttCall.inpub? <+: p.events.dropLast := by
  cases p with
  | publish m fits =>
    obtain ⟨⟨client', ran, ready', zero'⟩, cutClient, calls, cut, before⟩ := ready.publish zero fits
    refine ⟨⟨client', _, ran, filterMap_inpub _, ready', zero'⟩, cutClient, calls, cut, ?_⟩
    have handed := before.filterMap MqttCall.inpub?
    rwa [filterMap_inpub] at handed
  | reply r =>
    obtain ⟨complete, client', cut⟩ := ready.reply_run zero r
    exact ⟨complete, client', [], cut, List.nil_prefix⟩
  | pingresp =>
    obtain ⟨⟨client', ran, ready', zero'⟩, cutClient, cut⟩ := ready.pingresp_run zero
    exact ⟨⟨client', [], ran, rfl, ready', zero'⟩, cutClient, [], cut, List.nil_prefix⟩

/-- A sequence of packets. -/
theorem Ready.stream {client : MqttClient} (ready : Ready client) (zero : client.msgIdx = 0)
    (packets : List ServerPacket) :
    ∃ client' calls, byteParser.run client (packets.flatMap (·.packet.bytes)) =
        some (client', calls, byteParser.going) ∧
      calls.filterMap MqttCall.inpub? = packets.flatMap ServerPacket.events ∧ Ready client' ∧ client'.msgIdx = 0 := by
  induction packets generalizing client with
  | nil => exact ⟨client, [], rfl, rfl, ready, zero⟩
  | cons p packets ih =>
    obtain ⟨⟨between, first, ran, handed, ready', zero'⟩, -⟩ := ready.packet zero p
    obtain ⟨final, later, ranLater, handedLater, ready'', zero''⟩ := ih ready' zero'
    refine ⟨final, first ++ later, ?_, ?_, ready'', zero''⟩
    · rw [List.flatMap_cons, Consumer.run_append, ran, Option.bind_some, Consumer.andThen_going, ranLater]
      rfl
    · rw [List.filterMap_append, handed, handedLater, List.flatMap_cons]

/-- The connection is lost in the middle of a packet. -/
theorem Ready.cut {client : MqttClient} (ready : Ready client) (zero : client.msgIdx = 0) (p : ServerPacket)
    {part : List Byte} (cut : part <+: p.packet.bytes) (proper : part ≠ p.packet.bytes) :
    ∃ client' calls, byteParser.run client part = some (client', calls, byteParser.going) ∧
      calls.filterMap MqttCall.inpub? <+: p.events.dropLast := by
  obtain ⟨-, client', calls, ran, handed⟩ := ready.packet zero p
  have nonempty : p.packet.bytes ≠ [] := List.cons_ne_nil _ _
  have earlier : part <+: p.packet.bytes.dropLast := by
    rw [← List.dropLast_append_getLast nonempty, List.prefix_concat_iff, List.dropLast_append_getLast nonempty] at cut
    exact cut.resolve_left proper
  obtain ⟨rest, whole⟩ := earlier
  rw [← whole] at ran
  obtain ⟨⟨between, first, res⟩, ranPart, before, going⟩ := byteParser.run_of_append ran
  cases going rfl
  exact ⟨between, first, ranPart, (before.filterMap MqttCall.inpub?).trans handed⟩

end Maglev
