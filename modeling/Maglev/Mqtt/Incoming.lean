import Maglev.Mqtt.Deadlines
import Maglev.Mqtt.Packets

namespace Maglev

open MqttFormat

/-- A connection that the program has set up: the callbacks are there, and the requests
are in order. -/
structure Ready (client : MqttClient) : Prop where
  connected : client.connState = .mqttConnected
  conn : client.conn.isSome = true
  pub : client.pubCb = true
  data : client.dataCb = true
  requests : ∃ waiting, Represents client.requests waiting

/-- A client that has just been connected and set up. -/
def setUpClient : MqttClient :=
  { MqttClient.zero true with
    connState := .mqttConnected
    conn := some ⟨256, [], []⟩
    requests := initialRequests
    dataCb := true
    pubCb := true }

theorem setUpClient_ready : Ready setUpClient := ⟨rfl, rfl, rfl, rfl, ⟨[], 0⟩, represents_initial⟩

theorem Ready.respond {client : MqttClient} (ready : Ready client) (msg : MqttMessageType) (pktId : BitVec 16)
    (qos : Byte) : ∃ client', pubAckRecRelResponse client msg pktId qos = some client' ∧ Ready client' := by
  obtain ⟨pcb, conn⟩ := Option.isSome_iff_exists.mp ready.conn
  unfold pubAckRecRelResponse
  split_ifs
  · exact ⟨_, congrArg (Option.map _) conn, ready.connected, rfl, ready.pub, ready.data, ready.requests⟩
  · exact ⟨client, rfl, ready⟩

/-- The calls for a part of the payload. -/
def payloadCalls (payload : List Byte) (remainingLength : Nat) : List MqttCall :=
  if 0 < payload.length ∨ remainingLength = 0 then [.inpub (.data payload (dataFlags remainingLength))] else []

theorem Ready.publishPayload {client : MqttClient} (ready : Ready client) {start : Nat} {payload : List Byte}
    (held : Holds client.rxBuffer start payload) (remainingLength : Nat) (qos : Byte) :
    ∃ client', publishPayload client start payload.length remainingLength qos =
        some (client', payloadCalls payload remainingLength) ∧ Ready client' := by
  simp only [Maglev.publishPayload, payloadCalls, held.read_eq, ready.data, if_true]
  by_cases some : payload.length > 0 ∨ remainingLength = 0
  · rw [if_pos some, if_pos some]
    by_cases answered : remainingLength = 0 ∧ qos ≠ 0#8
    · obtain ⟨client', responded, ready'⟩ := ready.respond (publishResponse qos) client.inpubPktId 0#8
      rw [if_pos answered, responded]
      exact ⟨client', rfl, ready'⟩
    · rw [if_neg answered]
      exact ⟨client, rfl, ready⟩
  · rw [if_neg some, if_neg some]
    exact ⟨client, rfl, ready⟩

/-- Bytes in pieces of the given size, the last of which may be smaller. -/
def windows (size : Nat) (bytes : List Byte) : List (List Byte) :=
  if bytes.length ≤ size ∨ size = 0 then [bytes] else bytes.take size :: windows size (bytes.drop size)
termination_by bytes.length
decreasing_by
  rw [List.length_drop]
  omega

theorem windows_ne_nil (size : Nat) (bytes : List Byte) : windows size bytes ≠ [] := by
  unfold windows
  split_ifs <;> exact List.cons_ne_nil _ _

theorem windows_flatten (size : Nat) (bytes : List Byte) : (windows size bytes).flatten = bytes := by
  fun_induction windows with
  | case1 bytes short => simp
  | case2 bytes long ih => rw [List.flatten_cons, ih, List.take_append_drop]

theorem windows_length_le {size : Nat} (pos : 0 < size) (bytes : List Byte) :
    ∀ window ∈ windows size bytes, window.length ≤ size := by
  fun_induction windows with
  | case1 bytes short =>
    rw [List.forall_mem_singleton]
    omega
  | case2 bytes long ih => exact List.forall_mem_cons.mpr ⟨List.length_take_le _ _, ih⟩

theorem dataEvents_cons (fragment : List Byte) {rest : List (List Byte)} (more : rest ≠ []) :
    dataEvents (fragment :: rest) = .data fragment 0#8 :: dataEvents rest := by
  cases rest with
  | nil => exact absurd rfl more
  | cons next rest => rfl

theorem dataEvents_length (fragments : List (List Byte)) : (dataEvents fragments).length = fragments.length := by
  induction fragments with
  | nil => rfl
  | cons fragment rest ih =>
    cases rest with
    | nil => rfl
    | cons next rest => rw [dataEvents_cons _ (List.cons_ne_nil _ _), List.length_cons, ih, List.length_cons (a := fragment)]

theorem dataEvents_ne_nil {fragments : List (List Byte)} (nonempty : fragments ≠ []) : dataEvents fragments ≠ [] := by
  rw [← List.length_pos_iff, dataEvents_length]
  exact List.length_pos_iff.mpr nonempty

/-- A part of a message that the client has taken: the parser is ready for the next packet
if it was the last one, and has lost nothing if not. -/
theorem deliver_taken {client client' : MqttClient} {fixedHdrIdx end_ left : Nat} {calls : List MqttCall}
    (received : mqttMessageReceived client fixedHdrIdx (end_ - fixedHdrIdx) left =
      some (client', calls, mqttConnectAccepted)) (ready : Ready client') :
    ∃ client'', deliver client fixedHdrIdx end_ left = some (client'', calls, byteParser.going) ∧ Ready client'' ∧
      (left = 0 → client''.msgIdx = 0) ∧ (left ≠ 0 → SameInput client client'') := by
  by_cases complete : left = 0
  · refine ⟨{ client' with msgIdx := 0 }, ?_, ⟨ready.connected, ready.conn, ready.pub, ready.data, ready.requests⟩,
      fun _ => rfl, fun more => absurd complete more⟩
    rw [deliver, received]
    exact if_pos ⟨rfl, complete⟩
  · refine ⟨client', ?_, ready, fun last => absurd last complete, fun _ => mqttMessageReceived_sameInput received⟩
    rw [deliver, received]
    exact if_neg fun last => complete last.2

theorem Ready.copied {client : MqttClient} (ready : Ready client) (index : Nat) (bytes : List Byte) :
    Ready (client.copied index bytes) :=
  ⟨ready.connected, ready.conn, ready.pub, ready.data, ready.requests⟩

theorem mqttMessageReceived_publish {client : MqttClient}
    (type : mqttCtlPacketType (client.rxBuffer 0) = MqttMessageType.publish.code)
    (fixedHdrIdx length remainingLength : Nat) :
    mqttMessageReceived client fixedHdrIdx length remainingLength =
      receivedPublish client fixedHdrIdx length remainingLength := by
  rw [mqttMessageReceived, if_neg (by rw [type]; decide), if_neg (by rw [type]; decide), if_pos type]

section Later

variable {client : MqttClient} {fixedHdrIdx : Nat}

/-- A part of a publish behind the first buffer. -/
theorem Ready.publish_later (ready : Ready client) (header : headerSize client = some fixedHdrIdx)
    (type : mqttCtlPacketType (client.rxBuffer 0) = MqttMessageType.publish.code)
    (past : mqttVarHeaderBufferLen ≤ client.msgIdx) {window : List Byte} (nonempty : window ≠ []) (left : Nat) :
    ∃ client', deliver (client.copied fixedHdrIdx window) fixedHdrIdx (fixedHdrIdx + window.length) left =
        some (client', [.inpub (.data window (dataFlags left))], byteParser.going) ∧ Ready client' ∧
      (left = 0 → client'.msgIdx = 0) ∧ (left ≠ 0 → SameInput (client.copied fixedHdrIdx window) client') := by
  have behind : 0 < fixedHdrIdx := Nat.lt_of_lt_of_le (by decide) (headerSize_eq_some.mp header).1.1
  have some := List.length_pos_iff.mpr nonempty
  have type' : mqttCtlPacketType ((client.copied fixedHdrIdx window).rxBuffer 0) = MqttMessageType.publish.code := by
    rwa [copied_before client window behind]
  have past' : mqttVarHeaderBufferLen < (client.copied fixedHdrIdx window).msgIdx :=
    Nat.lt_of_le_of_lt past (Nat.lt_add_of_pos_right some)
  obtain ⟨client', handed, ready'⟩ := (ready.copied fixedHdrIdx window).publishPayload
    (Mem.store_holds client.rxBuffer fixedHdrIdx window) left
    (mqttCtlPacketQos ((client.copied fixedHdrIdx window).rxBuffer 0))
  rw [payloadCalls, if_pos (Or.inl some)] at handed
  refine deliver_taken ?_ ready'
  rw [Nat.add_sub_cancel_left, mqttMessageReceived_publish type', receivedPublish]
  simp only [if_neg (Nat.not_le.mpr past')]
  exact congrArg (Option.map _) handed

/-- What is left of a publish behind the first buffer, with the last byte and without it. -/
theorem InMessage.publish_rest {body : List Byte} (at_ : InMessage client fixedHdrIdx body) (nonempty : body ≠ [])
    (ready : Ready client) (type : mqttCtlPacketType (client.rxBuffer 0) = MqttMessageType.publish.code)
    (past : mqttVarHeaderBufferLen ≤ client.msgIdx) {size : Nat} (space : mqttVarHeaderBufferLen - fixedHdrIdx = size) :
    (∃ client', byteParser.run client body =
        some (client', (dataEvents (windows size body)).map .inpub, byteParser.going) ∧
      Ready client' ∧ client'.msgIdx = 0) ∧
    ∃ client', byteParser.run client body.dropLast =
      some (client', (dataEvents (windows size body)).dropLast.map .inpub, byteParser.going) := by
  induction body using windows.induct size generalizing client with
  | case1 body short =>
    have below := at_.header_lt
    have fits : body.length ≤ mqttVarHeaderBufferLen - fixedHdrIdx := by omega
    have single : dataEvents (windows size body) = [.data body mqttDataFlagLast] := by
      rw [windows, if_pos short, dataEvents]
    obtain ⟨client', delivered, ready', zero, -⟩ := ready.publish_later at_.size type past nonempty 0
    rw [single, at_.last nonempty fits, delivered]
    exact ⟨⟨client', rfl, ready', zero rfl⟩, at_.cut fits⟩
  | case2 body long ih =>
    have below := at_.header_lt
    have length : (body.take size).length = size := by
      rw [List.length_take]
      omega
    have split : body = body.take size ++ body.drop size := (List.take_append_drop size body).symm
    have full : fixedHdrIdx + (body.take size).length = mqttVarHeaderBufferLen := by omega
    have some : body.take size ≠ [] := List.length_pos_iff.mp (by omega)
    have more : 0 < (body.drop size).length := by
      rw [List.length_drop]
      omega
    obtain ⟨client', delivered, ready', -, kept⟩ :=
      ready.publish_later at_.size type past some (body.drop size).length
    have same := kept (Nat.ne_of_gt more)
    rw [← at_.window split full] at delivered
    have type' : mqttCtlPacketType (client'.rxBuffer 0) = MqttMessageType.publish.code := by
      have behind := (headerSize_eq_some.mp at_.size).1
      rwa [same.buffer, copied_before client _ (by omega)]
    have past' : mqttVarHeaderBufferLen ≤ client'.msgIdx := by
      rw [same.index]
      exact Nat.le_add_right_of_le past
    obtain ⟨⟨final, ran, ready'', zero⟩, cutFinal, cut⟩ :=
      ih (at_.next split full same) (List.length_pos_iff.mp more) ready' type' past'
    have events : dataEvents (windows size body) =
        .data (body.take size) (dataFlags (body.drop size).length) :: dataEvents (windows size (body.drop size)) := by
      rw [windows, if_neg long, dataEvents_cons _ (windows_ne_nil _ _), dataFlags, if_neg (Nat.ne_of_gt more)]
    have others : dataEvents (windows size (body.drop size)) ≠ [] := dataEvents_ne_nil (windows_ne_nil _ _)
    constructor
    · refine ⟨final, ?_, ready'', zero⟩
      rw [split, Consumer.run_append, ← split, delivered, Option.bind_some, Consumer.andThen_going, ran, events]
      rfl
    · refine ⟨cutFinal, ?_⟩
      rw [split, List.dropLast_append_of_ne_nil (List.length_pos_iff.mp more), Consumer.run_append, ← split, delivered,
        Option.bind_some, Consumer.andThen_going, cut, events, List.dropLast_cons_of_ne_nil others]
      rfl

end Later

/-- What a PUBLISH packet carries. The identifier is only sent with a QoS above 0. -/
structure PublishMessage where
  control : Byte
  topic : List Byte
  pktId : BitVec 16
  payload : List Byte

namespace PublishMessage

variable (m : PublishMessage)

def qos : Byte := mqttCtlPacketQos m.control

def identifier : List Byte := if m.qos ≠ 0#8 then u16 m.pktId.toNat else []

def variableHeader : List Byte := string m.topic ++ m.identifier

def body : List Byte := m.variableHeader ++ m.payload

def fixedHdrIdx : Nat := 1 + (lengthBytes m.body.length).length

/-- What the client can take: the topic and a byte behind it, or the identifier, fit the
buffer, and without an identifier there is a payload. -/
structure Fits : Prop where
  type : mqttCtlPacketType m.control = MqttMessageType.publish.code
  short : m.body.length < 2 ^ 28
  room : m.fixedHdrIdx + (2 + m.topic.length + topicTail m.qos) ≤ mqttVarHeaderBufferLen
  payload : m.qos = 0#8 → m.payload ≠ []

/-- How much of the payload the first buffer takes. -/
def space : Nat := mqttVarHeaderBufferLen - m.fixedHdrIdx - m.variableHeader.length

/-- The parts in which the payload is handed over. -/
def fragments : List (List Byte) :=
  if m.payload.length ≤ m.space then [m.payload]
  else
    (if m.space = 0 then [] else [m.payload.take m.space]) ++
      windows (mqttVarHeaderBufferLen - m.fixedHdrIdx) (m.payload.drop m.space)

def events : List ClientEvent :=
  .pub (CString.ofBytes m.topic) m.payload.length :: dataEvents m.fragments

theorem variableHeader_length : m.variableHeader.length = publishOffset (2 + m.topic.length) m.qos := by
  unfold variableHeader identifier publishOffset
  split_ifs <;> simp [string, u16] <;> omega

end PublishMessage

theorem PublishMessage.Fits.offset_le {m : PublishMessage} (fits : m.Fits) :
    m.variableHeader.length ≤ 2 + m.topic.length + topicTail m.qos ∧
      2 + m.topic.length + topicTail m.qos ≤ m.body.length := by
  have payload := fits.payload
  have length : m.body.length = m.variableHeader.length + m.payload.length := List.length_append
  rw [length, m.variableHeader_length]
  unfold publishOffset topicTail
  by_cases qos : m.qos = 0#8
  · have some := List.length_pos_iff.mpr (payload qos)
    simp only [qos, ne_eq, not_true_eq_false, if_false]
    omega
  · simp only [ne_eq, qos, not_false_eq_true, if_true]
    omega

/-- A word as the format writes it. -/
theorem word_of_holds {client : MqttClient} {i n : Nat} (small : n < 2 ^ 16) (held : Holds client.rxBuffer i (u16 n)) :
    client.word i = n := by
  obtain ⟨high, low, -⟩ := holds_cons.mp held |>.imp_right holds_cons.mp
  rw [MqttClient.word, high, low, BitVec.toNat_ofNat, BitVec.toNat_ofNat]
  omega

/-- The first part of a publish, with at least the topic in it. -/
theorem announcePublish_eq {client : MqttClient} {m : PublishMessage} (fits : m.Fits) (pub : client.pubCb = true)
    {chunk : List Byte} {left : Nat} (held : Holds client.rxBuffer m.fixedHdrIdx (m.variableHeader ++ chunk))
    (enough : 2 + m.topic.length + topicTail m.qos ≤ (m.variableHeader ++ chunk).length)
    (total : chunk.length + left = m.payload.length) :
    ∃ pktId, announcePublish client m.fixedHdrIdx (m.variableHeader ++ chunk).length left m.qos =
      some (some ({ client with inpubPktId := pktId }, [.inpub (.pub (CString.ofBytes m.topic) m.payload.length)],
        m.variableHeader.length)) := by
  have room := fits.room
  have short := fits.short
  unfold mqttVarHeaderBufferLen at room
  rw [PublishMessage.body, List.length_append] at short
  rw [PublishMessage.variableHeader, string, List.append_assoc, List.append_assoc, holds_append, holds_append] at held
  have word := word_of_holds (by omega) held.1
  have after : (2 + m.topic.length) % 2 ^ 16 = 2 + m.topic.length := Nat.mod_eq_of_lt (by omega)
  have positive : 0 < topicTail m.qos := by
    unfold topicTail
    split_ifs <;> decide
  refine ⟨publishPktId client (m.fixedHdrIdx + (2 + m.topic.length)) m.qos, ?_⟩
  have read : client.rxBuffer.read (m.fixedHdrIdx + 2) m.topic.length = m.topic := held.2.1.read_eq
  have tot : (left + ((m.variableHeader ++ chunk).length - m.variableHeader.length)) % 2 ^ 32 = m.payload.length := by
    rw [List.length_append, Nat.add_sub_cancel_left, Nat.add_comm, total]
    exact Nat.mod_eq_of_lt (by omega)
  simp only [announcePublish, word, after, ← m.variableHeader_length, read, tot, pubCall, pub, if_true]
  rw [if_neg (Nat.not_lt.mpr enough), if_neg (by unfold mqttVarHeaderBufferLen; omega)]

/-- The first part of a publish: the announcement, and what there is of the payload. -/
theorem Ready.publish_first {client : MqttClient} (ready : Ready client) {m : PublishMessage} (fits : m.Fits)
    (control : client.rxBuffer 0 = m.control) {chunk : List Byte} {left : Nat}
    (held : Holds client.rxBuffer m.fixedHdrIdx (m.variableHeader ++ chunk))
    (first : client.msgIdx ≤ mqttVarHeaderBufferLen)
    (enough : 2 + m.topic.length + topicTail m.qos ≤ (m.variableHeader ++ chunk).length)
    (total : chunk.length + left = m.payload.length) :
    ∃ client', mqttMessageReceived client m.fixedHdrIdx (m.variableHeader ++ chunk).length left =
        some (client', .inpub (.pub (CString.ofBytes m.topic) m.payload.length) :: payloadCalls chunk left,
          mqttConnectAccepted) ∧ Ready client' := by
  obtain ⟨pktId, announced⟩ := announcePublish_eq fits ready.pub held enough total
  have ready' : Ready { client with inpubPktId := pktId } :=
    ⟨ready.connected, ready.conn, ready.pub, ready.data, ready.requests⟩
  have payload : Holds { client with inpubPktId := pktId }.rxBuffer (m.fixedHdrIdx + m.variableHeader.length) chunk :=
    (holds_append.mp held).2
  obtain ⟨client', handed, ready''⟩ := ready'.publishPayload payload left m.qos
  refine ⟨client', ?_, ready''⟩
  have type : mqttCtlPacketType (client.rxBuffer 0) = MqttMessageType.publish.code := by
    rw [control]
    exact fits.type
  have qos : mqttCtlPacketQos (client.rxBuffer 0) = m.qos := by
    rw [control]
    rfl
  rw [mqttMessageReceived_publish type, receivedPublish, qos]
  dsimp only
  rw [if_pos first, announced, Option.bind_some]
  dsimp only
  rw [List.length_append, Nat.add_sub_cancel_left, handed]
  rfl

def PublishMessage.packet (m : PublishMessage) (short : m.body.length < 2 ^ 28) : Packet := ⟨m.control, m.body, short⟩

theorem PublishMessage.Fits.vars_le {m : PublishMessage} (fits : m.Fits) :
    m.variableHeader.length + m.space = mqttVarHeaderBufferLen - m.fixedHdrIdx := by
  have room := fits.room
  have offset := fits.offset_le.1
  unfold PublishMessage.space
  omega

/-- The calls for a publish that the buffer holds at once. -/
theorem PublishMessage.events_short {m : PublishMessage} (short : m.payload.length ≤ m.space) :
    m.events.map MqttCall.inpub =
      .inpub (.pub (CString.ofBytes m.topic) m.payload.length) :: payloadCalls m.payload 0 := by
  rw [PublishMessage.events, PublishMessage.fragments, if_pos short, payloadCalls, if_pos (Or.inr rfl)]
  rfl

/-- The calls for a longer publish: those for the first part, and the rest. -/
theorem PublishMessage.events_long {m : PublishMessage} (long : m.space < m.payload.length) :
    m.events = .pub (CString.ofBytes m.topic) m.payload.length ::
      ((if m.space = 0 then [] else [.data (m.payload.take m.space) 0#8]) ++
        dataEvents (windows (mqttVarHeaderBufferLen - m.fixedHdrIdx) (m.payload.drop m.space))) := by
  rw [PublishMessage.events, PublishMessage.fragments, if_neg (Nat.not_le.mpr long)]
  split_ifs
  · rfl
  · rw [List.singleton_append, dataEvents_cons _ (windows_ne_nil _ _), List.singleton_append]

theorem payloadCalls_part {payload : List Byte} {space left : Nat} (long : space < payload.length) (more : left ≠ 0) :
    payloadCalls (payload.take space) left =
      List.map .inpub (if space = 0 then [] else [ClientEvent.data (payload.take space) 0#8]) := by
  have length : (payload.take space).length = space := by
    rw [List.length_take]
    omega
  rw [payloadCalls, length, dataFlags, if_neg more]
  by_cases none : space = 0
  · rw [if_neg (by omega), if_pos none, List.map_nil]
  · rw [if_pos (by omega), if_neg none, List.map_singleton]

/-- The client has seen the fixed header of a publish. -/
structure AtPublish (client : MqttClient) (m : PublishMessage) : Prop where
  ready : Ready client
  fits : m.Fits
  message : InMessage client m.fixedHdrIdx m.body
  index : client.msgIdx = m.fixedHdrIdx
  control : client.rxBuffer 0 = m.control

/-- The client takes the first `taken` bytes of the payload with the first part. -/
theorem AtPublish.first {client : MqttClient} {m : PublishMessage} (at_ : AtPublish client m) {chunk : List Byte}
    {left : Nat} (total : chunk.length + left = m.payload.length) (space : chunk.length ≤ m.space)
    (enough : 2 + m.topic.length + topicTail m.qos ≤ (m.variableHeader ++ chunk).length) :
    let window := m.variableHeader ++ chunk
    ∃ client', deliver (client.copied m.fixedHdrIdx window) m.fixedHdrIdx (m.fixedHdrIdx + window.length) left =
        some (client', .inpub (.pub (CString.ofBytes m.topic) m.payload.length) :: payloadCalls chunk left,
          byteParser.going) ∧ Ready client' ∧
      (left = 0 → client'.msgIdx = 0) ∧ (left ≠ 0 → SameInput (client.copied m.fixedHdrIdx window) client') := by
  have below := at_.message.header_lt
  have vars := at_.fits.vars_le
  have behind := (headerSize_eq_some.mp at_.message.size).1
  have control : (client.copied m.fixedHdrIdx (m.variableHeader ++ chunk)).rxBuffer 0 = m.control := by
    rw [copied_before client _ (by omega), at_.control]
  have first : (client.copied m.fixedHdrIdx (m.variableHeader ++ chunk)).msgIdx ≤ mqttVarHeaderBufferLen := by
    change client.msgIdx + _ ≤ _
    rw [at_.index, List.length_append]
    omega
  obtain ⟨client', received, ready'⟩ := (at_.ready.copied m.fixedHdrIdx _).publish_first at_.fits control
    (Mem.store_holds client.rxBuffer m.fixedHdrIdx (m.variableHeader ++ chunk)) first enough total
  refine deliver_taken ?_ ready'
  rwa [Nat.add_sub_cancel_left]

/-- A publish that the buffer holds at once. -/
theorem AtPublish.short {client : MqttClient} {m : PublishMessage} (at_ : AtPublish client m)
    (short : m.payload.length ≤ m.space) :
    (∃ client', byteParser.run client m.body = some (client', m.events.map .inpub, byteParser.going) ∧
      Ready client' ∧ client'.msgIdx = 0) ∧
    ∃ client', byteParser.run client m.body.dropLast = some (client', [], byteParser.going) := by
  have vars := at_.fits.vars_le
  have enough := at_.fits.offset_le
  have length : m.body.length = m.variableHeader.length + m.payload.length := List.length_append
  have fits : m.body.length ≤ mqttVarHeaderBufferLen - m.fixedHdrIdx := by omega
  have nonempty : m.body ≠ [] := List.length_pos_iff.mp (by omega)
  obtain ⟨client', delivered, ready', zero, -⟩ := at_.first (Nat.add_zero _) short enough.2
  refine ⟨⟨client', ?_, ready', zero rfl⟩, at_.message.cut fits⟩
  rw [at_.message.last nonempty fits, PublishMessage.events_short short]
  exact delivered

/-- A publish that comes in several parts. -/
theorem AtPublish.long {client : MqttClient} {m : PublishMessage} (at_ : AtPublish client m)
    (long : m.space < m.payload.length) :
    (∃ client', byteParser.run client m.body = some (client', m.events.map .inpub, byteParser.going) ∧
      Ready client' ∧ client'.msgIdx = 0) ∧
    ∃ client', byteParser.run client m.body.dropLast =
      some (client', m.events.dropLast.map .inpub, byteParser.going) := by
  have vars := at_.fits.vars_le
  have room := at_.fits.room
  have taken : (m.payload.take m.space).length = m.space := by
    rw [List.length_take]
    omega
  have rest : (m.payload.drop m.space).length = m.payload.length - m.space := List.length_drop
  have more : m.payload.drop m.space ≠ [] := List.length_pos_iff.mp (by omega)
  have split : m.body = (m.variableHeader ++ m.payload.take m.space) ++ m.payload.drop m.space := by
    rw [List.append_assoc, List.take_append_drop, PublishMessage.body]
  have full : m.fixedHdrIdx + (m.variableHeader ++ m.payload.take m.space).length = mqttVarHeaderBufferLen := by
    rw [List.length_append]
    omega
  obtain ⟨client', delivered, ready', -, kept⟩ := @AtPublish.first client m at_ (m.payload.take m.space)
    (m.payload.drop m.space).length (by omega) taken.le (by omega)
  have same := kept (by omega)
  rw [← at_.message.window split full, payloadCalls_part long (by omega)] at delivered
  have type : mqttCtlPacketType (client'.rxBuffer 0) = MqttMessageType.publish.code := by
    have behind := (headerSize_eq_some.mp at_.message.size).1
    rw [same.buffer, copied_before client _ (by omega), at_.control]
    exact at_.fits.type
  have past : client'.msgIdx = mqttVarHeaderBufferLen := by
    rw [same.index, ← full, ← at_.index]
    rfl
  obtain ⟨⟨final, ran, ready'', zero⟩, cutFinal, cut⟩ :=
    (at_.message.next split full same).publish_rest more ready' type past.ge rfl
  have others := dataEvents_ne_nil (windows_ne_nil (mqttVarHeaderBufferLen - m.fixedHdrIdx) (m.payload.drop m.space))
  rw [PublishMessage.events_long long]
  constructor
  · refine ⟨final, ?_, ready'', zero⟩
    rw [split, Consumer.run_append, delivered, Option.bind_some, Consumer.andThen_going, ran]
    simp
  · refine ⟨cutFinal, ?_⟩
    rw [split, List.dropLast_append_of_ne_nil more, Consumer.run_append, delivered, Option.bind_some,
      Consumer.andThen_going, cut, List.dropLast_cons_of_ne_nil (List.append_ne_nil_of_right_ne_nil _ others),
      List.dropLast_append_of_ne_nil others]
    simp

/-- A publish is announced, and then handed over in parts. Without its last byte, the last
part is missing. -/
theorem Ready.publish {client : MqttClient} (ready : Ready client) (zero : client.msgIdx = 0) {m : PublishMessage}
    (fits : m.Fits) :
    (∃ client', byteParser.run client (m.packet fits.short).bytes =
        some (client', m.events.map .inpub, byteParser.going) ∧ Ready client' ∧ client'.msgIdx = 0) ∧
    ∃ client' calls, byteParser.run client (m.packet fits.short).bytes.dropLast =
      some (client', calls, byteParser.going) ∧ calls <+: m.events.dropLast.map .inpub := by
  have enough := fits.offset_le
  have nonempty : m.body ≠ [] := List.length_pos_iff.mp (by omega)
  obtain ⟨ran, read⟩ := byteParser_header zero (m.packet fits.short) nonempty
  have header : (m.packet fits.short).header.length = m.fixedHdrIdx := Nat.add_comm _ 1
  have at_ : AtPublish (client.copied 0 (m.packet fits.short).header) m :=
    ⟨ready.copied 0 _, fits, header ▸ read.inMessage, header ▸ read.index, read.control⟩
  have whole (part : List Byte) : byteParser.run client ((m.packet fits.short).header ++ part) =
      byteParser.run (client.copied 0 (m.packet fits.short).header) part := by
    rw [Consumer.run_append, ran, Option.bind_some, Consumer.andThen_silent]
  have bytes : (m.packet fits.short).bytes = (m.packet fits.short).header ++ m.body := rfl
  rw [bytes, List.dropLast_append_of_ne_nil nonempty, whole, whole]
  by_cases short : m.payload.length ≤ m.space
  · obtain ⟨complete, client', cut⟩ := at_.short short
    exact ⟨complete, client', [], cut, List.nil_prefix⟩
  · obtain ⟨complete, client', cut⟩ := at_.long (Nat.not_le.mp short)
    exact ⟨complete, client', _, cut, List.prefix_rfl⟩

end Maglev
