import Maglev.Mqtt.Connection

namespace Maglev

open MqttFormat

/-- The packets that the user has been promised on the present connection, the connection
request first. -/
def ledger (client : MqttClient) (packets : List Packet) : ClientInput → List ClientOutput → List Packet
  | .connect info _, [.connectReturns .ok] => (connectPacket info).toList
  | .publish topic payload qos retain _, [.publishReturns .ok] =>
    packets ++ (publishPacket client topic payload qos retain).toList
  | .subUnsub topic qos _ sub, [.subUnsubReturns .ok] => packets ++ (subUnsubPacket client topic qos sub).toList
  | _, _ => packets

/-- The client with the record of what it has accepted. -/
def ledgerMachine : PartialMachine (MqttClient × List Packet) ClientInput ClientOutput where
  step := fun (client, packets) input =>
    (clientMachine.step client input).map fun (client', outs) =>
      ((client', ledger client packets input outs), outs)

/-- A packet of the user on the left, one of the client's own on the right. -/
def taggedBytes : Packet ⊕ Packet → List Byte := Sum.elim Packet.bytes Packet.bytes

/-- The connection request, and behind it the packets of the user in their order, with
packets of the client's own between them. -/
inductive WrittenAs : List Packet → List Byte → Prop
  | intro {info : MqttConnectClientInfo} {request : Packet} (all : List (Packet ⊕ Packet)) :
      connectPacket info = some request → (∀ packet, Sum.inr packet ∈ all → OwnPacket packet) →
      WrittenAs (request :: all.filterMap Sum.getLeft?) (request.bytes ++ all.flatMap taggedBytes)

theorem WrittenAs.append_user {packets : List Packet} {bytes : List Byte} (written : WrittenAs packets bytes)
    (packet : Packet) : WrittenAs (packets ++ [packet]) (bytes ++ packet.bytes) := by
  obtain ⟨all, request, own⟩ := written
  have longer := WrittenAs.intro (all ++ [.inl packet]) request (by simpa using own)
  simpa [taggedBytes, List.filterMap_append] using longer

theorem WrittenAs.append_own {packets own : List Packet} {bytes : List Byte} (written : WrittenAs packets bytes)
    (each : ∀ packet ∈ own, OwnPacket packet) : WrittenAs packets (bytes ++ own.flatMap Packet.bytes) := by
  obtain ⟨all, request, before⟩ := written
  have longer := WrittenAs.intro (all ++ own.map .inr) request (by
    intro packet member
    simp only [List.mem_append, List.mem_map, Sum.inr.injEq, exists_eq_right] at member
    exact member.elim (before packet) (each packet))
  simpa [taggedBytes, List.filterMap_append, List.filterMap_map, List.flatMap_map, Function.comp_def] using longer

/-- All that has been put out on the connection is accounted for, and what TCP has not
taken of it is in the ring. -/
structure PutOut (client : MqttClient) (packets : List Packet) : Prop where
  room : client.conn ≠ none → client.output.length ≤ 2 ^ 8
  written : ∀ bytes, client.stream = some bytes → WrittenAs packets bytes

theorem putOut_of_closed {client : MqttClient} (closed : client.conn = none) (packets : List Packet) :
    PutOut client packets where
  room := fun connected => absurd closed connected
  written := fun bytes put => by
    rw [MqttClient.stream, closed] at put
    cases put

theorem Appended.putOut {client client' : MqttClient} {packets more after : List Packet}
    (appended : Appended client more client') (put : PutOut client packets)
    (accounts : ∀ bytes, WrittenAs packets bytes → WrittenAs after (bytes ++ more.flatMap Packet.bytes)) :
    PutOut client' after where
  room := fun connected => by
    refine appended.room (put.room fun closed => connected ?_)
    have none := appended.stream
    rw [MqttClient.stream, MqttClient.stream, closed, Option.map_none, Option.map_none] at none
    exact Option.map_eq_none_iff.mp none
  written := fun bytes stream => by
    rw [appended.stream] at stream
    obtain ⟨before, was, rfl⟩ := Option.map_eq_some_iff.mp stream
    exact accounts before (put.written before was)

theorem Does.putOut {client client' : MqttClient} {calls : List MqttCall} {packets more after : List Packet}
    (does : Does client calls more client') (put : PutOut client packets)
    (accounts : ∀ bytes, WrittenAs packets bytes → WrittenAs after (bytes ++ more.flatMap Packet.bytes)) :
    PutOut client' after := by
  rcases does.emits with closed | appended
  · exact putOut_of_closed closed after
  · exact appended.putOut put accounts

theorem Reacts.putOut {client client' : MqttClient} {calls : List MqttCall} {packets : List Packet}
    (reacts : Reacts client calls client') (put : PutOut client packets) : PutOut client' packets := by
  obtain ⟨own, each, does⟩ := reacts
  exact does.putOut put fun _ written => written.append_own each

theorem PutOut.of_same {client client' : MqttClient} {packets : List Packet} (put : PutOut client packets)
    (output : client'.output = client.output) (conn : client'.conn = client.conn) : PutOut client' packets :=
  (Appended.of_same output conn).putOut put fun bytes written => by simpa using written

theorem Accepts.putOut {client client' : MqttClient} {packet : Packet} {err : Err} {packets after : List Packet}
    (accepts : Accepts client packet err client') (put : PutOut client packets)
    (accepted : err = .ok → after = packets ++ [packet]) (refused : err ≠ .ok → after = packets) :
    PutOut client' after := by
  cases accepts with
  | accepted _ does =>
    rw [accepted rfl]
    exact does.putOut put fun bytes written => by simpa using written.append_user packet
  | refused failure does =>
    rw [refused failure]
    exact does.reacts.putOut put

theorem Attempted.putOut {client client' : MqttClient} {info : MqttConnectClientInfo} {attempt : TcpAttempt}
    {connectCb : Bool} {err : Err} (attempted : Attempted client info connectCb err client')
    (small : connectLength info < 2 ^ 16 - 4) (packets : List Packet) :
    PutOut client' (ledger client packets (.connect info attempt) [.connectReturns err]) := by
  cases attempted with
  | failed => exact putOut_of_closed rfl _
  | started put =>
    obtain ⟨packet, request, room, contents⟩ := put small
    refine ⟨fun _ => room, fun bytes stream => ?_⟩
    have all : WrittenAs [_] (_ ++ []) := WrittenAs.intro [] request (by simp)
    cases stream
    rw [ledger, request, outputStream, contents, List.nil_append]
    rwa [List.append_nil] at all

theorem ledger_of_passive (client : MqttClient) (packets : List Packet) {input : ClientInput}
    (passive : input.asks = false) (outs : List ClientOutput) : ledger client packets input outs = packets := by
  cases input with
  | connect | publish | subUnsub | disconnect => cases passive
  | _ => rfl

/-- Every step accounts for what it puts out. -/
theorem ClientStep.putOut {client client' : MqttClient} {input : ClientInput} {outs : List ClientOutput}
    {packets : List Packet} (step : ClientStep client input outs client') (small : input.Small)
    (put : PutOut client packets) :
    PutOut client' (ledger client packets input outs) := by
  cases step with
  | attempt _ attempted => exact attempted.putOut small packets
  | isconn | disconnected => exact put
  | @publish _ _ _ _ _ err _ _ accepted =>
    obtain ⟨packet, made, accepts⟩ := accepted small
    refine accepts.putOut put ?_ ?_
    · rintro rfl
      rw [ledger, made]
      rfl
    · intro failure
      cases err with
      | ok => exact absurd rfl failure
      | _ => rfl
  | @subUnsub _ _ _ _ err _ _ accepted =>
    obtain ⟨packet, made, accepts⟩ := accepted small
    refine accepts.putOut put ?_ ?_
    · rintro rfl
      rw [ledger, made]
      rfl
    · intro failure
      cases err with
      | ok => exact absurd rfl failure
      | _ => rfl
  | disconnect closed => exact putOut_of_closed closed _
  | opens _ does => exact does.reacts.putOut (put.of_same rfl rfl)
  | counts => exact put.of_same rfl rfl
  | timesOut _ does => exact does.reacts.putOut (put.of_same rfl rfl)
  | reacts passive _ reacts =>
    rw [ledger_of_passive client packets passive]
    exact reacts.putOut put

/-- In every run, what has been put out on the present connection is the connection request
followed by the packets of all calls that have succeeded, in the order of the calls, with
nothing between them but whole packets of the client's own. Nothing is lost, doubled or
reordered when the ring wraps around, when TCP takes a part or when it refuses. -/
theorem ledgerMachine_accounts {client client' : MqttClient} {inputs : List ClientInput} {outs : List ClientOutput}
    {packets : List Packet} {pcb : TcpPcb} (closed : client.conn = none) (small : ∀ input ∈ inputs, input.Small)
    (ran : ledgerMachine.run (client, []) inputs = some ((client', packets), outs)) (connected : client'.conn = some pcb) :
    WrittenAs packets (pcb.written ++ client'.output.contents 8) ∧ client'.output.length ≤ mqttOutputRingbufSize := by
  have kept := ledgerMachine.run_relation (R := fun s _ s' => PutOut s.1 s.2 → PutOut s'.1 s'.2) ?_ ?_ ?_ small ran
  · obtain ⟨room, written⟩ := kept (putOut_of_closed closed [])
    exact ⟨written _ (by rw [MqttClient.stream, connected]; rfl), room (by rw [connected]; exact Option.some_ne_none _)⟩
  · exact fun _ put => put
  · rintro ⟨client, packets⟩ input s' outs small stepped put
    obtain ⟨⟨client', outs'⟩, taken, same⟩ := Option.map_eq_some_iff.mp stepped
    cases same
    exact (clientMachine_step taken).putOut small put
  · exact fun _ _ _ _ _ now later put => later (now put)

/-- Two publishes on a connection that takes a few bytes at a time. -/
def slowConnection : List ClientInput :=
  [.connect ⟨.ofBytes [], 0#16, none, 0#8, false⟩ (.started 10 []), .connected .ok,
    .publish (.ofBytes [0x61#8]) [1#8, 2#8] 0#8 0#8 none, .window 3 [], .polled, .window 7 [true],
    .publish (.ofBytes [0x62#8]) [] 0#8 0#8 none]

theorem ledgerMachine_accounts_slowConnection : ∃ client packets pcb outs,
    ledgerMachine.run (MqttClient.zero false, []) slowConnection = some ((client, packets), outs) ∧
      client.conn = some pcb ∧ packets.length = 3 ∧ WrittenAs packets (pcb.written ++ client.output.contents 8) := by
  have runs : (ledgerMachine.run (MqttClient.zero false, []) slowConnection).any
      (fun (s, _) => s.1.conn.isSome && s.2.length == 3) = true := by decide +kernel
  obtain ⟨⟨⟨client, packets⟩, outs⟩, ran, holds⟩ := (Option.any_eq_true _ _).mp runs
  obtain ⟨open_, three⟩ := Bool.and_eq_true_iff.mp holds
  obtain ⟨pcb, connected⟩ := Option.isSome_iff_exists.mp open_
  refine ⟨client, packets, pcb, outs, ran, connected, eq_of_beq three, ?_⟩
  exact (ledgerMachine_accounts rfl (by decide) ran connected).1

end Maglev
