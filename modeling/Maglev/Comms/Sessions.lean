import Maglev.Comms.Delivery
import Maglev.Mqtt.ServerStream

namespace Maglev

theorem PublishMessage.fragments_ne_nil (m : PublishMessage) : m.fragments ≠ [] := by
  unfold PublishMessage.fragments
  split
  · exact List.cons_ne_nil _ _
  · exact List.append_ne_nil_of_right_ne_nil _ (windows_ne_nil _ _)

theorem PublishMessage.fragments_flatten (m : PublishMessage) : m.fragments.flatten = m.payload := by
  unfold PublishMessage.fragments
  split
  · exact List.flatten_singleton
  · rw [List.flatten_append, windows_flatten]
    split
    · rename_i none
      rw [none, List.drop_zero, List.flatten_nil, List.nil_append]
    · rw [List.flatten_singleton, List.take_append_drop]

theorem PublishMessage.Fits.fragments_length {m : PublishMessage} (fits : m.Fits) :
    ∀ fragment ∈ m.fragments, fragment.length ≤ mqttVarHeaderBufferLen := by
  have room := fits.room
  have vars := fits.vars_le
  have positive : 0 < mqttVarHeaderBufferLen - m.fixedHdrIdx := by omega
  have parts := windows_length_le positive (m.payload.drop m.space)
  unfold PublishMessage.fragments
  intro fragment member
  split at member
  · rw [List.mem_singleton.mp member]
    omega
  · rcases List.mem_append.mp member with first | later
    · split at first
      · cases first
      · rw [List.mem_singleton.mp first, List.length_take]
        omega
    · have small := parts fragment later
      omega

theorem PublishMessage.Fits.fragments_lt {m : PublishMessage} (fits : m.Fits) :
    ∀ fragment ∈ m.fragments, fragment.length < 2 ^ 16 := fun fragment member =>
  Nat.lt_of_le_of_lt (fits.fragments_length fragment member) (by decide)

theorem PublishMessage.Fits.payload_lt {m : PublishMessage} (fits : m.Fits) : m.payload.length < 2 ^ 32 := by
  have short := fits.short
  rw [PublishMessage.body, List.length_append] at short
  omega

theorem PublishMessage.fragments_announced (m : PublishMessage) : m.fragments.flatten.length = m.payload.length :=
  congrArg List.length m.fragments_flatten

/-- A publish of which some parts have been handed over. -/
def PublishMessage.publish (m : PublishMessage) (fits : m.Fits) (delivered : Nat)
    (inMessage : delivered ≤ m.fragments.length) : Publish where
  topic := CString.ofBytes m.topic
  totLen := m.payload.length
  fragments := m.fragments
  delivered
  nonempty := m.fragments_ne_nil
  announced := m.fragments_announced
  inMessage
  fits := fits.payload_lt
  fragmentFits := fits.fragments_lt

/-- The call of the command handler that a packet is worth. -/
def ServerPacket.command? (command : CString) : ServerPacket → Option InpubCall
  | .publish m _ =>
    if CString.ofBytes m.topic = command ∧ m.payload.length ≤ subBufferSize then some ⟨.cmdM1, m.payload⟩ else none
  | _ => none

/-- A packet that has come completely. -/
theorem Listening.packet {command : CString} {c : Comms} (listening : Listening command c) (p : ServerPacket) :
    Listening command (commsMachine.final c p.events) ∧
      commsMachine.outputs c p.events = (p.command? command).toList := by
  cases p with
  | publish m fits =>
    have handed := listening.publish (m.publish fits m.fragments.length (Nat.le_refl _))
    have events : (m.publish fits m.fragments.length (Nat.le_refl _)).events = m.events := by
      rw [Publish.events, PublishMessage.events]
      exact congrArg _ (List.take_of_length_le (dataEvents_length m.fragments).le)
    have call : (m.publish fits m.fragments.length (Nat.le_refl _)).call? command =
        (ServerPacket.publish m fits).command? command := by
      simp only [Publish.call?, PublishMessage.publish, ServerPacket.command?, true_and, m.fragments_flatten]
    rwa [events, call] at handed
  | reply | pingresp => exact ⟨listening, rfl⟩

/-- A packet that was cut off. -/
theorem Listening.cut {command : CString} {c : Comms} (listening : Listening command c) (p : ServerPacket)
    {events : List ClientEvent} (before : events <+: p.events.dropLast) :
    Listening command (commsMachine.final c events) ∧ commsMachine.outputs c events = [] := by
  cases p with
  | publish m fits =>
    have parts := dataEvents_ne_nil m.fragments_ne_nil
    rw [ServerPacket.events, PublishMessage.events, List.dropLast_cons_of_ne_nil parts] at before
    rcases List.prefix_cons_iff.mp before with rfl | ⟨later, rfl, fewer⟩
    · exact ⟨listening, rfl⟩
    · have length := fewer.length_le
      rw [List.length_dropLast, dataEvents_length] at length
      have some := List.length_pos_iff.mpr m.fragments_ne_nil
      have handed := listening.publish (m.publish fits later.length (by omega))
      have taken : later = (dataEvents m.fragments).take later.length :=
        List.prefix_iff_eq_take.mp (fewer.trans (List.dropLast_prefix _))
      have call : (m.publish fits later.length (by omega)).call? command = none :=
        if_neg fun all => by
          have complete : later.length = m.fragments.length := all.1
          omega
      rw [call, Publish.events] at handed
      change Listening command (commsMachine.final c (.pub _ _ :: (dataEvents m.fragments).take later.length)) ∧
        commsMachine.outputs c (.pub _ _ :: (dataEvents m.fragments).take later.length) = [] at handed
      rwa [← taken] at handed
  | reply | pingresp =>
    rw [List.prefix_nil.mp before]
    exact ⟨listening, rfl⟩

/-- A connection from the moment it is set up: the packets that come completely, the
beginning of the one in which it is lost, and the segments in which the bytes arrive. -/
structure Session where
  client : MqttClient
  packets : List ServerPacket
  next : ServerPacket
  part : List Byte
  segments : List (List Byte)
  ready : Ready client
  start : client.msgIdx = 0
  keepAlive : client.keepAlive = 0#16
  cut : part <+: next.packet.bytes
  lost : part ≠ next.packet.bytes
  sent : segments.flatten = packets.flatMap (·.packet.bytes) ++ part

/-- The callbacks for incoming data in a connection. -/
def Session.events (s : Session) : List ClientEvent :=
  ((recvMachine.run s.client s.segments).elim [] (·.2)).filterMap MqttCall.inpub?

theorem Session.events_eq (s : Session) :
    (recvMachine.run s.client s.segments).isSome ∧
      ∃ rest, s.events = s.packets.flatMap ServerPacket.events ++ rest ∧
        rest <+: s.next.events.dropLast := by
  obtain ⟨between, calls, ran, handed, ready, zero⟩ := s.ready.stream s.start s.packets
  obtain ⟨final, last, ranPart, fewer⟩ := ready.cut zero s.next s.cut s.lost
  have whole : byteParser.run s.client s.segments.flatten = some (final, calls ++ last, byteParser.going) := by
    rw [s.sent, Consumer.run_append, ran, Option.bind_some, Consumer.andThen_going, ranPart]
    rfl
  have received := recvMachine_run (framed_of_zero s.start) s.keepAlive s.segments whole
  refine ⟨by rw [received]; rfl, last.filterMap MqttCall.inpub?, ?_, fewer⟩
  rw [Session.events, received, Option.elim_some, List.filterMap_append, handed]

theorem Listening.session {command : CString} {c : Comms} (listening : Listening command c) (s : Session) :
    Listening command (commsMachine.final c s.events) ∧
      commsMachine.outputs c s.events = s.packets.filterMap (ServerPacket.command? command) := by
  obtain ⟨rest, events, cut⟩ := s.events_eq.2
  have complete : Listening command (commsMachine.final c (s.packets.flatMap ServerPacket.events)) :=
    commsMachine.final_blocks (fun _ listening p => (listening.packet p).1) listening s.packets
  obtain ⟨listening', silent⟩ := complete.cut s.next cut
  rw [events, Machine.final_append, Machine.outputs_append, silent, List.append_nil, List.filterMap_eq_flatMap_toList]
  exact ⟨listening', commsMachine.outputs_blocks (fun _ listening p => listening.packet p) listening s.packets⟩

/-- Over any number of connections, each cut into segments and lost anywhere, the command
handler is called for the commands that have come completely, in their order and with
their payloads, and for nothing else. -/
theorem sessions_deliver (u : DeviceId) {c : Comms} (handler : c.inpubCb = true) (sessions : List Session) :
    (∀ s ∈ sessions, (recvMachine.run s.client s.segments).isSome) ∧
      commsMachine.outputs (commTaskTopics u c).1 (sessions.flatMap Session.events) =
        sessions.flatMap fun s => s.packets.filterMap (ServerPacket.command? (u.topic cmdSuffix)) := by
  have listening : Listening (u.topic cmdSuffix) (commTaskTopics u c).1 := by
    rw [commTaskTopics_eq]
    exact ⟨handler, rfl⟩
  exact ⟨fun s _ => s.events_eq.1, commsMachine.outputs_blocks (fun c listening s => listening.session s) listening
    sessions⟩

theorem CString.ofBytes_bytes (s : CString) : CString.ofBytes s.bytes = s := by
  have all : s.bytes.takeWhile (· ≠ 0#8) = s.bytes := List.takeWhile_eq_self_iff.mpr (by simpa using s.noNul)
  cases s
  simp only [CString.ofBytes, all]

/-- A packet that comes in two segments. It is sent again, and the connection is lost
before the last byte. -/
def resentSession (p : ServerPacket) : Session where
  client := setUpClient
  packets := [p]
  next := p
  part := p.packet.bytes.dropLast
  segments := [p.packet.bytes.take 5, p.packet.bytes.drop 5 ++ p.packet.bytes.dropLast]
  ready := setUpClient_ready
  start := rfl
  keepAlive := rfl
  cut := List.dropLast_prefix _
  lost := fun same => by
    have length := congrArg List.length same
    have nonempty : 0 < p.packet.bytes.length := List.length_pos_iff.mpr (List.cons_ne_nil _ _)
    rw [List.length_dropLast] at length
    omega
  sent := by
    simp only [List.flatten_cons, List.flatten_nil, List.append_nil, List.flatMap_cons, List.flatMap_nil]
    rw [← List.append_assoc, List.take_append_drop]

theorem zeros_length : (List.replicate 12 0#8).length = 12 := rfl

def zeroDevice : DeviceId := ⟨_, zeros_length⟩

/-- A publish for the device with the identifier zero. -/
def zeroPublish (payload : List Byte) : PublishMessage where
  control := 0x30#8
  topic := (zeroDevice.topic cmdSuffix).bytes
  pktId := 0#16
  payload

theorem zeroPublish_fits : (zeroPublish [0x81#8, 0xa0#8, 0xc3#8]).Fits := by
  constructor <;> decide

theorem sessions_deliver_resent :
    commsMachine.outputs (commTaskTopics zeroDevice staticComms).1
        ([resentSession (.publish _ zeroPublish_fits)].flatMap Session.events) =
      [⟨.cmdM1, [0x81#8, 0xa0#8, 0xc3#8]⟩] := by
  rw [(sessions_deliver _ rfl _).2]
  simp [resentSession, ServerPacket.command?, zeroPublish, CString.ofBytes_bytes, subBufferSize]

end Maglev
