import Maglev.Lib.MqttFormat
import Maglev.Mqtt.Segments

namespace Maglev

open MqttFormat

theorem lastGroup {n : Nat} (small : n < 128) :
    ¬ Continues (BitVec.ofNat 8 n) ∧ (BitVec.ofNat 8 n &&& 0x7f#8).toNat = n := by
  have all : ∀ n < 128, ¬ Continues (BitVec.ofNat 8 n) ∧ (BitVec.ofNat 8 n &&& 0x7f#8).toNat = n := by decide
  exact all n small

theorem nextGroup {n : Nat} (small : n < 128) :
    Continues (BitVec.ofNat 8 (n + 128)) ∧ (BitVec.ofNat 8 (n + 128) &&& 0x7f#8).toNat = n := by
  have all : ∀ n < 128,
      Continues (BitVec.ofNat 8 (n + 128)) ∧ (BitVec.ofNat 8 (n + 128) &&& 0x7f#8).toNat = n := by decide
  exact all n small

/-- The groups of the first four length bytes do not overlap, and no bit of them is lost. -/
theorem lengthOf_succ_add (rx : Mem) {n : Nat} (pos : 0 < n) (few : n < 5) :
    lengthOf rx (n + 1) = lengthOf rx n + (rx n &&& 0x7f#8).toNat * 128 ^ (n - 1) := by
  have small := lengthOf_lt rx (n - 1)
  rw [Nat.sub_add_cancel pos] at small
  have whole : (rx n &&& 0x7f#8).toNat <<< ((n - 1) * 7) < 2 ^ 32 :=
    (group_shift_lt (rx n) (n - 1)).trans_le (Nat.pow_le_pow_right (by decide) (by omega))
  rw [lengthOf_succ rx pos, Nat.mod_eq_of_lt whole, Nat.lor_comm, ← Nat.shiftLeft_add_eq_or_of_lt small, Nat.shiftLeft_eq, Nat.mul_comm (n - 1),
    Nat.pow_mul, Nat.add_comm]

theorem stored_eq_copied (client : MqttClient) (b : Byte) : client.stored b = client.copied client.msgIdx [b] := by
  rw [MqttClient.stored, MqttClient.copied, Mem.store_singleton, List.length_singleton]

/-- The buffer holds the beginning of a fixed header, which goes on. -/
structure Heading (client : MqttClient) : Prop where
  begun : 0 < client.msgIdx
  continues : ∀ i, 0 < i → i < client.msgIdx → Continues (client.rxBuffer i)

theorem Heading.headerSize {client : MqttClient} (heading : Heading client) : headerSize client = none :=
  headerSize_eq_none.mpr fun i pos _ before => heading.continues i pos before

theorem Heading.step {client : MqttClient} (heading : Heading client) (few : client.msgIdx < 5) (b : Byte) :
    byteParser.step client b = feedHeader client b := by
  simp only [byteParser, feed, heading.headerSize, if_pos (Nat.lt_succ_of_lt few)]

theorem Heading.stored {client : MqttClient} (heading : Heading client) {b : Byte} (continues : Continues b) :
    Heading (client.stored b) where
  begun := Nat.succ_pos _
  continues := fun i pos before => by
    rcases Nat.lt_or_eq_of_le (Nat.le_of_lt_succ before) with earlier | rfl
    · rw [stored_before client b earlier]
      exact heading.continues i pos earlier
    · rwa [stored_last]

theorem Heading.lengthOf_stored {client : MqttClient} (heading : Heading client) (few : client.msgIdx < 5) (b : Byte) :
    lengthOf (client.stored b).rxBuffer (client.msgIdx + 1) =
      lengthOf client.rxBuffer client.msgIdx + (b &&& 0x7f#8).toNat * 128 ^ (client.msgIdx - 1) := by
  rw [lengthOf_succ_add _ heading.begun few, stored_last,
    lengthOf_congr fun i before => stored_before client b before]

/-- The last length byte is taken silently if there is a length at all. -/
theorem Heading.last {client : MqttClient} (heading : Heading client) (few : client.msgIdx < 5) {n : Nat}
    (small : n < 128) (positive : 0 < lengthOf client.rxBuffer client.msgIdx + n) :
    let client' := client.stored (BitVec.ofNat 8 n)
    byteParser.step client (BitVec.ofNat 8 n) = some (client', [], byteParser.going) ∧
      Maglev.headerSize client' = some client'.msgIdx ∧
      lengthOf client'.rxBuffer client'.msgIdx =
        lengthOf client.rxBuffer client.msgIdx + n * 128 ^ (client.msgIdx - 1) := by
  have begun := heading.begun
  obtain ⟨last, value⟩ := lastGroup small
  have total := heading.lengthOf_stored few (BitVec.ofNat 8 n)
  rw [value] at total
  have closed : Maglev.headerSize (client.stored (BitVec.ofNat 8 n)) = some (client.msgIdx + 1) := by
    refine headerSize_eq_some.mpr ⟨⟨by omega, by omega, Nat.le_refl _⟩, ?_, fun i pos before => ?_⟩
    · rwa [Nat.add_sub_cancel, stored_last]
    · rw [stored_before client _ (by omega)]
      exact heading.continues i pos (by omega)
  have nonempty : lengthOf (client.stored (BitVec.ofNat 8 n)).rxBuffer (client.msgIdx + 1) ≠ 0 := by
    have power : 0 < 128 ^ (client.msgIdx - 1) := Nat.pow_pos (by decide)
    have atLeast := Nat.le_mul_of_pos_right n power
    omega
  have reachable : lengthOf (client.stored (BitVec.ofNat 8 n)).rxBuffer (client.msgIdx + 1) + (client.msgIdx + 1) <
      2 ^ 32 := by
    have bound := lengthOf_lt (client.stored (BitVec.ofNat 8 n)).rxBuffer client.msgIdx
    have most : 2 ^ (client.msgIdx * 7) ≤ 2 ^ 28 := Nat.pow_le_pow_right (by decide) (by omega)
    omega
  refine ⟨?_, closed, total⟩
  rw [heading.step few, feedHeader]
  simp only [closed, if_neg nonempty, if_pos reachable]
  rfl

/-- A length byte that is not the last one. -/
theorem Heading.next {client : MqttClient} (heading : Heading client) (few : client.msgIdx < 5) {b : Byte}
    (continues : Continues b) :
    byteParser.step client b = some (client.stored b, [], byteParser.going) := by
  rw [heading.step few, feedHeader]
  simp only [(heading.stored continues).headerSize]
  rfl

/-- The length bytes are taken silently, and give the length. -/
theorem Heading.run {client : MqttClient} (heading : Heading client) {k n : Nat} (fits : n < 128 ^ (k + 1))
    (room : client.msgIdx + (k + 1) ≤ 5) (positive : 0 < lengthOf client.rxBuffer client.msgIdx + n) :
    let client' := client.copied client.msgIdx (groups (k + 1) n)
    byteParser.run client (groups (k + 1) n) = some (client', [], byteParser.going) ∧
      Maglev.headerSize client' = some client'.msgIdx ∧
      lengthOf client'.rxBuffer client'.msgIdx =
        lengthOf client.rxBuffer client.msgIdx + n * 128 ^ (client.msgIdx - 1) := by
  have single {client : MqttClient} {k n : Nat} (heading : Heading client) (few : client.msgIdx < 5) (small : n < 128)
      (positive : 0 < lengthOf client.rxBuffer client.msgIdx + n) :
      let client' := client.copied client.msgIdx (groups (k + 1) n)
      byteParser.run client (groups (k + 1) n) = some (client', [], byteParser.going) ∧
        Maglev.headerSize client' = some client'.msgIdx ∧
        lengthOf client'.rxBuffer client'.msgIdx =
          lengthOf client.rxBuffer client.msgIdx + n * 128 ^ (client.msgIdx - 1) := by
    have last := heading.last few small positive
    simp only [groups, if_pos small, Consumer.run_cons, ← stored_eq_copied, last.1, Option.bind_some,
      Consumer.andThen_silent, Consumer.run_nil, true_and]
    exact last.2
  induction k generalizing client n with
  | zero => exact single heading (by omega) (by simpa using fits) positive
  | succ k ih =>
    by_cases small : n < 128
    · exact single heading (by omega) small positive
    · obtain ⟨continues, value⟩ := nextGroup (Nat.mod_lt n (show 128 > 0 by decide))
      have total := heading.lengthOf_stored (by omega) (BitVec.ofNat 8 (n % 128 + 128))
      rw [value] at total
      have digits : n = n % 128 + n / 128 * 128 := (Nat.mod_add_div' n 128).symm
      have power : 128 ^ client.msgIdx = 128 ^ (client.msgIdx - 1) * 128 := by
        rw [← Nat.pow_succ, Nat.succ_eq_add_one, Nat.sub_add_cancel heading.begun]
      have quotient : n / 128 < 128 ^ (k + 1) := by
        rw [Nat.div_lt_iff_lt_mul (by decide), ← Nat.pow_succ]
        exact fits
      have index : (client.stored (BitVec.ofNat 8 (n % 128 + 128))).msgIdx = client.msgIdx + 1 := rfl
      have later := ih (heading.stored continues) quotient (by rw [index]; omega) (by omega)
      rw [index, stored_eq_copied, ← List.length_singleton (a := BitVec.ofNat 8 (n % 128 + 128)), copied_append,
        ← stored_eq_copied] at later
      obtain ⟨ran, size, length⟩ := later
      simp only [groups, if_neg small, Consumer.run_cons, heading.next (by omega) continues, Option.bind_some,
        Consumer.andThen_silent]
      refine ⟨ran, size, length.trans ?_⟩
      rw [List.length_singleton, total, Nat.add_sub_cancel, power, Nat.add_assoc, Nat.mul_comm _ 128,
        ← Nat.mul_assoc, ← Nat.add_mul, ← digits]

/-- The first byte of a packet. -/
theorem byteParser_control {client : MqttClient} (zero : client.msgIdx = 0) (b : Byte) :
    byteParser.step client b = some (client.stored b, [], byteParser.going) ∧ Heading (client.stored b) := by
  have heading : Heading (client.stored b) := by
    refine ⟨Nat.succ_pos _, fun i pos before => ?_⟩
    change i < client.msgIdx + 1 at before
    omega
  have none : headerSize client = none := headerSize_eq_none.mpr fun i _ _ before => by omega
  refine ⟨?_, heading⟩
  simp only [byteParser, feed, none, feedHeader, heading.headerSize]
  rw [if_pos (by omega)]

/-- The buffer holds the fixed header of a packet that has a body, and nothing else. -/
structure HeaderRead (packet : Packet) (client : MqttClient) : Prop where
  size : headerSize client = some packet.header.length
  length : lengthOf client.rxBuffer packet.header.length = packet.body.length
  index : client.msgIdx = packet.header.length
  control : client.rxBuffer 0 = packet.control

theorem byteParser_header {client : MqttClient} (zero : client.msgIdx = 0) (packet : Packet)
    (nonempty : packet.body ≠ []) :
    let client' := client.copied 0 packet.header
    byteParser.run client packet.header = some (client', [], byteParser.going) ∧ HeaderRead packet client' := by
  obtain ⟨first, heading⟩ := byteParser_control zero packet.control
  have index : (client.stored packet.control).msgIdx = 1 := by
    change client.msgIdx + 1 = 1
    omega
  have fits : packet.body.length < 128 ^ (3 + 1) := packet.fits
  have positive := List.length_pos_iff.mpr nonempty
  obtain ⟨ran, size, length⟩ := heading.run fits (by omega) (by omega)
  have whole : (client.stored packet.control).copied (client.stored packet.control).msgIdx
      (groups (3 + 1) packet.body.length) = client.copied 0 packet.header := by
    rw [index, stored_eq_copied, zero]
    exact copied_append client 0 [packet.control] _
  rw [whole] at ran size length
  have end_ : (client.copied 0 packet.header).msgIdx = packet.header.length := by
    change client.msgIdx + _ = _
    omega
  rw [end_] at size length
  refine ⟨?_, size, length.trans ?_, end_, ?_⟩
  · rw [Packet.header, Consumer.run_cons, first, Option.bind_some, Consumer.andThen_silent]
    exact ran
  · rw [index]
    simp [lengthOf]
  · have held := Mem.store_holds client.rxBuffer 0 packet.header
    exact (holds_cons.mp held).1

/-- A packet that is only a fixed header. -/
theorem byteParser_empty {client : MqttClient} (zero : client.msgIdx = 0) (packet : Packet)
    (empty : packet.body = []) {client' : MqttClient} {calls : List MqttCall} {res : Nat}
    (received : mqttMessageReceived (client.copied 0 packet.bytes) 2 0 0 = some (client', calls, res)) :
    byteParser.run client packet.bytes = some ({ client' with msgIdx := 0 }, calls, byteParser.going) := by
  obtain ⟨first, heading⟩ := byteParser_control zero packet.control
  have index : (client.stored packet.control).msgIdx = 1 := by
    change client.msgIdx + 1 = 1
    omega
  have bytes : packet.bytes = [packet.control, 0#8] := by simp [Packet.bytes, Packet.header, empty, lengthBytes, groups]
  have whole : (client.stored packet.control).stored 0#8 = client.copied 0 packet.bytes := by
    rw [bytes, stored_eq_copied, index, stored_eq_copied, zero]
    exact copied_append client 0 [packet.control] [0#8]
  have nothing : lengthOf (client.copied 0 packet.bytes).rxBuffer 2 = 0 := by
    have stored := heading.lengthOf_stored (by omega) 0#8
    rw [index, whole] at stored
    rw [stored]
    simp [lengthOf]
  have closed : headerSize (client.copied 0 packet.bytes) = some 2 := by
    rw [← whole]
    refine headerSize_eq_some.mpr ⟨⟨by decide, by decide, ?_⟩, ?_, fun i pos before => by omega⟩
    · change 2 ≤ client.msgIdx + 1 + 1
      omega
    · have last := stored_last (client.stored packet.control) 0#8
      rw [index] at last
      rw [last]
      decide
  rw [bytes, Consumer.run_cons, first, Option.bind_some, Consumer.andThen_silent, Consumer.run_cons,
    heading.step (by omega), feedHeader, whole]
  simp only [closed, nothing, if_true, received]
  simp [Consumer.andThen, byteParser]

/-- The next byte goes right behind the fixed header, and `body` is what is still to come. -/
structure InMessage (client : MqttClient) (fixedHdrIdx : Nat) (body : List Byte) : Prop where
  size : headerSize client = some fixedHdrIdx
  aligned : bodyIndex client fixedHdrIdx = fixedHdrIdx
  left : bodyLeft client fixedHdrIdx = body.length

theorem HeaderRead.inMessage {packet : Packet} {client : MqttClient} (read : HeaderRead packet client) :
    InMessage client packet.header.length packet.body where
  size := read.size
  aligned := by
    unfold bodyIndex
    rw [read.index, Nat.sub_self, Nat.zero_mod, Nat.zero_add]
  left := by
    unfold bodyLeft
    rw [read.index, read.length, Nat.add_sub_cancel]

section InMessage

variable {client : MqttClient} {fixedHdrIdx : Nat} {body : List Byte} (at_ : InMessage client fixedHdrIdx body)

include at_

theorem InMessage.header_lt : fixedHdrIdx < mqttVarHeaderBufferLen := by
  have few := (headerSize_eq_some.mp at_.size).1
  unfold mqttVarHeaderBufferLen
  omega

/-- The rest of a message that the buffer has room for. -/
theorem InMessage.last (nonempty : body ≠ []) (short : body.length ≤ mqttVarHeaderBufferLen - fixedHdrIdx) :
    byteParser.run client body =
      deliver (client.copied fixedHdrIdx body) fixedHdrIdx (fixedHdrIdx + body.length) 0 := by
  have below := at_.header_lt
  rw [byteParser_body at_.size nonempty (by rw [at_.left]) (by rw [at_.aligned]; omega), feedBody, at_.aligned, at_.left,
    Nat.sub_self]
  exact if_pos (Or.inl rfl)

/-- Until the last byte of it has come, nothing is done. -/
theorem InMessage.cut (short : body.length ≤ mqttVarHeaderBufferLen - fixedHdrIdx) :
    ∃ client', byteParser.run client body.dropLast = some (client', [], byteParser.going) := by
  have below := at_.header_lt
  by_cases empty : body.dropLast = []
  · exact ⟨client, by rw [empty]; rfl⟩
  · have some := List.length_pos_iff.mpr empty
    have length := body.length_dropLast
    refine ⟨client.copied fixedHdrIdx body.dropLast, ?_⟩
    rw [byteParser_body at_.size empty (by rw [at_.left]; omega) (by rw [at_.aligned]; omega), feedBody, at_.aligned,
      at_.left]
    exact if_neg (by omega)

/-- A full buffer of a longer message. -/
theorem InMessage.window {window rest : List Byte} (split : body = window ++ rest)
    (full : fixedHdrIdx + window.length = mqttVarHeaderBufferLen) :
    byteParser.run client window =
      deliver (client.copied fixedHdrIdx window) fixedHdrIdx (fixedHdrIdx + window.length) rest.length := by
  have below := at_.header_lt
  have left := at_.left
  rw [split, List.length_append] at left
  have nonempty : window ≠ [] := List.length_pos_iff.mp (by omega)
  rw [byteParser_body at_.size nonempty (by omega) (by rw [at_.aligned]; omega), feedBody, at_.aligned, left,
    Nat.add_sub_cancel_left]
  exact if_pos (Or.inr full)

theorem InMessage.next {window rest : List Byte} (split : body = window ++ rest)
    (full : fixedHdrIdx + window.length = mqttVarHeaderBufferLen) {client' : MqttClient}
    (same : SameInput (client.copied fixedHdrIdx window) client') : InMessage client' fixedHdrIdx rest := by
  have inside := (headerSize_eq_some.mp at_.size).1
  have moved : client'.msgIdx = client.msgIdx + window.length := same.index
  refine ⟨same.headerSize.trans (copied_headerSize at_.size (Nat.le_refl _) _), ?_, ?_⟩
  · have aligned := at_.aligned
    unfold bodyIndex at aligned ⊢
    rw [moved, show client.msgIdx + window.length - fixedHdrIdx =
      client.msgIdx - fixedHdrIdx + (mqttVarHeaderBufferLen - fixedHdrIdx) by omega, Nat.add_mod_right]
    exact aligned
  · have left := @copied_bodyLeft client _ _ (Nat.le_refl fixedHdrIdx) window
    rw [at_.left, split, List.length_append, Nat.add_sub_cancel_left] at left
    rw [← left]
    unfold bodyLeft
    rw [same.index, same.buffer]

end InMessage

end Maglev
