import Maglev.Mqtt.Output

namespace Maglev

open MqttFormat

theorem and_idxMask (i : BitVec 16) : (i &&& mqttRingbufIdxMask).toNat = Ring.cell 8 i := by
  rw [BitVec.toNat_and]
  exact Nat.and_two_pow_sub_one_eq_mod i.toNat 8

theorem mqttRingbufPut_eq (rb : MqttRingbuf) (item : Byte) : mqttRingbufPut rb item = rb.push 8 item := by
  rw [mqttRingbufPut, and_idxMask]
  rfl

theorem foldl_mqttRingbufPut (rb : MqttRingbuf) (items : List Byte) :
    items.foldl mqttRingbufPut rb = rb.pushAll 8 items := by
  rw [Ring.pushAll, funext₂ mqttRingbufPut_eq]

theorem mqttRingbufLinearReadLength_eq (rb : MqttRingbuf) : mqttRingbufLinearReadLength rb = rb.linear 8 := by
  rw [mqttRingbufLinearReadLength, and_idxMask]
  rfl

theorem mqttRingbufGet_eq (rb : MqttRingbuf) (len : Nat) : mqttRingbufGet rb len = rb.window 8 len := by
  rw [mqttRingbufGet, and_idxMask]
  rfl

/-- The high and the low byte of a word. -/
theorem u16_toNat (value : BitVec 16) :
    u16 value.toNat = [(value >>> 8).setWidth 8, (value &&& 0xff#16).setWidth 8] := by
  have high : BitVec.ofNat 8 (value.toNat / 256) = (value >>> 8).setWidth 8 := by
    apply BitVec.eq_of_toNat_eq
    simp [Nat.shiftRight_eq_div_pow]
  have low : BitVec.ofNat 8 value.toNat = (value &&& 0xff#16).setWidth 8 := by
    apply BitVec.eq_of_toNat_eq
    rw [BitVec.toNat_ofNat, BitVec.toNat_setWidth, BitVec.toNat_and]
    exact (congrArg (· % 2 ^ 8) (Nat.and_two_pow_sub_one_eq_mod value.toNat 8)).symm ▸ (Nat.mod_mod _ _).symm
  rw [u16, high, low]

theorem mqttOutputAppendU16_eq (rb : MqttRingbuf) (value : BitVec 16) :
    mqttOutputAppendU16 rb value = rb.pushAll 8 (u16 value.toNat) := by
  simp only [mqttOutputAppendU16, mqttRingbufPut_eq, u16_toNat]
  rfl

theorem mqttOutputAppendBuf_eq (rb : MqttRingbuf) (data : List Byte) :
    mqttOutputAppendBuf rb data = rb.pushAll 8 data := foldl_mqttRingbufPut rb data

theorem mqttOutputAppendString_eq (rb : MqttRingbuf) {str : List Byte} (short : str.length < 2 ^ 16) :
    mqttOutputAppendString rb str (BitVec.ofNat 16 str.length) = rb.pushAll 8 (string str) := by
  have length : (BitVec.ofNat 16 str.length).toNat = str.length := by
    rw [BitVec.toNat_ofNat, Nat.mod_eq_of_lt short]
  have word := u16_toNat (BitVec.ofNat 16 str.length)
  rw [length] at word
  rw [mqttOutputAppendString, length, List.take_length, foldl_mqttRingbufPut, mqttRingbufPut_eq, mqttRingbufPut_eq,
    string, ← Ring.pushAll_append, word]
  rfl

/-- The control byte of the fixed header. -/
def controlByte (msgType dup qos retain : Byte) : Byte :=
  ((msgType &&& 0x0f#8) <<< 4) ||| ((dup &&& 1#8) <<< 3) ||| ((qos &&& 3#8) <<< 1) ||| (retain &&& 1#8)

/-- A round of the loop puts out a group, and goes on exactly if there is another one. -/
theorem mqttOutputAppendLength_eq (rb : MqttRingbuf) (rounds : Nat) (rLength : BitVec 16) :
    mqttOutputAppendLength rb rounds rLength = rb.pushAll 8 (groups rounds rLength.toNat) := by
  induction rounds generalizing rb rLength with
  | zero => rfl
  | succ rounds ih =>
    have next : (rLength >>> 7).toNat = rLength.toNat / 128 := by
      rw [BitVec.toNat_ushiftRight, Nat.shiftRight_eq_div_pow]
    have low : (rLength &&& 0x7f#16).toNat = rLength.toNat % 128 := by
      rw [BitVec.toNat_and]
      exact Nat.and_two_pow_sub_one_eq_mod rLength.toNat 7
    rw [mqttOutputAppendLength, groups]
    by_cases last : rLength.toNat < 128
    · have byte : ((rLength &&& 0x7f#16) ||| 0#16).setWidth 8 = BitVec.ofNat 8 rLength.toNat := by
        apply BitVec.eq_of_toNat_eq
        rw [BitVec.or_zero, BitVec.toNat_setWidth, low, BitVec.toNat_ofNat, Nat.mod_eq_of_lt last]
      simp only [if_pos last, if_neg (Nat.not_le.mpr last), next, Nat.div_eq_of_lt last, byte, mqttOutputAppendU8,
        mqttRingbufPut_eq]
      rfl
    · have byte : ((rLength &&& 0x7f#16) ||| 0x80#16).setWidth 8 = BitVec.ofNat 8 (rLength.toNat % 128 + 128) := by
        apply BitVec.eq_of_toNat_eq
        have disjoint := Nat.two_pow_add_eq_or_of_lt (show rLength.toNat % 128 < 2 ^ 7 by omega) 1
        rw [BitVec.toNat_setWidth, BitVec.toNat_or, low, BitVec.toNat_ofNat, Nat.or_comm]
        exact congrArg (· % 2 ^ 8) (disjoint.symm.trans (Nat.add_comm _ _))
      have more : rLength.toNat / 128 > 0 := Nat.div_pos (Nat.not_lt.mp last) (by omega)
      simp only [if_neg last, if_pos (Nat.not_lt.mp last), next, if_pos more, byte, ih, mqttOutputAppendU8,
        mqttRingbufPut_eq]
      rfl

theorem groups_three (rLength : BitVec 16) : groups 3 rLength.toNat = lengthBytes rLength.toNat := by
  have fits := rLength.isLt
  exact (groups_succ (by omega)).symm

theorem mqttOutputAppendFixedHeader_eq (rb : MqttRingbuf) (msgType dup qos retain : Byte) (rLength : BitVec 16) :
    mqttOutputAppendFixedHeader rb msgType dup qos retain rLength =
      rb.pushAll 8 (controlByte msgType dup qos retain :: lengthBytes rLength.toNat) := by
  simp only [mqttOutputAppendFixedHeader, mqttOutputAppendLength_eq, groups_three, mqttOutputAppendU8,
    mqttRingbufPut_eq]
  rfl

theorem mqttOutputCountLength_eq (totalLen : BitVec 16) (rounds : Nat) (rLength : BitVec 16) :
    mqttOutputCountLength totalLen rounds rLength =
      totalLen + BitVec.ofNat 16 (groups rounds rLength.toNat).length := by
  induction rounds generalizing totalLen rLength with
  | zero => simp [mqttOutputCountLength, groups]
  | succ rounds ih =>
    have next : (rLength >>> 7).toNat = rLength.toNat / 128 := by
      rw [BitVec.toNat_ushiftRight, Nat.shiftRight_eq_div_pow]
    rw [mqttOutputCountLength, groups]
    by_cases last : rLength.toNat < 128
    · simp [next, Nat.div_eq_of_lt last, last]
    · have more : rLength.toNat / 128 > 0 := Nat.div_pos (Nat.not_lt.mp last) (by omega)
      simp only [next, if_pos more, if_neg last, ih, List.length_cons, BitVec.ofNat_add, BitVec.add_assoc]
      rw [BitVec.add_comm 1#16]

theorem lengthBytes_length (rLength : BitVec 16) : (lengthBytes rLength.toNat).length ≤ 3 := by
  rw [← groups_three]
  simp only [groups]
  split_ifs <;> simp

/-- The check is right about all lengths but the last four, for which the sum wraps. -/
theorem mqttOutputCheckSpace_iff (rb : MqttRingbuf) {rLength : BitVec 16} (small : rLength.toNat < 2 ^ 16 - 4) :
    mqttOutputCheckSpace rb rLength = true ↔
      rb.length + (1 + (lengthBytes rLength.toNat).length + rLength.toNat) ≤ 2 ^ 8 := by
  have few := lengthBytes_length rLength
  have total : (1#16 + rLength + BitVec.ofNat 16 (lengthBytes rLength.toNat).length).toNat =
      1 + rLength.toNat + (lengthBytes rLength.toNat).length := by
    rw [BitVec.toNat_add, BitVec.toNat_add, BitVec.toNat_ofNat, BitVec.toNat_ofNat]
    omega
  rw [mqttOutputCheckSpace, mqttOutputCountLength_eq, groups_three, decide_eq_true_eq, total, mqttRingbufFree,
    mqttRingbufLen, ← Ring.length, mqttOutputRingbufSize]
  omega

/-- All that has been put out on a connection: what TCP has taken, and what is still in the ring. -/
def outputStream (rb : MqttRingbuf) (pcb : TcpPcb) : List Byte := pcb.written ++ rb.contents 8

/-- What may be done to a ring and a connection without any byte being lost or doubled. -/
structure Sent (rb : MqttRingbuf) (pcb : TcpPcb) (after : MqttRingbuf × TcpPcb) : Prop where
  stream : outputStream after.1 after.2 = outputStream rb pcb
  length : after.1.length ≤ rb.length

/-- The get index moves on by what has been written, and stays if the write has failed. -/
theorem sent_write (rb : MqttRingbuf) (pcb : TcpPcb) {n : Nat} (within : n ≤ rb.linear 8) :
    let write := tcpWrite pcb (mqttRingbufGet rb n)
    Sent rb pcb (if write.2 then mqttRingbufAdvanceGetIdx rb n else rb, write.1) := by
  have live : n ≤ rb.length := within.trans (Nat.min_le_left ..)
  unfold tcpWrite
  split
  · exact ⟨rfl, Nat.le_refl _⟩
  · have front : (rb.advance n).contents 8 = (rb.contents 8).drop n := Ring.advance_contents live
    have shorter : (rb.advance n).length = rb.length - n := Ring.advance_length live
    refine ⟨?_, shorter ▸ Nat.sub_le ..⟩
    simp only [outputStream, if_true]
    rw [mqttRingbufGet_eq, Ring.window_eq (by omega) within, List.append_assoc]
    exact congrArg _ ((congrArg _ front).trans (List.take_append_drop ..))

theorem Sent.trans {rb rb' : MqttRingbuf} {pcb pcb' : TcpPcb} {after : MqttRingbuf × TcpPcb}
    (first : Sent rb pcb (rb', pcb')) (rest : Sent rb' pcb' after) : Sent rb pcb after :=
  ⟨rest.stream.trans first.stream, rest.length.trans first.length⟩

theorem mqttOutputSend_sent (rb : MqttRingbuf) (pcb : TcpPcb) : Sent rb pcb (mqttOutputSend rb pcb) := by
  simp only [mqttOutputSend, mqttRingbufLinearReadLength_eq]
  split
  · exact ⟨rfl, Nat.le_refl _⟩
  · have first := sent_write rb pcb (Nat.min_le_right pcb.sndBuf (rb.linear 8))
    generalize tcpWrite pcb (mqttRingbufGet rb (min pcb.sndBuf (rb.linear 8))) = write at first ⊢
    obtain ⟨written, ok⟩ := write
    cases ok with
    | false => exact first
    | true =>
      simp only [if_true] at first ⊢
      split
      · exact first.trans (sent_write _ _ (Nat.min_le_right ..))
      · exact first

end Maglev
