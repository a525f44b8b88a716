import Maglev.Lib.Ring
import Maglev.Lib.MqttFormat

namespace Maglev

def mqttOutputRingbufSize : Nat := 256

/-- `struct mqtt_ringbuf_t`. -/
abbrev MqttRingbuf := Ring Byte 16

def mqttRingbufIdxMask : BitVec 16 := BitVec.ofNat 16 (mqttOutputRingbufSize - 1)

def mqttRingbufPut (rb : MqttRingbuf) (item : Byte) : MqttRingbuf :=
  { rb with put := rb.put + 1#16, buf := Function.update rb.buf (rb.put &&& mqttRingbufIdxMask).toNat item }

def mqttRingbufLen (rb : MqttRingbuf) : Nat := (rb.put - rb.get).toNat

def mqttRingbufFree (rb : MqttRingbuf) : Int := mqttOutputRingbufSize - mqttRingbufLen rb

def mqttRingbufLinearReadLength (rb : MqttRingbuf) : Nat :=
  min (mqttRingbufLen rb) (mqttOutputRingbufSize - (rb.get &&& mqttRingbufIdxMask).toNat)

/-- The bytes that `tcp_write` finds behind `mqtt_ringbuf_get_ptr`. -/
def mqttRingbufGet (rb : MqttRingbuf) (len : Nat) : List Byte :=
  (List.range len).map fun i => rb.buf ((rb.get &&& mqttRingbufIdxMask).toNat + i)

def mqttRingbufAdvanceGetIdx (rb : MqttRingbuf) (len : Nat) : MqttRingbuf :=
  { rb with get := rb.get + BitVec.ofNat 16 len }

/-- The TCP connection below the client: the room for data, all that has been written to
it so far, and which of the writes to come fail for another reason than lack of room. -/
structure TcpPcb where
  sndBuf : Nat
  written : List Byte
  refusals : List Bool

/-- `tcp_write` takes all or nothing, and says whether it did. -/
def tcpWrite (pcb : TcpPcb) (bytes : List Byte) : TcpPcb × Bool :=
  let later := { pcb with refusals := pcb.refusals.tail }
  if pcb.refusals.headD false ∨ bytes.length > pcb.sndBuf then (later, false)
  else ({ later with sndBuf := pcb.sndBuf - bytes.length, written := pcb.written ++ bytes }, true)

def mqttOutputSend (rb : MqttRingbuf) (tpcb : TcpPcb) : MqttRingbuf × TcpPcb :=
  let ringbufLinLen := mqttRingbufLinearReadLength rb
  if tpcb.sndBuf = 0 ∨ ringbufLinLen = 0 then (rb, tpcb)
  else
    let wrap := tpcb.sndBuf > ringbufLinLen ∧ mqttRingbufLen rb > ringbufLinLen
    let sendLen := min tpcb.sndBuf ringbufLinLen
    let (tpcb, ok) := tcpWrite tpcb (mqttRingbufGet rb sendLen)
    if ok then
      let rb := mqttRingbufAdvanceGetIdx rb sendLen
      if wrap then
        let sendLen := min tpcb.sndBuf (mqttRingbufLinearReadLength rb)
        let (tpcb, ok) := tcpWrite tpcb (mqttRingbufGet rb sendLen)
        (if ok then mqttRingbufAdvanceGetIdx rb sendLen else rb, tpcb)
      else (rb, tpcb)
    else (rb, tpcb)

def mqttOutputAppendU8 (rb : MqttRingbuf) (value : Byte) : MqttRingbuf := mqttRingbufPut rb value

def mqttOutputAppendU16 (rb : MqttRingbuf) (value : BitVec 16) : MqttRingbuf :=
  mqttRingbufPut (mqttRingbufPut rb ((value >>> 8).setWidth 8)) ((value &&& 0xff#16).setWidth 8)

def mqttOutputAppendBuf (rb : MqttRingbuf) (data : List Byte) : MqttRingbuf := data.foldl mqttRingbufPut rb

def mqttOutputAppendString (rb : MqttRingbuf) (str : List Byte) (length : BitVec 16) : MqttRingbuf :=
  (str.take length.toNat).foldl mqttRingbufPut
    (mqttRingbufPut (mqttRingbufPut rb ((length >>> 8).setWidth 8)) ((length &&& 0xff#16).setWidth 8))

/-- The loop that encodes the remaining length. A length of 16 bits is through after three rounds. -/
def mqttOutputAppendLength (rb : MqttRingbuf) : Nat → BitVec 16 → MqttRingbuf
  | 0, _ => rb
  | rounds + 1, rLength =>
    let more := if rLength.toNat ≥ 128 then 0x80#16 else 0#16
    let rb := mqttOutputAppendU8 rb (((rLength &&& 0x7f#16) ||| more).setWidth 8)
    if (rLength >>> 7).toNat > 0 then mqttOutputAppendLength rb rounds (rLength >>> 7) else rb

def mqttOutputAppendFixedHeader (rb : MqttRingbuf) (msgType dup qos retain : Byte) (rLength : BitVec 16) :
    MqttRingbuf :=
  let control := ((msgType &&& 0x0f#8) <<< 4) ||| ((dup &&& 1#8) <<< 3) ||| ((qos &&& 3#8) <<< 1) ||| (retain &&& 1#8)
  mqttOutputAppendLength (mqttOutputAppendU8 rb control) 3 rLength

/-- The loop that counts the bytes of the remaining length, three rounds again. -/
def mqttOutputCountLength (totalLen : BitVec 16) : Nat → BitVec 16 → BitVec 16
  | 0, _ => totalLen
  | rounds + 1, rLength =>
    let totalLen := totalLen + 1#16
    if (rLength >>> 7).toNat > 0 then mqttOutputCountLength totalLen rounds (rLength >>> 7) else totalLen

def mqttOutputCheckSpace (rb : MqttRingbuf) (rLength : BitVec 16) : Bool :=
  (mqttOutputCountLength (1#16 + rLength) 3 rLength).toNat ≤ mqttRingbufFree rb

end Maglev
