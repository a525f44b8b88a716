import Mathlib.Logic.Function.Iterate
import Maglev.Comms.PublishLoop
import Maglev.CWPack.PackSpec
import Maglev.CWPack.UnpackSpec
import Maglev.Lib.CString

namespace Maglev

open MessagePack

def pubBufferSize : Nat := 1024

/-- What `heartbeat` packs. -/
def packHeartbeat (pm : PtrModel) (pc : PackContext) (timeNow : SysTime) : PackContext :=
  cwPackUnsigned pm (cwPackStr pm (cwPackMapSize pm pc 1#32) (literal "uptime") 6#32) (timeNow.setWidth 64)

/-- What it packs, with the bits of `m1.i_a`, and the delay it returns. -/
def dispatchTelemetry (pm : PtrModel) (pc : PackContext) (iA : BitVec 32) : PackContext × SysTime :=
  (cwPackFloat pm (cwPackStr pm (cwPackMapSize pm pc 1#32) (literal "i_a") 3#32) iA, timeMs2i 20)

/-- The messages that the task publishes. -/
inductive Message
  | heartbeat (timeNow : SysTime)
  | telemetry (iA : BitVec 32)
  deriving DecidableEq, Repr

def Message.pack (pm : PtrModel) (pc : PackContext) : Message → PackContext
  | .heartbeat timeNow => packHeartbeat pm pc timeNow
  | .telemetry iA => (dispatchTelemetry pm pc iA).1

/-- `pub_buffer` and the memory it is in. -/
structure PubBuffer where
  mem : Mem
  base : Nat
  room : base + pubBufferSize < 2 ^ 32

/-- Both messages are packed into the whole buffer, and published from its start to the cursor. -/
def PubBuffer.publish (pm : PtrModel) (b : PubBuffer) (m : Message) : PubBuffer × List Byte :=
  let pc := m.pack pm (cwPackContextInit pm b.mem b.base pubBufferSize)
  ({ b with mem := pc.mem }, pc.mem.read pc.start (pc.current - pc.start))

/-- The messages in turn, with the bytes that are published. -/
def pubMachine (pm : PtrModel) : Machine PubBuffer Message (List Byte) where
  step b m := ((b.publish pm m).1, [(b.publish pm m).2])

/-- What the publish loop of `_CommTask` works on. -/
structure CommTask where
  loop : PublishLoop
  buffer : PubBuffer

/-- The readings of an iteration. -/
structure CommRound where
  timeNow : SysTime
  iA : BitVec 32
  heartbeatNow : SysTime

/-- The messages of an iteration, in the order in which they are packed. -/
def Published.messages (p : Published) (iA : BitVec 32) : List Message :=
  (if p.telemetry then [.telemetry iA] else []) ++ (p.heartbeat.map .heartbeat).toList

/-- The iterations of the loop with the bytes that they publish. -/
def commMachine (pm : PtrModel) : Machine CommTask CommRound (List Byte) where
  step s i :=
    let pc := cwPackContextInit pm s.buffer.mem s.buffer.base pubBufferSize
    let after := publishIteration s.loop ⟨i.timeNow, (dispatchTelemetry pm pc i.iA).2, i.heartbeatNow⟩
    let messages := after.2.messages i.iA
    (⟨after.1, (pubMachine pm).final s.buffer messages⟩, (pubMachine pm).outputs s.buffer messages)

/-- What an iteration is to send: the current that it reads, if it has a handler and the time
is past the deadline, and the time that it reads, if the last heartbeat was long enough ago. -/
def CommTask.due (s : CommTask) (i : CommRound) : List Message :=
  (if s.loop.telemCb = true ∧ s.loop.nextOutpub < i.timeNow then [.telemetry i.iA] else []) ++
    if heartbeatInterval ≤ timeI2ms (i.heartbeatNow - s.loop.timeLastHeartbeat) then [.heartbeat i.heartbeatNow]
    else []

/-- The key of the one pair, and its value. -/
def Message.key : Message → List Byte
  | .heartbeat _ => literal "uptime"
  | .telemetry _ => literal "i_a"

def Message.value : Message → Value
  | .heartbeat timeNow => .int timeNow.toNat
  | .telemetry iA => .float iA

def Message.valueBytes : Message → List Byte
  | .heartbeat timeNow => uintBytes timeNow.toNat
  | .telemetry iA => 0xca :: bigEndian 4 iA.toNat

def Message.bytes (m : Message) : List Byte := mapHeader 1 ++ (strHeader m.key.length ++ m.key ++ m.valueBytes)

/-- The item that a receiver should find behind the key. -/
def Message.Carried : Message → CwpackItem → Prop
  | .heartbeat timeNow, item => item.type = .positiveInteger ∧ item.as.i64 = timeNow.setWidth 64
  | .telemetry iA, item => item.type = .float ∧ item.as.real = iA

/-- The context of a receiver after `n` calls of `cw_unpack_next`. -/
def received (pm : PtrModel) (mem : Mem) (uc : UnpackContext) (base length n : Nat) : UnpackContext :=
  (cwUnpackNext pm mem)^[n] (cwUnpackContextInit pm uc base length)

/-- A receiver that has the bytes at `base` unpacks the message, and then is at their end. -/
structure Decodes (pm : PtrModel) (mem : Mem) (uc : UnpackContext) (base : Nat) (bytes : List Byte) (m : Message) :
    Prop where
  map : (received pm mem uc base bytes.length 1).returnCode = .ok ∧
    (received pm mem uc base bytes.length 1).item.type = .map ∧
    (received pm mem uc base bytes.length 1).item.as.size = 1
  key : (received pm mem uc base bytes.length 2).returnCode = .ok ∧
    (received pm mem uc base bytes.length 2).item.type = .str ∧
    (received pm mem uc base bytes.length 2).item.as.length.toNat = m.key.length ∧
    Holds mem (received pm mem uc base bytes.length 2).item.as.start.toNat m.key
  value : (received pm mem uc base bytes.length 3).returnCode = .ok ∧
    m.Carried (received pm mem uc base bytes.length 3).item
  rest : (received pm mem uc base bytes.length 4).returnCode = .endOfInput ∧
    (received pm mem uc base bytes.length 4).current = base + bytes.length

/-- So it is for every receiver whose addresses do not wrap. -/
def DecodesTo (bytes : List Byte) (m : Message) : Prop :=
  ∀ (pm : PtrModel) (mem : Mem) (uc : UnpackContext) (base : Nat), Holds mem base bytes →
    base + bytes.length + 1 < 2 ^ 32 → Decodes pm mem uc base bytes m

theorem Message.pack_packed (pm : PtrModel) (m : Message) {pc : PackContext} (writable : Writable pc m.bytes) :
    Packed pc m.bytes (m.pack pm pc) := by
  unfold Message.bytes at writable
  have map : Packed pc (mapHeader 1) (cwPackMapSize pm pc 1#32) := by
    rw [cwPackMapSize_put pm writable.ok]
    exact writable.begin.put pm
  have pair := writable.next map
  have key {l : BitVec 32} (length : l.toNat = m.key.length) := pair.begin.str pm length
  cases m with
  | heartbeat timeNow =>
    have key := @key 6#32 rfl
    have behind := pair.next key
    have value := behind.put pm
    rw [Message.valueBytes, ← toNat_widen, ← cwPackUnsigned_put pm behind.ok] at value
    exact map.trans (key.trans value)
  | telemetry iA =>
    have key := @key 3#32 rfl
    have behind := pair.next key
    have value := behind.put pm
    rw [Message.valueBytes, ← cwPackFloat_put pm behind.ok] at value
    exact map.trans (key.trans value)

theorem Message.key_length_le (m : Message) : m.key.length ≤ 6 := by
  have uptime : (literal "uptime").length ≤ 6 := by decide
  have iA : (literal "i_a").length ≤ 6 := by decide
  cases m with
  | heartbeat _ => exact uptime
  | telemetry _ => exact iA

theorem Message.bytes_fit (m : Message) : m.bytes.length ≤ pubBufferSize := by
  have key := m.key_length_le
  have value : m.valueBytes.length ≤ 9 := by
    cases m with
    | heartbeat timeNow => exact uintBytes_length_le _
    | telemetry iA => simp [Message.valueBytes]
  simp only [Message.bytes, mapHeader, strHeader, if_pos (by omega : m.key.length < 32), List.length_append,
    pubBufferSize]
  simp
  omega

theorem PubBuffer.publish_bytes (pm : PtrModel) (b : PubBuffer) (m : Message) : (b.publish pm m).2 = m.bytes :=
  (m.pack_packed pm (writable_init pm b.mem b.room m.bytes_fit)).read_start

theorem Message.carried_of_unpacked {m : Message} {uc after : UnpackContext} {head : List Byte}
    (read : Unpacked uc m.value head after) : m.Carried after.item := by
  obtain ⟨_, rfl⟩ := read
  cases m with
  | heartbeat timeNow =>
    refine ⟨by simp [Message.value, Value.itemType], (ItemUnion.setI64_i64 uc.item.as _).trans ?_⟩
    rw [BitVec.ofInt_natCast, BitVec.ofNat_toNat]
  | telemetry iA => exact ⟨rfl, rfl⟩

theorem Message.value_scalar (m : Message) : Scalar m.value m.valueBytes := by
  cases m with
  | heartbeat timeNow => exact scalar_uintBytes (timeNow.isLt.trans (by decide))
  | telemetry iA => exact .float iA

/-- The next call of a receiver that stands before a value. -/
theorem unpacked_received {pm : PtrModel} {mem : Mem} {uc : UnpackContext} {base length n : Nat} {v : Value}
    {first rest : List Byte} (readable : Readable mem (received pm mem uc base length n) (first ++ rest))
    (isHead : Head v first) :
    Unpacked (received pm mem uc base length n) v first (received pm mem uc base length (n + 1)) := by
  rw [received, received, Function.iterate_succ_apply']
  exact readable.unpacked pm isHead

theorem Message.bytes_decodesTo (m : Message) : DecodesTo m.bytes m := by
  intro pm mem uc base held top
  have short : m.key.length < Width.w32.bound := m.key_length_le.trans_lt (by decide)
  have atMap : Readable mem (received pm mem uc base m.bytes.length 0)
      (mapHeader 1 ++ (strHeader m.key.length ++ m.key ++ m.valueBytes)) := readable_init pm uc held (by omega)
  have map : Unpacked _ (.map [(.nil, .nil)]) _ _ := unpacked_received atMap (.map (mapHeader_isHeader (by decide)))
  have atKey := atMap.next map
  have key := unpacked_received atKey (.flat (scalar_strHeader short))
  have atValue := atKey.next key
  rw [← List.append_nil m.valueBytes] at atValue
  have value := unpacked_received atValue (.flat m.value_scalar)
  have atEnd := atValue.next value
  have begun : (received pm mem uc base m.bytes.length 0).current = base := rfl
  have end_ : (received pm mem uc base m.bytes.length 0).end_ = base + m.bytes.length := pm.add_of_lt (by omega)
  have current : (received pm mem uc base m.bytes.length 3).current = base + m.bytes.length := by
    have total : m.bytes.length =
        (mapHeader 1).length + ((strHeader m.key.length ++ m.key).length + m.valueBytes.length) := by
      rw [Message.bytes, List.length_append, List.length_append]
    rw [value.current, key.current, map.current, begun]
    omega
  have last := (value.end_.trans (key.end_.trans map.end_)).trans end_
  have rest := cwUnpackNext_atEnd pm mem atEnd.ok (current.trans last.symm) (last ▸ top)
  constructor
  · refine ⟨atKey.ok, map.type, ?_⟩
    obtain ⟨_, unpacked⟩ := map
    rw [unpacked]
    rfl
  · have room := atKey.room
    have bound := atKey.top
    rw [List.length_append] at room
    exact ⟨atValue.ok, key.type, key.str (holds_append.mp atKey.held).1 (by omega)⟩
  · exact ⟨atEnd.ok, m.carried_of_unpacked value⟩
  · rw [received, Function.iterate_succ_apply']
    exact ⟨rest.1, rest.2.trans current⟩

theorem PubBuffer.publish_decodesTo (pm : PtrModel) (b : PubBuffer) (m : Message) :
    DecodesTo (b.publish pm m).2 m := by
  rw [b.publish_bytes]
  exact m.bytes_decodesTo

theorem pubMachine_decodesTo (pm : PtrModel) (b : PubBuffer) (messages : List Message) :
    List.Forall₂ DecodesTo ((pubMachine pm).outputs b messages) messages := by
  induction messages generalizing b with
  | nil => exact .nil
  | cons m rest ih => exact .cons (b.publish_decodesTo pm m) (ih (b.publish pm m).1)

theorem publishIteration_messages (s : CommTask) (i : CommRound) (delay : SysTime) :
    (publishIteration s.loop ⟨i.timeNow, delay, i.heartbeatNow⟩).2.messages i.iA = s.due i := by
  rw [Published.messages, publishIteration_telemetry, publishIteration_heartbeat, CommTask.due]
  congr 1
  · simp [PublishLoop.telemetryDue]
  · split <;> rfl

/-- For every message, the published bytes unpack to it and then end, and no byte of them
depends on what the buffer held. In every iteration of the task, what is due is published,
with the readings of that iteration, and nothing else is. -/
theorem commMachine_decodes (pm : PtrModel) :
    (∀ b m, DecodesTo (PubBuffer.publish pm b m).2 m) ∧
    (∀ b b' m, (PubBuffer.publish pm b m).2 = (PubBuffer.publish pm b' m).2) ∧
    ∀ s rounds, (commMachine pm).Everywhere
      (fun s i => List.Forall₂ DecodesTo ((commMachine pm).step s i).2 (s.due i)) s rounds := by
  refine ⟨PubBuffer.publish_decodesTo pm, fun b b' m => ?_, fun s rounds => ?_⟩
  · rw [b.publish_bytes, b'.publish_bytes]
  · refine (commMachine pm).everywhere_of_forall (fun s i => ?_) s rounds
    rw [← publishIteration_messages s i (timeMs2i 20)]
    exact pubMachine_decodesTo pm s.buffer _

end Maglev
