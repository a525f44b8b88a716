import Maglev.Command.Payload
import Maglev.CWPack.PackSpec

namespace Maglev

open MessagePack

/-- A setting of the command vocabulary. -/
inductive CommandField
  | enable (b : Bool)
  | iTarget (bits : BitVec 32)
  deriving DecidableEq, Repr

/-- The calls with which a sender packs a setting. -/
def packField (pm : PtrModel) (pc : PackContext) : CommandField → PackContext
  | .enable b => cwPackBoolean pm (cwPackStr pm pc (literal "enable") 6#32) b
  | .iTarget bits => cwPackFloat pm (cwPackStr pm pc (literal "i_target") 8#32) bits

def packCommand (pm : PtrModel) (pc : PackContext) (fields : List CommandField) : PackContext :=
  fields.foldl (packField pm) (cwPackMapSize pm pc (BitVec.ofNat 32 fields.length))

def CommandField.key : CommandField → List Byte
  | .enable _ => enableKey.bytes
  | .iTarget _ => iTargetKey.bytes

def CommandField.value : CommandField → Value
  | .enable b => .bool b
  | .iTarget bits => .float bits

def CommandField.valueBytes : CommandField → List Byte
  | .enable b => [if b then 0xc3 else 0xc2]
  | .iTarget bits => 0xca :: bigEndian 4 bits.toNat

/-- The bytes of a setting, and of a whole command. -/
def CommandField.bytes (f : CommandField) : List Byte := strHeader f.key.length ++ f.key ++ f.valueBytes

def commandBytes (fields : List CommandField) : List Byte :=
  mapHeader fields.length ++ fields.flatMap CommandField.bytes

def packBufferSize : Nat := 1024

/-- A command on its way: the settings, the buffers at both ends with whatever the
memory around them held before, and the stack of the receiver. -/
structure Transfer where
  fields : List CommandField
  packMem : Mem
  packBuffer : Nat
  subMem : Mem
  subBuffer : Nat
  uc : UnpackContext
  fits : (commandBytes fields).length ≤ packBufferSize
  packRoom : packBuffer + packBufferSize < 2 ^ 32
  subRoom : subBuffer + packBufferSize < 2 ^ 32

def Transfer.packed (t : Transfer) : PackContext :=
  packCommand .wrap32 (cwPackContextInit .wrap32 t.packMem t.packBuffer packBufferSize) t.fields

/-- What is published: the bytes between the start of the buffer and the cursor. -/
def Transfer.bytes (t : Transfer) : List Byte := t.packed.mem.read t.packed.start (t.packed.current - t.packed.start)

def Transfer.deliver (m1 : Motor) (t : Transfer) : Motor :=
  (handleIncomingCommand .wrap32 (t.subMem.store t.subBuffer t.bytes) .cmdM1
    (cwUnpackContextInit .wrap32 t.uc t.subBuffer t.bytes.length) m1).mc

/-- What a setting means for the pair of the two that there are. -/
def CommandField.write (settings : Bool × BitVec 32) : CommandField → Bool × BitVec 32
  | .enable b => (b, settings.2)
  | .iTarget bits => (settings.1, bits)

theorem packField_packed (pm : PtrModel) {pc : PackContext} (f : CommandField) (writable : Writable pc f.bytes) :
    Packed pc f.bytes (packField pm pc f) := by
  unfold CommandField.bytes at writable
  have keyPacked {l : BitVec 32} (length : l.toNat = f.key.length) :
      Packed pc (strHeader f.key.length ++ f.key) (cwPackStr pm pc f.key l) :=
    writable.begin.str pm length
  cases f with
  | enable b =>
    have key := @keyPacked 6#32 rfl
    have behind := writable.next key
    have value := behind.put pm
    rw [CommandField.valueBytes, ← cwPackBoolean_put pm behind.ok] at value
    exact key.trans value
  | iTarget bits =>
    have key := @keyPacked 8#32 rfl
    have behind := writable.next key
    have value := behind.put pm
    rw [CommandField.valueBytes, ← cwPackFloat_put pm behind.ok] at value
    exact key.trans value

theorem packFields_packed (pm : PtrModel) (fields : List CommandField) {pc : PackContext}
    (writable : Writable pc (fields.flatMap CommandField.bytes)) :
    Packed pc (fields.flatMap CommandField.bytes) (fields.foldl (packField pm) pc) := by
  induction fields generalizing pc with
  | nil => simp [Packed, Mem.store_nil]
  | cons f fields ih =>
    rw [List.flatMap_cons] at writable
    have first := packField_packed pm f writable.begin
    exact first.trans (ih (writable.next first))

theorem commandBytes_length_ge (fields : List CommandField) : fields.length ≤ (commandBytes fields).length := by
  have settings : fields.length ≤ (fields.flatMap CommandField.bytes).length := by
    induction fields with
    | nil => simp
    | cons f fields ih =>
      have value : 1 ≤ f.valueBytes.length := by cases f <;> simp [CommandField.valueBytes]
      simp only [List.flatMap_cons, List.length_append, List.length_cons, CommandField.bytes]
      omega
  rw [commandBytes, List.length_append]
  omega

theorem packCommand_packed (pm : PtrModel) (fields : List CommandField) {pc : PackContext}
    (writable : Writable pc (commandBytes fields)) : Packed pc (commandBytes fields) (packCommand pm pc fields) := by
  have count := commandBytes_length_ge fields
  have room := writable.room
  have top := writable.top
  have size : (BitVec.ofNat 32 fields.length).toNat = fields.length := Nat.mod_eq_of_lt (by omega)
  unfold commandBytes at writable
  have header : Packed pc (mapHeader fields.length) (cwPackMapSize pm pc (BitVec.ofNat 32 fields.length)) := by
    rw [cwPackMapSize_put pm writable.ok, size]
    exact writable.begin.put pm
  exact header.trans (packFields_packed pm fields (writable.next header))

/-- What is published is the command's own bytes and nothing that the buffer held before. -/
theorem Transfer.bytes_eq (t : Transfer) : t.bytes = commandBytes t.fields :=
  (packCommand_packed .wrap32 t.fields (writable_init .wrap32 t.packMem t.packRoom t.fits)).read_start

theorem CommandField.key_short (f : CommandField) : f.key.length < Width.w32.bound := by
  have enable : enableKey.bytes.length < Width.w32.bound := by decide
  have iTarget : iTargetKey.bytes.length < Width.w32.bound := by decide
  cases f with
  | enable b => exact enable
  | iTarget bits => exact iTarget

theorem commandBytes_encodes {fields : List CommandField} (fits : fields.length < 2 ^ 32) :
    Encodes (commandMap (fields.map fun f => (f.key, f.value))) (commandBytes fields) := by
  have settings (fields : List CommandField) :
      EncodesAll ((fields.map fun f => (f.key, f.value)).flatMap fun field => [.str field.1, field.2])
        (fields.flatMap CommandField.bytes) := by
    induction fields with
    | nil => exact .nil
    | cons f fields ih =>
      have key : Encodes (.str f.key) (strHeader f.key.length ++ f.key) := .scalar (scalar_strHeader f.key_short)
      have value : Encodes f.value f.valueBytes := by
        cases f with
        | enable b => exact .scalar (.bool b)
        | iTarget bits => exact .scalar (.float bits)
      rw [List.flatMap_cons, CommandField.bytes, List.append_assoc]
      exact .cons key (.cons value ih)
  have header : MapHeader (fields.map fun f => (Value.str f.key, f.value)).length (mapHeader fields.length) := by
    rw [List.length_map]
    exact mapHeader_isHeader fits
  have all := settings fields
  rw [List.flatMap_map] at all
  rw [commandMap, List.map_map]
  refine .map header ?_
  rw [List.flatMap_map]
  exact all

def CommandField.assignment : CommandField → Assignment
  | .enable b => .enabled b
  | .iTarget bits => .iTarget bits

theorem pairEffect_field (f : CommandField) : pairEffect f.key f.value = [f.assignment] := by
  have self (name : CString) : LooseMatch name name.bytes := Or.inl (List.prefix_refl _)
  cases f with
  | enable b =>
    rw [CommandField.key, CommandField.value, pairEffect, if_pos (self enableKey), CommandField.assignment]
  | iTarget bits =>
    rw [CommandField.key, CommandField.value, pairEffect, if_pos (self iTargetKey), CommandField.assignment]

theorem flatMap_pairEffect (fields : List CommandField) :
    ((fields.map fun f => (f.key, f.value)).flatMap fun field => pairEffect field.1 field.2) =
      fields.map CommandField.assignment := by
  induction fields with
  | nil => rfl
  | cons f fields ih =>
    rw [List.map_cons, List.flatMap_cons, ih, pairEffect_field, List.singleton_append, List.map_cons]

/-- The stores of a command, as a record with the two settings written and all else kept. -/
theorem foldl_assignment (fields : List CommandField) (m1 : Motor) :
    (fields.map CommandField.assignment).foldl Assignment.apply m1 =
      let settings := fields.foldl CommandField.write (m1.enabled, m1.iTarget)
      { m1 with enabled := settings.1, iTarget := settings.2 } := by
  induction fields generalizing m1 with
  | nil => rfl
  | cons f fields ih =>
    rw [List.map_cons, List.foldl_cons, ih]
    cases f with
    | enable b => rfl
    | iTarget bits => rfl

theorem Transfer.deliver_eq (t : Transfer) (m1 : Motor) :
    t.deliver m1 =
      let settings := t.fields.foldl CommandField.write (m1.enabled, m1.iTarget)
      { m1 with enabled := settings.1, iTarget := settings.2 } := by
  have fits := t.fits
  have room := t.subRoom
  have count := commandBytes_length_ge t.fields
  unfold packBufferSize at fits room
  obtain ⟨payload, fields, bytes⟩ := exists_payload (@commandBytes_encodes t.fields (by omega))
  have unnested : ∀ e ∈ payload.pairs.dropLast, e.value.children = 0 := by
    refine payload.unnested ?_
    rw [fields]
    intro field member
    obtain ⟨f, _, rfl⟩ := List.mem_map.mp member
    cases f <;> rfl
  have held : Holds (t.subMem.store t.subBuffer (commandBytes t.fields)) t.subBuffer payload.bytes :=
    bytes ▸ Mem.store_holds _ _ _
  have top : t.subBuffer + payload.bytes.length < 2 ^ 32 := by
    rw [bytes]
    omega
  have motor := (handleIncomingCommand_inStep .wrap32 payload unnested held top t.uc m1).1
  rw [payload.flatMap_effect, fields, flatMap_pairEffect, foldl_assignment, bytes] at motor
  rw [Transfer.deliver, t.bytes_eq]
  exact motor

/-- Whatever settings are packed and handed over, command after command, the motor ends
up with the last value written to each of them, and is otherwise as it was. -/
theorem transfers_roundTrip (transfers : List Transfer) (m1 : Motor) :
    transfers.foldl Transfer.deliver m1 =
      let settings := (transfers.flatMap Transfer.fields).foldl CommandField.write (m1.enabled, m1.iTarget)
      { m1 with enabled := settings.1, iTarget := settings.2 } := by
  induction transfers generalizing m1 with
  | nil => rfl
  | cons t transfers ih => rw [List.foldl_cons, ih, t.deliver_eq, List.flatMap_cons, List.foldl_append]

theorem transfers_roundTrip_nan :
    let t : Transfer :=
      { fields := [.enable false, .iTarget 0x7fc00001#32, .enable true]
        packMem := fun _ => 0xff#8
        packBuffer := 0x20000000
        subMem := fun _ => 0xff#8
        subBuffer := 0x20000400
        uc := default
        fits := by decide
        packRoom := by decide
        subRoom := by decide }
    [t, t].foldl Transfer.deliver staticM1 = { staticM1 with enabled := true, iTarget := 0x7fc00001#32 } := by
  intro t
  rw [transfers_roundTrip]
  rfl

end Maglev
