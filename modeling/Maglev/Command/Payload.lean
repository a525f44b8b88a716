import Maglev.Command.Pairs

namespace Maglev

open MessagePack

/-- A command payload: the complete encoding of a map with string keys. -/
structure MapPayload where
  pairs : List EncodedPair
  header : List Byte
  isHeader : MapHeader pairs.length header

namespace MapPayload

def bytes (payload : MapPayload) : List Byte := payload.header ++ payload.pairs.flatMap EncodedPair.bytes

/-- The keys and values, without the choices the writer made in encoding them. -/
def fields (payload : MapPayload) : List (List Byte × Value) := payload.pairs.map fun e => (e.key, e.value)

theorem flatMap_effect (payload : MapPayload) :
    payload.pairs.flatMap EncodedPair.effect = payload.fields.flatMap fun field => pairEffect field.1 field.2 := by
  rw [fields, List.flatMap_map]
  rfl

end MapPayload

/-- The map that a list of named values stands for. -/
def commandMap (fields : List (List Byte × Value)) : Value := .map (fields.map fun field => (.str field.1, field.2))

theorem encodesAll_pairs (es : List EncodedPair) :
    EncodesAll (es.flatMap fun e => [.str e.key, e.value]) (es.flatMap EncodedPair.bytes) := by
  induction es with
  | nil => exact .nil
  | cons e es ih =>
    have value := EncodesAll.cons e.isValue ih
    have pair := EncodesAll.cons (.scalar e.isKey) value
    simpa [EncodedPair.bytes] using pair

/-- A payload is an encoding of its map. -/
theorem MapPayload.encodes (payload : MapPayload) : Encodes (commandMap payload.fields) payload.bytes := by
  refine Encodes.map ?_ ?_
  · simpa [fields] using payload.isHeader
  · simpa [fields, List.flatMap_map] using encodesAll_pairs payload.pairs

/-- And every encoding of a map with string keys is a payload. -/
theorem exists_payload {fields : List (List Byte × Value)} {bytes : List Byte}
    (encoded : Encodes (commandMap fields) bytes) :
    ∃ payload : MapPayload, payload.fields = fields ∧ payload.bytes = bytes := by
  cases encoded with
  | scalar impossible => exact absurd impossible.flat id
  | @map _ header body isHeader all =>
    rw [List.flatMap_map] at all
    obtain ⟨es, mapped, joined⟩ := encodedPairs all
    have count : es.length = (fields.map fun field => (Value.str field.1, field.2)).length := by
      simp [← mapped]
    exact ⟨⟨es, header, count ▸ isHeader⟩, mapped, by simp [MapPayload.bytes, joined]⟩

/-- A pair takes at least two bytes, so a payload below the top of the address
space has a size that is positive as an `int`. -/
theorem MapPayload.length_lt (payload : MapPayload) (small : payload.bytes.length < 2 ^ 32) :
    payload.pairs.length < 2 ^ 31 := by
  have pairs := EncodedPair.two_mul_length_le payload.pairs
  rw [bytes, List.length_append] at small
  omega

theorem handleIncomingCommand_map {pm : PtrModel} {mem : Mem} {uc header : UnpackContext} {n : Nat} (m1 : Motor)
    (next : cwUnpackNext pm mem uc = header) (isMap : header.item.type = .map)
    (count : header.item.as.size.toInt.toNat = n) :
    handleIncomingCommand pm mem .cmdM1 uc m1 =
      { commandLoop pm mem n header m1 with
        calls := (uc, header) :: (commandLoop pm mem n header m1).calls } := by
  simp [handleIncomingCommand, next, isMap, count]

/-- A payload without anything nested in its values. -/
theorem MapPayload.unnested (payload : MapPayload) (flat : ∀ field ∈ payload.fields, field.2.children = 0) :
    ∀ e ∈ payload.pairs.dropLast, e.value.children = 0 := by
  intro e member
  exact flat (e.key, e.value) (List.mem_map.mpr ⟨e, (List.dropLast_sublist _).subset member, rfl⟩)

/-- The handler takes the header and runs the pair loop over as many pairs as there are. -/
theorem handleIncomingCommand_payload (pm : PtrModel) {mem : Mem} {base : Nat} (payload : MapPayload)
    (held : Holds mem base payload.bytes) (top : base + payload.bytes.length < 2 ^ 32) (uc : UnpackContext)
    (m1 : Motor) :
    ∃ header : UnpackContext, header.current = base + payload.header.length ∧
      Readable mem header (payload.pairs.flatMap EncodedPair.bytes) ∧
      (handleIncomingCommand pm mem .cmdM1 (cwUnpackContextInit pm uc base payload.bytes.length) m1).mc =
        (commandLoop pm mem payload.pairs.length header m1).mc ∧
      (handleIncomingCommand pm mem .cmdM1 (cwUnpackContextInit pm uc base payload.bytes.length) m1).iterations =
        (commandLoop pm mem payload.pairs.length header m1).iterations := by
  let begun := cwUnpackContextInit pm uc base payload.bytes.length
  have isHead : Head (commandMap payload.fields) payload.header :=
    .map (by simpa [MapPayload.fields] using payload.isHeader)
  have readable : Readable mem begun (payload.header ++ _) := readable_init pm uc held top
  have read := readable.unpacked pm isHead
  have size : (cwUnpackNext pm mem begun).item.as.size = BitVec.ofNat 32 payload.pairs.length := by
    obtain ⟨_, after⟩ := read
    rw [after]
    simp [commandMap, MapPayload.fields, Value.stored]
  have count : (cwUnpackNext pm mem begun).item.as.size.toInt.toNat = payload.pairs.length := by
    have small := payload.length_lt (by omega)
    have toNat : (BitVec.ofNat 32 payload.pairs.length).toNat = payload.pairs.length := Nat.mod_eq_of_lt (by omega)
    rw [size, BitVec.toInt_eq_toNat_of_lt (by omega), toNat, Int.toNat_natCast]
  have run := handleIncomingCommand_map m1 rfl read.type count
  exact ⟨_, read.current, readable.next read, by rw [run], by rw [run]⟩

/-- The run of a payload in which only the last value may have something nested in it. -/
theorem handleIncomingCommand_inStep (pm : PtrModel) {mem : Mem} {base : Nat} (payload : MapPayload)
    (unnested : ∀ e ∈ payload.pairs.dropLast, e.value.children = 0) (held : Holds mem base payload.bytes)
    (top : base + payload.bytes.length < 2 ^ 32) (uc : UnpackContext) (m1 : Motor) :
    let run := handleIncomingCommand pm mem .cmdM1 (cwUnpackContextInit pm uc base payload.bytes.length) m1
    run.mc = (payload.pairs.flatMap EncodedPair.effect).foldl Assignment.apply m1 ∧
      run.iterations.map (·.assigned) = payload.pairs.map EncodedPair.effect ∧
      run.iterations.map (·.start.current) =
        EncodedPair.positions (base + payload.header.length) payload.pairs := by
  obtain ⟨header, current, readable, motor, iterations⟩ := handleIncomingCommand_payload pm payload held top uc m1
  have bodies : ∀ e ∈ payload.pairs.dropLast, e.body = [] := fun e member => e.nested.mpr (unnested e member)
  simp only [motor, iterations, ← current]
  exact commandLoop_pairs pm payload.pairs bodies m1 readable

end Maglev
