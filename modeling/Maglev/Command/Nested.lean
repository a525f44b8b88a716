import Maglev.Command.Payload

namespace Maglev

open MessagePack

def MessagePack.Value.nilIfNested : Value → Value
  | .array _ => .nil
  | .map _ => .nil
  | v => v

/-- The payload with `nil` in the place of every array and every map among its values. -/
def flattened (fields : List (List Byte × Value)) : List (List Byte × Value) :=
  fields.map fun field => (field.1, field.2.nilIfNested)

/-- Nested data is passed over: the motor ends up as with the flattened payload,
and the iterations start at the pairs of the map, one at each, so that nothing
nested is read as a key and no pair is left out. -/
structure PassesOver (base : Nat) (payload : MapPayload) (run flat : CommandRun) : Prop where
  motor : run.mc = flat.mc
  inStep : run.iterations.map (·.start.current) = EncodedPair.positions (base + payload.header.length) payload.pairs

theorem pairEffect_nilIfNested (key : List Byte) (v : Value) : pairEffect key v.nilIfNested = pairEffect key v := by
  cases v <;> rfl

theorem children_nilIfNested (v : Value) : v.nilIfNested.children = 0 := by
  cases v <;> rfl

theorem commandLoop_first_start (pm : PtrModel) (mem : Mem) (n : Nat) (uc : UnpackContext) (mc : Motor) :
    ((commandLoop pm mem (n + 1) uc mc).iterations.map (·.start.current)).head? = some uc.current := by
  rw [commandLoop]
  split <;> rfl

/-- The iteration after a pair with something nested in it starts inside that pair. -/
theorem commandLoop_unnested (pm : PtrModel) {mem : Mem} (es : List EncodedPair) {uc : UnpackContext} (mc : Motor)
    (readable : Readable mem uc (es.flatMap EncodedPair.bytes))
    (inStep : (commandLoop pm mem es.length uc mc).iterations.map (·.start.current) =
      EncodedPair.positions uc.current es) : ∀ e ∈ es.dropLast, e.body = [] := by
  induction es generalizing uc mc with
  | nil => simp
  | cons e es ih =>
    cases es with
    | nil => simp
    | cons second others =>
      rw [List.flatMap_cons] at readable
      obtain ⟨next, it, behind, current, start, assigned, step⟩ := commandLoop_pair pm e readable
      obtain ⟨_, iterations⟩ := step (second :: others).length mc
      rw [List.length_cons, iterations, List.map_cons, EncodedPair.positions, List.cons.injEq] at inStep
      have firstStart := commandLoop_first_start pm mem others.length next (e.effect.foldl Assignment.apply mc)
      have reached : next.current = uc.current + e.bytes.length := by
        have heads := congrArg List.head? inStep.2
        rw [List.length_cons, firstStart, EncodedPair.positions] at heads
        exact Option.some.inj heads
      have empty : e.body = [] := List.length_eq_zero_iff.mp (by omega)
      rw [empty] at behind
      rw [← reached] at inStep
      have later := ih _ behind inStep.2
      intro other member
      rcases List.mem_cons.mp member with rfl | inner
      · exact empty
      · exact later other inner

/-- The handler passes over nested data exactly when only the last value has anything nested in it. -/
theorem handleIncomingCommand_passesOver_iff (pm : PtrModel) {mem flatMem : Mem} {base flatBase : Nat}
    (payload : MapPayload) {flatBytes : List Byte} (held : Holds mem base payload.bytes)
    (top : base + payload.bytes.length < 2 ^ 32)
    (flatEncoded : Encodes (commandMap (flattened payload.fields)) flatBytes)
    (flatHeld : Holds flatMem flatBase flatBytes) (flatTop : flatBase + flatBytes.length < 2 ^ 32)
    (uc flatUc : UnpackContext) (m1 : Motor) :
    PassesOver base payload
        (handleIncomingCommand pm mem .cmdM1 (cwUnpackContextInit pm uc base payload.bytes.length) m1)
        (handleIncomingCommand pm flatMem .cmdM1 (cwUnpackContextInit pm flatUc flatBase flatBytes.length) m1) ↔
      ∀ e ∈ payload.pairs.dropLast, e.value.children = 0 := by
  constructor
  · intro outcome e member
    obtain ⟨header, current, readable, _, iterations⟩ := handleIncomingCommand_payload pm payload held top uc m1
    have inStep := outcome.inStep
    rw [iterations, ← current] at inStep
    exact e.nested.mp (commandLoop_unnested pm payload.pairs m1 readable inStep e member)
  · intro unnested
    obtain ⟨flat, fields, rfl⟩ := exists_payload flatEncoded
    obtain ⟨motor, _, inStep⟩ := handleIncomingCommand_inStep pm payload unnested held top uc m1
    have flatUnnested : ∀ e ∈ flat.pairs.dropLast, e.value.children = 0 := by
      refine flat.unnested ?_
      rw [fields]
      intro field member
      obtain ⟨source, _, rfl⟩ := List.mem_map.mp member
      exact children_nilIfNested source.2
    obtain ⟨flatMotor, _⟩ := handleIncomingCommand_inStep pm flat flatUnnested flatHeld flatTop flatUc m1
    refine ⟨?_, inStep⟩
    rw [motor, flatMotor, payload.flatMap_effect, flat.flatMap_effect, fields, flattened, List.flatMap_map]
    simp only [pairEffect_nilIfNested]

/-- A pair with a short key. -/
def EncodedPair.short (key : List Byte) {value : Value} {head body : List Byte} (fits : key.length < 32)
    (isValue : Encodes value (head ++ body)) (isHead : Head value head) (nested : body = [] ↔ value.children = 0) :
    EncodedPair where
  key := key
  value := value
  keyBytes := BitVec.ofNat 8 (0xa0 + key.length) :: key
  head := head
  body := body
  isKey := .fixstr fits
  isValue := isValue
  isHead := isHead
  nested := nested

/-- The payload `{"enable": true, "x": [nil]}`. -/
def nestedLast : MapPayload where
  pairs := [
    .short (literal "enable") (by decide) (.scalar (.bool true)) (.flat (.bool true)) (by simp [Value.children]),
    .short (literal "x") (by decide) (.array (.fix (by decide)) (.cons (.scalar .nil) .nil))
      (.array (.fix (by decide))) (by simp [Value.children])]
  header := [0x82#8]
  isHeader := .fix (by decide)

theorem handleIncomingCommand_nestedLast :
    let flatBytes := [0x82#8] ++ ((0xa6#8 :: literal "enable") ++ ([0xc3#8] ++ ((0xa1#8 :: literal "x") ++ [0xc0#8])))
    PassesOver 0x20000000 nestedLast
      (handleIncomingCommand .wrap32 (Mem.store (fun _ => 0#8) 0x20000000 nestedLast.bytes) .cmdM1
        (cwUnpackContextInit .wrap32 default 0x20000000 nestedLast.bytes.length) staticM1)
      (handleIncomingCommand .wrap32 (Mem.store (fun _ => 0#8) 0x20001000 flatBytes) .cmdM1
        (cwUnpackContextInit .wrap32 default 0x20001000 flatBytes.length) staticM1) := by
  intro flatBytes
  have flatEncoded : Encodes (commandMap (flattened nestedLast.fields)) flatBytes :=
    .map (.fix (by decide)) (.cons (.scalar (.fixstr (by decide))) (.cons (.scalar (.bool true))
      (.cons (.scalar (.fixstr (by decide))) (.cons (.scalar .nil) .nil))))
  refine (handleIncomingCommand_passesOver_iff .wrap32 nestedLast (Mem.store_holds _ _ _) (by decide) flatEncoded
    (Mem.store_holds _ _ _) (by decide) default default staticM1).mpr ?_
  simp [nestedLast, EncodedPair.short, Value.children]

/-- The payload `{"a": ["enable", true], "b": nil}`. -/
def nestedFirst : MapPayload where
  pairs := [
    .short (literal "a") (by decide)
      (.array (.fix (by decide)) (.cons (.scalar (@Scalar.fixstr (literal "enable") (by decide)))
        (.cons (.scalar (.bool true)) .nil)))
      (.array (.fix (by decide))) (by simp [Value.children]),
    .short (literal "b") (by decide) (.scalar .nil) (.flat .nil) (by simp [Value.children])]
  header := [0x82#8]
  isHeader := .fix (by decide)

/-- The array under the key `a` is taken for a setting of its own and enables the motor. -/
theorem handleIncomingCommand_nestedFirst :
    let flatBytes := [0x82#8] ++ ((0xa1#8 :: literal "a") ++ ([0xc0#8] ++ ((0xa1#8 :: literal "b") ++ [0xc0#8])))
    Encodes (commandMap (flattened nestedFirst.fields)) flatBytes ∧
      ¬ PassesOver 0x20000000 nestedFirst
        (handleIncomingCommand .wrap32 (Mem.store (fun _ => 0#8) 0x20000000 nestedFirst.bytes) .cmdM1
          (cwUnpackContextInit .wrap32 default 0x20000000 nestedFirst.bytes.length) staticM1)
        (handleIncomingCommand .wrap32 (Mem.store (fun _ => 0#8) 0x20001000 flatBytes) .cmdM1
          (cwUnpackContextInit .wrap32 default 0x20001000 flatBytes.length) staticM1) := by
  intro flatBytes
  refine ⟨.map (.fix (by decide)) (.cons (.scalar (.fixstr (by decide))) (.cons (.scalar .nil)
    (.cons (.scalar (.fixstr (by decide))) (.cons (.scalar .nil) .nil)))), fun outcome => ?_⟩
  exact absurd outcome.motor (by decide +kernel)

end Maglev
