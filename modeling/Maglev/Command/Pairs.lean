import Maglev.Command.Handler
import Maglev.CWPack.UnpackSpec

namespace Maglev

open MessagePack

/-- The keys that a comparison with `name` accepts when it is bounded by the
length of the key: prefixes of the name, and extensions behind a zero byte. -/
def LooseMatch (name : CString) (key : List Byte) : Prop :=
  key <+: name.bytes ∨ name.bytes ++ [0#8] <+: key

instance (name : CString) (key : List Byte) : Decidable (LooseMatch name key) :=
  inferInstanceAs (Decidable (_ ∨ _))

/-- What the loop body does with one pair. -/
def pairEffect (key : List Byte) : Value → List Assignment
  | .bool b => if LooseMatch enableKey key then [.enabled b] else []
  | .float bits => if LooseMatch iTargetKey key then [.iTarget bits] else []
  | _ => []

theorem scalar_str_suffix {key keyBytes : List Byte} (isKey : Scalar (.str key) keyBytes) :
    ∃ header, keyBytes = header ++ key := by
  cases isKey with
  | fixstr => exact ⟨[_], rfl⟩
  | @str _ code w => exact ⟨code :: bigEndian w.bytes key.length, rfl⟩

/-- The comparisons see the length of the key for the two kinds of values that
can be assigned, because neither of these touches the length field of the union. -/
theorem pairAssignments_eq (pm : PtrModel) {mem : Mem} {uc afterKey after : UnpackContext}
    {key keyBytes head : List Byte} {v : Value} (isKey : Scalar (.str key) keyBytes)
    (held : Holds mem uc.current keyBytes) (top : uc.current + keyBytes.length < 2 ^ 32)
    (keyRead : Unpacked uc (.str key) keyBytes afterKey) (valueRead : Unpacked afterKey v head after) :
    pairAssignments pm mem afterKey.item.as.start after = pairEffect key v := by
  obtain ⟨header, rfl⟩ := scalar_str_suffix isKey
  obtain ⟨_, rfl⟩ := keyRead
  obtain ⟨_, rfl⟩ := valueRead
  rw [List.length_append] at top
  have start : (BitVec.ofNat 32 (uc.current + header.length)).toNat = uc.current + header.length :=
    Nat.mod_eq_of_lt (by omega)
  have length : (BitVec.ofNat 32 key.length).toNat = key.length := Nat.mod_eq_of_lt (by omega)
  have seen : ∀ i, ∀ b ∈ key[i]?, mem (pm.add (uc.current + header.length) i) = b := by
    intro i b member
    obtain ⟨bound, _⟩ := List.getElem?_eq_some_iff.mp (Option.mem_def.mp member)
    rw [pm.add_of_lt (by omega)]
    exact (holds_append.mp held).2 i b member
  have compared (name : CString) :
      strncmp (fun i => mem (pm.add (uc.current + header.length) i)) name.char key.length = 0 ↔
        LooseMatch name key := strncmp_length_eq_zero_iff seen
  simp only [pairAssignments, Value.stored, Value.blob, List.length_append, Nat.add_sub_cancel,
    ItemUnion.setStart_start, start]
  cases v with
  | bool b =>
    simp only [Value.itemType, ItemUnion.setBoolean_length, ItemUnion.setBoolean_boolean, ItemUnion.setStart_length,
      ItemUnion.setLength_length, length, compared, pairEffect, reduceCtorEq, if_true, if_false, ite_self,
      List.append_nil]
  | float bits =>
    simp only [Value.itemType, ItemUnion.setReal_length, ItemUnion.setReal_real, ItemUnion.setStart_length,
      ItemUnion.setLength_length, length, compared, pairEffect, reduceCtorEq, if_true, if_false, ite_self,
      List.nil_append]
  | int n =>
    have other : Value.itemType (.int n) ≠ .boolean ∧ Value.itemType (.int n) ≠ .float := by
      by_cases sign : 0 ≤ n <;> simp [Value.itemType, sign]
    simp only [pairEffect, other, if_false, ite_self, List.append_nil]
  | _ =>
    simp only [Value.itemType, pairEffect, reduceCtorEq, if_false, ite_self, List.append_nil]

/-- A pair of the top-level map together with its bytes: the key, the part of
the value that one call of `cw_unpack_next` takes, and what is nested in it. -/
structure EncodedPair where
  key : List Byte
  value : Value
  keyBytes : List Byte
  head : List Byte
  body : List Byte
  isKey : Scalar (.str key) keyBytes
  isValue : Encodes value (head ++ body)
  isHead : Head value head
  nested : body = [] ↔ value.children = 0

namespace EncodedPair

def bytes (e : EncodedPair) : List Byte := e.keyBytes ++ (e.head ++ e.body)

def effect (e : EncodedPair) : List Assignment := pairEffect e.key e.value

/-- The addresses at which the pairs start when the first one starts at `p`. -/
def positions (p : Nat) : List EncodedPair → List Nat
  | [] => []
  | e :: es => p :: positions (p + e.bytes.length) es

theorem two_le_length (e : EncodedPair) : 2 ≤ e.bytes.length := by
  have key := List.length_pos_iff.mpr e.isKey.ne_nil
  have head := List.length_pos_iff.mpr e.isHead.ne_nil
  simp only [bytes, List.length_append]
  omega

theorem two_mul_length_le (es : List EncodedPair) : 2 * es.length ≤ (es.flatMap bytes).length := by
  induction es with
  | nil => simp
  | cons e es ih =>
    have first := e.two_le_length
    simp only [List.flatMap_cons, List.length_append, List.length_cons]
    omega

end EncodedPair

/-- Every encoded list of pairs with string keys splits into its pairs. -/
theorem encodedPairs {pairs : List (List Byte × Value)} {bytes : List Byte}
    (encoded : EncodesAll (pairs.flatMap fun pair => [.str pair.1, pair.2]) bytes) :
    ∃ es : List EncodedPair, es.map (fun e => (e.key, e.value)) = pairs ∧ es.flatMap EncodedPair.bytes = bytes := by
  induction pairs generalizing bytes with
  | nil =>
    cases encoded
    exact ⟨[], rfl, rfl⟩
  | cons pair pairs ih =>
    cases encoded with
    | cons key rest =>
      cases rest with
      | cons value rest =>
        obtain ⟨es, mapped, joined⟩ := ih rest
        obtain ⟨head, body, rfl, isHead, nested⟩ := value.head
        cases key with
        | scalar isKey =>
          refine ⟨⟨pair.1, pair.2, _, head, body, isKey, value, isHead, nested⟩ :: es, ?_, ?_⟩
          · simp [mapped]
          · simp [EncodedPair.bytes, joined]

/-- One pass through the loop: it consumes the key and the head of the value, so that
what is nested in the value comes next. -/
theorem commandLoop_pair (pm : PtrModel) {mem : Mem} {uc : UnpackContext} (e : EncodedPair) {rest : List Byte}
    (readable : Readable mem uc (e.bytes ++ rest)) :
    ∃ next it, Readable mem next (e.body ++ rest) ∧ next.current + e.body.length = uc.current + e.bytes.length ∧
      it.start = uc ∧ it.assigned = e.effect ∧
      ∀ n mc, (commandLoop pm mem (n + 1) uc mc).mc =
          (commandLoop pm mem n next (e.effect.foldl Assignment.apply mc)).mc ∧
        (commandLoop pm mem (n + 1) uc mc).iterations =
          it :: (commandLoop pm mem n next (e.effect.foldl Assignment.apply mc)).iterations := by
  simp only [EncodedPair.bytes, List.append_assoc] at readable ⊢
  have keyRead := readable.unpacked pm (.flat e.isKey)
  have behindKey := readable.next keyRead
  have valueRead := behindKey.unpacked pm e.isHead
  have keyTop : uc.current + e.keyBytes.length < 2 ^ 32 := by
    have room := readable.room
    have top := readable.top
    rw [List.length_append] at room
    omega
  have assigned := pairAssignments_eq pm e.isKey (holds_append.mp readable.held).1 keyTop keyRead valueRead
  have isStr : (cwUnpackNext pm mem uc).item.type = .str := keyRead.type
  let next := cwUnpackNext pm mem (cwUnpackNext pm mem uc)
  refine ⟨next, ⟨uc, cwUnpackNext pm mem uc, some next, e.effect⟩, behindKey.next valueRead, ?_, rfl, rfl,
    fun n mc => ?_⟩
  · simp only [List.length_append]
    rw [valueRead.current, keyRead.current]
    omega
  · simp only [commandLoop, isStr, ne_eq, not_true_eq_false, if_false, assigned, EncodedPair.effect]
    exact ⟨rfl, rfl⟩

/-- As long as only the last value may have something nested in it, the loop
stays in step with the pairs: iteration `i` starts at pair `i` and does what
that pair says. -/
theorem commandLoop_pairs (pm : PtrModel) {mem : Mem} (es : List EncodedPair)
    (unnested : ∀ e ∈ es.dropLast, e.body = []) {uc : UnpackContext} (mc : Motor)
    (readable : Readable mem uc (es.flatMap EncodedPair.bytes)) :
    (commandLoop pm mem es.length uc mc).mc = (es.flatMap EncodedPair.effect).foldl Assignment.apply mc ∧
      (commandLoop pm mem es.length uc mc).iterations.map (·.assigned) = es.map EncodedPair.effect ∧
      (commandLoop pm mem es.length uc mc).iterations.map (·.start.current) =
        EncodedPair.positions uc.current es := by
  induction es generalizing uc mc with
  | nil => exact ⟨rfl, rfl, rfl⟩
  | cons e es ih =>
    rw [List.flatMap_cons] at readable
    obtain ⟨next, it, behind, current, start, assigned, step⟩ := commandLoop_pair pm e readable
    obtain ⟨motor, iterations⟩ := step es.length mc
    have rest : ∀ mc, (commandLoop pm mem es.length next mc).mc =
          (es.flatMap EncodedPair.effect).foldl Assignment.apply mc ∧
        (commandLoop pm mem es.length next mc).iterations.map (·.assigned) = es.map EncodedPair.effect ∧
        (commandLoop pm mem es.length next mc).iterations.map (·.start.current) =
          EncodedPair.positions (uc.current + e.bytes.length) es := by
      intro mc
      cases es with
      | nil => exact ⟨rfl, rfl, rfl⟩
      | cons second others =>
        have flat : e.body = [] := unnested e (by simp)
        rw [flat] at behind current
        rw [← current]
        exact ih (fun other member => unnested other (by simp [member])) mc behind
    obtain ⟨restMotor, restAssigned, restStart⟩ := rest (e.effect.foldl Assignment.apply mc)
    refine ⟨?_, ?_, ?_⟩
    · rw [List.length_cons, motor, restMotor, List.flatMap_cons, List.foldl_append]
    · rw [List.length_cons, iterations, List.map_cons, List.map_cons, restAssigned, assigned]
    · rw [List.length_cons, iterations, List.map_cons, restStart, start, EncodedPair.positions]

end Maglev
