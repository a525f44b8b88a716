import Maglev.CWPack.PackCalls

namespace Maglev

open MessagePack

section

variable (toFloat : BitVec 64 → BitVec 32)

/-- All that a list of calls packs, if none of them is illegal. -/
def packedBytes : Bool → List PackCall → Option (List Byte)
  | _, [] => some []
  | _, .setCompatibility old :: calls => packedBytes old calls
  | old, call :: calls =>
    if call.legal old then (packedBytes old calls).map (call.bytes toFloat old ++ ·) else none

/-- The value that a call packs. An array or a map is packed without what is in it, so
any with this many entries will do. -/
def PackCall.value? (old : Bool) : PackCall → Option Value
  | .unsigned i => some (.int i.toNat)
  | .signed i => some (.int i.toInt)
  | .float f => some (.float f)
  | .double d => some (.double d)
  | .real d => some (if doubleEq (doubleOfFloat (toFloat d)) d then .float (toFloat d) else .double d)
  | .nil => some .nil
  | .true => some (.bool Bool.true)
  | .false => some (.bool Bool.false)
  | .boolean b => some (.bool b)
  | .arraySize n => some (.array (List.replicate n.toNat .nil))
  | .mapSize n => some (.map (List.replicate n.toNat (.nil, .nil)))
  | .str v => some (.str v.1)
  | .bin v => some (if old then .str v.1 else .bin v.1)
  | .ext type v => some (.ext type v.1)
  | .insert _ => none
  | .setCompatibility _ => none

/-- The values that a list of calls packs. Inserted bytes have to be packed already. -/
inductive Denotes : Bool → List PackCall → List Value → Prop
  | nil {old} : Denotes old [] []
  | mode {old new calls vs} : Denotes new calls vs → Denotes old (.setCompatibility new :: calls) vs
  | insert {old v calls inserted vs} : Heads inserted v.1 → Denotes old calls vs →
      Denotes old (.insert v :: calls) (inserted ++ vs)
  | item {old call calls v vs} : call.value? toFloat old = some v → Denotes old calls vs →
      Denotes old (call :: calls) (v :: vs)

theorem packedBytes_cons {old : Bool} {call : PackCall} (calls : List PackCall)
    (mode : ∀ new, call ≠ .setCompatibility new) :
    packedBytes toFloat old (call :: calls) =
      if call.legal old then (packedBytes toFloat old calls).map (call.bytes toFloat old ++ ·) else none := by
  cases call with
  | setCompatibility new => exact absurd rfl (mode new)
  | _ => rfl

/-- Every call packs the head of its value. -/
theorem PackCall.head_of_value {old : Bool} {call : PackCall} {v : Value}
    (value : call.value? toFloat old = some v) : Head v (call.bytes toFloat old) := by
  have wide (v : Blob) : v.1.length < Width.w32.bound := v.2
  have string (old : Bool) (v : Blob) : Scalar (.str v.1) (strHeaderFor old v.1.length ++ v.1) := by
    unfold strHeaderFor
    split_ifs
    · exact scalar_oldStrHeader (wide v)
    · exact scalar_strHeader (wide v)
  cases call with
  | unsigned i =>
    cases value
    exact .flat (scalar_uintBytes i.isLt)
  | signed i =>
    cases value
    have lower := i.le_two_mul_toInt
    have upper := i.two_mul_toInt_lt
    exact .flat (scalar_intBytes (by simpa [Width.bound, Width.bytes] using lower)
      (by simp only [Width.bound, Width.bytes]; omega))
  | float f =>
    cases value
    exact .flat (.float f)
  | double d =>
    cases value
    exact .flat (.double d)
  | real d =>
    cases value
    rw [bytes]
    split_ifs
    · exact .flat (.float _)
    · exact .flat (.double d)
  | nil =>
    cases value
    exact .flat .nil
  | true =>
    cases value
    exact .flat (.bool Bool.true)
  | false =>
    cases value
    exact .flat (.bool Bool.false)
  | boolean b =>
    cases value
    exact .flat (.bool b)
  | arraySize n =>
    cases value
    have header := arrayHeader_isHeader (show n.toNat < Width.w32.bound from n.isLt)
    refine .array ?_
    rwa [List.length_replicate]
  | mapSize n =>
    cases value
    have header := mapHeader_isHeader (show n.toNat < Width.w32.bound from n.isLt)
    refine .map ?_
    rwa [List.length_replicate]
  | str v =>
    cases value
    exact .flat (string old v)
  | bin v =>
    cases value
    cases old with
    | true => exact .flat (string Bool.true v)
    | false => exact .flat (scalar_binHeader (wide v))
  | ext type v =>
    cases value
    exact .flat (scalar_extBytes type (wide v))
  | insert v => cases value
  | setCompatibility new => cases value

theorem Denotes.heads {old : Bool} {calls : List PackCall} {vs : List Value} {bytes : List Byte}
    (denotes : Denotes toFloat old calls vs) (packed : packedBytes toFloat old calls = some bytes) :
    Heads vs bytes := by
  induction denotes generalizing bytes with
  | nil =>
    cases packed
    exact .nil
  | mode _ ih => exact ih packed
  | @insert old v calls _ _ inserted _ ih =>
    have inner : (packedBytes toFloat old calls).map (v.1 ++ ·) = some bytes := packed
    obtain ⟨rest, more, rfl⟩ := Option.map_eq_some_iff.mp inner
    exact inserted.append (ih more)
  | @item old call calls _ _ value _ ih =>
    have mode (new : Bool) : call ≠ .setCompatibility new := by
      rintro rfl
      cases value
    rw [packedBytes_cons toFloat calls mode] at packed
    split_ifs at packed
    obtain ⟨rest, more, rfl⟩ := Option.map_eq_some_iff.mp packed
    exact .cons (call.head_of_value toFloat value) (ih more)

namespace Writer

/-- The writer of a context that has just been set up. -/
def fresh : Writer := ⟨false, [], .ok⟩

end Writer

end

/-- An item shows a value, with the blob where the item says. -/
def CwpackItem.Shows (mem : Mem) (item : CwpackItem) (v : Value) : Prop :=
  item.type = v.itemType ∧
    match v with
    | .nil => True
    | .bool b => item.as.boolean = b
    | .int n => item.as.i64 = BitVec.ofInt 64 n
    | .float bits => item.as.real = bits
    | .double bits => item.as.i64 = bits
    | .str bytes | .bin bytes | .ext _ bytes =>
      item.as.length.toNat = bytes.length ∧ Holds mem item.as.start.toNat bytes
    | .array items => item.as.size.toNat = items.length
    | .map pairs => item.as.size.toNat = pairs.length

theorem Unpacked.shows {mem : Mem} {uc after : UnpackContext} {v : Value} {head : List Byte}
    (read : Unpacked uc v head after) (isHead : Head v head) (held : Holds mem uc.current head)
    (top : uc.current + head.length < 2 ^ 32) : after.item.Shows mem v := by
  obtain ⟨header, rfl⟩ := isHead.blob
  obtain ⟨_, rfl⟩ := read
  rw [List.length_append] at top
  have blob : (BitVec.ofNat 32 v.blob.length).toNat = v.blob.length ∧
      Holds mem (BitVec.ofNat 32 (uc.current + ((header ++ v.blob).length - v.blob.length))).toNat v.blob := by
    have start : (BitVec.ofNat 32 (uc.current + header.length)).toNat = uc.current + header.length :=
      Nat.mod_eq_of_lt (by omega)
    rw [List.length_append, Nat.add_sub_cancel, start]
    exact ⟨Nat.mod_eq_of_lt (by omega), (holds_append.mp held).2⟩
  refine ⟨rfl, ?_⟩
  cases v with
  | nil => trivial
  | bool b => exact ItemUnion.setBoolean_boolean uc.item.as b
  | int n => exact ItemUnion.setI64_i64 uc.item.as _
  | float bits => rfl
  | double bits => exact ItemUnion.setI64_i64 uc.item.as _
  | str bytes => exact blob
  | bin bytes => exact blob
  | ext type bytes => exact blob
  | array items =>
    cases isHead with
    | array isHeader => exact Nat.mod_eq_of_lt isHeader.size_lt
    | flat scalar => exact scalar.flat.elim
  | map pairs =>
    cases isHead with
    | map isHeader => exact Nat.mod_eq_of_lt isHeader.size_lt
    | flat scalar => exact scalar.flat.elim

end Maglev
