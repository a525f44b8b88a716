import Maglev.CWPack.Item
import Maglev.CWPack.ByteOrder

namespace Maglev

open MessagePack

/-- `cw_unpack_context`. The underflow handler is `NULL` in every context of this
program and `err_no` is only for handlers, so both are left out. `trail` is not
in the source: it lists every address that `current` has been given, newest first. -/
structure UnpackContext where
  item : CwpackItem
  start : Nat
  current : Nat
  end_ : Nat
  returnCode : ReturnCode
  trail : List Nat
  deriving DecidableEq, Repr, Inhabited

/-- The item is not initialised: it is what the caller's stack held. -/
def cwUnpackContextInit (pm : PtrModel) (uc : UnpackContext) (data length : Nat) : UnpackContext :=
  { uc with start := data, current := data, end_ := pm.add data length, returnCode := .ok, trail := [data] }

def unpackError (code : ReturnCode) (uc : UnpackContext) : UnpackContext :=
  { uc with item := { uc.item with type := .notAnItem }, returnCode := code }

/-- `cw_unpack_assert_space`: the rest of the enclosing function is the last
argument, and gets the old cursor as the macro's `p`. -/
def cwUnpackAssertSpace (pm : PtrModel) (bufferEnd : ReturnCode) (more : Nat) (uc : UnpackContext)
    (rest : Nat → UnpackContext → UnpackContext) : UnpackContext :=
  let nyp := pm.add uc.current more
  if nyp > uc.end_ then unpackError bufferEnd uc
  else rest uc.current { uc with current := nyp, trail := nyp :: uc.trail }

/-- `cw_unpack_assert_blob`; `str`, `bin` and `ext` are one view of the union. -/
def cwUnpackAssertBlob (pm : PtrModel) (uc : UnpackContext) : UnpackContext :=
  cwUnpackAssertSpace pm .bufferUnderflow uc.item.as.length.toNat uc fun p uc =>
    { uc with item := { uc.item with as := uc.item.as.setStart (BitVec.ofNat 32 p) } }

def UnpackContext.setType (uc : UnpackContext) (type : ItemType) : UnpackContext :=
  { uc with item := { uc.item with type } }

def getDDItem (type : ItemType) (store : ItemUnion → ItemUnion) (uc : UnpackContext) : UnpackContext :=
  { uc with item := ⟨type, store uc.item.as⟩ }

/-- `getDDItem1` to `getDDItem8`: the type is set before the space is checked. -/
def getDDItemSized (pm : PtrModel) (mem : Mem) (w : Width) (type : ItemType)
    (store : ItemUnion → BitVec 64 → ItemUnion) (uc : UnpackContext)
    (rest : UnpackContext → UnpackContext) : UnpackContext :=
  cwUnpackAssertSpace pm .bufferUnderflow w.bytes (uc.setType type) fun p uc =>
    rest { uc with item := { uc.item with as := store uc.item.as (cwLoad pm mem p w) } }

def getDDItemFix (pm : PtrModel) (mem : Mem) (len : Nat) (uc : UnpackContext) : UnpackContext :=
  cwUnpackAssertSpace pm .bufferUnderflow 1 uc fun p uc =>
    cwUnpackAssertBlob pm { uc with item := ⟨.ext (mem p), uc.item.as.setLength (BitVec.ofNat 32 len)⟩ }

/-- The groups of case labels of the `switch` in `cw_unpack_next`. -/
inductive Format
  | posFixnum
  | fixmap
  | fixarray
  | fixstr
  | nil
  | bool (b : Bool)
  | bin (w : Width)
  | ext (w : Width)
  | float
  | double
  | uint (w : Width)
  | sint (w : Width)
  | fixext (len : Nat)
  | str (w : Width)
  | array (w : Width)
  | map (w : Width)
  | negFixnum
  | illegal
  deriving DecidableEq, Repr

def formatOf (c : Byte) : Format :=
  if c ≤ 0x7f#8 then .posFixnum
  else if c ≤ 0x8f#8 then .fixmap
  else if c ≤ 0x9f#8 then .fixarray
  else if c ≤ 0xbf#8 then .fixstr
  else if 0xe0#8 ≤ c then .negFixnum
  else match c with
    | 0xc0#8 => .nil
    | 0xc2#8 => .bool false
    | 0xc3#8 => .bool true
    | 0xc4#8 => .bin .w8
    | 0xc5#8 => .bin .w16
    | 0xc6#8 => .bin .w32
    | 0xc7#8 => .ext .w8
    | 0xc8#8 => .ext .w16
    | 0xc9#8 => .ext .w32
    | 0xca#8 => .float
    | 0xcb#8 => .double
    | 0xcc#8 => .uint .w8
    | 0xcd#8 => .uint .w16
    | 0xce#8 => .uint .w32
    | 0xcf#8 => .uint .w64
    | 0xd0#8 => .sint .w8
    | 0xd1#8 => .sint .w16
    | 0xd2#8 => .sint .w32
    | 0xd3#8 => .sint .w64
    | 0xd4#8 => .fixext 1
    | 0xd5#8 => .fixext 2
    | 0xd6#8 => .fixext 4
    | 0xd7#8 => .fixext 8
    | 0xd8#8 => .fixext 16
    | 0xd9#8 => .str .w8
    | 0xda#8 => .str .w16
    | 0xdb#8 => .str .w32
    | 0xdc#8 => .array .w16
    | 0xdd#8 => .array .w32
    | 0xde#8 => .map .w16
    | 0xdf#8 => .map .w32
    | _ => .illegal

/-- The cast to `int8_t`, `int16_t`, `int32_t` or `int64_t` and back to 64 bits. -/
def signed (w : Width) (n : BitVec 64) : BitVec 64 :=
  match w with
  | .w8 => (n.setWidth 8).signExtend 64
  | .w16 => (n.setWidth 16).signExtend 64
  | .w32 => (n.setWidth 32).signExtend 64
  | .w64 => n

/-- The body of the `switch`, with the cursor behind the first byte `c`. -/
def cwUnpackItem (pm : PtrModel) (mem : Mem) (c : Byte) (uc : UnpackContext) : UnpackContext :=
  match formatOf c with
  | .posFixnum => getDDItem .positiveInteger (·.setI64 (c.setWidth 64)) uc
  | .fixmap => getDDItem .map (·.setSize ((c &&& 0x0f#8).setWidth 32)) uc
  | .fixarray => getDDItem .array (·.setSize ((c &&& 0x0f#8).setWidth 32)) uc
  | .fixstr => cwUnpackAssertBlob pm (getDDItem .str (·.setLength ((c &&& 0x1f#8).setWidth 32)) uc)
  | .nil => uc.setType .nil
  | .bool b => getDDItem .boolean (·.setBoolean b) uc
  | .bin w => getDDItemSized pm mem w .bin (fun u n => u.setLength (n.setWidth 32)) uc (cwUnpackAssertBlob pm)
  | .ext w =>
    getDDItemSized pm mem w .extHeader (fun u n => u.setLength (n.setWidth 32)) uc fun uc =>
      cwUnpackAssertSpace pm .bufferUnderflow 1 uc fun p uc =>
        cwUnpackAssertBlob pm (uc.setType (.ext (mem p)))
  | .float => getDDItemSized pm mem .w32 .float (fun u n => u.setReal (n.setWidth 32)) uc id
  | .double => getDDItemSized pm mem .w64 .double ItemUnion.setI64 uc id
  | .uint w => getDDItemSized pm mem w .positiveInteger ItemUnion.setI64 uc id
  | .sint w =>
    getDDItemSized pm mem w .negativeInteger (fun u n => u.setI64 (signed w n)) uc fun uc =>
      if 0 ≤ uc.item.as.i64.toInt then uc.setType .positiveInteger else uc
  | .fixext len => getDDItemFix pm mem len uc
  | .str w => getDDItemSized pm mem w .str (fun u n => u.setLength (n.setWidth 32)) uc (cwUnpackAssertBlob pm)
  | .array w => getDDItemSized pm mem w .array (fun u n => u.setSize (n.setWidth 32)) uc id
  | .map w => getDDItemSized pm mem w .map (fun u n => u.setSize (n.setWidth 32)) uc id
  | .negFixnum => getDDItem .negativeInteger (·.setI64 (c.signExtend 64)) uc
  | .illegal => unpackError .malformedInput uc

def cwUnpackNext (pm : PtrModel) (mem : Mem) (uc : UnpackContext) : UnpackContext :=
  if uc.returnCode ≠ .ok then uc
  else cwUnpackAssertSpace pm .endOfInput 1 uc fun p uc => cwUnpackItem pm mem (mem p) uc

/-- `cw_skip_bytes`. -/
def cwSkipBytes (pm : PtrModel) (n : Nat) (uc : UnpackContext) : UnpackContext :=
  cwUnpackAssertSpace pm .bufferUnderflow n uc fun _ uc => uc

/-- A length field, and what depends on it. -/
def skipSized (pm : PtrModel) (mem : Mem) (w : Width) (uc : UnpackContext)
    (rest : BitVec 64 → UnpackContext → UnpackContext) : UnpackContext :=
  cwUnpackAssertSpace pm .bufferUnderflow w.bytes uc fun p uc => rest (cwLoad pm mem p w) uc

/-- The body of the `switch` in `cw_skip_items`, with the cursor behind the first byte `c`,
and what it adds to `item_count`. -/
def skipItem (pm : PtrModel) (mem : Mem) (c : Byte) (uc : UnpackContext) : UnpackContext × BitVec 32 :=
  match formatOf c with
  | .posFixnum | .negFixnum | .nil | .bool _ => (uc, 0#32)
  | .uint w | .sint w => (cwSkipBytes pm w.bytes uc, 0#32)
  | .float => (cwSkipBytes pm 4 uc, 0#32)
  | .double => (cwSkipBytes pm 8 uc, 0#32)
  | .fixext len => (cwSkipBytes pm (len + 1) uc, 0#32)
  | .fixstr => (cwSkipBytes pm ((c &&& 0x1f#8).setWidth 32).toNat uc, 0#32)
  | .str w | .bin w => (skipSized pm mem w uc fun n => cwSkipBytes pm n.toNat, 0#32)
  | .fixmap => (uc, 2#32 * (c &&& 0x0f#8).setWidth 32)
  | .fixarray => (uc, (c &&& 0x0f#8).setWidth 32)
  | .array w => (skipSized pm mem w uc fun _ uc => uc, (cwLoad pm mem uc.current w).setWidth 32)
  | .map w => (skipSized pm mem w uc fun _ uc => uc, 2#32 * (cwLoad pm mem uc.current w).setWidth 32)
  | .ext w => (skipSized pm mem w uc fun n => cwSkipBytes pm ((n.toNat + 1) % 2 ^ 32), 0#32)
  | .illegal => (unpackError .malformedInput uc, 0#32)

/-- The loop of `cw_skip_items`, with the 32-bit `long` of the target. A `return` inside of
it is a return code that is not good. No result if the iterations run out. -/
def skipLoop (pm : PtrModel) (mem : Mem) : Nat → BitVec 32 → UnpackContext → Option UnpackContext
  | 0, _, _ => none
  | fuel + 1, itemCount, uc =>
    if itemCount.toInt > 0 then
      let first := cwUnpackAssertSpace pm .endOfInput 1 uc fun _ uc => uc
      if first.returnCode ≠ .ok then some first
      else
        let (after, more) := skipItem pm mem (mem uc.current) first
        if after.returnCode ≠ .ok then some after else skipLoop pm mem fuel (itemCount - 1#32 + more) after
    else some uc

def cwSkipItems (pm : PtrModel) (mem : Mem) (fuel : Nat) (uc : UnpackContext) (itemCount : BitVec 32) :
    Option UnpackContext :=
  if uc.returnCode ≠ .ok then some uc else skipLoop pm mem fuel itemCount uc

end Maglev
