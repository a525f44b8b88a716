import Maglev.Lib.MessagePack

namespace Maglev

inductive ReturnCode
  | ok
  | endOfInput
  | bufferOverflow
  | bufferUnderflow
  | malformedInput
  | illegalCall
  deriving DecidableEq, Repr, Inhabited

/-- `cwpack_item_types`. The extension types -128 to 127 are the values that
`*(int8_t*)p` can store there; `extHeader` is `CWP_ITEM_EXT`, which is only
visible until that store. -/
inductive ItemType
  | ext (type : Byte)
  | nil
  | boolean
  | positiveInteger
  | negativeInteger
  | float
  | double
  | str
  | bin
  | array
  | map
  | extHeader
  | notAnItem
  deriving DecidableEq, Repr, Inhabited

/-- The union of `cwpack_item` in the 32-bit ARM layout: `low` is bytes 0 to 3
and `high` is bytes 4 to 7, each as a little-endian word. -/
structure ItemUnion where
  low : BitVec 32
  high : BitVec 32
  deriving DecidableEq, Repr, Inhabited

namespace ItemUnion

def boolean (u : ItemUnion) : Bool := u.low.setWidth 8 ≠ 0#8
def real (u : ItemUnion) : BitVec 32 := u.low
def i64 (u : ItemUnion) : BitVec 64 := u.high ++ u.low
def size (u : ItemUnion) : BitVec 32 := u.low
def start (u : ItemUnion) : BitVec 32 := u.low
def length (u : ItemUnion) : BitVec 32 := u.high

/-- Only byte 0 is written. -/
def setBoolean (u : ItemUnion) (b : Bool) : ItemUnion :=
  { u with low := u.low &&& 0xffffff00#32 ||| (if b then 1#32 else 0#32) }

def setReal (u : ItemUnion) (bits : BitVec 32) : ItemUnion := { u with low := bits }
def setI64 (_ : ItemUnion) (n : BitVec 64) : ItemUnion := ⟨n.setWidth 32, (n >>> 32).setWidth 32⟩
def setSize (u : ItemUnion) (n : BitVec 32) : ItemUnion := { u with low := n }
def setStart (u : ItemUnion) (p : BitVec 32) : ItemUnion := { u with low := p }
def setLength (u : ItemUnion) (n : BitVec 32) : ItemUnion := { u with high := n }

/-- Writing the boolean leaves the length field of the blob view alone: it still
holds whatever the item unpacked before has left there. -/
@[simp] theorem setBoolean_length (u : ItemUnion) (b : Bool) : (u.setBoolean b).length = u.length := rfl

@[simp] theorem setReal_length (u : ItemUnion) (bits : BitVec 32) : (u.setReal bits).length = u.length := rfl

@[simp] theorem setStart_length (u : ItemUnion) (p : BitVec 32) : (u.setStart p).length = u.length := rfl

@[simp] theorem setStart_start (u : ItemUnion) (p : BitVec 32) : (u.setStart p).start = p := rfl

@[simp] theorem setLength_length (u : ItemUnion) (n : BitVec 32) : (u.setLength n).length = n := rfl

@[simp] theorem setSize_size (u : ItemUnion) (n : BitVec 32) : (u.setSize n).size = n := rfl

@[simp] theorem setReal_real (u : ItemUnion) (bits : BitVec 32) : (u.setReal bits).real = bits := rfl

@[simp] theorem setBoolean_boolean (u : ItemUnion) (b : Bool) : (u.setBoolean b).boolean = b := by
  have masked : (u.low &&& 0xffffff00#32).setWidth 8 = 0#8 := by
    ext i bound
    have cases : i = 0 ∨ i = 1 ∨ i = 2 ∨ i = 3 ∨ i = 4 ∨ i = 5 ∨ i = 6 ∨ i = 7 := by omega
    rcases cases with rfl | rfl | rfl | rfl | rfl | rfl | rfl | rfl <;> simp
  cases b <;> simp [boolean, setBoolean, BitVec.setWidth_or, masked]

end ItemUnion

structure CwpackItem where
  type : ItemType
  as : ItemUnion
  deriving DecidableEq, Repr, Inhabited

end Maglev
