import Maglev.CWPack.PackSpec
import Maglev.CWPack.UnpackSpec

namespace Maglev

open MessagePack

/-- A byte string whose length fits the `uint32_t` that is passed with it. -/
abbrev Blob := { v : List Byte // v.length < 2 ^ 32 }

def Blob.size (v : Blob) : BitVec 32 := BitVec.ofNat 32 v.1.length

/-- The calls that a writer makes. -/
inductive PackCall
  | unsigned (i : BitVec 64)
  | signed (i : BitVec 64)
  | float (f : BitVec 32)
  | double (d : BitVec 64)
  | real (d : BitVec 64)
  | nil
  | true
  | false
  | boolean (b : Bool)
  | arraySize (n : BitVec 32)
  | mapSize (n : BitVec 32)
  | str (v : Blob)
  | bin (v : Blob)
  | ext (type : Byte) (v : Blob)
  | insert (v : Blob)
  | setCompatibility (beCompatible : Bool)

section

variable (toFloat : BitVec 64 → BitVec 32) (pm : PtrModel)

def PackCall.run (pc : PackContext) : PackCall → PackContext
  | .unsigned i => cwPackUnsigned pm pc i
  | .signed i => cwPackSigned pm pc i
  | .float f => cwPackFloat pm pc f
  | .double d => cwPackDouble pm pc d
  | .real d => cwPackReal toFloat pm pc d
  | .nil => cwPackNil pm pc
  | .true => cwPackTrue pm pc
  | .false => cwPackFalse pm pc
  | .boolean b => cwPackBoolean pm pc b
  | .arraySize n => cwPackArraySize pm pc n
  | .mapSize n => cwPackMapSize pm pc n
  | .str v => cwPackStr pm pc v.1 v.size
  | .bin v => cwPackBin pm pc v.1 v.size
  | .ext type v => cwPackExt pm pc type v.1 v.size
  | .insert v => cwPackInsert pm pc v.1 v.size
  | .setCompatibility beCompatible => cwPackSetCompatibility pc beCompatible

end

section

variable (pm : PtrModel)

variable {pc : PackContext} (ok : pc.returnCode = .ok) {v : Blob} (small : v.1.length + 10 < 2 ^ 32)
include ok small

end

/-- The bytes of a call that are copied from the caller's memory. -/
def PackCall.blob : PackCall → List Byte
  | .str v | .bin v | .ext _ v | .insert v => v.1
  | _ => []

/-- Old readers do not know extensions. -/
def PackCall.legal (old : Bool) : PackCall → Bool
  | .ext _ _ => !old
  | _ => Bool.true

section

variable (toFloat : BitVec 64 → BitVec 32)

/-- What a call packs, for old and for new readers. -/
def PackCall.bytes (old : Bool) : PackCall → List Byte
  | .unsigned i => uintBytes i.toNat
  | .signed i => intBytes i.toInt
  | .float f => 0xca :: bigEndian 4 f.toNat
  | .double d => 0xcb :: bigEndian 8 d.toNat
  | .real d =>
    if doubleEq (doubleOfFloat (toFloat d)) d then 0xca :: bigEndian 4 (toFloat d).toNat
    else 0xcb :: bigEndian 8 d.toNat
  | .nil => [0xc0]
  | .true => [0xc3]
  | .false => [0xc2]
  | .boolean b => [if b then 0xc3 else 0xc2]
  | .arraySize n => arrayHeader n.toNat
  | .mapSize n => mapHeader n.toNat
  | .str v => strHeaderFor old v.1.length ++ v.1
  | .bin v => (if old then strHeaderFor Bool.true v.1.length else narrowest binCodes v.1.length) ++ v.1
  | .ext type v => extBytes type v.1
  | .insert v => v.1
  | .setCompatibility _ => []

/-- What a writer with a buffer of a given size has done: the bytes it has packed, and
whether it goes on. -/
structure Writer where
  old : Bool
  bytes : List Byte
  code : ReturnCode

def Writer.append (size : Nat) (w : Writer) (bytes : List Byte) : Writer :=
  if w.bytes.length + bytes.length ≤ size then { w with bytes := w.bytes ++ bytes }
  else { w with code := .bufferOverflow }

def Writer.step (size : Nat) (w : Writer) : PackCall → Writer
  | .setCompatibility old => { w with old }
  | .insert v => w.append size v.1
  | call =>
    if w.code ≠ .ok then w
    else if call.legal w.old then w.append size (call.bytes toFloat w.old)
    else { w with code := .illegalCall }

def Writer.steps (size : Nat) (w : Writer) (calls : List PackCall) : Writer := calls.foldl (step toFloat size) w

end

section

variable (toFloat : BitVec 64 → BitVec 32) (pm : PtrModel)

end

end Maglev
