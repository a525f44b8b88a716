import Maglev.CWPack.Item

namespace Maglev

open MessagePack

/-- `cw_pack_context` with the memory it packs into. The overflow handler is `NULL`
in every context of this program and `err_no` is only for handlers, so both are left out. -/
structure PackContext where
  start : Nat
  current : Nat
  end_ : Nat
  beCompatible : Bool
  returnCode : ReturnCode
  mem : Mem

def cwPackContextInit (pm : PtrModel) (mem : Mem) (data length : Nat) : PackContext :=
  ⟨data, data, pm.add data length, false, .ok, mem⟩

def cwPackSetCompatibility (pc : PackContext) (beCompatible : Bool) : PackContext := { pc with beCompatible }

/-- `cw_pack_reserve_space`: the rest of the enclosing function is the last argument,
and gets the old cursor as the macro's `p`. -/
def cwPackReserveSpace (pm : PtrModel) (more : Nat) (pc : PackContext) (rest : Nat → PackContext → PackContext) :
    PackContext :=
  let nyp := pm.add pc.current more
  if nyp > pc.end_ then { pc with returnCode := .bufferOverflow }
  else rest pc.current { pc with current := nyp }

def PackContext.write (pc : PackContext) (p : Nat) (bytes : List Byte) : PackContext :=
  { pc with mem := pc.mem.store p bytes }

/-- The bytes of a word in the order in which a little-endian processor stores them. -/
def wordBytes {bits : Nat} (k : Nat) (word : BitVec bits) : List Byte :=
  (List.range k).map fun i => (word >>> (8 * i)).setWidth 8

/-- `cw_store16`, `cw_store32` and `cw_store64` as `COMPILE_FOR_LITTLE_ENDIAN` has them:
the word that is stored for a number. -/
def cwStore16 (d : BitVec 64) : BitVec 16 := (((d >>> 8) &&& 0xff#64) ||| (d <<< 8)).setWidth 16

def cwStore32 (d : BitVec 64) : BitVec 32 :=
  let x := d.setWidth 32
  (x >>> 24) ||| ((x &&& 0x00ff0000#32) >>> 8) ||| ((x &&& 0x0000ff00#32) <<< 8) ||| (x <<< 24)

def cwStore64 (x : BitVec 64) : BitVec 64 :=
  (((x >>> 40) ||| (x <<< 24)) &&& 0x0000ff000000ff00#64) |||
    (((x >>> 24) ||| (x <<< 40)) &&& 0x00ff000000ff0000#64) |||
    ((x &&& 0x000000ff00000000#64) >>> 8) |||
    ((x &&& 0x00000000ff000000#64) <<< 8) |||
    (x >>> 56) |||
    (x <<< 56)

/-- The bytes that the macro of each width leaves in memory. -/
def cwStore (d : BitVec 64) : Width → List Byte
  | .w8 => [d.setWidth 8]
  | .w16 => wordBytes 2 (cwStore16 d)
  | .w32 => wordBytes 4 (cwStore32 d)
  | .w64 => wordBytes 8 (cwStore64 d)

def tryMove0 (pm : PtrModel) (t : Byte) (pc : PackContext) : PackContext :=
  cwPackReserveSpace pm 1 pc fun p pc => pc.write p [t]

/-- `tryMove1` to `tryMove8`. -/
def tryMove (pm : PtrModel) (w : Width) (t : Byte) (d : BitVec 64) (pc : PackContext) : PackContext :=
  cwPackReserveSpace pm (1 + w.bytes) pc fun p pc => (pc.write p [t]).write (p + 1) (cwStore d w)

/-- The header of a string with its length field, and the string behind it. -/
def packBlob (pm : PtrModel) (header : List Byte) (v : List Byte) (l : Nat) (pc : PackContext) : PackContext :=
  cwPackReserveSpace pm ((l + header.length) % 2 ^ 32) pc fun p pc =>
    (pc.write p header).write (p + header.length) (v.take l)

def cwPackUnsigned (pm : PtrModel) (pc : PackContext) (i : BitVec 64) : PackContext :=
  if pc.returnCode ≠ .ok then pc
  else if i.toNat < 128 then tryMove0 pm (i.setWidth 8) pc
  else if i.toNat < 256 then tryMove pm .w8 0xcc i pc
  else if i.toNat < 0x10000 then tryMove pm .w16 0xcd i pc
  else if i.toNat < 0x100000000 then tryMove pm .w32 0xce i pc
  else tryMove pm .w64 0xcf i pc

/-- The comparisons are those of `int64_t`. -/
def cwPackSigned (pm : PtrModel) (pc : PackContext) (i : BitVec 64) : PackContext :=
  if pc.returnCode ≠ .ok then pc
  else if i.toInt > 127 then
    if i.toInt < 256 then tryMove pm .w8 0xcc i pc
    else if i.toInt < 0x10000 then tryMove pm .w16 0xcd i pc
    else if i.toInt < 0x100000000 then tryMove pm .w32 0xce i pc
    else tryMove pm .w64 0xcf i pc
  else if i.toInt ≥ -32 then tryMove0 pm (i.setWidth 8) pc
  else if i.toInt ≥ -128 then tryMove pm .w8 0xd0 i pc
  else if i.toInt ≥ -32768 then tryMove pm .w16 0xd1 i pc
  else if i.toInt ≥ (0xffffffff80000000#64).toInt then tryMove pm .w32 0xd2 i pc
  else tryMove pm .w64 0xd3 i pc

def cwPackFloat (pm : PtrModel) (pc : PackContext) (f : BitVec 32) : PackContext :=
  if pc.returnCode ≠ .ok then pc else tryMove pm .w32 0xca (f.setWidth 64) pc

def cwPackDouble (pm : PtrModel) (pc : PackContext) (d : BitVec 64) : PackContext :=
  if pc.returnCode ≠ .ok then pc else tryMove pm .w64 0xcb d pc

/-- The conversion of a `float` to a `double`, which is exact. A fraction without its
leading one gets it from the exponent. -/
def doubleOfFloat (f : BitVec 32) : BitVec 64 :=
  let sign := f.extractLsb' 31 1
  let exponent := (f.extractLsb' 23 8).toNat
  let fraction := (f.extractLsb' 0 23).toNat
  let parts (e m : Nat) : BitVec 64 := sign ++ BitVec.ofNat 11 e ++ BitVec.ofNat 52 m
  if exponent = 255 then parts 2047 (fraction <<< 29)
  else if exponent = 0 then
    if fraction = 0 then parts 0 0
    else parts (fraction.log2 + 874) (fraction <<< (52 - fraction.log2))
  else parts (exponent + 896) (fraction <<< 29)

def doubleIsNan (d : BitVec 64) : Bool := d.extractLsb' 52 11 = 2047#11 ∧ d.extractLsb' 0 52 ≠ 0#52

/-- The comparison `==` of two `double`s. -/
def doubleEq (d e : BitVec 64) : Bool :=
  ¬ doubleIsNan d ∧ ¬ doubleIsNan e ∧ (d = e ∨ d.extractLsb' 0 63 = 0#63 ∧ e.extractLsb' 0 63 = 0#63)

/-- The cast `(float)d` rounds as the floating point unit does, and is a parameter. -/
def cwPackReal (toFloat : BitVec 64 → BitVec 32) (pm : PtrModel) (pc : PackContext) (d : BitVec 64) : PackContext :=
  let f := toFloat d
  let df := doubleOfFloat f
  if doubleEq df d then cwPackFloat pm pc f else cwPackDouble pm pc d

/-- `cw_pack_nil`, `cw_pack_true` and `cw_pack_false` differ in the byte. -/
def packByte (t : Byte) (pm : PtrModel) (pc : PackContext) : PackContext :=
  if pc.returnCode ≠ .ok then pc else tryMove0 pm t pc

def cwPackNil : PtrModel → PackContext → PackContext := packByte 0xc0

def cwPackTrue : PtrModel → PackContext → PackContext := packByte 0xc3

def cwPackFalse : PtrModel → PackContext → PackContext := packByte 0xc2

def cwPackBoolean (pm : PtrModel) (pc : PackContext) (b : Bool) : PackContext :=
  if pc.returnCode ≠ .ok then pc else tryMove0 pm (if b then 0xc3 else 0xc2) pc

def cwPackArraySize (pm : PtrModel) (pc : PackContext) (n : BitVec 32) : PackContext :=
  if pc.returnCode ≠ .ok then pc
  else if n.toNat < 16 then tryMove0 pm (0x90#8 ||| n.setWidth 8) pc
  else if n.toNat < 65536 then tryMove pm .w16 0xdc (n.setWidth 64) pc
  else tryMove pm .w32 0xdd (n.setWidth 64) pc

def cwPackMapSize (pm : PtrModel) (pc : PackContext) (n : BitVec 32) : PackContext :=
  if pc.returnCode ≠ .ok then pc
  else if n.toNat < 16 then tryMove0 pm (0x80#8 ||| n.setWidth 8) pc
  else if n.toNat < 65536 then tryMove pm .w16 0xde (n.setWidth 64) pc
  else tryMove pm .w32 0xdf (n.setWidth 64) pc

/-- Here `v` is what stands behind the pointer and `l` the length that is passed with it. -/
def cwPackStr (pm : PtrModel) (pc : PackContext) (v : List Byte) (l : BitVec 32) : PackContext :=
  if pc.returnCode ≠ .ok then pc
  else if l.toNat < 32 then packBlob pm [0xa0 + l.setWidth 8] v l.toNat pc
  else if l.toNat < 256 ∧ pc.beCompatible = false then packBlob pm [0xd9, l.setWidth 8] v l.toNat pc
  else if l.toNat < 65536 then packBlob pm (0xda :: cwStore (l.setWidth 64) .w16) v l.toNat pc
  else packBlob pm (0xdb :: cwStore (l.setWidth 64) .w32) v l.toNat pc

def cwPackBin (pm : PtrModel) (pc : PackContext) (v : List Byte) (l : BitVec 32) : PackContext :=
  if pc.returnCode ≠ .ok then pc
  else if pc.beCompatible then cwPackStr pm pc v l
  else if l.toNat < 256 then packBlob pm [0xc4, l.setWidth 8] v l.toNat pc
  else if l.toNat < 65536 then packBlob pm (0xc5 :: cwStore (l.setWidth 64) .w16) v l.toNat pc
  else packBlob pm (0xc6 :: cwStore (l.setWidth 64) .w32) v l.toNat pc

/-- The header of an extension. The cases of the `switch` are the lengths for which no
length field is needed. -/
def extHeader (type : Byte) (l : BitVec 32) : List Byte :=
  match l.toNat with
  | 1 => [0xd4, type]
  | 2 => [0xd5, type]
  | 4 => [0xd6, type]
  | 8 => [0xd7, type]
  | 16 => [0xd8, type]
  | n =>
    if n < 256 then [0xc7, l.setWidth 8, type]
    else if n < 65536 then 0xc8 :: (cwStore (l.setWidth 64) .w16 ++ [type])
    else 0xc9 :: (cwStore (l.setWidth 64) .w32 ++ [type])

def cwPackExt (pm : PtrModel) (pc : PackContext) (type : Byte) (v : List Byte) (l : BitVec 32) : PackContext :=
  if pc.returnCode ≠ .ok then pc
  else if pc.beCompatible then { pc with returnCode := .illegalCall }
  else packBlob pm (extHeader type l) v l.toNat pc

/-- Unlike the others, this one does not look at the return code. -/
def cwPackInsert (pm : PtrModel) (pc : PackContext) (v : List Byte) (l : BitVec 32) : PackContext :=
  packBlob pm [] v l.toNat pc

end Maglev
