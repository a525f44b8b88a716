import Mathlib.Tactic.IntervalCases
import Maglev.CWPack.Pack

namespace Maglev

open MessagePack

theorem bigEndian_eq_map (k n : Nat) :
    bigEndian k n = (List.range k).map fun j => BitVec.ofNat 8 (n / 256 ^ (k - 1 - j)) := by
  induction k with
  | zero => rfl
  | succ k ih =>
    rw [bigEndian, ih, List.range_succ_eq_map, List.map_cons, List.map_map]
    congr 1
    apply List.map_congr_left
    intro j _
    show BitVec.ofNat 8 (n / 256 ^ (k - 1 - j)) = BitVec.ofNat 8 (n / 256 ^ (k + 1 - 1 - (j + 1)))
    rw [show k + 1 - 1 - (j + 1) = k - 1 - j by omega]

theorem ofNat_div_byte (d : BitVec 64) (k : Nat) :
    BitVec.ofNat 8 (d.toNat / 256 ^ k) = (d >>> (8 * k)).setWidth 8 := by
  apply BitVec.eq_of_toNat_eq
  have power : 256 ^ k = 2 ^ (8 * k) := by rw [Nat.pow_mul]
  rw [power, BitVec.toNat_ofNat, BitVec.toNat_setWidth, BitVec.toNat_ushiftRight, Nat.shiftRight_eq_div_pow]

/-- A word whose bytes are those of a number in reverse order is stored as the big-endian number. -/
theorem wordBytes_reversed {bits k : Nat} {word : BitVec bits} {d : BitVec 64}
    (reversed : ∀ j < k, (word >>> (8 * j)).setWidth 8 = (d >>> (8 * (k - 1 - j))).setWidth 8) :
    wordBytes k word = bigEndian k d.toNat := by
  rw [bigEndian_eq_map, wordBytes]
  apply List.map_congr_left
  intro j member
  rw [reversed j (List.mem_range.mp member), ofNat_div_byte]

theorem cwStore16_reversed (d : BitVec 64) (j : Nat) (inside : j < 2) :
    (cwStore16 d >>> (8 * j)).setWidth 8 = (d >>> (8 * (2 - 1 - j))).setWidth 8 := by
  apply BitVec.eq_of_getLsbD_eq
  intro i bound
  interval_cases j <;> interval_cases i <;> simp [cwStore16]

theorem cwStore32_reversed (d : BitVec 64) (j : Nat) (inside : j < 4) :
    (cwStore32 d >>> (8 * j)).setWidth 8 = (d >>> (8 * (4 - 1 - j))).setWidth 8 := by
  apply BitVec.eq_of_getLsbD_eq
  intro i bound
  interval_cases j <;> interval_cases i <;> simp [cwStore32]

theorem cwStore64_reversed (d : BitVec 64) (j : Nat) (inside : j < 8) :
    (cwStore64 d >>> (8 * j)).setWidth 8 = (d >>> (8 * (8 - 1 - j))).setWidth 8 := by
  apply BitVec.eq_of_getLsbD_eq
  intro i bound
  interval_cases j <;> interval_cases i <;> simp [cwStore64]

/-- The stores write big-endian numbers, whatever the byte order of the processor. -/
theorem cwStore_bigEndian (d : BitVec 64) (w : Width) : cwStore d w = bigEndian w.bytes d.toNat := by
  cases w with
  | w8 =>
    simp only [cwStore, Width.bytes, bigEndian, Nat.pow_zero, Nat.div_one]
    exact congrArg (fun b => [b]) (BitVec.eq_of_toNat_eq (by simp))
  | w16 => exact wordBytes_reversed (cwStore16_reversed d)
  | w32 => exact wordBytes_reversed (cwStore32_reversed d)
  | w64 => exact wordBytes_reversed (cwStore64_reversed d)

/-- A successful call: the bytes stand behind what was packed before. -/
def Packed (pc : PackContext) (bytes : List Byte) (after : PackContext) : Prop :=
  after = { pc with current := pc.current + bytes.length, mem := pc.mem.store pc.current bytes }

section

variable {pc after : PackContext} {bytes : List Byte} (packed : Packed pc bytes after)
include packed

theorem Packed.current : after.current = pc.current + bytes.length := by
  rw [packed]

theorem Packed.end_ : after.end_ = pc.end_ := by
  rw [packed]

theorem Packed.returnCode : after.returnCode = pc.returnCode := by
  rw [packed]

theorem Packed.beCompatible : after.beCompatible = pc.beCompatible := by
  rw [packed]

end

theorem Packed.trans {pc middle after : PackContext} {first rest : List Byte} (head : Packed pc first middle)
    (tail : Packed middle rest after) : Packed pc (first ++ rest) after := by
  unfold Packed at head tail ⊢
  subst head
  rw [tail]
  simp only [Mem.store_append, List.length_append, Nat.add_assoc]

theorem fixmap_code : ∀ n < 16, 0x80#8 ||| (BitVec.ofNat 32 n).setWidth 8 = BitVec.ofNat 8 (0x80 + n) := by
  decide

/-- All of the bytes, or none of them. -/
def PackContext.put (pm : PtrModel) (bytes : List Byte) (pc : PackContext) : PackContext :=
  cwPackReserveSpace pm bytes.length pc fun p pc => pc.write p bytes

section

variable (pm : PtrModel) (pc : PackContext)

theorem tryMove_put (w : Width) (t : Byte) (d : BitVec 64) :
    tryMove pm w t d pc = pc.put pm (t :: bigEndian w.bytes d.toNat) := by
  have stored (mem : Mem) (p : Nat) := mem.store_append p [t] (bigEndian w.bytes d.toNat)
  simp only [tryMove, PackContext.put, cwStore_bigEndian, PackContext.write, List.length_cons, bigEndian_length,
    Nat.add_comm 1]
  congr 1
  funext p pc
  exact congrArg (PackContext.mk _ _ _ _ _) (stored pc.mem p)

theorem packBlob_put {header v : List Byte} (small : (header ++ v).length < 2 ^ 32) :
    packBlob pm header v v.length pc = pc.put pm (header ++ v) := by
  rw [List.length_append] at small
  rw [packBlob, PackContext.put, List.length_append, Nat.add_comm v.length, Nat.mod_eq_of_lt small]
  congr 1
  funext p pc
  rw [List.take_length]
  exact congrArg (PackContext.mk _ _ _ _ _) (pc.mem.store_append p header v)

/-- The header of a string, for old and for new readers. -/
def strHeaderFor (old : Bool) (length : Nat) : List Byte :=
  if old then oldStrHeader length else strHeader length

/-- A number in the low 32 bits, or in all of them. -/
theorem toNat_widen (n : BitVec 32) : (n.setWidth 64).toNat = n.toNat := by
  have := n.isLt
  simp only [BitVec.toNat_setWidth]
  omega

variable {pc} (ok : pc.returnCode = .ok)
include ok

theorem cwPackUnsigned_put (i : BitVec 64) : cwPackUnsigned pm pc i = pc.put pm (uintBytes i.toNat) := by
  have low : i.setWidth 8 = BitVec.ofNat 8 i.toNat := BitVec.eq_of_toNat_eq (by simp)
  rw [cwPackUnsigned, if_neg (not_not_intro ok), low]
  simp only [uintBytes, tryMove_put, apply_ite fun bytes => pc.put pm bytes]
  rfl

theorem cwPackFloat_put (f : BitVec 32) : cwPackFloat pm pc f = pc.put pm (0xca :: bigEndian 4 f.toNat) := by
  rw [cwPackFloat, if_neg (not_not_intro ok), tryMove_put, toNat_widen]
  rfl

theorem cwPackBoolean_put (b : Bool) : cwPackBoolean pm pc b = pc.put pm [if b then 0xc3 else 0xc2] := by
  rw [cwPackBoolean, if_neg (not_not_intro ok)]
  rfl

theorem cwPackMapSize_put (n : BitVec 32) : cwPackMapSize pm pc n = pc.put pm (mapHeader n.toNat) := by
  have first (fix : n.toNat < 16) : 0x80#8 ||| n.setWidth 8 = BitVec.ofNat 8 (0x80 + n.toNat) := by
    have small := fixmap_code n.toNat fix
    rwa [BitVec.ofNat_toNat, BitVec.setWidth_eq] at small
  rw [cwPackMapSize, if_neg (not_not_intro ok), mapHeader]
  by_cases fix : n.toNat < 16
  · rw [if_pos fix, if_pos fix, first fix]
    rfl
  · simp only [if_neg fix, tryMove_put, toNat_widen, apply_ite fun bytes => pc.put pm bytes]
    rfl

theorem cwPackStr_put {v : List Byte} {l : BitVec 32} (length : l.toNat = v.length)
    (small : (strHeaderFor pc.beCompatible v.length ++ v).length < 2 ^ 32) :
    cwPackStr pm pc v l = pc.put pm (strHeaderFor pc.beCompatible v.length ++ v) := by
  have low : l.setWidth 8 = BitVec.ofNat 8 v.length := BitVec.eq_of_toNat_eq (by simp [length])
  have first : 0xa0 + BitVec.ofNat 8 v.length = BitVec.ofNat 8 (0xa0 + v.length) := (BitVec.ofNat_add _ _).symm
  have wide : v.length < Width.w32.bound := length ▸ l.isLt
  rw [← packBlob_put pm pc small, cwPackStr, if_neg (not_not_intro ok), length, low, first]
  simp only [cwStore_bigEndian, toNat_widen, length]
  cases pc.beCompatible with
  | true =>
    simp only [strHeaderFor, if_true, oldStrHeader, strCodes, List.tail_cons, narrowest_cons, if_pos wide,
      Bool.true_eq_false, and_false, if_false, apply_ite fun header => packBlob pm header v v.length pc]
    rfl
  | false =>
    simp only [strHeaderFor, Bool.false_eq_true, if_false, strHeader, and_true, bigEndian_one,
      apply_ite fun header => packBlob pm header v v.length pc]
    rfl

end

/-- All of the bytes are behind what was there, or there is not enough room. -/
theorem PackContext.put_eq (pm : PtrModel) {bytes : List Byte} {pc : PackContext} (inside : pc.current ≤ pc.end_)
    (top : pc.end_ + bytes.length < 2 ^ 32) :
    pc.put pm bytes =
      if pc.current + bytes.length ≤ pc.end_ then
        { pc with current := pc.current + bytes.length, mem := pc.mem.store pc.current bytes }
      else { pc with returnCode := .bufferOverflow } := by
  have sum : pm.add pc.current bytes.length = pc.current + bytes.length := pm.add_of_lt (by omega)
  simp only [put, cwPackReserveSpace, sum]
  by_cases room : pc.current + bytes.length ≤ pc.end_
  · rw [if_neg (Nat.not_lt.mpr room), if_pos room]
    rfl
  · rw [if_pos (Nat.not_le.mp room), if_neg room]

/-- There is room for the bytes in the buffer of the context. -/
structure Writable (pc : PackContext) (bytes : List Byte) : Prop where
  ok : pc.returnCode = .ok
  modern : pc.beCompatible = false
  room : pc.current + bytes.length ≤ pc.end_
  top : pc.end_ < 2 ^ 32

theorem Writable.put {pc : PackContext} {bytes : List Byte} (writable : Writable pc bytes) (pm : PtrModel) :
    Packed pc bytes (pc.put pm bytes) := by
  obtain ⟨-, -, room, top⟩ := writable
  have sum : pm.add pc.current bytes.length = pc.current + bytes.length := pm.add_of_lt (by omega)
  simp only [PackContext.put, cwPackReserveSpace, sum, if_neg (Nat.not_lt.mpr room)]
  rfl

/-- A string with the header that new readers know. -/
theorem Writable.str {pc : PackContext} {v : List Byte} (writable : Writable pc (strHeader v.length ++ v))
    (pm : PtrModel) {l : BitVec 32} (length : l.toNat = v.length) :
    Packed pc (strHeader v.length ++ v) (cwPackStr pm pc v l) := by
  have header : strHeaderFor pc.beCompatible v.length = strHeader v.length := by
    rw [writable.modern]
    rfl
  have room := writable.room
  have top := writable.top
  rw [cwPackStr_put pm writable.ok length (by rw [header]; omega), header]
  exact writable.put pm

section

variable {pc : PackContext} {first rest : List Byte} (writable : Writable pc (first ++ rest))
include writable

theorem Writable.begin : Writable pc first := by
  have room := writable.room
  rw [List.length_append] at room
  exact ⟨writable.ok, writable.modern, by omega, writable.top⟩

/-- What has been packed leaves room for the rest. -/
theorem Writable.next {after : PackContext} (packed : Packed pc first after) : Writable after rest := by
  have room := writable.room
  rw [List.length_append, ← Nat.add_assoc] at room
  refine ⟨packed.returnCode.trans writable.ok, packed.beCompatible.trans writable.modern, ?_, ?_⟩
  · rw [packed.current, packed.end_]
    exact room
  · rw [packed.end_]
    exact writable.top

end

/-- A buffer that is as large as the bytes takes them. -/
theorem writable_init (pm : PtrModel) (mem : Mem) {base size : Nat} {bytes : List Byte} (top : base + size < 2 ^ 32)
    (fits : bytes.length ≤ size) : Writable (cwPackContextInit pm mem base size) bytes := by
  have end_ : (cwPackContextInit pm mem base size).end_ = base + size := pm.add_of_lt top
  refine ⟨rfl, rfl, ?_, ?_⟩
  · rw [end_]
    exact Nat.add_le_add_left fits base
  · rw [end_]
    exact top

/-- What stands between the start of the buffer and the cursor is what has been packed,
and nothing that the buffer held before. -/
theorem Packed.read_start {pm : PtrModel} {mem : Mem} {base size : Nat} {bytes : List Byte} {after : PackContext}
    (packed : Packed (cwPackContextInit pm mem base size) bytes after) :
    after.mem.read after.start (after.current - after.start) = bytes := by
  rw [packed]
  show Mem.read _ base (base + bytes.length - base) = bytes
  rw [Nat.add_sub_cancel_left]
  exact (Mem.store_holds mem base bytes).read_eq

end Maglev
