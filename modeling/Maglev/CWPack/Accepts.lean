import Maglev.CWPack.PackedItems
import Maglev.CWPack.Truncated

namespace Maglev

open MessagePack

/-- The first bytes of a format. -/
def isFirstByte (c : Byte) : Format → Bool
  | .posFixnum => c.toNat < 128
  | .fixmap => 0x80 ≤ c.toNat ∧ c.toNat < 0x80 + 16
  | .fixarray => 0x90 ≤ c.toNat ∧ c.toNat < 0x90 + 16
  | .fixstr => 0xa0 ≤ c.toNat ∧ c.toNat < 0xa0 + 32
  | .negFixnum => 256 - 32 ≤ c.toNat
  | .nil => c = 0xc0
  | .bool b => c = if b then 0xc3 else 0xc2
  | .float => c = 0xca
  | .double => c = 0xcb
  | .uint w => c = uintCode w
  | .sint w => c = sintCode w
  | .str w => (c, w) ∈ strCodes
  | .bin w => (c, w) ∈ binCodes
  | .ext w => (c, w) ∈ extCodes
  | .array w => (c, w) ∈ arrayCodes
  | .map w => (c, w) ∈ mapCodes
  | .fixext len => (c, len) ∈ fixextCodes
  | .illegal => c = 0xc1

theorem isFirstByte_formatOf (c : Byte) : isFirstByte c (formatOf c) := by
  have all : ∀ n < 256, isFirstByte (BitVec.ofNat 8 n) (formatOf (BitVec.ofNat 8 n)) := by decide +kernel
  have this := all c.toNat c.isLt
  rwa [BitVec.ofNat_toNat, BitVec.setWidth_eq] at this

section

variable {c : Byte}

theorem ofNat_toNat_byte (c : Byte) : BitVec.ofNat 8 c.toNat = c := by
  rw [BitVec.ofNat_toNat, BitVec.setWidth_eq]

theorem isFirstByte_of_format {format : Format} (same : formatOf c = format) : isFirstByte c format := by
  rw [← same]
  exact isFirstByte_formatOf c

theorem posFixnum_head (format : formatOf c = .posFixnum) : Head (.int c.toNat) [c] := by
  have small : c.toNat < 128 := by simpa [isFirstByte] using isFirstByte_of_format format
  have isHead := Scalar.posFix small
  rw [ofNat_toNat_byte] at isHead
  exact .flat isHead

theorem negFixnum_head (format : formatOf c = .negFixnum) : Head (.int (-(256 - c.toNat : Nat))) [c] := by
  have lower : 256 - 32 ≤ c.toNat := by simpa [isFirstByte] using isFirstByte_of_format format
  have upper := c.isLt
  have isHead := @Scalar.negFix (256 - c.toNat) (by omega) (by omega)
  rw [show 256 - (256 - c.toNat) = c.toNat by omega, ofNat_toNat_byte] at isHead
  exact .flat isHead

theorem fixmap_head (format : formatOf c = .fixmap) :
    Head (.map (List.replicate (c.toNat - 0x80) (.nil, .nil))) [c] := by
  have range : 0x80 ≤ c.toNat ∧ c.toNat < 0x80 + 16 := by simpa [isFirstByte] using isFirstByte_of_format format
  have header := MapHeader.fix (show c.toNat - 0x80 < 16 by omega)
  rw [Nat.add_sub_cancel' range.1, ofNat_toNat_byte] at header
  refine .map ?_
  rwa [List.length_replicate]

theorem fixarray_head (format : formatOf c = .fixarray) :
    Head (.array (List.replicate (c.toNat - 0x90) .nil)) [c] := by
  have range : 0x90 ≤ c.toNat ∧ c.toNat < 0x90 + 16 := by simpa [isFirstByte] using isFirstByte_of_format format
  have header := ArrayHeader.fix (show c.toNat - 0x90 < 16 by omega)
  rw [Nat.add_sub_cancel' range.1, ofNat_toNat_byte] at header
  refine .array ?_
  rwa [List.length_replicate]

/-- A short string with its length, which the first byte has. -/
theorem fixstr_head (format : formatOf c = .fixstr) :
    ∃ n, ((c &&& 0x1f#8).setWidth 32).toNat = n ∧
      ∀ bytes : List Byte, bytes.length = n → Head (.str bytes) (c :: bytes) := by
  have range : 0xa0 ≤ c.toNat ∧ c.toNat < 0xa0 + 32 := by simpa [isFirstByte] using isFirstByte_of_format format
  have small : c.toNat - 0xa0 < 32 := by omega
  have declared := fix_size.2.2 _ small
  rw [Nat.add_sub_cancel' range.1, ofNat_toNat_byte] at declared
  refine ⟨c.toNat - 0xa0, ?_, fun bytes length => ?_⟩
  · rw [declared]
    exact Nat.mod_eq_of_lt (by omega)
  · have isHead := @Scalar.fixstr bytes (by rwa [length])
    rw [length, Nat.add_sub_cancel' range.1, ofNat_toNat_byte] at isHead
    exact .flat isHead

/-- Numbers with a sign have the residues of all words. -/
theorem sint_head {w : Width} {n : Nat} (format : formatOf c = .sint w) (bound : n < w.bound) :
    Head (.int (if 2 * n < w.bound then n else n - w.bound)) (c :: bigEndian w.bytes n) := by
  have first : c = sintCode w := by simpa [isFirstByte] using isFirstByte_of_format format
  have residue : ((if 2 * n < w.bound then (n : Int) else n - w.bound) % w.bound).toNat = n := by
    split_ifs
    · rw [Int.emod_eq_of_lt (by omega) (by omega), Int.toNat_natCast]
    · rw [Int.sub_emod_right, Int.emod_eq_of_lt (by omega) (by omega), Int.toNat_natCast]
  have isHead := @Scalar.sint (if 2 * n < w.bound then (n : Int) else n - w.bound) w (by split_ifs <;> omega)
    (by split_ifs <;> omega)
  rw [residue] at isHead
  rw [first]
  exact .flat isHead

end

section

variable (mem : Mem) {p : Nat} (room : p + 9 ≤ 2 ^ 32)
include room

/-- The field behind a first byte, as a number. -/
theorem exists_field (w : Width) : ∃ n < w.bound, Holds mem (p + 1) (bigEndian w.bytes n) ∧
    cwLoad .unbounded mem (p + 1) w = BitVec.ofNat 64 n := by
  obtain ⟨n, bound, same⟩ := exists_bigEndian (mem.read (p + 1) w.bytes)
  rw [Mem.read_length] at bound same
  have held : Holds mem (p + 1) (bigEndian w.bytes n) := by
    rw [same]
    exact mem.read_holds _ _
  have width : w.bytes ≤ 8 := by cases w <;> decide
  exact ⟨n, bound, held, cwLoad_bigEndian held (by omega) bound⟩

/-- A head of a first byte and a field. -/
theorem exists_fieldHead (w : Width) (value : Nat → Value)
    (isHead : ∀ n < w.bound, Head (value n) (mem p :: bigEndian w.bytes n)) :
    ∃ v head, Head v head ∧ Holds mem p head ∧ head.length = 1 + w.bytes := by
  obtain ⟨n, bound, held, -⟩ := exists_field mem room w
  refine ⟨value n, _, isHead n bound, holds_cons.mpr ⟨rfl, held⟩, ?_⟩
  rw [List.length_cons, bigEndian_length, Nat.add_comm]

/-- A head of a first byte, a length, perhaps a type, and a blob. -/
theorem exists_blobHead (w : Width) {value : List Byte → Value} {k : Nat} (short : w.bound ≤ 2 ^ 32)
    (isHead : ∀ bytes : List Byte, bytes.length < w.bound →
      Head (value bytes) (mem p :: (bigEndian w.bytes bytes.length ++ (mem.read (p + 1 + w.bytes) k ++ bytes)))) :
    ∃ v head, Head v head ∧ Holds mem p head ∧
      head.length = 1 + (w.bytes + (k + ((cwLoad .unbounded mem (p + 1) w).setWidth 32).toNat)) := by
  obtain ⟨n, bound, held, loaded⟩ := exists_field mem room w
  have declared : ((cwLoad .unbounded mem (p + 1) w).setWidth 32).toNat = n := by
    rw [loaded, BitVec.toNat_setWidth, BitVec.toNat_ofNat]
    omega
  have length := mem.read_length (p + 1 + w.bytes + k) n
  have isHead := isHead (mem.read (p + 1 + w.bytes + k) n) (by rwa [length])
  rw [length] at isHead
  refine ⟨_, _, isHead, holds_cons.mpr ⟨rfl, holds_append.mpr ⟨held, holds_append.mpr ⟨?_, ?_⟩⟩⟩, ?_⟩
  · rw [bigEndian_length]
    exact mem.read_holds _ _
  · rw [bigEndian_length, mem.read_length]
    exact mem.read_holds _ _
  · rw [declared, List.length_cons, List.length_append, List.length_append, bigEndian_length, mem.read_length,
      length, Nat.add_comm 1]

/-- Every byte but one is the first of a head, if there are enough bytes behind it. -/
theorem exists_head (legal : formatOf (mem p) ≠ .illegal) :
    ∃ v head, Head v head ∧ Holds mem p head ∧ head.length = (itemAdvances .unbounded mem p).sum := by
  have single {v : Value} (isHead : Head v [mem p]) :
      ∃ v head, Head v head ∧ Holds mem p head ∧ head.length = 1 :=
    ⟨v, [mem p], isHead, holds_cons.mpr ⟨rfl, holds_nil _ _⟩, rfl⟩
  unfold itemAdvances
  cases format : formatOf (mem p) with
  | illegal => exact absurd format legal
  | posFixnum => exact single (posFixnum_head format)
  | negFixnum => exact single (negFixnum_head format)
  | fixmap => exact single (fixmap_head format)
  | fixarray => exact single (fixarray_head format)
  | nil =>
    have first : mem p = 0xc0 := by simpa [isFirstByte] using isFirstByte_of_format format
    exact single (by rw [first]; exact .flat .nil)
  | bool b =>
    have first : mem p = if b then 0xc3 else 0xc2 := by simpa [isFirstByte] using isFirstByte_of_format format
    exact single (by rw [first]; exact .flat (.bool b))
  | fixstr =>
    obtain ⟨n, declared, isHead⟩ := fixstr_head format
    have length := mem.read_length (p + 1) n
    refine ⟨_, _, isHead _ length, holds_cons.mpr ⟨rfl, mem.read_holds _ _⟩, ?_⟩
    simp only [declared, List.length_cons, length, List.sum_cons, List.sum_nil]
    omega
  | float =>
    have first : mem p = 0xca := by simpa [isFirstByte] using isFirstByte_of_format format
    refine exists_fieldHead mem room .w32 (fun n => .float (BitVec.ofNat 32 n)) fun n bound => ?_
    have isHead := Scalar.float (BitVec.ofNat 32 n)
    rw [BitVec.toNat_ofNat, Nat.mod_eq_of_lt (show n < 2 ^ 32 from bound)] at isHead
    rw [first]
    exact .flat isHead
  | double =>
    have first : mem p = 0xcb := by simpa [isFirstByte] using isFirstByte_of_format format
    refine exists_fieldHead mem room .w64 (fun n => .double (BitVec.ofNat 64 n)) fun n bound => ?_
    have isHead := Scalar.double (BitVec.ofNat 64 n)
    rw [BitVec.toNat_ofNat, Nat.mod_eq_of_lt (show n < 2 ^ 64 from bound)] at isHead
    rw [first]
    exact .flat isHead
  | uint w =>
    have first : mem p = uintCode w := by simpa [isFirstByte] using isFirstByte_of_format format
    refine exists_fieldHead mem room w (fun n => .int n) fun n bound => ?_
    rw [first]
    exact .flat (.uint w bound)
  | sint w => exact exists_fieldHead mem room w _ fun n bound => sint_head format bound
  | array w =>
    have isCode : (mem p, w) ∈ arrayCodes := by simpa [isFirstByte] using isFirstByte_of_format format
    refine exists_fieldHead mem room w (fun n => .array (List.replicate n .nil)) fun n bound => .array ?_
    rw [List.length_replicate]
    exact .sized isCode bound
  | map w =>
    have isCode : (mem p, w) ∈ mapCodes := by simpa [isFirstByte] using isFirstByte_of_format format
    refine exists_fieldHead mem room w (fun n => .map (List.replicate n (.nil, .nil))) fun n bound => .map ?_
    rw [List.length_replicate]
    exact .sized isCode bound
  | str w =>
    have isCode : (mem p, w) ∈ strCodes := by simpa [isFirstByte] using isFirstByte_of_format format
    have found := exists_blobHead mem room w (k := 0) (formatOf_sized.1 _ isCode).2 fun bytes fits =>
      .flat (.str isCode fits)
    simpa [PtrModel.add] using found
  | bin w =>
    have isCode : (mem p, w) ∈ binCodes := by simpa [isFirstByte] using isFirstByte_of_format format
    have found := exists_blobHead mem room w (k := 0) (formatOf_sized.2.1 _ isCode).2 fun bytes fits =>
      .flat (.bin isCode fits)
    simpa [PtrModel.add] using found
  | ext w =>
    have isCode : (mem p, w) ∈ extCodes := by simpa [isFirstByte] using isFirstByte_of_format format
    have found := exists_blobHead mem room w (k := 1) (formatOf_sized.2.2.1 _ isCode).2 fun bytes fits =>
      .flat (.ext _ isCode fits)
    simpa [PtrModel.add] using found
  | fixext len =>
    have isCode : (mem p, len) ∈ fixextCodes := by simpa [isFirstByte] using isFirstByte_of_format format
    have declared : (BitVec.ofNat 32 len).toNat = len := Nat.mod_eq_of_lt (formatOf_sized.2.2.2.1 _ isCode).2
    have length := mem.read_length (p + 1 + 1) len
    have isHead := @Scalar.fixext (mem.read (p + 1 + 1) len) (mem p) (mem (p + 1)) (by rwa [length])
    refine ⟨_, _, .flat isHead, holds_cons.mpr ⟨rfl, holds_cons.mpr ⟨rfl, mem.read_holds _ _⟩⟩, ?_⟩
    simp only [List.length_cons, length, List.sum_cons, List.sum_nil, declared]
    omega

end

/-- A call that returns an item has made all of its advances inside the buffer. -/
theorem Advances.of_ok {end_ : Nat} {code : ReturnCode} {steps trail : List Nat} {p : Nat} {after : UnpackContext}
    (advances : Advances .unbounded end_ code steps p trail after) (inside : p ≤ end_)
    (ok : after.returnCode = .ok) :
    code = .ok ∧ after.current = p + steps.sum ∧ p + steps.sum ≤ end_ := by
  induction advances with
  | done current _ _ returned _ => exact ⟨returned.symm.trans ok, current, inside⟩
  | refused _ _ _ _ failed _ => exact absurd ok failed
  | fits room _ ih =>
    obtain ⟨good, current, last⟩ := ih room ok
    simp only [PtrModel.add] at current last
    rw [List.sum_cons, ← Nat.add_assoc]
    exact ⟨good, current, last⟩

/-- A call of `cw_unpack_next` returns an item exactly if the bytes at the cursor are the
head of a value, and all of it is in the buffer. -/
theorem cwUnpackNext_ok_iff {mem : Mem} {uc : UnpackContext} (ok : uc.returnCode = .ok)
    (inside : uc.current ≤ uc.end_) (top : uc.end_ + 9 < 2 ^ 32) :
    (cwUnpackNext .unbounded mem uc).returnCode = .ok ↔
      ∃ v head, Head v head ∧ Holds mem uc.current head ∧ uc.current + head.length ≤ uc.end_ := by
  constructor
  · intro returned
    obtain ⟨good, -, last⟩ := (cwUnpackNext_advances .unbounded mem ok).of_ok inside returned
    have legal : formatOf (mem uc.current) ≠ .illegal := by
      intro illegal
      rw [itemCode, if_pos illegal] at good
      cases good
    obtain ⟨v, head, isHead, held, length⟩ := exists_head mem (show uc.current + 9 ≤ 2 ^ 32 by omega) legal
    exact ⟨v, head, isHead, held, by rw [length]; exact last⟩
  · rintro ⟨v, head, isHead, held, room⟩
    exact (cwUnpackNext_head .unbounded isHead ok held room (by omega)).returnCode.trans ok

/-- The calls of a reader show the values one after the other. -/
def ShowsAll (pm : PtrModel) (mem : Mem) : UnpackContext → List Value → Prop
  | _, [] => True
  | uc, v :: vs =>
    (cwUnpackNext pm mem uc).item.Shows mem v ∧ ShowsAll pm mem (cwUnpackNext pm mem uc) vs

/-- Bytes before a reader that are the heads of values, and inside of its buffer. -/
def Before (mem : Mem) (uc : UnpackContext) (vs : List Value) (bytes : List Byte) : Prop :=
  Heads vs bytes ∧ Holds mem uc.current bytes ∧ uc.current + bytes.length ≤ uc.end_

theorem iterate_of_failed {mem : Mem} {uc : UnpackContext} (failed : uc.returnCode ≠ .ok) (n : Nat) :
    (cwUnpackNext .unbounded mem)^[n] uc = uc :=
  Function.iterate_fixed (cwUnpackNext_of_failed failed .unbounded mem) n

/-- What the reader returns for values that are before it. -/
theorem Before.shows {mem : Mem} {uc : UnpackContext} {vs : List Value} {bytes : List Byte}
    (before : Before mem uc vs bytes) (ok : uc.returnCode = .ok) (top : uc.end_ + 9 < 2 ^ 32) :
    ((cwUnpackNext .unbounded mem)^[vs.length] uc).returnCode = .ok ∧ ShowsAll .unbounded mem uc vs ∧
      ((cwUnpackNext .unbounded mem)^[vs.length] uc).current = uc.current + bytes.length := by
  obtain ⟨heads, held, room⟩ := before
  induction heads generalizing uc with
  | nil => exact ⟨ok, trivial, rfl⟩
  | @cons v vs first rest isHead _ ih =>
    have readable : Readable mem uc (first ++ rest) := ⟨ok, held, room, by omega⟩
    have read := readable.unpacked .unbounded isHead
    have next := readable.next read
    have here := read.shows isHead (holds_append.mp held).1 (by rw [List.length_append] at room; omega)
    obtain ⟨returned, later, current⟩ := ih next.ok (by rw [read.end_]; exact top) next.held next.room
    rw [List.length_cons, Function.iterate_succ_apply]
    refine ⟨returned, ⟨here, later⟩, current.trans ?_⟩
    rw [read.current, List.length_append, Nat.add_assoc]

/-- Calls of `cw_unpack_next` on arbitrary bytes all return items exactly if the bytes are
the heads of as many values, in whatever encodings, and all of them are in the buffer. The
items are then those values, and the cursor is behind the last one. -/
theorem cwUnpackNext_accepts {mem : Mem} {uc : UnpackContext} (ok : uc.returnCode = .ok)
    (inside : uc.current ≤ uc.end_) (top : uc.end_ + 9 < 2 ^ 32) (n : Nat) :
    (((cwUnpackNext .unbounded mem)^[n] uc).returnCode = .ok ↔
      ∃ vs bytes, vs.length = n ∧ Before mem uc vs bytes) ∧
    ∀ vs bytes, Before mem uc vs bytes → ShowsAll .unbounded mem uc vs ∧
      ((cwUnpackNext .unbounded mem)^[vs.length] uc).current = uc.current + bytes.length := by
  refine ⟨⟨?_, ?_⟩, fun vs bytes before => (before.shows ok top).2⟩
  · intro returned
    induction n generalizing uc with
    | zero => exact ⟨[], [], rfl, .nil, holds_nil _ _, inside⟩
    | succ n ih =>
      rw [Function.iterate_succ_apply] at returned
      have first : (cwUnpackNext .unbounded mem uc).returnCode = .ok := by
        by_contra failed
        rw [iterate_of_failed failed] at returned
        exact failed returned
      obtain ⟨v, head, isHead, held, room⟩ := (cwUnpackNext_ok_iff ok inside top).mp first
      have read := cwUnpackNext_head .unbounded isHead ok held room (by omega)
      obtain ⟨vs, bytes, length, heads, later, last⟩ := ih first (by rw [read.current, read.end_]; exact room)
        (by rw [read.end_]; exact top) returned
      rw [read.current] at later last
      rw [read.end_, Nat.add_assoc, ← List.length_append] at last
      exact ⟨v :: vs, head ++ bytes, congrArg (· + 1) length, .cons isHead heads, holds_append.mpr ⟨held, later⟩,
        last⟩
  · rintro ⟨vs, bytes, rfl, before⟩
    exact (before.shows ok top).1

/-- A reader of the header of an array and of that of a string without its length. -/
def cutOffMem : Mem := Mem.store (fun _ => 0#8) 0 [0x92#8, 0xd9#8]

def cutOffReader : UnpackContext := cwUnpackContextInit .unbounded default 0 2

theorem cwUnpackNext_accepts_cutOff :
    (∃ vs bytes, vs.length = 1 ∧ Before cutOffMem cutOffReader vs bytes) ∧
      ¬ ∃ vs bytes, vs.length = 2 ∧ Before cutOffMem cutOffReader vs bytes := by
  have accepted (n : Nat) := (@cwUnpackNext_accepts cutOffMem cutOffReader rfl (by decide) (by decide) n).1
  exact ⟨(accepted 1).mp (by decide +kernel), fun two => absurd ((accepted 2).mpr two) (by decide +kernel)⟩

end Maglev
