import Maglev.CWPack.Unpack

namespace Maglev

open MessagePack

namespace MessagePack

/-- The item type a value is unpacked to. -/
def Value.itemType : Value → ItemType
  | .nil => .nil
  | .bool _ => .boolean
  | .int n => if 0 ≤ n then .positiveInteger else .negativeInteger
  | .float _ => .float
  | .double _ => .double
  | .str _ => .str
  | .bin _ => .bin
  | .ext type _ => .ext type
  | .array _ => .array
  | .map _ => .map

/-- What unpacking a value whose blob starts at address `p` leaves in the union.
Fields that the value does not use keep what the item before has left there. -/
def Value.stored (v : Value) (p : Nat) (u : ItemUnion) : ItemUnion :=
  match v with
  | .nil => u
  | .bool b => u.setBoolean b
  | .int n => u.setI64 (BitVec.ofInt 64 n)
  | .float bits => u.setReal bits
  | .double bits => u.setI64 bits
  | .str bytes | .bin bytes | .ext _ bytes =>
    (u.setLength (BitVec.ofNat 32 bytes.length)).setStart (BitVec.ofNat 32 p)
  | .array items => u.setSize (BitVec.ofNat 32 items.length)
  | .map pairs => u.setSize (BitVec.ofNat 32 pairs.length)

end MessagePack

/-- A successful call: the item is the value's and the cursor stands behind its head. -/
def Unpacked (uc : UnpackContext) (v : Value) (head : List Byte) (after : UnpackContext) : Prop :=
  ∃ trail, after =
    { uc with
      item := ⟨v.itemType, v.stored (uc.current + (head.length - v.blob.length)) uc.item.as⟩
      current := uc.current + head.length
      trail }

section

variable {uc after : UnpackContext} {v : Value} {head : List Byte} (read : Unpacked uc v head after)
include read

theorem Unpacked.current : after.current = uc.current + head.length := by
  obtain ⟨_, rfl⟩ := read
  rfl

theorem Unpacked.end_ : after.end_ = uc.end_ := by
  obtain ⟨_, rfl⟩ := read
  rfl

theorem Unpacked.returnCode : after.returnCode = uc.returnCode := by
  obtain ⟨_, rfl⟩ := read
  rfl

theorem Unpacked.type : after.item.type = v.itemType := by
  obtain ⟨_, rfl⟩ := read
  rfl

end

theorem cwUnpackAssertSpace_ok {pm : PtrModel} {code : ReturnCode} {more : Nat} {uc : UnpackContext}
    {rest : Nat → UnpackContext → UnpackContext} (room : uc.current + more ≤ uc.end_)
    (top : uc.end_ < 2 ^ 32) :
    cwUnpackAssertSpace pm code more uc rest =
      rest uc.current { uc with current := uc.current + more, trail := (uc.current + more) :: uc.trail } := by
  have sum : pm.add uc.current more = uc.current + more := pm.add_of_lt (by omega)
  simp only [cwUnpackAssertSpace, sum, if_neg (Nat.not_lt.mpr room)]

theorem cwUnpackAssertBlob_ok (pm : PtrModel) (uc : UnpackContext) (len : Nat)
    (length : uc.item.as.length.toNat = len) (room : uc.current + len ≤ uc.end_) (top : uc.end_ < 2 ^ 32) :
    cwUnpackAssertBlob pm uc =
      { uc with
        item := { uc.item with as := uc.item.as.setStart (BitVec.ofNat 32 uc.current) }
        current := uc.current + len
        trail := (uc.current + len) :: uc.trail } := by
  rw [cwUnpackAssertBlob, length, cwUnpackAssertSpace_ok room top]

theorem getDDItemSized_ok {pm : PtrModel} {mem : Mem} {w : Width} {type : ItemType} {n : Nat}
    {store : ItemUnion → BitVec 64 → ItemUnion} {uc : UnpackContext} {rest : UnpackContext → UnpackContext}
    (held : Holds mem uc.current (bigEndian w.bytes n)) (fits : n < w.bound)
    (room : uc.current + w.bytes ≤ uc.end_) (top : uc.end_ < 2 ^ 32) :
    getDDItemSized pm mem w type store uc rest =
      rest { uc with
        item := ⟨type, store uc.item.as (BitVec.ofNat 64 n)⟩
        current := uc.current + w.bytes
        trail := (uc.current + w.bytes) :: uc.trail } := by
  have space : (uc.setType type).current + w.bytes ≤ (uc.setType type).end_ := room
  rw [getDDItemSized, cwUnpackAssertSpace_ok space top]
  simp only [UnpackContext.setType, cwLoad_bigEndian held (by omega) fits]

theorem ItemUnion.setI64_i64 (u : ItemUnion) (n : BitVec 64) : (u.setI64 n).i64 = n := by
  apply BitVec.eq_of_getLsbD_eq
  intro i bound
  have joined := BitVec.getLsbD_append (x := (n >>> 32).setWidth 32) (y := n.setWidth 32) (i := i)
  refine joined.trans ?_
  by_cases low : i < 32
  · simp [low, bound]
  · simp [low, bound, show i - 32 < 32 by omega, show 32 + (i - 32) = i by omega]

theorem signExtend_residue (bits : Nat) {n : Int} (narrow : bits ≤ 64)
    (lower : -(2 ^ bits : Nat) ≤ 2 * n) (upper : 2 * n < (2 ^ bits : Nat)) :
    ((BitVec.ofNat 64 (n % (2 ^ bits : Nat)).toNat).setWidth bits).signExtend 64 = BitVec.ofInt 64 n := by
  have same : (BitVec.ofNat 64 (n % (2 ^ bits : Nat)).toNat).setWidth bits = BitVec.ofInt bits n := by
    apply BitVec.eq_of_toNat_eq
    have positive := Nat.two_pow_pos bits
    have divides : 2 ^ bits ∣ 2 ^ 64 := Nat.pow_dvd_pow 2 narrow
    have below : (n % (2 ^ bits : Nat)).toNat < 2 ^ bits := by omega
    rw [BitVec.toNat_setWidth, BitVec.toNat_ofNat, Nat.mod_mod_of_dvd _ divides, BitVec.toNat_ofInt,
      Nat.mod_eq_of_lt below]
  rw [same, BitVec.signExtend, BitVec.toInt_ofInt, Int.bmod_eq_of_le_mul_two (by omega) (by omega)]

theorem signed_bigEndian {w : Width} {n : Int} (lower : -w.bound ≤ 2 * n) (upper : 2 * n < w.bound) :
    signed w (BitVec.ofNat 64 (n % w.bound).toNat) = BitVec.ofInt 64 n := by
  cases w with
  | w8 => exact signExtend_residue 8 (by decide) lower upper
  | w16 => exact signExtend_residue 16 (by decide) lower upper
  | w32 => exact signExtend_residue 32 (by decide) lower upper
  | w64 =>
    have whole := signExtend_residue 64 (by decide) lower upper
    rw [BitVec.setWidth_eq, BitVec.signExtend_eq] at whole
    exact whole

/-- The context that the `switch` gets. -/
structure BehindFirst (uc next : UnpackContext) : Prop where
  current : next.current = uc.current + 1
  item : next.item = uc.item
  start : next.start = uc.start
  end_ : next.end_ = uc.end_
  returnCode : next.returnCode = uc.returnCode

theorem cwUnpackNext_first (pm : PtrModel) (mem : Mem) {uc : UnpackContext} (ok : uc.returnCode = .ok)
    (room : uc.current + 1 ≤ uc.end_) (top : uc.end_ < 2 ^ 32) :
    ∃ next, BehindFirst uc next ∧ cwUnpackNext pm mem uc = cwUnpackItem pm mem (mem uc.current) next := by
  rw [cwUnpackNext, if_neg (by simp [ok]), cwUnpackAssertSpace_ok room top]
  refine ⟨_, ?_, rfl⟩
  exact ⟨rfl, rfl, rfl, rfl, rfl⟩

theorem BehindFirst.unpacked {uc next after : UnpackContext} {v : Value} {head : List Byte}
    (behind : BehindFirst uc next) (current : after.current + 1 = next.current + head.length)
    (item : after.item = ⟨v.itemType, v.stored (next.current + (head.length - 1 - v.blob.length)) next.item.as⟩)
    (blob : v.blob.length < head.length)
    (start : after.start = next.start) (end_ : after.end_ = next.end_)
    (code : after.returnCode = next.returnCode) : Unpacked uc v head after := by
  refine ⟨after.trail, ?_⟩
  have address : next.current + (head.length - 1 - v.blob.length) = uc.current + (head.length - v.blob.length) := by
    rw [behind.current]
    omega
  have stop : after.current = uc.current + head.length := by
    rw [behind.current] at current
    omega
  rw [address, behind.item] at item
  rw [behind.start] at start
  rw [behind.end_] at end_
  rw [behind.returnCode] at code
  cases after
  simp_all

/-- Length, then blob: the tail of `str`, `bin` and, with the type between, `ext`. -/
theorem getDDItemSized_blob (pm : PtrModel) {mem : Mem} {w : Width} (type : ItemType) {bytes : List Byte}
    {uc : UnpackContext} (held : Holds mem uc.current (bigEndian w.bytes bytes.length ++ bytes))
    (fits : bytes.length < w.bound) (short : w.bound ≤ 2 ^ 32)
    (room : uc.current + (w.bytes + bytes.length) ≤ uc.end_) (top : uc.end_ < 2 ^ 32) :
    ∃ trail, getDDItemSized pm mem w type (fun u n => u.setLength (n.setWidth 32)) uc (cwUnpackAssertBlob pm) =
      { uc with
        item := ⟨type, (uc.item.as.setLength (BitVec.ofNat 32 bytes.length)).setStart
          (BitVec.ofNat 32 (uc.current + w.bytes))⟩
        current := uc.current + w.bytes + bytes.length
        trail } := by
  have length : (BitVec.ofNat 32 bytes.length).toNat = bytes.length := Nat.mod_eq_of_lt (fits.trans_le short)
  rw [getDDItemSized_ok (holds_append.mp held).1 fits (by omega) top]
  simp only [BitVec.setWidth_ofNat_of_le (show 32 ≤ 64 by decide)]
  refine ⟨_, cwUnpackAssertBlob_ok pm _ bytes.length length ?_ top⟩
  dsimp only
  omega

theorem formatOf_fixnum :
    (∀ n < 128, formatOf (BitVec.ofNat 8 n) = .posFixnum) ∧
      ∀ n ≤ 32, 0 < n → formatOf (BitVec.ofNat 8 (256 - n)) = .negFixnum := by
  decide

theorem formatOf_fix :
    (∀ n < 16, formatOf (BitVec.ofNat 8 (0x80 + n)) = .fixmap) ∧
      (∀ n < 16, formatOf (BitVec.ofNat 8 (0x90 + n)) = .fixarray) ∧
      ∀ n < 32, formatOf (BitVec.ofNat 8 (0xa0 + n)) = .fixstr := by
  decide

theorem fix_size :
    (∀ n < 16, (BitVec.ofNat 8 (0x80 + n) &&& 0x0f#8).setWidth 32 = BitVec.ofNat 32 n) ∧
      (∀ n < 16, (BitVec.ofNat 8 (0x90 + n) &&& 0x0f#8).setWidth 32 = BitVec.ofNat 32 n) ∧
      ∀ n < 32, (BitVec.ofNat 8 (0xa0 + n) &&& 0x1f#8).setWidth 32 = BitVec.ofNat 32 n := by
  decide

theorem formatOf_sized :
    (∀ p ∈ strCodes, formatOf p.1 = .str p.2 ∧ p.2.bound ≤ 2 ^ 32) ∧
      (∀ p ∈ binCodes, formatOf p.1 = .bin p.2 ∧ p.2.bound ≤ 2 ^ 32) ∧
      (∀ p ∈ extCodes, formatOf p.1 = .ext p.2 ∧ p.2.bound ≤ 2 ^ 32) ∧
      (∀ p ∈ fixextCodes, formatOf p.1 = .fixext p.2 ∧ p.2 < 2 ^ 32) ∧
      (∀ p ∈ arrayCodes, formatOf p.1 = .array p.2) ∧
      ∀ p ∈ mapCodes, formatOf p.1 = .map p.2 := by
  decide

theorem formatOf_int (w : Width) : formatOf (uintCode w) = .uint w ∧ formatOf (sintCode w) = .sint w := by
  cases w <;> decide

theorem negFix_signExtend : ∀ n ≤ 32, 0 < n → (BitVec.ofNat 8 (256 - n)).signExtend 64 = BitVec.ofInt 64 (-n) := by
  decide

section Formats

variable {pm : PtrModel} {mem : Mem} {uc next : UnpackContext} (behind : BehindFirst uc next)
include behind

theorem BehindFirst.bool (b : Bool) :
    Unpacked uc (.bool b) [if b then 0xc3 else 0xc2] (cwUnpackItem pm mem (if b then 0xc3 else 0xc2) next) := by
  cases b <;> exact behind.unpacked rfl rfl Nat.one_pos rfl rfl rfl

theorem BehindFirst.posFix {n : Nat} (small : n < 128) :
    Unpacked uc (.int n) [BitVec.ofNat 8 n] (cwUnpackItem pm mem (BitVec.ofNat 8 n) next) := by
  have wide : (BitVec.ofNat 8 n).setWidth 64 = BitVec.ofNat 64 n := ofNat_setWidth (show n < 2 ^ 8 by omega)
  rw [cwUnpackItem, formatOf_fixnum.1 n small]
  refine behind.unpacked rfl ?_ Nat.one_pos rfl rfl rfl
  simp [getDDItem, Value.itemType, Value.stored, wide]

theorem BehindFirst.negFix {n : Nat} (positive : 0 < n) (small : n ≤ 32) :
    Unpacked uc (.int (-n)) [BitVec.ofNat 8 (256 - n)] (cwUnpackItem pm mem (BitVec.ofNat 8 (256 - n)) next) := by
  have negative : ¬ 0 ≤ -(n : Int) := by omega
  rw [cwUnpackItem, formatOf_fixnum.2 n small positive]
  refine behind.unpacked rfl ?_ Nat.one_pos rfl rfl rfl
  simp only [getDDItem, Value.itemType, Value.stored, if_neg negative, negFix_signExtend n small positive]

variable (top : next.end_ < 2 ^ 32)
include top

/-- A number behind the first byte, and nothing else: the unsigned integers, the
reals and the sizes of the containers. -/
theorem BehindFirst.number {v : Value} {code : Byte} {w : Width} {n : Nat}
    (store : ItemUnion → BitVec 64 → ItemUnion)
    (run : cwUnpackItem pm mem code next = getDDItemSized pm mem w v.itemType store next id)
    (isNumber : v.blob = [] ∧ ∀ p u, v.stored p u = store u (BitVec.ofNat 64 n)) (fits : n < w.bound)
    (rest : Holds mem next.current (bigEndian w.bytes n)) (space : next.current + w.bytes ≤ next.end_) :
    Unpacked uc v (code :: bigEndian w.bytes n) (cwUnpackItem pm mem code next) := by
  rw [run, getDDItemSized_ok rest fits space top]
  refine behind.unpacked ?_ ?_ ?_ rfl rfl rfl
  · simp [Nat.add_assoc]
  · simp only [id, isNumber.2]
  · simp [isNumber.1]

theorem BehindFirst.uint {n : Nat} {w : Width} (fits : n < w.bound)
    (rest : Holds mem next.current (bigEndian w.bytes n)) (space : next.current + w.bytes ≤ next.end_) :
    Unpacked uc (.int n) (uintCode w :: bigEndian w.bytes n) (cwUnpackItem pm mem (uintCode w) next) := by
  have type : (Value.int n).itemType = .positiveInteger := by simp [Value.itemType]
  refine behind.number top ItemUnion.setI64 ?_ ⟨rfl, fun _ _ => ?_⟩ fits rest space
  · rw [cwUnpackItem, (formatOf_int w).1, type]
  · rw [Value.stored, BitVec.ofInt_natCast]

theorem BehindFirst.sint {n : Int} {w : Width} (lower : -w.bound ≤ 2 * n) (upper : 2 * n < w.bound)
    (rest : Holds mem next.current (bigEndian w.bytes (n % w.bound).toNat))
    (space : next.current + w.bytes ≤ next.end_) :
    Unpacked uc (.int n) (sintCode w :: bigEndian w.bytes (n % w.bound).toNat)
      (cwUnpackItem pm mem (sintCode w) next) := by
  have wide : (w.bound : Int) ≤ 2 ^ 64 := by cases w <;> decide
  have below := Int.emod_lt_of_pos n (show (0 : Int) < w.bound by cases w <;> decide)
  have residue : (n % w.bound).toNat < w.bound := by omega
  have back : (BitVec.ofInt 64 n).toInt = n := by
    rw [BitVec.toInt_ofInt, Int.bmod_eq_of_le_mul_two (by omega) (by omega)]
  rw [cwUnpackItem, (formatOf_int w).2]
  dsimp only
  rw [getDDItemSized_ok rest residue space top]
  simp only [signed_bigEndian lower upper, ItemUnion.setI64_i64, back]
  by_cases sign : 0 ≤ n
  · rw [if_pos sign]
    refine behind.unpacked ?_ ?_ ?_ rfl rfl rfl <;>
      simp [UnpackContext.setType, Value.itemType, Value.stored, Value.blob, sign, Nat.add_assoc]
  · rw [if_neg sign]
    refine behind.unpacked ?_ ?_ ?_ rfl rfl rfl <;>
      simp [Value.itemType, Value.stored, Value.blob, sign, Nat.add_assoc]

theorem BehindFirst.float (bits : BitVec 32) (rest : Holds mem next.current (bigEndian 4 bits.toNat))
    (space : next.current + 4 ≤ next.end_) :
    Unpacked uc (.float bits) (0xca :: bigEndian 4 bits.toNat) (cwUnpackItem pm mem 0xca next) := by
  have run : cwUnpackItem pm mem 0xca next =
      getDDItemSized pm mem .w32 .float (fun u n => u.setReal (n.setWidth 32)) next id := rfl
  refine behind.number (v := .float bits) (w := .w32) top _ run ⟨rfl, fun _ _ => ?_⟩ bits.isLt rest space
  simp [Value.stored]

theorem BehindFirst.double (bits : BitVec 64) (rest : Holds mem next.current (bigEndian 8 bits.toNat))
    (space : next.current + 8 ≤ next.end_) :
    Unpacked uc (.double bits) (0xcb :: bigEndian 8 bits.toNat) (cwUnpackItem pm mem 0xcb next) := by
  have run : cwUnpackItem pm mem 0xcb next = getDDItemSized pm mem .w64 .double ItemUnion.setI64 next id := rfl
  refine behind.number (v := .double bits) (w := .w64) top _ run ⟨rfl, fun _ _ => ?_⟩ bits.isLt rest space
  simp [Value.stored]

theorem BehindFirst.blob {v : Value} {type : ItemType} {code : Byte} {w : Width}
    (isBlob : v.itemType = type ∧ ∀ p u, v.stored p u =
      (u.setLength (BitVec.ofNat 32 v.blob.length)).setStart (BitVec.ofNat 32 p))
    (run : cwUnpackItem pm mem code next =
      getDDItemSized pm mem w type (fun u n => u.setLength (n.setWidth 32)) next (cwUnpackAssertBlob pm))
    (fits : v.blob.length < w.bound) (short : w.bound ≤ 2 ^ 32)
    (rest : Holds mem next.current (bigEndian w.bytes v.blob.length ++ v.blob))
    (space : next.current + (w.bytes + v.blob.length) ≤ next.end_) :
    Unpacked uc v (code :: (bigEndian w.bytes v.blob.length ++ v.blob)) (cwUnpackItem pm mem code next) := by
  obtain ⟨trail, unpacked⟩ := getDDItemSized_blob pm type rest fits short space top
  rw [run, unpacked]
  refine behind.unpacked ?_ ?_ ?_ rfl rfl rfl
  · simp only [List.length_cons, List.length_append, bigEndian_length]
    omega
  · simp only [isBlob.1, isBlob.2, List.length_cons, List.length_append, bigEndian_length, Nat.add_sub_cancel]
  · simp only [List.length_cons, List.length_append]
    omega

theorem BehindFirst.fixstr {bytes : List Byte} (small : bytes.length < 32)
    (space : next.current + bytes.length ≤ next.end_) :
    Unpacked uc (.str bytes) (BitVec.ofNat 8 (0xa0 + bytes.length) :: bytes)
      (cwUnpackItem pm mem (BitVec.ofNat 8 (0xa0 + bytes.length)) next) := by
  have length : (BitVec.ofNat 32 bytes.length).toNat = bytes.length := Nat.mod_eq_of_lt (by omega)
  rw [cwUnpackItem, formatOf_fix.2.2 _ small]
  dsimp only
  rw [getDDItem, fix_size.2.2 _ small, cwUnpackAssertBlob_ok pm _ bytes.length]
  · refine behind.unpacked ?_ ?_ ?_ rfl rfl rfl <;>
      simp [Value.itemType, Value.stored, Value.blob, Nat.add_assoc]
  · exact length
  · exact space
  · exact top

theorem BehindFirst.fixext {bytes : List Byte} {code : Byte} (type : Byte)
    (isCode : (code, bytes.length) ∈ fixextCodes) (rest : Holds mem next.current (type :: bytes))
    (space : next.current + (bytes.length + 1) ≤ next.end_) :
    Unpacked uc (.ext type bytes) (code :: type :: bytes) (cwUnpackItem pm mem code next) := by
  obtain ⟨format, short⟩ := formatOf_sized.2.2.2.1 _ isCode
  have length : (BitVec.ofNat 32 bytes.length).toNat = bytes.length := Nat.mod_eq_of_lt short
  rw [cwUnpackItem, format]
  dsimp only
  rw [getDDItemFix, cwUnpackAssertSpace_ok (by omega) top, (holds_cons.mp rest).1,
    cwUnpackAssertBlob_ok pm _ bytes.length]
  · refine behind.unpacked ?_ ?_ ?_ rfl rfl rfl <;>
      simp [Value.itemType, Value.stored, Value.blob, Nat.add_assoc, Nat.add_comm 1]
  · exact length
  · dsimp only
    omega
  · exact top

theorem BehindFirst.ext {bytes : List Byte} {code : Byte} {w : Width} (type : Byte)
    (isCode : (code, w) ∈ extCodes) (fits : bytes.length < w.bound)
    (rest : Holds mem next.current (bigEndian w.bytes bytes.length ++ type :: bytes))
    (space : next.current + (w.bytes + (bytes.length + 1)) ≤ next.end_) :
    Unpacked uc (.ext type bytes) (code :: (bigEndian w.bytes bytes.length ++ type :: bytes))
      (cwUnpackItem pm mem code next) := by
  obtain ⟨format, short⟩ := formatOf_sized.2.2.1 _ isCode
  have length : (BitVec.ofNat 32 bytes.length).toNat = bytes.length := Nat.mod_eq_of_lt (fits.trans_le short)
  obtain ⟨number, typed⟩ := holds_append.mp rest
  rw [bigEndian_length] at typed
  rw [cwUnpackItem, format]
  dsimp only
  rw [getDDItemSized_ok number fits (by omega) top, cwUnpackAssertSpace_ok]
  · simp only [BitVec.setWidth_ofNat_of_le (show 32 ≤ 64 by decide), (holds_cons.mp typed).1, UnpackContext.setType]
    rw [cwUnpackAssertBlob_ok pm _ bytes.length]
    · refine behind.unpacked ?_ ?_ ?_ rfl rfl rfl
      · simp only [List.length_cons, List.length_append, bigEndian_length]
        omega
      · simp only [Value.itemType, Value.stored, Value.blob, List.length_cons, List.length_append, bigEndian_length]
        rw [show w.bytes + (bytes.length + 1) + 1 - 1 - bytes.length = w.bytes + 1 by omega, Nat.add_assoc]
      · simp only [Value.blob, List.length_cons, List.length_append]
        omega
    · exact length
    · dsimp only
      omega
    · exact top
  · dsimp only
    omega
  · exact top

theorem BehindFirst.array {items : List Value} {code : Byte} {tail : List Byte}
    (isHeader : ArrayHeader items.length (code :: tail)) (rest : Holds mem next.current tail)
    (space : next.current + tail.length ≤ next.end_) :
    Unpacked uc (.array items) (code :: tail) (cwUnpackItem pm mem code next) := by
  cases isHeader with
  | fix small =>
    rw [cwUnpackItem, formatOf_fix.2.1 _ small]
    refine behind.unpacked rfl ?_ Nat.one_pos rfl rfl rfl
    simp only [getDDItem, fix_size.2.1 _ small, Value.itemType, Value.stored]
  | @sized _ w isCode fits =>
    rw [bigEndian_length] at space
    refine behind.number top (fun u n => u.setSize (n.setWidth 32)) ?_ ⟨rfl, fun _ _ => ?_⟩ fits rest space
    · rw [cwUnpackItem, formatOf_sized.2.2.2.2.1 _ isCode]
      rfl
    · simp [Value.stored]

theorem BehindFirst.map {pairs : List (Value × Value)} {code : Byte} {tail : List Byte}
    (isHeader : MapHeader pairs.length (code :: tail)) (rest : Holds mem next.current tail)
    (space : next.current + tail.length ≤ next.end_) :
    Unpacked uc (.map pairs) (code :: tail) (cwUnpackItem pm mem code next) := by
  cases isHeader with
  | fix small =>
    rw [cwUnpackItem, formatOf_fix.1 _ small]
    refine behind.unpacked rfl ?_ Nat.one_pos rfl rfl rfl
    simp only [getDDItem, fix_size.1 _ small, Value.itemType, Value.stored]
  | @sized _ w isCode fits =>
    rw [bigEndian_length] at space
    refine behind.number top (fun u n => u.setSize (n.setWidth 32)) ?_ ⟨rfl, fun _ _ => ?_⟩ fits rest space
    · rw [cwUnpackItem, formatOf_sized.2.2.2.2.2 _ isCode]
      rfl
    · simp [Value.stored]

end Formats

/-- One call of `cw_unpack_next` unpacks exactly one head, for every format of
every kind of value, and stores what the value says. -/
theorem cwUnpackNext_head (pm : PtrModel) {mem : Mem} {uc : UnpackContext} {v : Value} {head : List Byte}
    (isHead : Head v head) (ok : uc.returnCode = .ok) (held : Holds mem uc.current head)
    (room : uc.current + head.length ≤ uc.end_) (top : uc.end_ < 2 ^ 32) :
    Unpacked uc v head (cwUnpackNext pm mem uc) := by
  have nonempty := List.length_pos_iff.mpr isHead.ne_nil
  obtain ⟨c, tail, rfl⟩ := List.exists_cons_of_ne_nil isHead.ne_nil
  obtain ⟨next, behind, call⟩ := cwUnpackNext_first pm mem ok (by omega) top
  obtain ⟨first, rest⟩ := holds_cons.mp held
  rw [← behind.current] at rest
  have space : next.current + tail.length ≤ next.end_ := by
    rw [behind.current, behind.end_]
    simp only [List.length_cons] at room
    omega
  rw [← behind.end_] at top
  rw [call, first]
  cases isHead with
  | flat scalar =>
    cases scalar with
    | nil => exact behind.unpacked rfl rfl Nat.one_pos rfl rfl rfl
    | bool b => exact behind.bool b
    | posFix small => exact behind.posFix small
    | negFix positive small => exact behind.negFix positive small
    | uint w fits => exact behind.uint top fits rest (by simpa using space)
    | sint w lower upper => exact behind.sint top lower upper rest (by simpa using space)
    | float bits => exact behind.float top bits rest (by simpa using space)
    | double bits => exact behind.double top bits rest (by simpa using space)
    | fixstr small => exact behind.fixstr top small space
    | str isCode fits =>
      obtain ⟨format, short⟩ := formatOf_sized.1 _ isCode
      exact behind.blob (v := .str _) top ⟨rfl, fun _ _ => rfl⟩ (by rw [cwUnpackItem, format]; rfl) fits short rest
        (by simpa [Value.blob] using space)
    | bin isCode fits =>
      obtain ⟨format, short⟩ := formatOf_sized.2.1 _ isCode
      exact behind.blob (v := .bin _) top ⟨rfl, fun _ _ => rfl⟩ (by rw [cwUnpackItem, format]; rfl) fits short rest
        (by simpa [Value.blob] using space)
    | fixext type isCode => exact behind.fixext top type isCode rest space
    | ext type isCode fits => exact behind.ext top type isCode fits rest (by simpa using space)
  | array isHeader => exact behind.array top isHeader rest space
  | map isHeader => exact behind.map top isHeader rest space

/-- The context stands before bytes that are all in its buffer. -/
structure Readable (mem : Mem) (uc : UnpackContext) (bytes : List Byte) : Prop where
  ok : uc.returnCode = .ok
  held : Holds mem uc.current bytes
  room : uc.current + bytes.length ≤ uc.end_
  top : uc.end_ < 2 ^ 32

section

variable {mem : Mem} {uc : UnpackContext} {first rest : List Byte} (readable : Readable mem uc (first ++ rest))
include readable

theorem Readable.unpacked (pm : PtrModel) {v : Value} (isHead : Head v first) :
    Unpacked uc v first (cwUnpackNext pm mem uc) := by
  have room := readable.room
  rw [List.length_append] at room
  exact cwUnpackNext_head pm isHead readable.ok (holds_append.mp readable.held).1 (by omega) readable.top

/-- A call leaves the context before the bytes that follow. -/
theorem Readable.next {v : Value} {after : UnpackContext} (read : Unpacked uc v first after) :
    Readable mem after rest := by
  have room := readable.room
  rw [List.length_append, ← Nat.add_assoc] at room
  refine ⟨read.returnCode.trans readable.ok, ?_, ?_, ?_⟩
  · rw [read.current]
    exact (holds_append.mp readable.held).2
  · rw [read.current, read.end_]
    exact room
  · rw [read.end_]
    exact readable.top

end

/-- A string that is unpacked is where the item says. -/
theorem Unpacked.str {mem : Mem} {uc after : UnpackContext} {text header : List Byte}
    (read : Unpacked uc (.str text) (header ++ text) after) (held : Holds mem uc.current (header ++ text))
    (top : uc.current + (header ++ text).length < 2 ^ 32) :
    after.item.as.length.toNat = text.length ∧ Holds mem after.item.as.start.toNat text := by
  obtain ⟨_, rfl⟩ := read
  rw [List.length_append] at top
  have length : (BitVec.ofNat 32 text.length).toNat = text.length := Nat.mod_eq_of_lt (by omega)
  have start : (BitVec.ofNat 32 (uc.current + header.length)).toNat = uc.current + header.length :=
    Nat.mod_eq_of_lt (by omega)
  simp only [Value.stored, Value.blob, List.length_append, Nat.add_sub_cancel, ItemUnion.setStart_start,
    ItemUnion.setStart_length, ItemUnion.setLength_length, length, start]
  exact ⟨trivial, (holds_append.mp held).2⟩

/-- A buffer of received bytes is readable from its start. -/
theorem readable_init (pm : PtrModel) {mem : Mem} (uc : UnpackContext) {base : Nat} {bytes : List Byte}
    (held : Holds mem base bytes) (top : base + bytes.length < 2 ^ 32) :
    Readable mem (cwUnpackContextInit pm uc base bytes.length) bytes := by
  have end_ : (cwUnpackContextInit pm uc base bytes.length).end_ = base + bytes.length := pm.add_of_lt top
  exact ⟨rfl, held, end_.ge, end_ ▸ top⟩

/-- Where no byte is left, the call says so and stays. -/
theorem cwUnpackNext_atEnd (pm : PtrModel) (mem : Mem) {uc : UnpackContext} (ok : uc.returnCode = .ok)
    (atEnd : uc.current = uc.end_) (top : uc.end_ + 1 < 2 ^ 32) :
    (cwUnpackNext pm mem uc).returnCode = .endOfInput ∧ (cwUnpackNext pm mem uc).current = uc.current := by
  have past : pm.add uc.current 1 > uc.end_ := by
    rw [atEnd, pm.add_of_lt top]
    exact Nat.lt_succ_self _
  rw [cwUnpackNext, if_neg (not_not_intro ok), cwUnpackAssertSpace, if_pos past]
  exact ⟨rfl, rfl⟩

end Maglev
