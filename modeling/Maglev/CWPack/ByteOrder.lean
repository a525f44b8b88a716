import Maglev.Lib.MessagePack
import Mathlib.Tactic.IntervalCases

namespace Maglev

open MessagePack

/-- The words a little-endian processor loads from consecutive cells. -/
def loadWord16 (pm : PtrModel) (mem : Mem) (p : Nat) : BitVec 16 :=
  mem (pm.add p 1) ++ mem p

def loadWord32 (pm : PtrModel) (mem : Mem) (p : Nat) : BitVec 32 :=
  mem (pm.add p 3) ++ mem (pm.add p 2) ++ mem (pm.add p 1) ++ mem p

def loadWord64 (pm : PtrModel) (mem : Mem) (p : Nat) : BitVec 64 :=
  mem (pm.add p 7) ++ mem (pm.add p 6) ++ mem (pm.add p 5) ++ mem (pm.add p 4) ++
    mem (pm.add p 3) ++ mem (pm.add p 2) ++ mem (pm.add p 1) ++ mem p

/-- `cw_load16`, `cw_load32` and `cw_load64` as `COMPILE_FOR_LITTLE_ENDIAN` has them. -/
def cwLoad16 (pm : PtrModel) (mem : Mem) (p : Nat) : BitVec 16 :=
  let tmpu16 := loadWord16 pm mem p
  (tmpu16 <<< 8) ||| (tmpu16 >>> 8)

def cwLoad32 (pm : PtrModel) (mem : Mem) (p : Nat) : BitVec 32 :=
  let tmpu32 := loadWord32 pm mem p
  (tmpu32 <<< 24) ||| ((tmpu32 &&& 0xff00#32) <<< 8) ||| ((tmpu32 &&& 0xff0000#32) >>> 8) ||| (tmpu32 >>> 24)

def cwLoad64 (pm : PtrModel) (mem : Mem) (p : Nat) : BitVec 64 :=
  let tmpu64 := loadWord64 pm mem p
  (((tmpu64 >>> 40) ||| (tmpu64 <<< 24)) &&& 0x0000ff000000ff00#64) |||
    (((tmpu64 >>> 24) ||| (tmpu64 <<< 40)) &&& 0x00ff000000ff0000#64) |||
    ((tmpu64 &&& 0x000000ff00000000#64) >>> 8) |||
    ((tmpu64 &&& 0x00000000ff000000#64) <<< 8) |||
    (tmpu64 >>> 56) |||
    (tmpu64 <<< 56)

/-- The number the `getDDItem` macro of each width reads, before its cast. -/
def cwLoad (pm : PtrModel) (mem : Mem) (p : Nat) : Width → BitVec 64
  | .w8 => (mem p).setWidth 64
  | .w16 => (cwLoad16 pm mem p).setWidth 64
  | .w32 => (cwLoad32 pm mem p).setWidth 64
  | .w64 => cwLoad64 pm mem p

theorem swap16 (b0 b1 : Byte) :
    ((b1 ++ b0 : BitVec 16) <<< 8) ||| ((b1 ++ b0 : BitVec 16) >>> 8) = b0 ++ b1 := by
  apply BitVec.eq_of_getLsbD_eq
  intro i bound
  interval_cases i <;>
    simp only [BitVec.getLsbD_or, BitVec.getLsbD_shiftLeft, BitVec.getLsbD_ushiftRight,
      BitVec.getLsbD_append] <;> simp

theorem swap32 (b0 b1 b2 b3 : Byte) (word : BitVec 32) (loaded : word = b3 ++ b2 ++ b1 ++ b0) :
    (word <<< 24) ||| ((word &&& 0xff00#32) <<< 8) ||| ((word &&& 0xff0000#32) >>> 8) ||| (word >>> 24) =
      b0 ++ b1 ++ b2 ++ b3 := by
  subst loaded
  apply BitVec.eq_of_getLsbD_eq
  intro i bound
  interval_cases i <;>
    simp only [BitVec.getLsbD_or, BitVec.getLsbD_and, BitVec.getLsbD_shiftLeft,
      BitVec.getLsbD_ushiftRight, BitVec.getLsbD_append] <;> simp

theorem join64_getLsbD (b0 b1 b2 b3 b4 b5 b6 b7 : Byte) (i : Nat) :
    (b7 ++ b6 ++ b5 ++ b4 ++ b3 ++ b2 ++ b1 ++ b0).getLsbD i =
      if i < 8 then b0.getLsbD i else if i < 16 then b1.getLsbD (i - 8) else
      if i < 24 then b2.getLsbD (i - 16) else if i < 32 then b3.getLsbD (i - 24) else
      if i < 40 then b4.getLsbD (i - 32) else if i < 48 then b5.getLsbD (i - 40) else
      if i < 56 then b6.getLsbD (i - 48) else if i < 64 then b7.getLsbD (i - 56) else false := by
  have beyond (above : 64 ≤ i) : b7.getLsbD (i - 56) = false := BitVec.getLsbD_of_ge _ _ (by omega)
  simp only [BitVec.getLsbD_append, Nat.sub_sub]
  grind

theorem swap64 (b0 b1 b2 b3 b4 b5 b6 b7 : Byte) (word : BitVec 64)
    (loaded : word = b7 ++ b6 ++ b5 ++ b4 ++ b3 ++ b2 ++ b1 ++ b0) :
    (((word >>> 40) ||| (word <<< 24)) &&& 0x0000ff000000ff00#64) |||
      (((word >>> 24) ||| (word <<< 40)) &&& 0x00ff000000ff0000#64) |||
      ((word &&& 0x000000ff00000000#64) >>> 8) |||
      ((word &&& 0x00000000ff000000#64) <<< 8) |||
      (word >>> 56) ||| (word <<< 56) = b0 ++ b1 ++ b2 ++ b3 ++ b4 ++ b5 ++ b6 ++ b7 := by
  apply BitVec.eq_of_getLsbD_eq
  intro i bound
  -- Each bit of the result is one bit of the word, the masks cancel the others.
  interval_cases i <;>
    simp only [BitVec.getLsbD_or, BitVec.getLsbD_and, BitVec.getLsbD_shiftLeft,
      BitVec.getLsbD_ushiftRight, BitVec.reduceGetLsb, Nat.reduceLT, Nat.reduceAdd, Nat.reduceSub,
      decide_true, decide_false, Bool.and_true, Bool.and_false, Bool.true_and, Bool.false_and,
      Bool.or_false, Bool.false_or, Bool.not_true, Bool.not_false, loaded, join64_getLsbD, reduceIte]

/-- Adjacent digits of a number in base two to the `b` are joined by appending. -/
theorem ofNat_append (a b n : Nat) :
    BitVec.ofNat a (n / 2 ^ b) ++ BitVec.ofNat b n = BitVec.ofNat (a + b) n := by
  apply BitVec.eq_of_getLsbD_eq
  intro i bound
  simp only [BitVec.getLsbD_append, BitVec.getLsbD_ofNat, Nat.testBit_div_two_pow]
  by_cases low : i < b
  · simp [low, bound]
  · simp [low, bound, show i - b < a by omega, show i - b + b = i by omega]

theorem cwLoad16_eq (pm : PtrModel) (mem : Mem) {p : Nat} (room : p + 2 ≤ 2 ^ 32) :
    cwLoad16 pm mem p = mem p ++ mem (p + 1) := by
  have second : pm.add p 1 = p + 1 := pm.add_of_lt (by omega)
  rw [← swap16]
  simp only [cwLoad16, loadWord16, second]

theorem cwLoad32_eq (pm : PtrModel) (mem : Mem) {p : Nat} (room : p + 4 ≤ 2 ^ 32) :
    cwLoad32 pm mem p = mem p ++ mem (p + 1) ++ mem (p + 2) ++ mem (p + 3) := by
  have cell (i : Nat) (inside : i < 4) : pm.add p i = p + i := pm.add_of_lt (by omega)
  rw [← swap32 _ _ _ _ _ rfl]
  simp only [cwLoad32, loadWord32, cell 1 (by decide), cell 2 (by decide), cell 3 (by decide)]

theorem cwLoad64_eq (pm : PtrModel) (mem : Mem) {p : Nat} (room : p + 8 ≤ 2 ^ 32) :
    cwLoad64 pm mem p = mem p ++ mem (p + 1) ++ mem (p + 2) ++ mem (p + 3) ++
      mem (p + 4) ++ mem (p + 5) ++ mem (p + 6) ++ mem (p + 7) := by
  have cell (i : Nat) (inside : i < 8) : pm.add p i = p + i := pm.add_of_lt (by omega)
  rw [← swap64 _ _ _ _ _ _ _ _ _ rfl]
  simp only [cwLoad64, loadWord64, cell 1 (by decide), cell 2 (by decide), cell 3 (by decide),
    cell 4 (by decide), cell 5 (by decide), cell 6 (by decide), cell 7 (by decide)]

theorem ofNat_setWidth {bits n : Nat} (small : n < 2 ^ bits) :
    (BitVec.ofNat bits n).setWidth 64 = BitVec.ofNat 64 n := by
  apply BitVec.eq_of_toNat_eq
  simp [Nat.mod_eq_of_lt small]

/-- The loads read big-endian numbers, whatever the byte order of the processor. -/
theorem cwLoad_bigEndian {pm : PtrModel} {mem : Mem} {p n : Nat} {w : Width}
    (held : Holds mem p (bigEndian w.bytes n)) (room : p + w.bytes ≤ 2 ^ 32) (fits : n < w.bound) :
    cwLoad pm mem p w = BitVec.ofNat 64 n := by
  cases w with
  | w8 =>
    have first : mem p = BitVec.ofNat 8 (n / 256 ^ 0) := (holds_cons.mp held).1
    simp only [cwLoad, first, Nat.pow_zero, Nat.div_one]
    exact ofNat_setWidth fits
  | w16 =>
    simp only [Width.bytes, bigEndian, holds_cons, Nat.add_assoc, Nat.reduceAdd] at held
    obtain ⟨h0, h1, _⟩ := held
    rw [cwLoad, cwLoad16_eq pm mem room, h0, h1]
    have joined := ofNat_append 8 8 n
    simp only [Nat.reduceAdd, Nat.reducePow, Nat.div_one] at joined ⊢
    rw [joined]
    exact ofNat_setWidth fits
  | w32 =>
    simp only [Width.bytes, bigEndian, holds_cons, Nat.add_assoc, Nat.reduceAdd] at held
    obtain ⟨h0, h1, h2, h3, _⟩ := held
    rw [cwLoad, cwLoad32_eq pm mem room, h0, h1, h2, h3]
    have joined1 := ofNat_append 8 8 (n / 2 ^ 16)
    have joined2 := ofNat_append 16 8 (n / 2 ^ 8)
    have joined3 := ofNat_append 24 8 n
    simp only [Nat.reduceAdd, Nat.reducePow, Nat.div_one, Nat.div_div_eq_div_mul, Nat.reduceMul]
      at joined1 joined2 joined3 ⊢
    rw [joined1, joined2, joined3]
    exact ofNat_setWidth fits
  | w64 =>
    simp only [Width.bytes, bigEndian, holds_cons, Nat.add_assoc, Nat.reduceAdd] at held
    obtain ⟨h0, h1, h2, h3, h4, h5, h6, h7, _⟩ := held
    rw [cwLoad, cwLoad64_eq pm mem room, h0, h1, h2, h3, h4, h5, h6, h7]
    have joined1 := ofNat_append 8 8 (n / 2 ^ 48)
    have joined2 := ofNat_append 16 8 (n / 2 ^ 40)
    have joined3 := ofNat_append 24 8 (n / 2 ^ 32)
    have joined4 := ofNat_append 32 8 (n / 2 ^ 24)
    have joined5 := ofNat_append 40 8 (n / 2 ^ 16)
    have joined6 := ofNat_append 48 8 (n / 2 ^ 8)
    have joined7 := ofNat_append 56 8 n
    simp only [Nat.reduceAdd, Nat.reducePow, Nat.div_one, Nat.div_div_eq_div_mul, Nat.reduceMul]
      at joined1 joined2 joined3 joined4 joined5 joined6 joined7 ⊢
    rw [joined1, joined2, joined3, joined4, joined5, joined6, joined7]

end Maglev
