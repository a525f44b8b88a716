import Maglev.CWPack.Truncated
import Maglev.CWPack.UnpackSpec

namespace Maglev

open MessagePack

/-- Nothing but the cursor has changed. -/
def Skipped (uc : UnpackContext) (n : Nat) (after : UnpackContext) : Prop :=
  ∃ trail, after = { uc with current := uc.current + n, trail }

theorem Skipped.refl (uc : UnpackContext) : Skipped uc 0 uc := ⟨uc.trail, rfl⟩

theorem Skipped.trans {uc middle after : UnpackContext} {n m : Nat} (first : Skipped uc n middle)
    (next : Skipped middle m after) : Skipped uc (n + m) after := by
  obtain ⟨_, rfl⟩ := first
  obtain ⟨trail, rfl⟩ := next
  exact ⟨trail, by simp only [Nat.add_assoc]⟩

section

variable (pm : PtrModel) {uc : UnpackContext} (top : uc.end_ < 2 ^ 32)
include top

theorem cwSkipBytes_skipped {n : Nat} (room : uc.current + n ≤ uc.end_) : Skipped uc n (cwSkipBytes pm n uc) := by
  rw [cwSkipBytes, cwUnpackAssertSpace_ok room top]
  exact ⟨_, rfl⟩

theorem skipSized_skipped {mem : Mem} {w : Width} {n m : Nat} {rest : BitVec 64 → UnpackContext → UnpackContext}
    (held : Holds mem uc.current (bigEndian w.bytes n)) (fits : n < w.bound)
    (room : uc.current + (w.bytes + m) ≤ uc.end_)
    (later : ∀ next : UnpackContext, next.end_ = uc.end_ → next.current + m ≤ next.end_ →
      Skipped next m (rest (BitVec.ofNat 64 n) next)) :
    cwLoad pm mem uc.current w = BitVec.ofNat 64 n ∧ Skipped uc (w.bytes + m) (skipSized pm mem w uc rest) := by
  have loaded : cwLoad pm mem uc.current w = BitVec.ofNat 64 n := cwLoad_bigEndian held (by omega) fits
  refine ⟨loaded, ?_⟩
  rw [skipSized, cwUnpackAssertSpace_ok (by omega) top, loaded]
  refine Skipped.trans ⟨_, rfl⟩ (later _ rfl ?_)
  show uc.current + w.bytes + m ≤ uc.end_
  omega

/-- A length and as many bytes as it says. -/
theorem skipSized_blob {mem : Mem} {w : Width} {n m : Nat} (amount : BitVec 64 → Nat)
    (declared : amount (BitVec.ofNat 64 n) = m) (held : Holds mem uc.current (bigEndian w.bytes n))
    (fits : n < w.bound) (room : uc.current + (w.bytes + m) ≤ uc.end_) :
    Skipped uc (w.bytes + m) (skipSized pm mem w uc fun n => cwSkipBytes pm (amount n)) := by
  refine (skipSized_skipped pm top held fits room fun next end_ space => ?_).2
  rw [declared]
  exact cwSkipBytes_skipped pm (end_ ▸ top) space

/-- A number of items, which are left to the loop. -/
theorem skipSized_count {mem : Mem} {w : Width} {n : Nat} (held : Holds mem uc.current (bigEndian w.bytes n))
    (fits : n < w.bound) (room : uc.current + (bigEndian w.bytes n).length ≤ uc.end_) :
    (cwLoad pm mem uc.current w).setWidth 32 = BitVec.ofNat 32 n ∧
      Skipped uc (bigEndian w.bytes n).length (skipSized pm mem w uc fun _ uc => uc) := by
  rw [bigEndian_length] at room ⊢
  obtain ⟨loaded, skipped⟩ : cwLoad pm mem uc.current w = BitVec.ofNat 64 n ∧
      Skipped uc (w.bytes + 0) (skipSized pm mem w uc fun _ uc => uc) :=
    skipSized_skipped pm top held fits room fun next _ _ => .refl next
  refine ⟨?_, skipped⟩
  rw [loaded]
  apply BitVec.eq_of_toNat_eq
  simp

/-- A scalar is passed over whole. -/
theorem skipItem_scalar {mem : Mem} {v : Value} {c : Byte} {tail : List Byte} (scalar : Scalar v (c :: tail))
    (held : Holds mem uc.current tail) (room : uc.current + tail.length ≤ uc.end_) :
    Skipped uc tail.length (skipItem pm mem c uc).1 ∧ (skipItem pm mem c uc).2 = 0#32 := by
  have plain {n : Nat} (length : tail.length = n) : Skipped uc tail.length (cwSkipBytes pm n uc) := by
    rw [← length]
    exact cwSkipBytes_skipped pm top room
  have number {n : Nat} {w : Width} (fits : n < w.bound) (short : w.bound ≤ 2 ^ 32) :
      (BitVec.ofNat 64 n).toNat = n :=
    Nat.mod_eq_of_lt (by omega)
  cases scalar with
  | nil => exact ⟨.refl uc, rfl⟩
  | bool b => cases b <;> exact ⟨.refl uc, rfl⟩
  | posFix small =>
    rw [skipItem, formatOf_fixnum.1 _ small]
    exact ⟨.refl uc, rfl⟩
  | negFix positive small =>
    rw [skipItem, formatOf_fixnum.2 _ small positive]
    exact ⟨.refl uc, rfl⟩
  | uint w fits =>
    rw [skipItem, (formatOf_int w).1]
    exact ⟨plain (bigEndian_length _ _), rfl⟩
  | sint w lower upper =>
    rw [skipItem, (formatOf_int w).2]
    exact ⟨plain (bigEndian_length _ _), rfl⟩
  | float bits => exact ⟨plain (bigEndian_length _ _), rfl⟩
  | double bits => exact ⟨plain (bigEndian_length _ _), rfl⟩
  | fixstr small =>
    rw [skipItem, formatOf_fix.2.2 _ small]
    dsimp only
    rw [fix_size.2.2 _ small]
    exact ⟨plain (Nat.mod_eq_of_lt (by omega)).symm, rfl⟩
  | @str bytes code w isCode fits =>
    obtain ⟨format, short⟩ := formatOf_sized.1 _ isCode
    rw [List.length_append, bigEndian_length] at room ⊢
    rw [skipItem, format]
    exact ⟨skipSized_blob pm top (·.toNat) (number fits short) (holds_append.mp held).1 fits room, rfl⟩
  | @bin bytes code w isCode fits =>
    obtain ⟨format, short⟩ := formatOf_sized.2.1 _ isCode
    rw [List.length_append, bigEndian_length] at room ⊢
    rw [skipItem, format]
    exact ⟨skipSized_blob pm top (·.toNat) (number fits short) (holds_append.mp held).1 fits room, rfl⟩
  | fixext type isCode =>
    rw [skipItem, (formatOf_sized.2.2.2.1 _ isCode).1]
    exact ⟨plain rfl, rfl⟩
  | @ext bytes code w type isCode fits =>
    obtain ⟨format, short⟩ := formatOf_sized.2.2.1 _ isCode
    rw [List.length_append, bigEndian_length, List.length_cons] at room ⊢
    have declared : ((BitVec.ofNat 64 bytes.length).toNat + 1) % 2 ^ 32 = bytes.length + 1 := by
      rw [number fits short]
      exact Nat.mod_eq_of_lt (by omega)
    rw [skipItem, format]
    exact ⟨skipSized_blob pm top (fun n => (n.toNat + 1) % 2 ^ 32) declared (holds_append.mp held).1 fits room, rfl⟩

/-- The switch passes over the head of any value, and counts what is nested in it. -/
theorem skipItem_head {mem : Mem} {v : Value} {c : Byte} {tail : List Byte} (isHead : Head v (c :: tail))
    (held : Holds mem uc.current tail) (room : uc.current + tail.length ≤ uc.end_) :
    Skipped uc tail.length (skipItem pm mem c uc).1 ∧ (skipItem pm mem c uc).2 = BitVec.ofNat 32 v.children := by
  cases isHead with
  | flat scalar =>
    rw [Value.Flat.children scalar.flat]
    exact skipItem_scalar pm top scalar held room
  | @array items header isHeader =>
    cases isHeader with
    | fix small =>
      rw [skipItem, formatOf_fix.2.1 _ small]
      exact ⟨.refl uc, fix_size.2.1 _ small⟩
    | @sized _ w isCode fits =>
      obtain ⟨count, skipped⟩ := skipSized_count pm top held fits room
      rw [skipItem, formatOf_sized.2.2.2.2.1 _ isCode]
      refine ⟨skipped, ?_⟩
      dsimp only
      rw [count, Value.children]
  | @map pairs header isHeader =>
    cases isHeader with
    | fix small =>
      rw [skipItem, formatOf_fix.1 _ small]
      refine ⟨.refl uc, ?_⟩
      dsimp only
      rw [fix_size.1 _ small, Value.children, BitVec.ofNat_mul]
    | @sized _ w isCode fits =>
      obtain ⟨count, skipped⟩ := skipSized_count pm top held fits room
      rw [skipItem, formatOf_sized.2.2.2.2.2 _ isCode]
      refine ⟨skipped, ?_⟩
      dsimp only
      rw [count, Value.children, BitVec.ofNat_mul]

end

theorem Readable.skip {mem : Mem} {uc after : UnpackContext} {first rest : List Byte}
    (readable : Readable mem uc (first ++ rest)) (skipped : Skipped uc first.length after) :
    Readable mem after rest := by
  obtain ⟨trail, rfl⟩ := skipped
  have room := readable.room
  rw [List.length_append, ← Nat.add_assoc] at room
  exact ⟨readable.ok, (holds_append.mp readable.held).2, room, readable.top⟩

/-- One iteration: the values before the reader are the ones nested in the first, and the others. -/
theorem skipLoop_opened (pm : PtrModel) {mem : Mem} {uc : UnpackContext} {v : Value} {n : Nat} {head rest : List Byte}
    (readable : Readable mem uc (head ++ rest)) (isHead : Head v head) (small : n + 1 < 2 ^ 31) (fuel : Nat) :
    ∃ after, Skipped uc head.length after ∧
      skipLoop pm mem (fuel + 1) (BitVec.ofNat 32 (n + 1)) uc =
        skipLoop pm mem fuel (BitVec.ofNat 32 (v.children + n)) after := by
  obtain ⟨c, tail, rfl⟩ := List.exists_cons_of_ne_nil isHead.ne_nil
  obtain ⟨here, behind⟩ := holds_cons.mp (holds_append.mp readable.held).1
  have room := readable.room
  rw [List.length_append, List.length_cons] at room
  have positive : (BitVec.ofNat 32 (n + 1)).toInt > 0 := by
    have number : (BitVec.ofNat 32 (n + 1)).toNat = n + 1 := Nat.mod_eq_of_lt (by omega)
    rw [BitVec.toInt_eq_toNat_of_lt (by omega), number]
    omega
  have first : (cwUnpackAssertSpace pm .endOfInput 1 uc fun _ uc => uc) = uc.advance 1 :=
    cwUnpackAssertSpace_ok (by omega) readable.top
  obtain ⟨skipped, counted⟩ := @skipItem_head pm (uc.advance 1) readable.top mem v c tail isHead behind
    (show uc.current + 1 + tail.length ≤ uc.end_ by omega)
  have sum : BitVec.ofNat 32 (n + 1) - 1#32 + BitVec.ofNat 32 v.children = BitVec.ofNat 32 (v.children + n) := by
    apply BitVec.eq_of_toNat_eq
    simp only [BitVec.toNat_add, BitVec.toNat_sub, BitVec.toNat_ofNat]
    omega
  have ok : (uc.advance 1).returnCode = .ok := readable.ok
  have ok' : (skipItem pm mem c (uc.advance 1)).1.returnCode = .ok := by
    obtain ⟨trail, moved⟩ := skipped
    rw [moved]
    exact ok
  refine ⟨(skipItem pm mem c (uc.advance 1)).1, ?_, ?_⟩
  · have all := Skipped.trans (show Skipped uc 1 (uc.advance 1) from ⟨_, rfl⟩) skipped
    rwa [Nat.add_comm 1] at all
  · rw [skipLoop, if_pos positive, first, here]
    simp only [ok, ok', counted, sum, ne_eq, not_true_eq_false, if_false]

/-- The values that are still to be skipped, whatever their depth, are those that the
remaining bytes encode. -/
theorem skipLoop_skips (pm : PtrModel) {mem : Mem} {fuel : Nat} {uc : UnpackContext} {vs : List Value}
    {bytes rest : List Byte} (readable : Readable mem uc (bytes ++ rest)) (encoded : EncodesAll vs bytes)
    (small : bytes.length < 2 ^ 31) (enough : bytes.length < fuel) :
    ∃ after, skipLoop pm mem fuel (BitVec.ofNat 32 vs.length) uc = some after ∧ Skipped uc bytes.length after := by
  induction fuel generalizing uc vs bytes with
  | zero => omega
  | succ fuel ih =>
    cases vs with
    | nil =>
      cases encoded
      exact ⟨uc, rfl, uc.trail, rfl⟩
    | cons v vs =>
      have count := encoded.length_le
      obtain ⟨head, more, rfl, isHead, inside⟩ := encoded.opened
      have nonempty := List.length_pos_iff.mpr isHead.ne_nil
      rw [List.length_cons] at count
      rw [List.length_append] at small enough count ⊢
      rw [List.append_assoc] at readable
      obtain ⟨next, skipped, again⟩ := @skipLoop_opened pm mem uc v vs.length head (more ++ rest) readable isHead
        (by omega) fuel
      obtain ⟨after, ran, later⟩ := ih (readable.skip skipped) inside (by omega) (by omega)
      rw [List.length_append, Value.inner_length] at ran
      exact ⟨after, again.trans ran, skipped.trans later⟩

/-- `cw_skip_items` passes over exactly the encodings of as many values as it is asked for,
with everything that is nested in them, and leaves the item as it is. -/
theorem cwSkipItems_skips (pm : PtrModel) {mem : Mem} {fuel : Nat} {uc : UnpackContext} {vs : List Value}
    {bytes rest : List Byte} (readable : Readable mem uc (bytes ++ rest)) (encoded : EncodesAll vs bytes)
    (small : bytes.length < 2 ^ 31) (enough : bytes.length < fuel) :
    ∃ after, cwSkipItems pm mem fuel uc (BitVec.ofNat 32 vs.length) = some after ∧ after.item = uc.item ∧
      after.current = uc.current + bytes.length ∧ Readable mem after rest := by
  obtain ⟨after, ran, skipped⟩ := skipLoop_skips pm readable encoded small enough
  have later := readable.skip skipped
  obtain ⟨trail, moved⟩ := skipped
  refine ⟨after, ?_, by rw [moved], by rw [moved], later⟩
  rw [cwSkipItems, if_neg (not_not_intro readable.ok), ran]

/-- An array of an array and a string. -/
def nestedBytes : List Byte := [0x92#8, 0x91#8, 0x05#8, 0xa1#8, 0x61#8]

theorem cwSkipItems_skips_nested :
    ∃ after, cwSkipItems .wrap32 (Mem.store (fun _ => 0#8) 0 (nestedBytes ++ [0xc3#8])) 6
        (cwUnpackContextInit .wrap32 default 0 6) 1#32 = some after ∧
      after.current = 5 := by
  have encoded : EncodesAll [.array [.array [.int 5], .str [0x61#8]]] nestedBytes := by
    have five : Encodes (.int (5 : Nat)) [BitVec.ofNat 8 5] := .scalar (.posFix (by decide))
    have text : Encodes (.str [0x61#8]) (BitVec.ofNat 8 (0xa0 + [0x61#8].length) :: [0x61#8]) :=
      .scalar (.fixstr (by decide))
    have inner : Encodes (.array [.int 5]) [0x91#8, 0x05#8] := .array (.fix (by decide)) (.cons five .nil)
    exact .cons (.array (.fix (by decide)) (.cons inner (.cons text .nil))) .nil
  have readable := readable_init .wrap32 default
    (Mem.store_holds (fun _ => 0#8) 0 (nestedBytes ++ [0xc3#8])) (by decide)
  obtain ⟨after, ran, -, current, -⟩ :=
    @cwSkipItems_skips .wrap32 _ 6 _ _ _ _ readable encoded (by decide) (by decide)
  exact ⟨after, ran, current⟩

end Maglev
