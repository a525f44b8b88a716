import Maglev.Lib.Memory

namespace Maglev

/-- The bytes before the terminator of a C string. -/
structure CString where
  bytes : List Byte
  noNul : ∀ b ∈ bytes, b ≠ 0#8
  deriving DecidableEq

/-- The characters a pointer to the string sees, the terminator included. What
stands behind the terminator is never looked at and is read as further zeros. -/
def CString.char (s : CString) (i : Nat) : Byte := s.bytes.getD i 0#8

/-- `strncmp` over the two character sequences that its pointers see. -/
def strncmp (s t : Nat → Byte) : Nat → Int
  | 0 => 0
  | n + 1 =>
    if s 0 ≠ t 0 then (s 0).toNat - (t 0).toNat
    else if s 0 = 0#8 then 0
    else strncmp (fun i => s (i + 1)) (fun i => t (i + 1)) n

theorem strncmp_succ_eq_zero {s t : Nat → Byte} {n : Nat} :
    strncmp s t (n + 1) = 0 ↔
      s 0 = t 0 ∧ (s 0 = 0#8 ∨ strncmp (fun i => s (i + 1)) (fun i => t (i + 1)) n = 0) := by
  rw [strncmp]
  by_cases same : s 0 = t 0
  · by_cases stop : s 0 = 0#8
    · simp only [same, ne_eq, not_true_eq_false, if_false, ← same.symm.trans stop, if_true, true_or, and_self]
    · simp only [same, ne_eq, not_true_eq_false, if_false, same ▸ stop, true_and, false_or]
  · have different : ((s 0).toNat : Int) - (t 0).toNat ≠ 0 := by
      intro zero
      exact same (BitVec.eq_of_toNat_eq (by omega))
    simp [same, different]

/-- No character from the bound on is looked at. -/
theorem strncmp_congr {s s' t : Nat → Byte} {n : Nat} (same : ∀ i < n, s' i = s i) :
    strncmp s' t n = strncmp s t n := by
  induction n generalizing s s' t with
  | zero => rfl
  | succ n ih =>
    have first := same 0 (Nat.succ_pos n)
    have rest := @ih (fun i => s (i + 1)) (fun i => s' (i + 1)) (fun i => t (i + 1)) fun i below =>
      same (i + 1) (Nat.succ_lt_succ below)
    simp only [strncmp, first, rest]

theorem CString.ext_bytes {s t : CString} (same : s.bytes = t.bytes) : s = t := by
  cases s
  cases t
  simpa using same

def CString.tail (s : CString) : CString where
  bytes := s.bytes.tail
  noNul := fun b member => s.noNul b (List.mem_of_mem_tail member)

@[simp] theorem CString.tail_char (s : CString) (i : Nat) : s.tail.char i = s.char (i + 1) := by
  cases s with
  | mk bytes noNul => cases bytes <;> simp [CString.tail, CString.char]

theorem CString.char_zero {s : CString} (nonempty : s.bytes ≠ []) : s.char 0 ≠ 0#8 := by
  cases s with
  | mk bytes noNul =>
    cases bytes with
    | nil => exact absurd rfl nonempty
    | cons b rest => simpa [CString.char] using noNul b (List.mem_cons_self ..)

theorem CString.char_zero_iff {s : CString} : s.char 0 = 0#8 ↔ s.bytes = [] := by
  constructor
  · intro stop
    by_contra nonempty
    exact s.char_zero nonempty stop
  · intro empty
    simp [CString.char, empty]

/-- A comparison whose bound covers the second string and its terminator is
equality of the strings: neither prefixes nor extensions pass. -/
theorem strncmp_eq_zero_iff_eq {s t : CString} {n : Nat} (covered : t.bytes.length < n) :
    strncmp s.char t.char n = 0 ↔ s = t := by
  induction n generalizing s t with
  | zero => omega
  | succ n ih =>
    rw [strncmp_succ_eq_zero]
    obtain ⟨sBytes, sNoNul⟩ := s
    obtain ⟨tBytes, tNoNul⟩ := t
    cases tBytes with
    | nil =>
      constructor
      · rintro ⟨same, _⟩
        exact CString.ext_bytes (CString.char_zero_iff.mp same)
      · intro same
        cases same
        simp [CString.char]
    | cons b rest =>
      have bNonzero : b ≠ 0#8 := tNoNul b (List.mem_cons_self ..)
      have next := @ih (CString.tail ⟨sBytes, sNoNul⟩) (CString.tail ⟨b :: rest, tNoNul⟩)
        (by simpa [CString.tail] using covered)
      simp only [funext (CString.tail_char _)] at next
      rw [next]
      cases sBytes with
      | nil => simp [CString.char, bNonzero.symm]
      | cons a more =>
        have aNonzero : a ≠ 0#8 := sNoNul a (List.mem_cons_self ..)
        simp [CString.char, CString.tail, aNonzero]

/-- A comparison bounded by the length of the first argument, a byte sequence
without a terminator of its own: besides the string itself it accepts every
prefix of it, and every extension that goes on with a zero byte. -/
theorem strncmp_length_eq_zero_iff {key : List Byte} {s : Nat → Byte} {t : CString}
    (seen : ∀ i, ∀ b ∈ key[i]?, s i = b) :
    strncmp s t.char key.length = 0 ↔ key <+: t.bytes ∨ t.bytes ++ [0#8] <+: key := by
  induction key generalizing s t with
  | nil => simp [strncmp]
  | cons a key ih =>
    have first : s 0 = a := seen 0 a rfl
    have next := @ih (fun i => s (i + 1)) t.tail fun i b member => seen (i + 1) b (by simpa using member)
    simp only [funext (CString.tail_char _)] at next
    rw [List.length_cons, strncmp_succ_eq_zero, next, first]
    obtain ⟨tBytes, tNoNul⟩ := t
    cases tBytes with
    | nil =>
      simp only [CString.char, List.getD_nil, List.nil_append, List.prefix_nil, reduceCtorEq, false_or,
        List.cons_prefix_cons, List.nil_prefix, and_true]
      exact ⟨fun stop => stop.1.symm, fun stop => ⟨stop.symm, Or.inl stop.symm⟩⟩
    | cons b rest =>
      have bNonzero : b ≠ 0#8 := tNoNul b (List.mem_cons_self ..)
      simp only [CString.char, CString.tail, List.getD_cons_zero, List.tail_cons, List.cons_append,
        List.cons_prefix_cons]
      constructor
      · rintro ⟨rfl, stop | shorter | longer⟩
        · exact absurd stop bNonzero
        · exact Or.inl ⟨rfl, shorter⟩
        · exact Or.inr ⟨rfl, longer⟩
      · rintro (⟨rfl, shorter⟩ | ⟨rfl, longer⟩)
        · exact ⟨rfl, Or.inr (Or.inl shorter)⟩
        · exact ⟨rfl, Or.inr (Or.inr longer)⟩

/-- The bytes of a string literal of the source, without the terminator. -/
def literal (text : String) : List Byte := text.toList.map fun c => BitVec.ofNat 8 c.toNat

end Maglev
