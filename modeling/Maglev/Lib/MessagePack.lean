import Maglev.Lib.Memory

namespace Maglev

/-- The `w` low bytes of a number, most significant first. -/
def bigEndian : Nat → Nat → List Byte
  | 0, _ => []
  | w + 1, n => BitVec.ofNat 8 (n / 256 ^ w) :: bigEndian w n

@[simp] theorem bigEndian_length (w n : Nat) : (bigEndian w n).length = w := by
  induction w with
  | zero => rfl
  | succ w ih => simp [bigEndian, ih]

theorem bigEndian_one (n : Nat) : bigEndian 1 n = [BitVec.ofNat 8 n] := by
  simp [bigEndian]

/-- Only the low bytes of a number are written. -/
theorem bigEndian_congr {w n m : Nat} (same : n % 256 ^ w = m % 256 ^ w) : bigEndian w n = bigEndian w m := by
  induction w with
  | zero => rfl
  | succ w ih =>
    have byte (k : Nat) : k / 256 ^ w % 2 ^ 8 = k % 256 ^ (w + 1) / 256 ^ w := by
      rw [Nat.pow_succ 256 w, Nat.mod_mul_right_div_self]
      rfl
    have low (k : Nat) : k % 256 ^ (w + 1) % 256 ^ w = k % 256 ^ w :=
      Nat.mod_mod_of_dvd k (Nat.pow_dvd_pow 256 (Nat.le_succ w))
    rw [bigEndian, bigEndian, ih (by rw [← low n, ← low m, same])]
    congr 1
    apply BitVec.eq_of_toNat_eq
    rw [BitVec.toNat_ofNat, BitVec.toNat_ofNat, byte, byte, same]

/-- Every string of bytes is a big-endian number. -/
theorem exists_bigEndian (bytes : List Byte) : ∃ n < 256 ^ bytes.length, bigEndian bytes.length n = bytes := by
  induction bytes with
  | nil => exact ⟨0, by simp, rfl⟩
  | cons b rest ih =>
    obtain ⟨n, bound, same⟩ := ih
    have first := b.isLt
    have quotient : (b.toNat * 256 ^ rest.length + n) / 256 ^ rest.length = b.toNat := by
      rw [Nat.mul_comm, Nat.mul_add_div (Nat.pow_pos (by decide)), Nat.div_eq_of_lt bound, Nat.add_zero]
    refine ⟨b.toNat * 256 ^ rest.length + n, ?_, ?_⟩
    · rw [List.length_cons, Nat.pow_succ]
      have : (b.toNat + 1) * 256 ^ rest.length ≤ 2 ^ 8 * 256 ^ rest.length := Nat.mul_le_mul_right _ first
      have : (b.toNat + 1) * 256 ^ rest.length = b.toNat * 256 ^ rest.length + 256 ^ rest.length := Nat.succ_mul ..
      omega
    · have low : bigEndian rest.length (b.toNat * 256 ^ rest.length + n) = bigEndian rest.length n := by
        apply bigEndian_congr
        rw [Nat.mul_comm, Nat.mul_add_mod]
      rw [List.length_cons, bigEndian, quotient, low, same, BitVec.ofNat_toNat, BitVec.setWidth_eq]

namespace MessagePack

/-- Widths of the big-endian numbers of the format. -/
inductive Width
  | w8
  | w16
  | w32
  | w64
  deriving DecidableEq, Repr

def Width.bytes : Width → Nat
  | .w8 => 1
  | .w16 => 2
  | .w32 => 4
  | .w64 => 8

/-- Numbers below this bound fit the width. -/
def Width.bound (w : Width) : Nat := 256 ^ w.bytes

inductive Value
  | nil
  | bool (b : Bool)
  | int (n : Int)
  | float (bits : BitVec 32)
  | double (bits : BitVec 64)
  | str (bytes : List Byte)
  | bin (bytes : List Byte)
  | ext (type : Byte) (bytes : List Byte)
  | array (items : List Value)
  | map (pairs : List (Value × Value))

/-- Values with nothing nested in them. -/
def Value.Flat : Value → Prop
  | .array _ => False
  | .map _ => False
  | _ => True

def uintCode : Width → Byte
  | .w8 => 0xcc
  | .w16 => 0xcd
  | .w32 => 0xce
  | .w64 => 0xcf

def sintCode : Width → Byte
  | .w8 => 0xd0
  | .w16 => 0xd1
  | .w32 => 0xd2
  | .w64 => 0xd3

def strCodes : List (Byte × Width) := [(0xd9, .w8), (0xda, .w16), (0xdb, .w32)]

def binCodes : List (Byte × Width) := [(0xc4, .w8), (0xc5, .w16), (0xc6, .w32)]

def extCodes : List (Byte × Width) := [(0xc7, .w8), (0xc8, .w16), (0xc9, .w32)]

def fixextCodes : List (Byte × Nat) := [(0xd4, 1), (0xd5, 2), (0xd6, 4), (0xd7, 8), (0xd8, 16)]

def arrayCodes : List (Byte × Width) := [(0xdc, .w16), (0xdd, .w32)]

def mapCodes : List (Byte × Width) := [(0xde, .w16), (0xdf, .w32)]

/-- The headers an array of a given size may have. -/
inductive ArrayHeader (size : Nat) : List Byte → Prop
  | fix : size < 16 → ArrayHeader size [BitVec.ofNat 8 (0x90 + size)]
  | sized {code w} : (code, w) ∈ arrayCodes → size < w.bound →
      ArrayHeader size (code :: bigEndian w.bytes size)

/-- The headers a map of a given number of pairs may have. -/
inductive MapHeader (size : Nat) : List Byte → Prop
  | fix : size < 16 → MapHeader size [BitVec.ofNat 8 (0x80 + size)]
  | sized {code w} : (code, w) ∈ mapCodes → size < w.bound →
      MapHeader size (code :: bigEndian w.bytes size)

/-- All byte sequences that encode a flat value. A writer may choose any header
that is wide enough, so this is a relation and not a function. -/
inductive Scalar : Value → List Byte → Prop
  | nil : Scalar .nil [0xc0]
  | bool (b : Bool) : Scalar (.bool b) [if b then 0xc3 else 0xc2]
  | posFix {n : Nat} : n < 128 → Scalar (.int n) [BitVec.ofNat 8 n]
  | negFix {n : Nat} : 0 < n → n ≤ 32 → Scalar (.int (-n)) [BitVec.ofNat 8 (256 - n)]
  | uint {n : Nat} (w : Width) : n < w.bound → Scalar (.int n) (uintCode w :: bigEndian w.bytes n)
  | sint {n : Int} (w : Width) : -w.bound ≤ 2 * n → 2 * n < w.bound →
      Scalar (.int n) (sintCode w :: bigEndian w.bytes (n % w.bound).toNat)
  | float (bits : BitVec 32) : Scalar (.float bits) (0xca :: bigEndian 4 bits.toNat)
  | double (bits : BitVec 64) : Scalar (.double bits) (0xcb :: bigEndian 8 bits.toNat)
  | fixstr {bytes} : bytes.length < 32 → Scalar (.str bytes) (BitVec.ofNat 8 (0xa0 + bytes.length) :: bytes)
  | str {bytes code w} : (code, w) ∈ strCodes → bytes.length < w.bound →
      Scalar (.str bytes) (code :: (bigEndian w.bytes bytes.length ++ bytes))
  | bin {bytes code w} : (code, w) ∈ binCodes → bytes.length < w.bound →
      Scalar (.bin bytes) (code :: (bigEndian w.bytes bytes.length ++ bytes))
  | fixext {bytes code} (type : Byte) : (code, bytes.length) ∈ fixextCodes →
      Scalar (.ext type bytes) (code :: type :: bytes)
  | ext {bytes code w} (type : Byte) : (code, w) ∈ extCodes → bytes.length < w.bound →
      Scalar (.ext type bytes) (code :: (bigEndian w.bytes bytes.length ++ type :: bytes))

mutual

/-- All byte sequences that encode a value. -/
inductive Encodes : Value → List Byte → Prop
  | scalar {v bytes} : Scalar v bytes → Encodes v bytes
  | array {items header body} : ArrayHeader items.length header → EncodesAll items body →
      Encodes (.array items) (header ++ body)
  | map {pairs header body} : MapHeader pairs.length header →
      EncodesAll (pairs.flatMap fun pair => [pair.1, pair.2]) body → Encodes (.map pairs) (header ++ body)

/-- Encodings of the values of a list, one behind the other. -/
inductive EncodesAll : List Value → List Byte → Prop
  | nil : EncodesAll [] []
  | cons {v vs first rest} : Encodes v first → EncodesAll vs rest → EncodesAll (v :: vs) (first ++ rest)

end

theorem ArrayHeader.ne_nil {size : Nat} {header : List Byte} (h : ArrayHeader size header) : header ≠ [] := by
  cases h <;> simp

theorem MapHeader.ne_nil {size : Nat} {header : List Byte} (h : MapHeader size header) : header ≠ [] := by
  cases h <;> simp

theorem ArrayHeader.size_lt {size : Nat} {header : List Byte} (h : ArrayHeader size header) : size < 2 ^ 32 := by
  have narrow : ∀ p ∈ arrayCodes, p.2.bound ≤ 2 ^ 32 := by decide
  cases h with
  | fix small => omega
  | sized isCode fits => exact Nat.lt_of_lt_of_le fits (narrow _ isCode)

theorem MapHeader.size_lt {size : Nat} {header : List Byte} (h : MapHeader size header) : size < 2 ^ 32 := by
  have narrow : ∀ p ∈ mapCodes, p.2.bound ≤ 2 ^ 32 := by decide
  cases h with
  | fix small => omega
  | sized isCode fits => exact Nat.lt_of_lt_of_le fits (narrow _ isCode)

theorem Scalar.ne_nil {v : Value} {bytes : List Byte} (encoded : Scalar v bytes) : bytes ≠ [] := by
  cases encoded <;> simp

theorem Scalar.flat {v : Value} {bytes : List Byte} (encoded : Scalar v bytes) : v.Flat := by
  cases encoded <;> trivial

theorem Encodes.ne_nil {v : Value} {bytes : List Byte} (encoded : Encodes v bytes) : bytes ≠ [] := by
  cases encoded with
  | scalar scalar => exact scalar.ne_nil
  | array header _ => simp [header.ne_nil]
  | map header _ => simp [header.ne_nil]

/-- The part of an encoding that comes before anything nested: all of a flat
value, and the header of a container. -/
inductive Head : Value → List Byte → Prop
  | flat {v bytes} : Scalar v bytes → Head v bytes
  | array {items header} : ArrayHeader items.length header → Head (.array items) header
  | map {pairs header} : MapHeader pairs.length header → Head (.map pairs) header

theorem Head.ne_nil {v : Value} {head : List Byte} (h : Head v head) : head ≠ [] := by
  cases h with
  | flat scalar => exact scalar.ne_nil
  | array header => exact header.ne_nil
  | map header => exact header.ne_nil

/-- The number of values nested directly in a value. -/
def Value.children : Value → Nat
  | .array items => items.length
  | .map pairs => 2 * pairs.length
  | _ => 0

theorem Value.Flat.children {v : Value} (flat : v.Flat) : v.children = 0 := by
  cases v with
  | array items => exact absurd flat id
  | map pairs => exact absurd flat id
  | _ => rfl

/-- An encoding goes on behind its head exactly when the value has children. -/
theorem Encodes.head {v : Value} {bytes : List Byte} (encoded : Encodes v bytes) :
    ∃ head body, bytes = head ++ body ∧ Head v head ∧ (body = [] ↔ v.children = 0) := by
  have empty {vs : List Value} {body : List Byte} (all : EncodesAll vs body) : body = [] ↔ vs.length = 0 := by
    cases all with
    | nil => simp
    | cons first _ => simp [first.ne_nil]
  cases encoded with
  | array header all => exact ⟨_, _, rfl, .array header, empty all⟩
  | @map pairs _ _ header all =>
    refine ⟨_, _, rfl, .map header, (empty all).trans ?_⟩
    cases pairs <;> simp [Value.children]
  | scalar scalar =>
    refine ⟨_, [], (List.append_nil _).symm, .flat scalar, ?_⟩
    cases scalar <;> simp [Value.children]

/-- The bytes that an item only refers to. -/
def Value.blob : Value → List Byte
  | .str bytes => bytes
  | .bin bytes => bytes
  | .ext _ bytes => bytes
  | _ => []

/-- The shortest headers and encodings, which a writer that does not care chooses. -/
def strHeader (length : Nat) : List Byte :=
  if length < 32 then [BitVec.ofNat 8 (0xa0 + length)]
  else if length < Width.w8.bound then 0xd9 :: bigEndian 1 length
  else if length < Width.w16.bound then 0xda :: bigEndian 2 length
  else 0xdb :: bigEndian 4 length

def mapHeader (size : Nat) : List Byte :=
  if size < 16 then [BitVec.ofNat 8 (0x80 + size)]
  else if size < Width.w16.bound then 0xde :: bigEndian 2 size
  else 0xdf :: bigEndian 4 size

def uintBytes (n : Nat) : List Byte :=
  if n < 128 then [BitVec.ofNat 8 n]
  else if n < Width.w8.bound then 0xcc :: bigEndian 1 n
  else if n < Width.w16.bound then 0xcd :: bigEndian 2 n
  else if n < Width.w32.bound then 0xce :: bigEndian 4 n
  else 0xcf :: bigEndian 8 n

/-- The first field of a list that is wide enough for a number, behind its code. -/
def narrowest (codes : List (Byte × Width)) (n : Nat) : List Byte :=
  match codes.find? fun p => n < p.2.bound with
  | some (code, w) => code :: bigEndian w.bytes n
  | none => []

def arrayHeader (size : Nat) : List Byte :=
  if size < 16 then [BitVec.ofNat 8 (0x90 + size)] else narrowest arrayCodes size

/-- A length below 256 needs two bytes for a reader that does not know the newer codes. -/
def oldStrHeader (length : Nat) : List Byte :=
  if length < 32 then [BitVec.ofNat 8 (0xa0 + length)] else narrowest strCodes.tail length

/-- The type stands behind the length, if there is one. -/
def extBytes (type : Byte) (bytes : List Byte) : List Byte :=
  match fixextCodes.find? fun p => p.2 = bytes.length with
  | some (code, _) => code :: type :: bytes
  | none => narrowest extCodes bytes.length ++ type :: bytes

def sintBytes (w : Width) (n : Int) : List Byte := sintCode w :: bigEndian w.bytes (n % w.bound).toNat

/-- Negative numbers in the narrowest field that has room for them and their sign. -/
def negBytes (n : Int) : List Byte :=
  if -32 ≤ n then [BitVec.ofNat 8 (256 + n).toNat]
  else if -Width.w8.bound ≤ 2 * n then sintBytes .w8 n
  else if -Width.w16.bound ≤ 2 * n then sintBytes .w16 n
  else if -Width.w32.bound ≤ 2 * n then sintBytes .w32 n
  else sintBytes .w64 n

def intBytes (n : Int) : List Byte := if 0 ≤ n then uintBytes n.toNat else negBytes n

theorem scalar_strHeader {bytes : List Byte} (fits : bytes.length < Width.w32.bound) :
    Scalar (.str bytes) (strHeader bytes.length ++ bytes) := by
  have str8 : (0xd9, Width.w8) ∈ strCodes := by simp [strCodes]
  have str16 : (0xda, Width.w16) ∈ strCodes := by simp [strCodes]
  have str32 : (0xdb, Width.w32) ∈ strCodes := by simp [strCodes]
  unfold strHeader
  by_cases fix : bytes.length < 32
  · rw [if_pos fix]
    exact .fixstr fix
  · rw [if_neg fix]
    by_cases byte : bytes.length < Width.w8.bound
    · rw [if_pos byte]
      exact .str str8 byte
    · rw [if_neg byte]
      by_cases short : bytes.length < Width.w16.bound
      · rw [if_pos short]
        exact .str str16 short
      · rw [if_neg short]
        exact .str str32 fits

theorem mapHeader_isHeader {size : Nat} (fits : size < Width.w32.bound) : MapHeader size (mapHeader size) := by
  have map16 : (0xde, Width.w16) ∈ mapCodes := by simp [mapCodes]
  have map32 : (0xdf, Width.w32) ∈ mapCodes := by simp [mapCodes]
  unfold mapHeader
  by_cases fix : size < 16
  · rw [if_pos fix]
    exact .fix fix
  · rw [if_neg fix]
    by_cases short : size < Width.w16.bound
    · rw [if_pos short]
      exact .sized map16 short
    · rw [if_neg short]
      exact .sized map32 fits

theorem scalar_uintBytes {n : Nat} (fits : n < Width.w64.bound) : Scalar (.int n) (uintBytes n) := by
  unfold uintBytes
  by_cases fix : n < 128
  · rw [if_pos fix]
    exact .posFix fix
  · rw [if_neg fix]
    by_cases byte : n < Width.w8.bound
    · rw [if_pos byte]
      exact .uint .w8 byte
    · rw [if_neg byte]
      by_cases short : n < Width.w16.bound
      · rw [if_pos short]
        exact .uint .w16 short
      · rw [if_neg short]
        by_cases long : n < Width.w32.bound
        · rw [if_pos long]
          exact .uint .w32 long
        · rw [if_neg long]
          exact .uint .w64 fits

theorem uintBytes_length_le (n : Nat) : (uintBytes n).length ≤ 9 := by
  unfold uintBytes
  split_ifs <;> simp

theorem narrowest_cons (code : Byte) (w : Width) (codes : List (Byte × Width)) (n : Nat) :
    narrowest ((code, w) :: codes) n = if n < w.bound then code :: bigEndian w.bytes n else narrowest codes n := by
  by_cases wide : n < w.bound
  · simp [narrowest, wide]
  · simp [narrowest, wide]

theorem narrowest_eq {codes : List (Byte × Width)} {n : Nat} (fits : ∃ p ∈ codes, n < p.2.bound) :
    ∃ p ∈ codes, n < p.2.bound ∧ narrowest codes n = p.1 :: bigEndian p.2.bytes n := by
  cases found : codes.find? fun p => decide (n < p.2.bound) with
  | none =>
    obtain ⟨p, member, wide⟩ := fits
    have narrow := List.find?_eq_none.mp found p member
    exact absurd wide (by simpa using narrow)
  | some p =>
    refine ⟨p, List.mem_of_find?_eq_some found, by simpa using List.find?_some found, ?_⟩
    rw [narrowest, found]

theorem arrayHeader_isHeader {size : Nat} (fits : size < Width.w32.bound) :
    ArrayHeader size (arrayHeader size) := by
  unfold arrayHeader
  split
  · exact .fix ‹_›
  · obtain ⟨p, isCode, wide, header⟩ := @narrowest_eq arrayCodes size ⟨(0xdd, .w32), by simp [arrayCodes], fits⟩
    rw [header]
    exact .sized isCode wide

theorem scalar_oldStrHeader {bytes : List Byte} (fits : bytes.length < Width.w32.bound) :
    Scalar (.str bytes) (oldStrHeader bytes.length ++ bytes) := by
  unfold oldStrHeader
  split
  · exact .fixstr ‹_›
  · obtain ⟨p, isCode, wide, header⟩ :=
      @narrowest_eq strCodes.tail bytes.length ⟨(0xdb, .w32), by simp [strCodes], fits⟩
    rw [header]
    exact .str (List.mem_of_mem_tail isCode) wide

theorem scalar_binHeader {bytes : List Byte} (fits : bytes.length < Width.w32.bound) :
    Scalar (.bin bytes) (narrowest binCodes bytes.length ++ bytes) := by
  obtain ⟨p, isCode, wide, header⟩ :=
    @narrowest_eq binCodes bytes.length ⟨(0xc6, .w32), by simp [binCodes], fits⟩
  rw [header]
  exact .bin isCode wide

theorem scalar_extBytes (type : Byte) {bytes : List Byte} (fits : bytes.length < Width.w32.bound) :
    Scalar (.ext type bytes) (extBytes type bytes) := by
  unfold extBytes
  split
  · rename_i code length found
    have same : length = bytes.length := by simpa using List.find?_some found
    have isCode := List.mem_of_find?_eq_some found
    rw [same] at isCode
    exact .fixext type isCode
  · obtain ⟨p, isCode, wide, header⟩ :=
      @narrowest_eq extCodes bytes.length ⟨(0xc9, .w32), by simp [extCodes], fits⟩
    rw [header]
    exact .ext type isCode wide

theorem scalar_intBytes {n : Int} (lower : -Width.w64.bound ≤ 2 * n) (upper : n < Width.w64.bound) :
    Scalar (.int n) (intBytes n) := by
  unfold intBytes
  split
  · rename_i positive
    have number : ((n.toNat : Nat) : Int) = n := Int.toNat_of_nonneg positive
    have encoded := scalar_uintBytes (show n.toNat < Width.w64.bound by omega)
    rwa [number] at encoded
  · unfold negBytes
    split
    · have number : (-(n.natAbs : Int)) = n := by omega
      have byte : (256 + n).toNat = 256 - n.natAbs := by omega
      have encoded := @Scalar.negFix n.natAbs (by omega) (by omega)
      rwa [number, ← byte] at encoded
    · have sint (w : Width) (room : -w.bound ≤ 2 * n) : Scalar (.int n) (sintBytes w n) := .sint w room (by omega)
      split_ifs with byte short long
      · exact sint .w8 byte
      · exact sint .w16 short
      · exact sint .w32 long
      · exact sint .w64 lower

/-- Heads one behind the other: the values are read in this order, and what is nested in
one of them stands behind it. -/
inductive Heads : List Value → List Byte → Prop
  | nil : Heads [] []
  | cons {v vs first rest} : Head v first → Heads vs rest → Heads (v :: vs) (first ++ rest)

theorem Heads.append {vs ws : List Value} {first rest : List Byte} (heads : Heads vs first) (more : Heads ws rest) :
    Heads (vs ++ ws) (first ++ rest) := by
  induction heads with
  | nil => exact more
  | cons isHead _ ih =>
    rw [List.append_assoc]
    exact .cons isHead ih

/-- What a value refers to stands at the end of its head. -/
theorem Head.blob {v : Value} {head : List Byte} (isHead : Head v head) : ∃ header, head = header ++ v.blob := by
  cases isHead with
  | array _ => exact ⟨_, (List.append_nil _).symm⟩
  | map _ => exact ⟨_, (List.append_nil _).symm⟩
  | flat scalar =>
    cases scalar with
    | fixstr _ => exact ⟨[_], rfl⟩
    | str _ _ => exact ⟨_ :: _, rfl⟩
    | bin _ _ => exact ⟨_ :: _, rfl⟩
    | fixext type _ => exact ⟨[_, type], rfl⟩
    | @ext bytes code w type _ _ =>
      exact ⟨code :: (bigEndian w.bytes bytes.length ++ [type]), by simp [Value.blob]⟩
    | _ => exact ⟨_, (List.append_nil _).symm⟩

/-- The values directly nested in a value, in the order in which they are encoded. -/
def Value.inner : Value → List Value
  | .array items => items
  | .map pairs => pairs.flatMap fun pair => [pair.1, pair.2]
  | _ => []

theorem Value.inner_length (v : Value) : v.inner.length = v.children := by
  cases v with
  | map pairs =>
    induction pairs with
    | nil => rfl
    | cons pair pairs ih =>
      simp only [inner, children, List.flatMap_cons, List.length_append, List.length_cons, List.length_nil] at ih ⊢
      omega
  | _ => rfl

theorem EncodesAll.append {vs ws : List Value} {first rest : List Byte} (all : EncodesAll vs first)
    (more : EncodesAll ws rest) : EncodesAll (vs ++ ws) (first ++ rest) := by
  induction vs generalizing first with
  | nil =>
    cases all
    exact more
  | cons v vs ih =>
    cases all with
    | cons here later =>
      rw [List.append_assoc]
      exact .cons here (ih later)

/-- A reader that has read the head of a value has what is nested in it still before it. -/
theorem EncodesAll.opened {v : Value} {vs : List Value} {bytes : List Byte} (all : EncodesAll (v :: vs) bytes) :
    ∃ head rest, bytes = head ++ rest ∧ Head v head ∧ EncodesAll (v.inner ++ vs) rest := by
  cases all with
  | @cons _ _ first more here later =>
    cases here with
    | scalar scalar =>
      have empty : v.inner = [] := by cases scalar <;> rfl
      rw [empty]
      exact ⟨first, more, rfl, .flat scalar, later⟩
    | @array items header body isHeader inside =>
      exact ⟨header, body ++ more, List.append_assoc .., .array isHeader, inside.append later⟩
    | @map pairs header body isHeader inside =>
      exact ⟨header, body ++ more, List.append_assoc .., .map isHeader, inside.append later⟩

theorem EncodesAll.length_le {vs : List Value} {bytes : List Byte} (all : EncodesAll vs bytes) :
    vs.length ≤ bytes.length := by
  induction vs generalizing bytes with
  | nil => exact Nat.zero_le _
  | cons v vs ih =>
    cases all with
    | cons here later =>
      have first := List.length_pos_iff.mpr here.ne_nil
      have rest := ih later
      rw [List.length_cons, List.length_append]
      omega

end MessagePack

end Maglev
