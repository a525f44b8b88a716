import Mathlib.Algebra.Ring.Nat
import Maglev.Lib.Memory

namespace Maglev

namespace MqttFormat

/-- The groups of seven bits of a length, the lowest first, in at most `k` bytes. The
highest bit says that another byte follows. -/
def groups : Nat → Nat → List Byte
  | 0, _ => []
  | k + 1, n =>
    if n < 128 then [BitVec.ofNat 8 n] else BitVec.ofNat 8 (n % 128 + 128) :: groups k (n / 128)

/-- The remaining length of a packet, which has at most four bytes. -/
def lengthBytes (n : Nat) : List Byte := groups 4 n

/-- A control packet: the byte with its type and flags, and what follows the fixed header. -/
structure Packet where
  control : Byte
  body : List Byte
  fits : body.length < 2 ^ 28

def Packet.header (p : Packet) : List Byte := p.control :: lengthBytes p.body.length

def Packet.bytes (p : Packet) : List Byte := p.header ++ p.body

/-- A packet with this body, if it has a length that can be written. -/
def Packet.of? (control : Byte) (body : List Byte) : Option Packet :=
  if fits : body.length < 2 ^ 28 then some ⟨control, body, fits⟩ else none

/-- Two bytes, the high one first. -/
def u16 (n : Nat) : List Byte := [BitVec.ofNat 8 (n / 256), BitVec.ofNat 8 n]

/-- A length and as many bytes. -/
def string (bytes : List Byte) : List Byte := u16 bytes.length ++ bytes

/-- A byte more does not change what is through already. -/
theorem groups_succ {k n : Nat} (through : n < 128 ^ (k + 1)) : groups (k + 2) n = groups (k + 1) n := by
  induction k generalizing n with
  | zero =>
    have one : n < 128 := by simpa using through
    simp only [groups, if_pos one]
  | succ k ih =>
    have next := @ih (n / 128) (by rw [Nat.div_lt_iff_lt_mul (by omega), ← Nat.pow_succ]; exact through)
    rw [groups, next]
    rfl

end MqttFormat

end Maglev
