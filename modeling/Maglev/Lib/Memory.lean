import Mathlib.Algebra.Ring.Nat
import Mathlib.Data.List.GetD
import Mathlib.Tactic.Common

namespace Maglev

/-- Bytes as the target stores them. -/
abbrev Byte := BitVec 8

/-- A byte-addressed memory. What an address beyond the last one means is left
to the pointer model, so a stray read is a read of some cell and not an error. -/
abbrev Mem := Nat → Byte

/-- The two readings of pointer arithmetic: the 32-bit registers of the target,
and natural numbers that never wrap. -/
inductive PtrModel
  | wrap32
  | unbounded
  deriving DecidableEq, Repr

def PtrModel.add : PtrModel → Nat → Nat → Nat
  | .wrap32, p, more => (p + more) % 2 ^ 32
  | .unbounded, p, more => p + more

theorem PtrModel.add_of_lt (pm : PtrModel) {p more : Nat} (fits : p + more < 2 ^ 32) :
    pm.add p more = p + more := by
  cases pm with
  | wrap32 => exact Nat.mod_eq_of_lt fits
  | unbounded => rfl

/-- A wrapped sum of two 32-bit quantities lies below its first summand. This is
what lets a bound check on the sum pass for a length no buffer could hold. -/
theorem PtrModel.wrap32_add_lt {p more : Nat} (first : p < 2 ^ 32) (second : more < 2 ^ 32)
    (wraps : 2 ^ 32 ≤ p + more) : PtrModel.wrap32.add p more + 2 ^ 32 = p + more := by
  have small : p + more - 2 ^ 32 < 2 ^ 32 := by omega
  have reduced : (p + more) % 2 ^ 32 = p + more - 2 ^ 32 := by
    rw [Nat.mod_eq_sub_mod wraps, Nat.mod_eq_of_lt small]
  simp only [PtrModel.add, reduced]
  omega

/-- The listed bytes stand at consecutive addresses from `base` on. -/
def Holds (mem : Mem) (base : Nat) (bytes : List Byte) : Prop :=
  ∀ i, ∀ b ∈ bytes[i]?, mem (base + i) = b

theorem holds_nil (mem : Mem) (base : Nat) : Holds mem base [] := by
  intro i b member
  simp at member

theorem holds_cons {mem : Mem} {base : Nat} {b : Byte} {rest : List Byte} :
    Holds mem base (b :: rest) ↔ mem base = b ∧ Holds mem (base + 1) rest := by
  constructor
  · intro held
    refine ⟨held 0 b rfl, fun i c member => ?_⟩
    have here := held (i + 1) c (by simpa using member)
    rwa [show base + (i + 1) = base + 1 + i by omega] at here
  · rintro ⟨first, held⟩ i c member
    cases i with
    | zero =>
      have same : b = c := by simpa using member
      rw [← same]
      exact first
    | succ i =>
      have here := held i c (by simpa using member)
      rwa [show base + (i + 1) = base + 1 + i by omega]

theorem holds_append {mem : Mem} {base : Nat} {first rest : List Byte} :
    Holds mem base (first ++ rest) ↔ Holds mem base first ∧ Holds mem (base + first.length) rest := by
  induction first generalizing base with
  | nil => simp [holds_nil]
  | cons b first ih =>
    simp only [List.cons_append, holds_cons, ih, List.length_cons]
    rw [show base + 1 + first.length = base + (first.length + 1) by omega, and_assoc]

theorem Holds.getElem {mem : Mem} {base : Nat} {bytes : List Byte} (held : Holds mem base bytes)
    {i : Nat} (bound : i < bytes.length) : mem (base + i) = bytes[i] :=
  held i _ (by simp [bound])

/-- `memcpy`: the listed bytes replace the cells from `base` on. -/
def Mem.store (mem : Mem) (base : Nat) (bytes : List Byte) : Mem := fun a =>
  if base ≤ a then bytes[a - base]?.getD (mem a) else mem a

theorem Mem.store_before (mem : Mem) {base a : Nat} (bytes : List Byte) (before : a < base) :
    mem.store base bytes a = mem a := by
  simp only [Mem.store, if_neg (Nat.not_le.mpr before)]

theorem Mem.store_holds (mem : Mem) (base : Nat) (bytes : List Byte) :
    Holds (mem.store base bytes) base bytes := by
  intro i b member
  have inside : base + i - base = i := by omega
  simp only [Mem.store, if_pos (Nat.le_add_right base i), inside, Option.mem_def.mp member,
    Option.getD_some]

theorem Mem.store_nil (mem : Mem) (base : Nat) : mem.store base [] = mem := by
  funext a
  simp [Mem.store]

theorem Mem.store_singleton (mem : Mem) (base : Nat) (b : Byte) : mem.store base [b] = Function.update mem base b := by
  funext a
  rw [Function.update_apply]
  by_cases here : a = base
  · simp [Mem.store, here]
  · by_cases after : base ≤ a
    · have outside : [b].length ≤ a - base := by
        rw [List.length_singleton]
        omega
      rw [if_neg here, Mem.store, if_pos after, List.getElem?_eq_none outside, Option.getD_none]
    · rw [if_neg here, Mem.store, if_neg after]

/-- Two copies one behind the other are one copy. -/
theorem Mem.store_append (mem : Mem) (base : Nat) (first rest : List Byte) :
    (mem.store base first).store (base + first.length) rest = mem.store base (first ++ rest) := by
  funext a
  by_cases before : a < base
  · rw [Mem.store_before _ rest (by omega), Mem.store_before mem first before, Mem.store_before mem _ before]
  · by_cases inside : a < base + first.length
    · rw [Mem.store_before _ rest inside]
      simp only [Mem.store, if_pos (Nat.not_lt.mp before),
        List.getElem?_append_left (by omega : a - base < first.length)]
    · have offset : a - (base + first.length) = a - base - first.length := by omega
      simp only [Mem.store, if_pos (Nat.not_lt.mp before), if_pos (Nat.not_lt.mp inside), offset,
        List.getElem?_append_right (by omega : first.length ≤ a - base)]
      rw [List.getElem?_eq_none_iff.mpr (by omega : first.length ≤ a - base), Option.getD_none]

/-- A copy disturbs no bytes that stand before its destination. -/
theorem Holds.store_later {mem : Mem} {base dst : Nat} {bytes : List Byte}
    (held : Holds mem base bytes) (later : base + bytes.length ≤ dst) (copied : List Byte) :
    Holds (mem.store dst copied) base bytes := by
  intro i b member
  obtain ⟨bound, _⟩ := List.getElem?_eq_some_iff.mp (Option.mem_def.mp member)
  rw [Mem.store_before mem copied (by omega)]
  exact held i b member

/-- The `n` bytes from `base` on. -/
def Mem.read (mem : Mem) (base n : Nat) : List Byte :=
  (List.range n).map fun i => mem (base + i)

@[simp] theorem Mem.read_length (mem : Mem) (base n : Nat) : (mem.read base n).length = n := by
  simp [Mem.read]

theorem Mem.read_holds (mem : Mem) (base n : Nat) : Holds mem base (mem.read base n) := by
  intro i b member
  obtain ⟨bound, value⟩ := List.getElem?_eq_some_iff.mp (Option.mem_def.mp member)
  simpa [Mem.read] using value

theorem Holds.read_eq {mem : Mem} {base : Nat} {bytes : List Byte} (held : Holds mem base bytes) :
    mem.read base bytes.length = bytes := by
  apply List.ext_getElem (by simp)
  intro i _ bound
  simpa [Mem.read] using held.getElem bound

end Maglev
