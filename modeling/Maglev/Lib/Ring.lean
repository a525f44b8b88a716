import Mathlib.Algebra.Ring.Nat
import Mathlib.Data.List.Basic
import Mathlib.Data.Nat.ModEq
import Mathlib.Logic.Function.Basic
import Mathlib.Tactic.Common

namespace Maglev

/-- A ring of cells with two free-running counters of `w` bits. The cells outside of the
counters hold whatever was left there. -/
structure Ring (α : Type*) (w : Nat) where
  put : BitVec w
  get : BitVec w
  buf : Nat → α

namespace Ring

variable {α : Type*} {w k : Nat}

/-- The cell that a counter stands for in a ring of `2 ^ k` cells. -/
def cell (k : Nat) (i : BitVec w) : Nat := i.toNat % 2 ^ k

def length (r : Ring α w) : Nat := (r.put - r.get).toNat

/-- The cells between the counters, the oldest first. -/
def contents (k : Nat) (r : Ring α w) : List α :=
  (List.range r.length).map fun i => r.buf (cell k (r.get + BitVec.ofNat w i))

def push (k : Nat) (r : Ring α w) (a : α) : Ring α w :=
  { r with put := r.put + 1#w, buf := Function.update r.buf (cell k r.put) a }

def pushAll (k : Nat) (r : Ring α w) (as : List α) : Ring α w := as.foldl (push k) r

def advance (r : Ring α w) (n : Nat) : Ring α w := { r with get := r.get + BitVec.ofNat w n }

/-- How many cells can be read from the get counter on without wrapping around. -/
def linear (k : Nat) (r : Ring α w) : Nat := min r.length (2 ^ k - cell k r.get)

/-- `n` neighbouring cells, as a pointer to the first of them sees them. -/
def window (k : Nat) (r : Ring α w) (n : Nat) : List α := (List.range n).map fun i => r.buf (cell k r.get + i)

theorem cell_add (narrow : k ≤ w) (i : BitVec w) (n : Nat) :
    cell k (i + BitVec.ofNat w n) = (i.toNat + n) % 2 ^ k := by
  have divides : 2 ^ k ∣ 2 ^ w := Nat.pow_dvd_pow 2 narrow
  rw [cell, BitVec.toNat_add, BitVec.toNat_ofNat, Nat.add_mod_mod, Nat.mod_mod_of_dvd _ divides]

/-- Two counters less than a round apart have different cells. -/
theorem cell_ne (narrow : k ≤ w) (i : BitVec w) {m n : Nat} (before : m < n) (near : n < m + 2 ^ k) :
    cell k (i + BitVec.ofNat w m) ≠ cell k (i + BitVec.ofNat w n) := by
  rw [cell_add narrow, cell_add narrow]
  intro same
  have divides := (Nat.modEq_iff_dvd' (by omega)).mp same
  rw [show i.toNat + n - (i.toNat + m) = n - m by omega] at divides
  exact absurd (Nat.le_of_dvd (by omega) divides) (by omega)

theorem put_eq (r : Ring α w) : r.put = r.get + BitVec.ofNat w r.length := by
  rw [length, BitVec.ofNat_toNat, BitVec.setWidth_eq, BitVec.add_comm, BitVec.sub_add_cancel]

@[simp] theorem contents_length (r : Ring α w) : (r.contents k).length = r.length := by
  simp [contents]

theorem push_length {r : Ring α w} (room : r.length + 1 < 2 ^ w) (a : α) :
    (r.push k a).length = r.length + 1 := by
  have next : (r.push k a).put - r.get = r.put - r.get + 1#w := by
    rw [push, BitVec.sub_eq_add_neg, BitVec.sub_eq_add_neg, BitVec.add_assoc, BitVec.add_assoc,
      BitVec.add_comm 1#w]
  have one : (1#w).toNat = 1 := by
    rw [BitVec.toNat_ofNat, Nat.mod_eq_of_lt (by omega)]
  rw [length, show (r.push k a).get = r.get from rfl, next, BitVec.toNat_add, one]
  exact Nat.mod_eq_of_lt room

/-- What is put in comes last. -/
theorem push_contents (narrow : k < w) {r : Ring α w} (room : r.length < 2 ^ k) (a : α) :
    (r.push k a).contents k = r.contents k ++ [a] := by
  have round : 2 ^ k < 2 ^ w := Nat.pow_lt_pow_right (by omega) narrow
  rw [contents, push_length (by omega), List.range_succ, List.map_append, List.map_singleton, contents]
  congr 1
  · apply List.map_congr_left
    intro i live
    have other := cell_ne narrow.le r.get (List.mem_range.mp live) (by omega)
    rw [← r.put_eq] at other
    exact Function.update_of_ne other a r.buf
  · have newest : (r.push k a).buf (cell k r.put) = a := Function.update_self ..
    rw [show (r.push k a).get = r.get from rfl, ← r.put_eq, newest]

theorem pushAll_contents (narrow : k < w) {r : Ring α w} {as : List α} (room : r.length + as.length ≤ 2 ^ k) :
    (r.pushAll k as).contents k = r.contents k ++ as := by
  induction as generalizing r with
  | nil => simp [pushAll]
  | cons a as ih =>
    rw [List.length_cons] at room
    have round : 2 ^ k < 2 ^ w := Nat.pow_lt_pow_right (by omega) narrow
    have longer := @push_length _ w k r (by omega) a
    have later := @ih (r.push k a) (by omega)
    rw [push_contents narrow (by omega), List.append_assoc] at later
    exact later

theorem pushAll_append (r : Ring α w) (first rest : List α) :
    (r.pushAll k first).pushAll k rest = r.pushAll k (first ++ rest) := (List.foldl_append ..).symm

/-- What is taken out comes from the front. -/
theorem advance_length {r : Ring α w} {n : Nat} (live : n ≤ r.length) : (r.advance n).length = r.length - n := by
  have below := (r.put - r.get).isLt
  have left : r.put - (r.get + BitVec.ofNat w n) = r.put - r.get - BitVec.ofNat w n := by
    rw [BitVec.sub_eq_add_neg, BitVec.sub_eq_add_neg, BitVec.sub_eq_add_neg, BitVec.neg_add, BitVec.add_assoc,
      BitVec.sub_eq_add_neg]
  have count : (BitVec.ofNat w n).toNat = n := by
    rw [BitVec.toNat_ofNat]
    exact Nat.mod_eq_of_lt (live.trans_lt below)
  unfold length at live ⊢
  rw [show (r.advance n).put - (r.advance n).get = r.put - (r.get + BitVec.ofNat w n) from rfl, left,
    BitVec.toNat_sub_of_le (by rwa [BitVec.le_def, count]), count]

theorem advance_contents {r : Ring α w} {n : Nat} (live : n ≤ r.length) :
    (r.advance n).contents k = (r.contents k).drop n := by
  apply List.ext_getElem
  · simp [advance_length live]
  · intro i _ _
    simp only [contents, List.getElem_map, List.getElem_range, List.getElem_drop]
    rw [BitVec.ofNat_add, ← BitVec.add_assoc]
    rfl

/-- A window that does not wrap around shows the front of the contents. -/
theorem window_eq (narrow : k ≤ w) {r : Ring α w} {n : Nat} (within : n ≤ r.linear k) :
    r.window k n = (r.contents k).take n := by
  obtain ⟨live, inRow⟩ := Nat.le_min.mp within
  apply List.ext_getElem
  · simp [window, live]
  · intro i bound _
    have near : i < n := by simpa [window] using bound
    have row : cell k r.get + i < 2 ^ k := by omega
    simp only [window, contents, List.getElem_map, List.getElem_range, List.getElem_take]
    rw [cell_add narrow, ← Nat.mod_add_mod, ← cell, Nat.mod_eq_of_lt row]

end Ring

end Maglev
