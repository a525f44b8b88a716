import Maglev.CWPack.Unpack

namespace Maglev

open MessagePack

/-- The advances of the cursor that the item at `p` asks for, in order: the first
byte, the fields of its header, and the blob of the declared length. -/
def itemAdvances (pm : PtrModel) (mem : Mem) (p : Nat) : List Nat :=
  let declared := fun w => ((cwLoad pm mem (pm.add p 1) w).setWidth 32).toNat
  match formatOf (mem p) with
  | .posFixnum | .fixmap | .fixarray | .nil | .bool _ | .negFixnum | .illegal => [1]
  | .fixstr => [1, ((mem p &&& 0x1f#8).setWidth 32).toNat]
  | .bin w | .str w => [1, w.bytes, declared w]
  | .ext w => [1, w.bytes, 1, declared w]
  | .float => [1, Width.w32.bytes]
  | .double => [1, Width.w64.bytes]
  | .uint w | .sint w | .array w | .map w => [1, w.bytes]
  | .fixext len => [1, 1, (BitVec.ofNat 32 len).toNat]

/-- The return code of a call that runs to its end. -/
def itemCode (mem : Mem) (p : Nat) : ReturnCode :=
  if formatOf (mem p) = .illegal then .malformedInput else .ok

/-- How a call moves the cursor: it makes the advances one after the other, and
stops with an error at the first one that goes beyond the end. -/
inductive Advances (pm : PtrModel) (end_ : Nat) (code : ReturnCode) :
    List Nat → Nat → List Nat → UnpackContext → Prop
  | done {p trail after} : after.current = p → after.trail = trail → after.end_ = end_ →
      after.returnCode = code → (code ≠ .ok → after.item.type = .notAnItem) →
      Advances pm end_ code [] p trail after
  | refused {s rest p trail after} : end_ < pm.add p s → after.current = p → after.trail = trail →
      after.end_ = end_ → after.returnCode ≠ .ok → after.item.type = .notAnItem →
      Advances pm end_ code (s :: rest) p trail after
  | fits {s rest p trail after} : pm.add p s ≤ end_ →
      Advances pm end_ code rest (pm.add p s) (pm.add p s :: trail) after →
      Advances pm end_ code (s :: rest) p trail after

theorem cwUnpackNext_of_failed {uc : UnpackContext} (failed : uc.returnCode ≠ .ok) (pm : PtrModel) (mem : Mem) :
    cwUnpackNext pm mem uc = uc := if_pos failed

theorem cwUnpackAssertSpace_advances {pm : PtrModel} {code bufferEnd : ReturnCode} {s : Nat} {rest : List Nat}
    {uc : UnpackContext} {k : Nat → UnpackContext → UnpackContext} (failing : bufferEnd ≠ .ok)
    (continued : Advances pm uc.end_ code rest (pm.add uc.current s) (pm.add uc.current s :: uc.trail)
      (k uc.current { uc with current := pm.add uc.current s, trail := pm.add uc.current s :: uc.trail })) :
    Advances pm uc.end_ code (s :: rest) uc.current uc.trail (cwUnpackAssertSpace pm bufferEnd s uc k) := by
  by_cases beyond : pm.add uc.current s > uc.end_
  · simp only [cwUnpackAssertSpace, if_pos beyond]
    exact .refused beyond rfl rfl rfl failing rfl
  · simp only [cwUnpackAssertSpace, if_neg beyond]
    exact .fits (Nat.not_lt.mp beyond) continued

theorem cwUnpackAssertBlob_advances (pm : PtrModel) (uc : UnpackContext) {length : BitVec 32}
    (ok : uc.returnCode = .ok) (declared : uc.item.as.length = length) :
    Advances pm uc.end_ .ok [length.toNat] uc.current uc.trail (cwUnpackAssertBlob pm uc) := by
  rw [← declared]
  apply cwUnpackAssertSpace_advances (by decide)
  exact .done rfl rfl rfl ok (by simp)

theorem getDDItemSized_advances {pm : PtrModel} {mem : Mem} {w : Width} {code : ReturnCode} {type : ItemType}
    {store : ItemUnion → BitVec 64 → ItemUnion} {uc : UnpackContext} {rest : List Nat}
    {k : UnpackContext → UnpackContext}
    (continued : ∀ next : UnpackContext, next.end_ = uc.end_ → next.returnCode = uc.returnCode →
      next.item.as = store uc.item.as (cwLoad pm mem uc.current w) →
      Advances pm next.end_ code rest next.current next.trail (k next)) :
    Advances pm uc.end_ code (w.bytes :: rest) uc.current uc.trail (getDDItemSized pm mem w type store uc k) := by
  have moved := @cwUnpackAssertSpace_advances pm code .bufferUnderflow w.bytes rest (uc.setType type)
    (fun p uc => k { uc with item := { uc.item with as := store uc.item.as (cwLoad pm mem p w) } }) (by decide)
  let next : UnpackContext :=
    { uc with
      item := ⟨type, store uc.item.as (cwLoad pm mem uc.current w)⟩
      current := pm.add uc.current w.bytes
      trail := pm.add uc.current w.bytes :: uc.trail }
  exact moved (continued next rfl rfl rfl)

theorem cwUnpackItem_advances {pm : PtrModel} {mem : Mem} {p : Nat} (uc : UnpackContext) {rest : List Nat}
    (ok : uc.returnCode = .ok) (behind : uc.current = pm.add p 1) (split : itemAdvances pm mem p = 1 :: rest) :
    Advances pm uc.end_ (itemCode mem p) rest uc.current uc.trail (cwUnpackItem pm mem (mem p) uc) := by
  have plain {after : UnpackContext} (current : after.current = uc.current) (trail : after.trail = uc.trail)
      (end_ : after.end_ = uc.end_) (code : after.returnCode = .ok) :
      Advances pm uc.end_ .ok [] uc.current uc.trail after := .done current trail end_ code (by simp)
  have sized {w : Width} {type : ItemType} {store : ItemUnion → BitVec 64 → ItemUnion} :
      Advances pm uc.end_ .ok [w.bytes] uc.current uc.trail (getDDItemSized pm mem w type store uc id) :=
    getDDItemSized_advances fun next _ code _ => .done rfl rfl rfl (code.trans ok) (by simp)
  have blob {w : Width} {type : ItemType} :
      Advances pm uc.end_ .ok [w.bytes, ((cwLoad pm mem (pm.add p 1) w).setWidth 32).toNat] uc.current uc.trail
        (getDDItemSized pm mem w type (fun u n => u.setLength (n.setWidth 32)) uc (cwUnpackAssertBlob pm)) := by
    apply getDDItemSized_advances
    intro next _ code union
    apply cwUnpackAssertBlob_advances pm next (code.trans ok)
    rw [union, ItemUnion.setLength_length, behind]
  unfold itemAdvances at split
  unfold itemCode cwUnpackItem
  cases format : formatOf (mem p) with
  | posFixnum | fixmap | fixarray | nil | bool b | negFixnum =>
    simp only [format] at split
    cases split
    exact plain rfl rfl rfl ok
  | illegal =>
    simp only [format] at split
    cases split
    exact .done rfl rfl rfl rfl fun _ => rfl
  | fixstr =>
    simp only [format] at split
    cases split
    exact cwUnpackAssertBlob_advances pm (getDDItem .str (·.setLength ((mem p &&& 0x1f#8).setWidth 32)) uc) ok rfl
  | bin w | str w =>
    simp only [format] at split
    cases split
    exact blob
  | ext w =>
    simp only [format] at split
    cases split
    apply getDDItemSized_advances
    intro next _ code union
    apply cwUnpackAssertSpace_advances (by decide)
    let typed : UnpackContext :=
      { next with
        item := { next.item with type := .ext (mem next.current) }
        current := pm.add next.current 1
        trail := pm.add next.current 1 :: next.trail }
    have declared : typed.item.as.length = (cwLoad pm mem (pm.add p 1) w).setWidth 32 := by
      rw [← behind]
      exact congrArg ItemUnion.length union
    exact cwUnpackAssertBlob_advances pm typed (code.trans ok) declared
  | float | double | uint w | array w | map w =>
    simp only [format] at split
    cases split
    exact sized
  | sint w =>
    simp only [format] at split
    cases split
    apply getDDItemSized_advances
    intro next _ code _
    by_cases sign : 0 ≤ next.item.as.i64.toInt
    · rw [if_pos sign]
      exact .done rfl rfl rfl (code.trans ok) (by simp)
    · rw [if_neg sign]
      exact .done rfl rfl rfl (code.trans ok) (by simp)
  | fixext len =>
    simp only [format] at split
    cases split
    apply cwUnpackAssertSpace_advances (by decide)
    let typed : UnpackContext :=
      { uc with
        item := ⟨.ext (mem uc.current), uc.item.as.setLength (BitVec.ofNat 32 len)⟩
        current := pm.add uc.current 1
        trail := pm.add uc.current 1 :: uc.trail }
    exact cwUnpackAssertBlob_advances pm typed ok rfl

theorem itemAdvances_cons (pm : PtrModel) (mem : Mem) (p : Nat) : ∃ rest, itemAdvances pm mem p = 1 :: rest := by
  unfold itemAdvances
  split <;> exact ⟨_, rfl⟩

/-- The cursor of a call makes exactly the advances that the bytes at the cursor declare. -/
theorem cwUnpackNext_advances (pm : PtrModel) (mem : Mem) {uc : UnpackContext} (ok : uc.returnCode = .ok) :
    Advances pm uc.end_ (itemCode mem uc.current) (itemAdvances pm mem uc.current) uc.current uc.trail
      (cwUnpackNext pm mem uc) := by
  obtain ⟨rest, split⟩ := itemAdvances_cons pm mem uc.current
  rw [split, cwUnpackNext, if_neg (not_not_intro ok)]
  apply cwUnpackAssertSpace_advances (by decide)
  exact cwUnpackItem_advances
    { uc with current := pm.add uc.current 1, trail := pm.add uc.current 1 :: uc.trail } ok rfl split

/-- Only the last advance of an item can be a blob; the header fields before it are short. -/
theorem itemAdvances_short (pm : PtrModel) (mem : Mem) (p : Nat) : ∀ s ∈ (itemAdvances pm mem p).dropLast, s ≤ 8 := by
  have width (w : Width) : w.bytes ≤ 8 := by cases w <;> decide
  unfold itemAdvances
  split <;> simp [width]

theorem itemAdvances_lt (pm : PtrModel) (mem : Mem) (p : Nat) : ∀ s ∈ itemAdvances pm mem p, s < 2 ^ 32 := by
  have width (w : Width) : w.bytes < 2 ^ 32 := by cases w <;> decide
  have byte : 1 < 2 ^ 32 := by decide
  unfold itemAdvances
  split <;> simp only [List.forall_mem_cons, List.not_mem_nil, false_implies, implies_true, width, byte,
    BitVec.isLt, and_self]

theorem itemAdvances_of_illegal {pm : PtrModel} {mem : Mem} {p : Nat} (failing : itemCode mem p ≠ .ok) :
    itemAdvances pm mem p = [1] := by
  have illegal : formatOf (mem p) = .illegal := by
    by_contra legal
    exact failing (if_neg legal)
  simp only [itemAdvances, illegal]

end Maglev
