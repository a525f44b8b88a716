import Maglev.CWPack.Advance

namespace Maglev

open MessagePack

/-- Two contexts at the same place of the same bytes, of which the first one has fewer. -/
structure Truncated (base : Nat) (mem mem' : Mem) (uc uc' : UnpackContext) : Prop where
  ok : uc.returnCode = .ok
  ok' : uc'.returnCode = .ok
  current : uc'.current = uc.current
  low : base ≤ uc.current
  high : uc.current ≤ uc.end_
  shorter : uc.end_ ≤ uc'.end_
  top : uc.end_ < 2 ^ 32
  same : ∀ a, base ≤ a → a < uc.end_ → mem' a = mem a

/-- What two calls have in common that both return an item, from what they found in the
union. That may differ, but not in what is read of this item. -/
structure SameItem (base : Nat) (u u' : ItemUnion) (after after' : UnpackContext) : Prop where
  type : after'.item.type = after.item.type
  kept : u' = u → after'.item.as = after.item.as
  str : after.item.type = .str → after'.item.as = after.item.as ∧ base ≤ after.item.as.start.toNat ∧
    after.item.as.start.toNat + after.item.as.length.toNat ≤ after.end_
  map : after.item.type = .map → after'.item.as.size = after.item.as.size
  length : after.item.type = .boolean ∨ after.item.type = .float → after.item.as.length = u.length

theorem SameItem.item {base : Nat} {u u' : ItemUnion} {after after' : UnpackContext}
    (same : SameItem base u u' after after') (before : u' = u) : after'.item = after.item :=
  calc
    after'.item = ⟨after'.item.type, after'.item.as⟩ := rfl
    _ = ⟨after.item.type, after.item.as⟩ := by rw [same.type, same.kept before]
    _ = after.item := rfl

/-- The call on the shorter buffer fails, or both go on in step. -/
def InStep (base : Nat) (mem mem' : Mem) (u u' : ItemUnion) (after after' : UnpackContext) : Prop :=
  after.returnCode ≠ .ok ∨ Truncated base mem mem' after after' ∧ SameItem base u u' after after'

/-- The context of an advance that has been made. -/
def UnpackContext.advance (uc : UnpackContext) (more : Nat) : UnpackContext :=
  { uc with current := uc.current + more, trail := (uc.current + more) :: uc.trail }

theorem cwLoad_congr {mem mem' : Mem} {p : Nat} {w : Width}
    (same : ∀ a, p ≤ a → a < p + w.bytes → mem' a = mem a) :
    cwLoad .unbounded mem' p w = cwLoad .unbounded mem p w := by
  have cell (i : Nat) (inside : i < w.bytes) : mem' (p + i) = mem (p + i) :=
    same (p + i) (by omega) (by omega)
  have first : mem' p = mem p := cell 0 (by cases w <;> decide)
  cases w with
  | w8 => simp only [cwLoad, first]
  | w16 => simp only [cwLoad, cwLoad16, loadWord16, PtrModel.add, first, cell 1 (by decide)]
  | w32 =>
    simp only [cwLoad, cwLoad32, loadWord32, PtrModel.add, first, cell 1 (by decide), cell 2 (by decide),
      cell 3 (by decide)]
  | w64 =>
    simp only [cwLoad, cwLoad64, loadWord64, PtrModel.add, first, cell 1 (by decide), cell 2 (by decide),
      cell 3 (by decide), cell 4 (by decide), cell 5 (by decide), cell 6 (by decide), cell 7 (by decide)]

section

variable {base : Nat} {mem mem' : Mem} {uc uc' : UnpackContext} (truncated : Truncated base mem mem' uc uc')
include truncated

/-- Nothing of the relation depends on the item. -/
theorem Truncated.withItem (item item' : CwpackItem) :
    Truncated base mem mem' { uc with item } { uc' with item := item' } :=
  ⟨truncated.ok, truncated.ok', truncated.current, truncated.low, truncated.high, truncated.shorter,
    truncated.top, truncated.same⟩

theorem Truncated.advance {more : Nat} (fits : uc.current + more ≤ uc.end_) :
    Truncated base mem mem' (uc.advance more) (uc'.advance more) where
  ok := truncated.ok
  ok' := truncated.ok'
  current := congrArg (· + more) truncated.current
  low := truncated.low.trans (Nat.le_add_right _ _)
  high := fits
  shorter := truncated.shorter
  top := truncated.top
  same := truncated.same

theorem Truncated.load {w : Width} (fits : uc.current + w.bytes ≤ uc.end_) :
    cwLoad .unbounded mem' uc'.current w = cwLoad .unbounded mem uc.current w := by
  rw [truncated.current]
  refine cwLoad_congr fun a above below => truncated.same a ?_ ?_
  · exact truncated.low.trans above
  · omega

variable {u u' : ItemUnion}

/-- A check that fails on the longer buffer fails on the shorter one. -/
theorem Truncated.assertSpace {code : ReturnCode} (failing : code ≠ .ok) {more : Nat}
    {k k' : Nat → UnpackContext → UnpackContext}
    (continued : uc.current + more ≤ uc.end_ →
      InStep base mem mem' u u' (k uc.current (uc.advance more)) (k' uc'.current (uc'.advance more))) :
    InStep base mem mem' u u' (cwUnpackAssertSpace .unbounded code more uc k)
      (cwUnpackAssertSpace .unbounded code more uc' k') := by
  have sum : PtrModel.unbounded.add uc.current more = uc.current + more := rfl
  have sum' : PtrModel.unbounded.add uc'.current more = uc'.current + more := rfl
  have current := truncated.current
  have shorter := truncated.shorter
  simp only [cwUnpackAssertSpace, sum, sum']
  by_cases beyond : uc.current + more > uc.end_
  · rw [if_pos beyond]
    exact Or.inl failing
  · rw [if_neg beyond, if_neg (show ¬ uc'.current + more > uc'.end_ by omega)]
    exact continued (Nat.not_lt.mp beyond)

/-- A blob of a length that both contexts have read overwrites both words of the union. -/
theorem Truncated.assertBlob {type : ItemType} (typed : uc.item.type = type) (typed' : uc'.item.type = type)
    (length : uc'.item.as.length = uc.item.as.length)
    (blob : type ≠ .map ∧ type ≠ .boolean ∧ type ≠ .float) :
    InStep base mem mem' u u' (cwUnpackAssertBlob .unbounded uc) (cwUnpackAssertBlob .unbounded uc') := by
  unfold cwUnpackAssertBlob
  rw [length]
  refine truncated.assertSpace (by decide) fun fits => Or.inr ⟨(truncated.advance fits).withItem _ _, ?_⟩
  have start : (BitVec.ofNat 32 uc.current).toNat = uc.current :=
    Nat.mod_eq_of_lt (truncated.high.trans_lt truncated.top)
  have union : uc'.item.as.setStart (BitVec.ofNat 32 uc'.current) =
      uc.item.as.setStart (BitVec.ofNat 32 uc.current) := by
    rw [truncated.current]
    exact congrArg (ItemUnion.mk (BitVec.ofNat 32 uc.current)) length
  constructor
  · exact typed'.trans typed.symm
  · exact fun _ => union
  · intro _
    refine ⟨union, ?_, ?_⟩
    · exact start.symm ▸ truncated.low
    · exact start.symm ▸ fits
  · exact fun isMap => absurd (typed.symm.trans isMap) blob.1
  · rintro (isBool | isFloat)
    · exact absurd (typed.symm.trans isBool) blob.2.1
    · exact absurd (typed.symm.trans isFloat) blob.2.2

/-- An item whose value is stored over what the union held before. -/
theorem Truncated.stored {type : ItemType} (store : ItemUnion → ItemUnion)
    (item : uc.item = ⟨type, store u⟩) (item' : uc'.item = ⟨type, store u'⟩)
    (notStr : type ≠ .str) (map : type = .map → ∀ u u', (store u').size = (store u).size)
    (length : type = .boolean ∨ type = .float → ∀ u, (store u).length = u.length) :
    InStep base mem mem' u u' uc uc' := by
  refine Or.inr ⟨truncated, ?_⟩
  constructor
  · rw [item, item']
  · intro same
    rw [item, item', same]
  · rw [item]
    exact fun isStr => absurd isStr notStr
  · rw [item, item']
    exact fun isMap => map isMap _ _
  · rw [item]
    exact fun short => length short _

theorem Truncated.sized {w : Width} {type : ItemType} {store : ItemUnion → BitVec 64 → ItemUnion}
    {k k' : UnpackContext → UnpackContext}
    (continued : ∀ n (next next' : UnpackContext), Truncated base mem mem' next next' →
      next.item = ⟨type, store uc.item.as n⟩ → next'.item = ⟨type, store uc'.item.as n⟩ →
      InStep base mem mem' u u' (k next) (k' next')) :
    InStep base mem mem' u u' (getDDItemSized .unbounded mem w type store uc k)
      (getDDItemSized .unbounded mem' w type store uc' k') := by
  unfold getDDItemSized
  refine (truncated.withItem _ _).assertSpace (by decide) fun fits => ?_
  have loaded := truncated.load fits
  refine continued (cwLoad .unbounded mem uc.current w) _ _ ((truncated.advance fits).withItem _ _) rfl ?_
  exact congrArg (fun n => CwpackItem.mk type (store uc'.item.as n)) loaded

/-- The body of the `switch` on the two buffers, for every first byte. -/
theorem Truncated.cwUnpackItem (c : Byte) :
    InStep base mem mem' uc.item.as uc'.item.as (cwUnpackItem .unbounded mem c uc) (cwUnpackItem .unbounded mem' c uc') := by
  have sized {w : Width} {type : ItemType} {store : ItemUnion → BitVec 64 → ItemUnion} (notStr : type ≠ .str)
      (map : type = .map → ∀ n u u', (store u' n).size = (store u n).size)
      (length : type = .boolean ∨ type = .float → ∀ n u, (store u n).length = u.length) :
      InStep base mem mem' uc.item.as uc'.item.as (getDDItemSized .unbounded mem w type store uc id)
        (getDDItemSized .unbounded mem' w type store uc' id) :=
    truncated.sized fun n next next' both item item' =>
      both.stored (store · n) item item' notStr (fun isMap => map isMap n) (fun short => length short n)
  have blob {w : Width} {type : ItemType} (isBlob : type ≠ .map ∧ type ≠ .boolean ∧ type ≠ .float) :
      InStep base mem mem' uc.item.as uc'.item.as
        (getDDItemSized .unbounded mem w type (fun u n => u.setLength (n.setWidth 32)) uc
          (cwUnpackAssertBlob .unbounded))
        (getDDItemSized .unbounded mem' w type (fun u n => u.setLength (n.setWidth 32)) uc'
          (cwUnpackAssertBlob .unbounded)) := by
    refine truncated.sized fun n next next' both item item' => ?_
    exact both.assertBlob (by rw [item]) (by rw [item']) (by rw [item, item']; rfl) isBlob
  have plain {type : ItemType} {store : ItemUnion → ItemUnion} (notStr : type ≠ .str)
      (map : type = .map → ∀ u u', (store u').size = (store u).size)
      (length : type = .boolean ∨ type = .float → ∀ u, (store u).length = u.length) :
      InStep base mem mem' uc.item.as uc'.item.as (getDDItem type store uc) (getDDItem type store uc') :=
    (truncated.withItem _ _).stored store rfl rfl notStr map length
  unfold Maglev.cwUnpackItem
  cases formatOf c with
  | posFixnum | fixarray | negFixnum => exact plain (by simp) (by simp) (by simp)
  | nil => exact @plain .nil id (by simp) (by simp) (by simp)
  | fixmap => exact plain (by simp) (by simp) (by simp)
  | bool b => exact plain (by simp) (by simp) (by simp)
  | illegal => exact Or.inl (by simp [unpackError])
  | fixstr => exact (truncated.withItem _ _).assertBlob rfl rfl rfl (by simp)
  | bin w => exact blob (by simp)
  | str w => exact blob (by simp)
  | ext w =>
    refine truncated.sized fun n next next' both item item' => ?_
    refine both.assertSpace (by decide) fun fits => ?_
    have type : mem' next'.current = mem next.current := by
      rw [both.current]
      exact both.same _ both.low (by omega)
    refine ((both.advance fits).withItem _ _).assertBlob rfl (congrArg ItemType.ext type) ?_ (by simp)
    show next'.item.as.length = next.item.as.length
    rw [item, item']
    rfl
  | float | double | uint w | array w => exact sized (by simp) (by simp) (by simp)
  | map w => exact sized (by simp) (by simp) (by simp)
  | sint w =>
    refine truncated.sized fun n next next' both item item' => ?_
    have union : next'.item = next.item := by
      rw [item, item']
      rfl
    rw [union]
    split
    · exact (both.withItem _ _).stored (fun u => u.setI64 (signed w n))
        (congrArg (fun i => CwpackItem.mk .positiveInteger i.as) item)
        (congrArg (fun i => CwpackItem.mk .positiveInteger i.as) item') (by simp) (by simp) (by simp)
    · exact both.stored (fun u => u.setI64 (signed w n)) item item' (by simp) (by simp) (by simp)
  | fixext len =>
    refine truncated.assertSpace (by decide) fun fits => ?_
    have type : mem' uc'.current = mem uc.current := by
      rw [truncated.current]
      exact truncated.same _ truncated.low (by omega)
    exact ((truncated.advance fits).withItem _ _).assertBlob rfl (congrArg ItemType.ext type) rfl (by simp)

end

/-- A call on the shorter buffer fails, or does what it does on the longer one. -/
theorem Truncated.cwUnpackNext {base : Nat} {mem mem' : Mem} {uc uc' : UnpackContext}
    (truncated : Truncated base mem mem' uc uc') :
    InStep base mem mem' uc.item.as uc'.item.as (cwUnpackNext .unbounded mem uc) (cwUnpackNext .unbounded mem' uc') := by
  unfold Maglev.cwUnpackNext
  rw [if_neg (not_not_intro truncated.ok), if_neg (not_not_intro truncated.ok')]
  refine truncated.assertSpace (by decide) fun fits => ?_
  have first : mem' uc'.current = mem uc.current := by
    rw [truncated.current]
    exact truncated.same _ truncated.low (by omega)
  rw [first]
  exact (truncated.advance fits).cwUnpackItem (mem uc.current)

end Maglev
