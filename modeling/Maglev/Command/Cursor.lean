import Maglev.CWPack.Advance
import Maglev.Command.Handler

namespace Maglev

/-- Calls of `cw_unpack_next` one after the other, each as its context before and after. -/
inductive Calls (pm : PtrModel) (mem : Mem) :
    UnpackContext → List (UnpackContext × UnpackContext) → UnpackContext → Prop
  | nil {uc} : Calls pm mem uc [] uc
  | cons {uc rest last} : Calls pm mem (cwUnpackNext pm mem uc) rest last →
      Calls pm mem uc ((uc, cwUnpackNext pm mem uc) :: rest) last

theorem commandLoop_calls (pm : PtrModel) (mem : Mem) (n : Nat) (uc : UnpackContext) (mc : Motor) :
    Calls pm mem uc (commandLoop pm mem n uc mc).calls (commandLoop pm mem n uc mc).uc := by
  induction n generalizing uc mc with
  | zero => exact .nil
  | succ n ih =>
    rw [commandLoop]
    split
    · exact .cons .nil
    · exact .cons (.cons (ih _ _))

/-- The handler moves the cursor only through its recorded calls. -/
theorem handleIncomingCommand_calls (pm : PtrModel) (mem : Mem) (inpubType : InpubType) (uc : UnpackContext)
    (m1 : Motor) : Calls pm mem uc (handleIncomingCommand pm mem inpubType uc m1).calls
      (handleIncomingCommand pm mem inpubType uc m1).uc := by
  rw [handleIncomingCommand]
  split
  · exact .nil
  · dsimp only
    split
    · exact .cons .nil
    · exact .cons (commandLoop_calls ..)

/-- None of the advances wraps around to an address at or before the first byte
of the item; those behind one that is refused do not matter. -/
def SafeAdvances (first end_ : Nat) : Nat → List Nat → Prop
  | _, [] => True
  | p, s :: rest => (p + s < 2 ^ 32 ∨ first + 2 ^ 32 < p + s) ∧ (p + s ≤ end_ → SafeAdvances first end_ (p + s) rest)

instance decidableSafeAdvances (first end_ : Nat) : ∀ p steps, Decidable (SafeAdvances first end_ p steps)
  | _, [] => isTrue trivial
  | p, s :: rest =>
    have := decidableSafeAdvances first end_ (p + s) rest
    inferInstanceAs (Decidable (_ ∧ _))

/-- The lengths that the item at the cursor declares do no harm. -/
def SafeItem (mem : Mem) (uc : UnpackContext) : Prop :=
  uc.returnCode = .ok → SafeAdvances uc.current uc.end_ uc.current (itemAdvances .wrap32 mem uc.current)

instance (mem : Mem) (uc : UnpackContext) : Decidable (SafeItem mem uc) := inferInstanceAs (Decidable (_ → _))

structure CursorSafe (base len : Nat) (run : CommandRun) : Prop where
  inside : ∀ p ∈ run.uc.trail, base ≤ p ∧ p ≤ base + len
  advances : ∀ call ∈ run.calls, call.2.returnCode = .ok → call.1.current < call.2.current
  iterations : run.iterations.length ≤ len

/-- A context whose cursor is, and has always been, in the buffer. -/
structure Within (base end_ : Nat) (uc : UnpackContext) : Prop where
  ended : uc.end_ = end_
  low : base ≤ uc.current
  high : uc.current ≤ end_
  trail : ∀ p ∈ uc.trail, base ≤ p ∧ p ≤ end_
  failed : uc.returnCode ≠ .ok → uc.item.type = .notAnItem

section

variable {base end_ : Nat} (span : end_ ≤ base + 1024) (top : end_ < 2 ^ 32)
variable {code : ReturnCode} {steps : List Nat} {first p : Nat} {trail : List Nat} {after : UnpackContext}

theorem Advances.trail_subset {pm : PtrModel} (moved : Advances pm end_ code steps p trail after) :
    ∀ q ∈ trail, q ∈ after.trail := by
  induction moved with
  | done _ same => exact fun q member => same ▸ member
  | refused _ _ same => exact fun q member => same ▸ member
  | fits _ _ ih => exact fun q member => ih q (List.mem_cons_of_mem _ member)

theorem dropLast_cons_subset {α : Type*} (a : α) (l : List α) {b : α} (member : b ∈ l.dropLast) :
    b ∈ (a :: l).dropLast := by
  cases l with
  | nil => simp at member
  | cons c l => exact List.mem_cons_of_mem _ member

include span top

/-- Safe advances keep the cursor behind the first byte of the item and inside the buffer. -/
theorem Advances.within (moved : Advances .wrap32 end_ code steps p trail after)
    (bounded : ∀ s ∈ steps, s < 2 ^ 32) (short : ∀ s ∈ steps.dropLast, s ≤ 8)
    (safe : SafeAdvances first end_ p steps) (low : base ≤ first) (behind : first < p) (high : p ≤ end_)
    (inside : ∀ q ∈ trail, base ≤ q ∧ q ≤ end_) : first < after.current ∧ Within base end_ after := by
  induction moved with
  | @done p trail after current same ended codeIs failed =>
    have fails : after.returnCode ≠ .ok → after.item.type = .notAnItem := codeIs ▸ failed
    exact ⟨by omega, ended, by omega, by omega, same ▸ inside, fails⟩
  | @refused s rest p trail after beyond current same ended notOk failed =>
    exact ⟨by omega, ended, by omega, by omega, same ▸ inside, fun _ => failed⟩
  | @fits s rest p trail after fits moved ih =>
    have stepBound : s < 2 ^ 32 := bounded s (List.mem_cons_self ..)
    obtain ⟨noHarm, onward⟩ := safe
    rcases noHarm with plain | wrapped
    · have sum : PtrModel.wrap32.add p s = p + s := PtrModel.wrap32.add_of_lt plain
      rw [sum] at fits moved ih
      apply ih
      · exact fun t member => bounded t (List.mem_cons_of_mem _ member)
      · exact fun t member => short t (dropLast_cons_subset s rest member)
      · exact onward fits
      · omega
      · exact fits
      · exact List.forall_mem_cons.mpr ⟨by omega, inside⟩
    · have sum := PtrModel.wrap32_add_lt (by omega : p < 2 ^ 32) stepBound (by omega)
      cases rest with
      | cons next others =>
        have small := short s (List.mem_cons_self ..)
        omega
      | nil =>
        cases moved with
        | done current same ended codeIs failed =>
          refine ⟨by omega, ended, by omega, by omega, ?_, codeIs ▸ failed⟩
          rw [same]
          exact List.forall_mem_cons.mpr ⟨by omega, inside⟩

/-- The converse: where the cursor stays in the buffer and gets behind the first
byte of the item, no advance has done harm. -/
theorem Advances.safe (moved : Advances .wrap32 end_ code steps p trail after)
    (bounded : ∀ s ∈ steps, s < 2 ^ 32) (short : ∀ s ∈ steps.dropLast, s ≤ 8)
    (illegal : code ≠ .ok → ∀ s ∈ steps, s ≤ 8) (low : base ≤ p) (high : p ≤ end_)
    (inside : ∀ q ∈ after.trail, base ≤ q ∧ q ≤ end_) (advanced : after.returnCode = .ok → first < after.current) :
    SafeAdvances first end_ p steps := by
  induction moved with
  | done => trivial
  | @refused s rest p trail after beyond =>
    have stepBound : s < 2 ^ 32 := bounded s (List.mem_cons_self ..)
    have noWrap : p + s < 2 ^ 32 := by
      by_contra wraps
      have sum := PtrModel.wrap32_add_lt (by omega : p < 2 ^ 32) stepBound (by omega)
      omega
    rw [PtrModel.wrap32.add_of_lt noWrap] at beyond
    exact ⟨Or.inl noWrap, fun fits => absurd fits (by omega)⟩
  | @fits s rest p trail after fits moved ih =>
    have stepBound : s < 2 ^ 32 := bounded s (List.mem_cons_self ..)
    have visited := inside _ (moved.trail_subset _ (List.mem_cons_self ..))
    by_cases plain : p + s < 2 ^ 32
    · have sum : PtrModel.wrap32.add p s = p + s := PtrModel.wrap32.add_of_lt plain
      rw [sum] at visited ih
      refine ⟨Or.inl plain, fun _ => ih ?_ ?_ ?_ visited.1 visited.2 inside advanced⟩
      · exact fun t member => bounded t (List.mem_cons_of_mem _ member)
      · exact fun t member => short t (dropLast_cons_subset s rest member)
      · exact fun notOk t member => illegal notOk t (List.mem_cons_of_mem _ member)
    · have sum := PtrModel.wrap32_add_lt (by omega : p < 2 ^ 32) stepBound (by omega)
      -- A wrapped header field lands near address zero, far below the buffer.
      have long : ¬ s ≤ 8 := fun small => by omega
      refine ⟨Or.inr ?_, fun fits => absurd fits (by omega)⟩
      cases rest with
      | cons next others => exact absurd (short s (List.mem_cons_self ..)) long
      | nil =>
        cases moved with
        | done current _ _ codeIs _ =>
          have ok : after.returnCode = .ok := by
            by_contra notOk
            exact long (illegal (codeIs ▸ notOk) s (List.mem_cons_self ..))
          have behind := advanced ok
          omega

variable {mem : Mem} {uc : UnpackContext}

/-- A call on a safe item keeps the cursor in the buffer, and moves it on if it returns an item. -/
theorem cwUnpackNext_within (within : Within base end_ uc) (safe : SafeItem mem uc) :
    Within base end_ (cwUnpackNext .wrap32 mem uc) ∧ uc.current ≤ (cwUnpackNext .wrap32 mem uc).current ∧
      ((cwUnpackNext .wrap32 mem uc).returnCode = .ok → uc.current < (cwUnpackNext .wrap32 mem uc).current) := by
  by_cases ok : uc.returnCode = .ok
  · have moved := cwUnpackNext_advances .wrap32 mem ok
    have bounded := itemAdvances_lt .wrap32 mem uc.current
    have short := itemAdvances_short .wrap32 mem uc.current
    have allowed := safe ok
    obtain ⟨ended, low, high, inside, failed⟩ := within
    obtain ⟨rest, split⟩ := itemAdvances_cons .wrap32 mem uc.current
    rw [split, ended] at moved allowed
    rw [split] at bounded short
    cases moved with
    | refused beyond current same ended notOk failed =>
      exact ⟨⟨ended, by omega, by omega, same ▸ inside, fun _ => failed⟩, by omega, fun ok => absurd ok notOk⟩
    | fits fits moved =>
      obtain ⟨noHarm, onward⟩ := allowed
      have sum : PtrModel.wrap32.add uc.current 1 = uc.current + 1 := PtrModel.wrap32.add_of_lt (by omega)
      rw [sum] at fits moved
      have result := moved.within span top (fun t member => bounded t (List.mem_cons_of_mem _ member))
        (fun t member => short t (dropLast_cons_subset _ rest member)) (onward fits) low (Nat.lt_succ_self _) fits
        (List.forall_mem_cons.mpr ⟨by omega, inside⟩)
      exact ⟨result.2, by omega, fun _ => result.1⟩
  · have stays : cwUnpackNext .wrap32 mem uc = uc := if_pos ok
    rw [stays]
    exact ⟨within, Nat.le_refl _, fun isOk => absurd isOk ok⟩

theorem safeItem_of_advances (within : Within base end_ uc)
    (inside : ∀ p ∈ (cwUnpackNext .wrap32 mem uc).trail, base ≤ p ∧ p ≤ end_)
    (advanced : (cwUnpackNext .wrap32 mem uc).returnCode = .ok →
      uc.current < (cwUnpackNext .wrap32 mem uc).current) : SafeItem mem uc := by
  intro ok
  have moved := cwUnpackNext_advances .wrap32 mem ok
  rw [within.ended] at moved ⊢
  refine moved.safe span top (itemAdvances_lt _ _ _) (itemAdvances_short _ _ _) ?_ within.low within.high inside
    advanced
  intro failing s member
  rw [itemAdvances_of_illegal failing, List.mem_singleton] at member
  omega

variable {calls : List (UnpackContext × UnpackContext)} {last : UnpackContext}

theorem Calls.within (made : Calls .wrap32 mem uc calls last) (within : Within base end_ uc)
    (safe : ∀ call ∈ calls, SafeItem mem call.1) :
    Within base end_ last ∧ ∀ call ∈ calls, call.2.returnCode = .ok → call.1.current < call.2.current := by
  induction made with
  | nil => exact ⟨within, by simp⟩
  | cons rest ih =>
    obtain ⟨first, others⟩ := List.forall_mem_cons.mp safe
    obtain ⟨next, _, advanced⟩ := cwUnpackNext_within span top within first
    obtain ⟨final, behind⟩ := ih next others
    exact ⟨final, List.forall_mem_cons.mpr ⟨advanced, behind⟩⟩

omit span top in
theorem Calls.trail_subset {pm : PtrModel} (made : Calls pm mem uc calls last) :
    ∀ p ∈ uc.trail, p ∈ last.trail := by
  induction made with
  | nil => exact fun _ member => member
  | @cons uc rest last _ ih =>
    intro p member
    apply ih
    by_cases ok : uc.returnCode = .ok
    · exact (cwUnpackNext_advances pm mem ok).trail_subset p member
    · have stays : cwUnpackNext pm mem uc = uc := if_pos ok
      rwa [stays]

theorem Calls.safe (made : Calls .wrap32 mem uc calls last) (within : Within base end_ uc)
    (inside : ∀ p ∈ last.trail, base ≤ p ∧ p ≤ end_)
    (advances : ∀ call ∈ calls, call.2.returnCode = .ok → call.1.current < call.2.current) :
    ∀ call ∈ calls, SafeItem mem call.1 := by
  induction made with
  | nil => simp
  | cons rest ih =>
    obtain ⟨first, others⟩ := List.forall_mem_cons.mp advances
    have safe := safeItem_of_advances span top within (fun p member => inside p (rest.trail_subset p member)) first
    have next := (cwUnpackNext_within span top within safe).1
    exact List.forall_mem_cons.mpr ⟨safe, ih next inside others⟩

/-- Every iteration but the last one moves the cursor on, so there are no more of
them than bytes left in the buffer, and one in which the loop is left. -/
theorem commandLoop_iterations_le (n : Nat) (mc : Motor) (within : Within base end_ uc)
    (safe : ∀ call ∈ (commandLoop .wrap32 mem n uc mc).calls, SafeItem mem call.1) :
    (commandLoop .wrap32 mem n uc mc).iterations.length + uc.current ≤ end_ + 1 := by
  induction n generalizing uc mc with
  | zero =>
    have high := within.high
    simp only [commandLoop, List.length_nil]
    omega
  | succ n ih =>
    rw [commandLoop] at safe ⊢
    have high := within.high
    by_cases isStr : (cwUnpackNext .wrap32 mem uc).item.type = .str
    · simp only [isStr, ne_eq, not_true_eq_false, if_false, List.forall_mem_cons, List.length_cons] at safe ⊢
      obtain ⟨keySafe, valueSafe, restSafe⟩ := safe
      obtain ⟨keyWithin, _, keyAdvanced⟩ := cwUnpackNext_within span top within keySafe
      obtain ⟨valueWithin, valueBehind, _⟩ := cwUnpackNext_within span top keyWithin valueSafe
      have keyOk : (cwUnpackNext .wrap32 mem uc).returnCode = .ok := by
        by_contra notOk
        rw [keyWithin.failed notOk] at isStr
        cases isStr
      have advanced := keyAdvanced keyOk
      have rest := ih _ valueWithin restSafe
      omega
    · simp only [isStr, ne_eq, not_false_eq_true, if_true, List.length_singleton]
      omega

end

theorem within_init {base len : Nat} (top : base + len < 2 ^ 32) (uc : UnpackContext) :
    Within base (base + len) (cwUnpackContextInit .wrap32 uc base len) where
  ended := PtrModel.wrap32.add_of_lt top
  low := Nat.le_refl _
  high := Nat.le_add_right _ _
  trail := by simp [cwUnpackContextInit]
  failed := fun notOk => absurd rfl notOk

theorem handleIncomingCommand_iterations_le {mem : Mem} {base end_ : Nat} {uc : UnpackContext}
    (span : end_ ≤ base + 1024) (top : end_ < 2 ^ 32) (inpubType : InpubType) (m1 : Motor)
    (within : Within base end_ uc)
    (safe : ∀ call ∈ (handleIncomingCommand .wrap32 mem inpubType uc m1).calls, SafeItem mem call.1) :
    (handleIncomingCommand .wrap32 mem inpubType uc m1).iterations.length + uc.current ≤ end_ := by
  have high := within.high
  by_cases other : inpubType ≠ .cmdM1
  · simp only [handleIncomingCommand, if_pos other, List.length_nil]
    omega
  · by_cases isMap : (cwUnpackNext .wrap32 mem uc).item.type = .map
    · simp only [handleIncomingCommand, other, isMap, ne_eq, not_true_eq_false, if_false, List.forall_mem_cons]
        at safe ⊢
      obtain ⟨next, _, advanced⟩ := cwUnpackNext_within span top within safe.1
      have ok : (cwUnpackNext .wrap32 mem uc).returnCode = .ok := by
        by_contra notOk
        rw [next.failed notOk] at isMap
        cases isMap
      have behind := advanced ok
      have loop := commandLoop_iterations_le span top _ m1 next safe.2
      omega
    · simp only [handleIncomingCommand, other, isMap, ne_eq, not_false_eq_true, if_true, if_false, List.length_nil]
      omega

/-- The cursor stays in the buffer, moves on with every item and bounds the loop by the
length of the payload exactly when no declared length makes the bound check wrap around
to an address that the cursor has already left behind. -/
theorem handleIncomingCommand_cursorSafe_iff (mem : Mem) {base len : Nat} (small : len ≤ 1024)
    (top : base + 1024 < 2 ^ 32) (inpubType : InpubType) (uc : UnpackContext) (m1 : Motor) :
    CursorSafe base len
        (handleIncomingCommand .wrap32 mem inpubType (cwUnpackContextInit .wrap32 uc base len) m1) ↔
      ∀ call ∈ (handleIncomingCommand .wrap32 mem inpubType (cwUnpackContextInit .wrap32 uc base len) m1).calls,
        SafeItem mem call.1 := by
  have span : base + len ≤ base + 1024 := by omega
  have below : base + len < 2 ^ 32 := by omega
  have within := within_init below uc
  have made := handleIncomingCommand_calls .wrap32 mem inpubType (cwUnpackContextInit .wrap32 uc base len) m1
  constructor
  · intro outcome
    exact made.safe span below within outcome.inside outcome.advances
  · intro safe
    obtain ⟨final, advances⟩ := made.within span below within safe
    have count := handleIncomingCommand_iterations_le span below inpubType m1 within safe
    have begun : (cwUnpackContextInit .wrap32 uc base len).current = base := rfl
    exact ⟨final.trail, advances, by omega⟩

theorem handleIncomingCommand_cursorSafe_enable :
    CursorSafe 0x20000000 9
      (handleIncomingCommand .wrap32
        (Mem.store (fun _ => 0#8) 0x20000000 ([0x81#8, 0xa6#8] ++ literal "enable" ++ [0xc3#8])) .cmdM1
        (cwUnpackContextInit .wrap32 default 0x20000000 9) staticM1) :=
  (handleIncomingCommand_cursorSafe_iff _ (by decide) (by decide) .cmdM1 default staticM1).mpr (by decide +kernel)

/-- A key of declared length `2^32 - 5` leads the cursor back to the first byte of the
key: six bytes keep the loop busy for all the fifteen pairs that the map declares. -/
theorem handleIncomingCommand_rereads_key :
    ¬ CursorSafe 0x20000000 6
      (handleIncomingCommand .wrap32
        (Mem.store (fun _ => 0#8) 0x20000000 [0x8f#8, 0xdb#8, 0xff#8, 0xff#8, 0xff#8, 0xfb#8]) .cmdM1
        (cwUnpackContextInit .wrap32 default 0x20000000 6) staticM1) := by
  intro outcome
  exact absurd outcome.iterations (by decide +kernel)

end Maglev
