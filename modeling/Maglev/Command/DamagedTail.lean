import Maglev.CWPack.Truncated
import Maglev.Command.Handler

namespace Maglev

/-- All assignments of a run, in the order in which they are made. -/
def CommandRun.assigned (run : CommandRun) : List Assignment := run.iterations.flatMap Iteration.assigned

/-- The key or the value of the pair could not be unpacked. -/
def Iteration.Damaged (i : Iteration) : Prop :=
  i.key.returnCode ≠ .ok ∨ ∃ value ∈ i.value, value.returnCode ≠ .ok

/-- An item that cannot be unpacked is the last one that has an effect: without the
header there are no pairs, and from a damaged pair on nothing is assigned. -/
structure StopsAtDamage (run : CommandRun) : Prop where
  header : ∀ call ∈ run.calls.head?, call.2.returnCode ≠ .ok → run.iterations = []
  pair : ∀ i ∈ run.iterations, i.Damaged → i.assigned = []
  later : run.iterations.Pairwise fun earlier later => earlier.Damaged → later.assigned = []

/-- A context after an error says that it has no item. -/
def Sound (uc : UnpackContext) : Prop := uc.returnCode ≠ .ok → uc.item.type = .notAnItem

theorem Advances.sound {pm : PtrModel} {end_ : Nat} {code : ReturnCode} {steps : List Nat} {p : Nat}
    {trail : List Nat} {after : UnpackContext} (moved : Advances pm end_ code steps p trail after) : Sound after := by
  induction moved with
  | done _ _ _ codeIs failed => exact fun notOk => failed (codeIs ▸ notOk)
  | refused _ _ _ _ _ failed => exact fun _ => failed
  | fits _ _ ih => exact ih

theorem Sound.next {uc : UnpackContext} (sound : Sound uc) (pm : PtrModel) (mem : Mem) :
    Sound (cwUnpackNext pm mem uc) := by
  by_cases ok : uc.returnCode = .ok
  · exact (cwUnpackNext_advances pm mem ok).sound
  · rw [cwUnpackNext_of_failed ok]
    exact sound

section

variable (pm : PtrModel) (mem : Mem)

theorem pairAssignments_of_notAnItem (key : BitVec 32) {value : UnpackContext}
    (none : value.item.type = .notAnItem) : pairAssignments pm mem key value = [] := by
  simp [pairAssignments, none]

/-- One pass: its own assignments, and those of the passes behind it. -/
theorem commandLoop_assigned (n : Nat) (uc : UnpackContext) (mc : Motor) :
    (commandLoop pm mem (n + 1) uc mc).assigned =
      let key := cwUnpackNext pm mem uc
      let value := cwUnpackNext pm mem key
      let assigned := pairAssignments pm mem key.item.as.start value
      if key.item.type = .str then
        assigned ++ (commandLoop pm mem n value (assigned.foldl Assignment.apply mc)).assigned
      else [] := by
  rw [commandLoop]
  by_cases isStr : (cwUnpackNext pm mem uc).item.type = .str
  · simp only [if_neg (not_not_intro isStr), if_pos isStr, CommandRun.assigned, List.flatMap_cons]
  · simp only [if_pos isStr, if_neg isStr, CommandRun.assigned, List.flatMap_cons, List.flatMap_nil, List.append_nil]

/-- The error is sticky: the loop only finds that there is no key. -/
theorem commandLoop_of_failed {uc : UnpackContext} (sound : Sound uc) (failed : uc.returnCode ≠ .ok) (n : Nat)
    (mc : Motor) : (commandLoop pm mem n uc mc).assigned = [] := by
  cases n with
  | zero => rfl
  | succ n =>
    have noKey : (cwUnpackNext pm mem uc).item.type ≠ .str := by
      rw [cwUnpackNext_of_failed failed, sound failed]
      decide
    rw [commandLoop_assigned]
    exact if_neg noKey

theorem commandLoop_stops {uc : UnpackContext} (sound : Sound uc) (n : Nat) (mc : Motor) :
    (∀ i ∈ (commandLoop pm mem n uc mc).iterations, i.Damaged → i.assigned = []) ∧
      (commandLoop pm mem n uc mc).iterations.Pairwise fun earlier later => earlier.Damaged → later.assigned = [] := by
  induction n generalizing uc mc with
  | zero => simp [commandLoop]
  | succ n ih =>
    rw [commandLoop]
    have key := sound.next pm mem
    have value := key.next pm mem
    by_cases isStr : (cwUnpackNext pm mem uc).item.type = .str
    · rw [if_neg (not_not_intro isStr)]
      dsimp only
      have keyOk : (cwUnpackNext pm mem uc).returnCode = .ok := by
        by_contra notOk
        rw [key notOk] at isStr
        cases isStr
      -- a damaged pair can only be one without a value
      have damaged {start : UnpackContext} {assigned : List Assignment} (is : Iteration.Damaged
          ⟨start, cwUnpackNext pm mem uc, some (cwUnpackNext pm mem (cwUnpackNext pm mem uc)), assigned⟩) :
          (cwUnpackNext pm mem (cwUnpackNext pm mem uc)).returnCode ≠ .ok := by
        rcases is with noKey | ⟨_, ⟨⟩, noValue⟩
        · exact absurd keyOk noKey
        · exact noValue
      obtain ⟨pair, later⟩ := ih value
        ((pairAssignments pm mem (cwUnpackNext pm mem uc).item.as.start
          (cwUnpackNext pm mem (cwUnpackNext pm mem uc))).foldl Assignment.apply mc)
      refine ⟨List.forall_mem_cons.mpr ⟨fun is => ?_, pair⟩, List.pairwise_cons.mpr ⟨fun i member is => ?_, later⟩⟩
      · exact pairAssignments_of_notAnItem pm mem _ (value (damaged is))
      · exact List.flatMap_eq_nil_iff.mp (commandLoop_of_failed pm mem value (damaged is) n _) i member
    · rw [if_pos isStr]
      simp

theorem commandLoop_mc (n : Nat) (uc : UnpackContext) (mc : Motor) :
    (commandLoop pm mem n uc mc).mc = (commandLoop pm mem n uc mc).assigned.foldl Assignment.apply mc := by
  induction n generalizing uc mc with
  | zero => rfl
  | succ n ih =>
    rw [commandLoop_assigned, commandLoop]
    by_cases isStr : (cwUnpackNext pm mem uc).item.type = .str
    · simp only [if_neg (not_not_intro isStr), if_pos isStr, List.foldl_append, ih]
    · simp only [if_pos isStr, if_neg isStr, List.foldl_nil]

/-- The handler is the loop, behind a header that is a map. -/
theorem handleIncomingCommand_of_map {uc : UnpackContext} (isMap : (cwUnpackNext pm mem uc).item.type = .map)
    (m1 : Motor) :
    let header := cwUnpackNext pm mem uc
    let run := commandLoop pm mem header.item.as.size.toInt.toNat header m1
    handleIncomingCommand pm mem .cmdM1 uc m1 = { run with calls := (uc, header) :: run.calls } := by
  simp only [handleIncomingCommand, isMap, ne_eq, not_true_eq_false, if_false]

theorem handleIncomingCommand_of_not_map {inpubType : InpubType} {uc : UnpackContext}
    (other : ¬ (inpubType = .cmdM1 ∧ (cwUnpackNext pm mem uc).item.type = .map)) (m1 : Motor) :
    (handleIncomingCommand pm mem inpubType uc m1).iterations = [] ∧
      (handleIncomingCommand pm mem inpubType uc m1).mc = m1 := by
  unfold handleIncomingCommand
  by_cases forM1 : inpubType = .cmdM1
  · have notMap : (cwUnpackNext pm mem uc).item.type ≠ .map := fun isMap => other ⟨forM1, isMap⟩
    simp [forM1, notMap]
  · simp [forM1]

theorem handleIncomingCommand_stops {uc : UnpackContext} (sound : Sound uc) (inpubType : InpubType) (m1 : Motor) :
    StopsAtDamage (handleIncomingCommand pm mem inpubType uc m1) := by
  by_cases command : inpubType = .cmdM1 ∧ (cwUnpackNext pm mem uc).item.type = .map
  · obtain ⟨rfl, isMap⟩ := command
    have header := sound.next pm mem
    obtain ⟨pair, later⟩ := commandLoop_stops pm mem header (cwUnpackNext pm mem uc).item.as.size.toInt.toNat m1
    rw [handleIncomingCommand_of_map pm mem isMap]
    refine ⟨?_, pair, later⟩
    rintro _ ⟨⟩ failed
    rw [header failed] at isMap
    cases isMap
  · have none := (handleIncomingCommand_of_not_map pm mem command m1).1
    exact ⟨fun _ _ _ => none, by simp [none], by simp [none]⟩

theorem handleIncomingCommand_mc (inpubType : InpubType) (uc : UnpackContext) (m1 : Motor) :
    (handleIncomingCommand pm mem inpubType uc m1).mc =
      (handleIncomingCommand pm mem inpubType uc m1).assigned.foldl Assignment.apply m1 := by
  by_cases command : inpubType = .cmdM1 ∧ (cwUnpackNext pm mem uc).item.type = .map
  · obtain ⟨rfl, isMap⟩ := command
    rw [handleIncomingCommand_of_map pm mem isMap]
    exact commandLoop_mc pm mem _ _ m1
  · obtain ⟨none, same⟩ := handleIncomingCommand_of_not_map pm mem command m1
    rw [same, CommandRun.assigned, none]
    rfl

end

/-- The stores leave the rest of the record alone. -/
theorem foldl_apply_frame (assigned : List Assignment) (mc : Motor) :
    assigned.foldl Assignment.apply mc =
      { mc with
        enabled := (assigned.foldl Assignment.apply mc).enabled
        iTarget := (assigned.foldl Assignment.apply mc).iTarget } := by
  induction assigned generalizing mc with
  | nil => rfl
  | cons a assigned ih =>
    rw [List.foldl_cons, ih]
    cases a with
    | enabled b => rfl
    | iTarget bits => rfl

/-- The comparisons see only characters of the key, wherever they matter. -/
theorem pairAssignments_congr {mem mem' : Mem} {key : BitVec 32} {value value' : UnpackContext}
    (item : value'.item = value.item)
    (chars : value.item.type = .boolean ∨ value.item.type = .float →
      ∀ i < value.item.as.length.toNat, mem' (key.toNat + i) = mem (key.toNat + i)) :
    pairAssignments .unbounded mem' key value' = pairAssignments .unbounded mem key value := by
  unfold pairAssignments
  rw [item]
  by_cases matters : value.item.type = .boolean ∨ value.item.type = .float
  · have same (name : CString) : strncmp (fun i => mem' (PtrModel.unbounded.add key.toNat i)) name.char
        value.item.as.length.toNat =
        strncmp (fun i => mem (PtrModel.unbounded.add key.toNat i)) name.char value.item.as.length.toNat :=
      strncmp_congr (chars matters)
    simp only [same]
  · rw [not_or] at matters
    simp [matters]

theorem commandLoop_truncated {base : Nat} {mem mem' : Mem} {uc uc' : UnpackContext} (n : Nat) (mc mc' : Motor)
    (truncated : Truncated base mem mem' uc uc') :
    (commandLoop .unbounded mem n uc mc).assigned <+: (commandLoop .unbounded mem' n uc' mc').assigned := by
  induction n generalizing uc uc' mc mc' with
  | zero => exact List.nil_prefix
  | succ n ih =>
    rw [commandLoop_assigned, commandLoop_assigned]
    dsimp only
    by_cases isStr : (cwUnpackNext .unbounded mem uc).item.type = .str
    · have keySound := (cwUnpackNext_advances .unbounded mem truncated.ok).sound
      have valueSound := keySound.next .unbounded mem
      rcases truncated.cwUnpackNext with failed | ⟨key, sameKey⟩
      · rw [keySound failed] at isStr
        cases isStr
      · obtain ⟨union, low, high⟩ := sameKey.str isStr
        rw [if_pos isStr, if_pos (sameKey.type.trans isStr), union]
        rcases key.cwUnpackNext with failed | ⟨value, sameValue⟩
        · rw [pairAssignments_of_notAnItem _ _ _ (valueSound failed),
            commandLoop_of_failed .unbounded mem valueSound failed]
          exact List.nil_prefix
        · rw [pairAssignments_congr (sameValue.item union) ?_, List.prefix_append_right_inj]
          · exact ih _ _ value
          · intro matters i below
            rw [sameValue.length matters] at below
            exact key.same _ (by omega) (by omega)
    · rw [if_neg isStr]
      exact List.nil_prefix

theorem handleIncomingCommand_truncated {base : Nat} {mem mem' : Mem} {uc uc' : UnpackContext}
    (truncated : Truncated base mem mem' uc uc') (inpubType : InpubType) (m1 m1' : Motor) :
    (handleIncomingCommand .unbounded mem inpubType uc m1).assigned <+:
      (handleIncomingCommand .unbounded mem' inpubType uc' m1').assigned := by
  by_cases command : inpubType = .cmdM1 ∧ (cwUnpackNext .unbounded mem uc).item.type = .map
  · obtain ⟨rfl, isMap⟩ := command
    rcases truncated.cwUnpackNext with failed | ⟨header, same⟩
    · rw [(cwUnpackNext_advances .unbounded mem truncated.ok).sound failed] at isMap
      cases isMap
    · rw [handleIncomingCommand_of_map _ _ isMap, handleIncomingCommand_of_map _ _ (same.type.trans isMap),
        same.map isMap]
      exact commandLoop_truncated _ m1 m1' header
  · have none := (handleIncomingCommand_of_not_map .unbounded mem command m1).1
    rw [CommandRun.assigned, none]
    exact List.nil_prefix

theorem truncated_init {base : Nat} {mem mem' : Mem} {p q : List Byte} (cut : q <+: p) (held : Holds mem base q)
    (held' : Holds mem' base p) (top : base + q.length < 2 ^ 32) (uc uc' : UnpackContext) :
    Truncated base mem mem' (cwUnpackContextInit .unbounded uc base q.length)
      (cwUnpackContextInit .unbounded uc' base p.length) where
  ok := rfl
  ok' := rfl
  current := rfl
  low := Nat.le_refl _
  high := Nat.le_add_right _ _
  shorter := Nat.add_le_add_left cut.length_le base
  top := top
  same := by
    obtain ⟨rest, rfl⟩ := cut
    intro a above below
    have inside : a - base < q.length := by
      have last : a < base + q.length := below
      omega
    have here := held.getElem inside
    have there := (holds_append.mp held').1.getElem inside
    rw [Nat.add_sub_cancel' above] at here there
    rw [here, there]

/-- The assignments of a command that was cut off somewhere are the first ones of the whole
command; nothing is assigned from the damage on, and nothing else is ever changed. -/
theorem handleIncomingCommand_damagedTail {base : Nat} {mem mem' : Mem} {p q : List Byte} (cut : q <+: p)
    (small : p.length ≤ 1024) (held : Holds mem base q) (held' : Holds mem' base p) (top : base + 1024 < 2 ^ 32)
    (inpubType : InpubType) (uc uc' : UnpackContext) (m1 m1' : Motor) :
    let damaged := handleIncomingCommand .unbounded mem inpubType
      (cwUnpackContextInit .unbounded uc base q.length) m1
    let whole := handleIncomingCommand .unbounded mem' inpubType
      (cwUnpackContextInit .unbounded uc' base p.length) m1'
    damaged.assigned <+: whole.assigned ∧ StopsAtDamage damaged ∧
      damaged.mc = damaged.assigned.foldl Assignment.apply m1 ∧
      damaged.mc = { m1 with enabled := damaged.mc.enabled, iTarget := damaged.mc.iTarget } := by
  intro damaged whole
  have short : q.length ≤ 1024 := cut.length_le.trans small
  have truncated := truncated_init cut held held' (show base + q.length < 2 ^ 32 by omega) uc uc'
  have stores := handleIncomingCommand_mc .unbounded mem inpubType
    (cwUnpackContextInit .unbounded uc base q.length) m1
  refine ⟨handleIncomingCommand_truncated truncated inpubType m1 m1', ?_, stores, ?_⟩
  · exact handleIncomingCommand_stops .unbounded mem (fun failed => absurd rfl failed) inpubType m1
  · have frame := foldl_apply_frame damaged.assigned m1
    rwa [← stores] at frame

/-- A command with both settings. -/
def twoSettings : List Byte :=
  [0x82#8, 0xa6#8] ++ literal "enable" ++ [0xc3#8, 0xa8#8] ++ literal "i_target" ++
    [0xca#8, 0x3f#8, 0x80#8, 0x00#8, 0x00#8]

/-- Cut off inside the number, the command only enables the motor. -/
theorem handleIncomingCommand_damagedTail_twoSettings :
    let run (bytes : List Byte) := handleIncomingCommand .unbounded (Mem.store (fun _ => 0xff#8) 0x20000000 bytes)
      .cmdM1 (cwUnpackContextInit .unbounded default 0x20000000 bytes.length) staticM1
    (run (twoSettings.take 20)).assigned = [.enabled true] ∧
      (run twoSettings).assigned = [.enabled true, .iTarget 0x3f800000#32] ∧
      StopsAtDamage (run (twoSettings.take 20)) := by
  intro run
  have held (bytes : List Byte) : Holds (Mem.store (fun _ => 0xff#8) 0x20000000 bytes) 0x20000000 bytes :=
    Mem.store_holds _ _ _
  have cut := handleIncomingCommand_damagedTail (twoSettings.take_prefix 20) (by decide) (held _) (held _) (by decide)
    .cmdM1 default default staticM1 staticM1
  exact ⟨by decide +kernel, by decide +kernel, cut.2.1⟩

end Maglev
