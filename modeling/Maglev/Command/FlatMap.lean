import Mathlib.Data.List.Basic
import Maglev.Command.Payload

namespace Maglev

open MessagePack

def Assignment.enabled? : Assignment → Option Bool
  | .enabled b => some b
  | .iTarget _ => none

def Assignment.iTarget? : Assignment → Option (BitVec 32)
  | .enabled _ => none
  | .iTarget bits => some bits

/-- Last writer wins: a part of the state that each step either sets or leaves
alone ends up as the last step that sets it has left it. -/
theorem foldl_lastWrite {σ α β : Type*} {step : σ → α → σ} {get : σ → β} {written : α → Option β}
    (stepped : ∀ s a, get (step s a) = (written a).getD (get s)) (actions : List α) (s : σ) :
    get (actions.foldl step s) = (actions.filterMap written).getLast?.getD (get s) := by
  induction actions generalizing s with
  | nil => rfl
  | cons a actions ih =>
    rw [List.foldl_cons, ih, stepped]
    cases wrote : written a with
    | none => simp [wrote]
    | some b => simp [wrote, List.getLast?_cons]

theorem Assignment.apply_enabled (mc : Motor) (a : Assignment) :
    (Assignment.apply mc a).enabled = a.enabled?.getD mc.enabled := by
  cases a <;> rfl

theorem Assignment.apply_iTarget (mc : Motor) (a : Assignment) :
    (Assignment.apply mc a).iTarget = a.iTarget?.getD mc.iTarget := by
  cases a <;> rfl

/-- The boolean of a pair whose key is exactly `enable`. -/
def enableField? : List Byte × Value → Option Bool
  | (key, .bool b) => if key = enableKey.bytes then some b else none
  | _ => none

/-- The single-precision float of a pair whose key is exactly `i_target`. -/
def iTargetField? : List Byte × Value → Option (BitVec 32)
  | (key, .float bits) => if key = iTargetKey.bytes then some bits else none
  | _ => none

/-- What a reader of the command vocabulary expects of a flat map: each setting
is the last one given under its name, and pairs with other names do nothing. -/
structure NamedFieldsOnly (fields : List (List Byte × Value)) (m1 : Motor) (run : CommandRun) : Prop where
  enabled : run.mc.enabled = (fields.filterMap enableField?).getLast?.getD m1.enabled
  iTarget : run.mc.iTarget = (fields.filterMap iTargetField?).getLast?.getD m1.iTarget
  others : ∀ (i : Nat) (field : List Byte × Value), fields[i]? = some field →
    field.1 ≠ enableKey.bytes → field.1 ≠ iTargetKey.bytes → (run.iterations.map (·.assigned))[i]? = some []

/-- The pair is not taken for a setting under a name that is not its own: its key is
no proper prefix of the name its value could set, and does not extend it behind a zero byte. -/
def Unmistakable : List Byte × Value → Prop
  | (key, .bool _) => LooseMatch enableKey key → key = enableKey.bytes
  | (key, .float _) => LooseMatch iTargetKey key → key = iTargetKey.bytes
  | _ => True

/-- Neither name passes for the other. -/
theorem names_apart : ¬ LooseMatch enableKey iTargetKey.bytes ∧ ¬ LooseMatch iTargetKey enableKey.bytes := by
  decide

theorem looseMatch_iff {name : CString} {key : List Byte} (exact : LooseMatch name key → key = name.bytes) :
    LooseMatch name key ↔ key = name.bytes :=
  ⟨exact, fun same => Or.inl (same ▸ List.prefix_refl _)⟩

theorem pairEffect_enabled? {key : List Byte} {v : Value} (clear : Unmistakable (key, v)) :
    (pairEffect key v).filterMap Assignment.enabled? = (enableField? (key, v)).toList := by
  cases v with
  | bool b =>
    simp only [pairEffect, enableField?, looseMatch_iff clear]
    split <;> rfl
  | float bits =>
    simp only [pairEffect, enableField?]
    split <;> rfl
  | _ => rfl

theorem pairEffect_iTarget? {key : List Byte} {v : Value} (clear : Unmistakable (key, v)) :
    (pairEffect key v).filterMap Assignment.iTarget? = (iTargetField? (key, v)).toList := by
  cases v with
  | bool b =>
    simp only [pairEffect, iTargetField?]
    split <;> rfl
  | float bits =>
    simp only [pairEffect, iTargetField?, looseMatch_iff clear]
    split <;> rfl
  | _ => rfl

theorem pairEffect_others {key : List Byte} {v : Value} (clear : Unmistakable (key, v))
    (notEnable : key ≠ enableKey.bytes) (notTarget : key ≠ iTargetKey.bytes) : pairEffect key v = [] := by
  cases v with
  | bool b => exact if_neg fun loose => notEnable (clear loose)
  | float bits => exact if_neg fun loose => notTarget (clear loose)
  | _ => rfl

/-- A pair that does nothing unless its key is one of the names is not mistaken for a setting. -/
theorem unmistakable_of_others {key : List Byte} {v : Value}
    (others : key ≠ enableKey.bytes → key ≠ iTargetKey.bytes → pairEffect key v = []) : Unmistakable (key, v) := by
  cases v with
  | bool b =>
    intro loose
    by_contra inexact
    have notTarget : key ≠ iTargetKey.bytes := by
      rintro rfl
      exact names_apart.1 loose
    have inert := others inexact notTarget
    rw [pairEffect, if_pos loose] at inert
    exact List.cons_ne_nil _ _ inert
  | float bits =>
    intro loose
    by_contra inexact
    have notEnable : key ≠ enableKey.bytes := by
      rintro rfl
      exact names_apart.2 loose
    have inert := others notEnable inexact
    rw [pairEffect, if_pos loose] at inert
    exact List.cons_ne_nil _ _ inert
  | _ => trivial

theorem MapPayload.filterMap_effects {α : Type*} (payload : MapPayload) {written : Assignment → Option α}
    {field? : List Byte × Value → Option α}
    (agree : ∀ e ∈ payload.pairs, e.effect.filterMap written = (field? (e.key, e.value)).toList) :
    (payload.pairs.flatMap EncodedPair.effect).filterMap written = payload.fields.filterMap field? := by
  rw [MapPayload.fields, List.filterMap_flatMap, List.filterMap_map, List.filterMap_eq_flatMap_toList]
  exact List.flatMap_congr agree

/-- On a complete flat map the handler does what the names say exactly when no
pair is mistaken for a setting. -/
theorem handleIncomingCommand_namedFieldsOnly_iff (pm : PtrModel) {mem : Mem} {base : Nat}
    {fields : List (List Byte × Value)} {bytes : List Byte} (flat : ∀ field ∈ fields, field.2.Flat)
    (encoded : Encodes (commandMap fields) bytes) (held : Holds mem base bytes)
    (top : base + bytes.length < 2 ^ 32) (uc : UnpackContext) (m1 : Motor) :
    NamedFieldsOnly fields m1
        (handleIncomingCommand pm mem .cmdM1 (cwUnpackContextInit pm uc base bytes.length) m1) ↔
      ∀ field ∈ fields, Unmistakable field := by
  obtain ⟨payload, rfl, rfl⟩ := exists_payload encoded
  have unnested := payload.unnested fun field member => (flat field member).children
  obtain ⟨motor, assigned, _⟩ := handleIncomingCommand_inStep pm payload unnested held top uc m1
  constructor
  · intro outcome field member
    obtain ⟨e, inPairs, rfl⟩ := List.mem_map.mp member
    obtain ⟨i, bound, atIndex⟩ := List.mem_iff_getElem.mp inPairs
    apply unmistakable_of_others
    intro notEnable notTarget
    have inert := outcome.others i (e.key, e.value) (by simp [MapPayload.fields, bound, atIndex]) notEnable notTarget
    rw [assigned] at inert
    have none : e.effect = [] := by simpa [bound, atIndex] using inert
    exact none
  · intro clear
    have clearPair : ∀ e ∈ payload.pairs, Unmistakable (e.key, e.value) := fun e member =>
      clear _ (List.mem_map.mpr ⟨e, member, rfl⟩)
    refine ⟨?_, ?_, ?_⟩
    · rw [motor, foldl_lastWrite Assignment.apply_enabled,
        payload.filterMap_effects fun e member => pairEffect_enabled? (clearPair e member)]
    · rw [motor, foldl_lastWrite Assignment.apply_iTarget,
        payload.filterMap_effects fun e member => pairEffect_iTarget? (clearPair e member)]
    · rintro i field atIndex notEnable notTarget
      rw [MapPayload.fields, List.getElem?_map, Option.map_eq_some_iff] at atIndex
      obtain ⟨e, here, rfl⟩ := atIndex
      have inert := pairEffect_others (clearPair e (List.mem_of_getElem? here)) notEnable notTarget
      rw [assigned, List.getElem?_map, here, Option.map_some, EncodedPair.effect, inert]

/-- The map `{"i_target": 1.0, "enable": true, "mode": true, "enable": false}`: the last value of a
name counts, and another key does nothing. -/
theorem handleIncomingCommand_repeatedName :
    let bytes := [0x84#8] ++ ((0xa8#8 :: literal "i_target") ++ ([0xca#8, 0x3f#8, 0x80#8, 0#8, 0#8] ++
      ((0xa6#8 :: literal "enable") ++ ([0xc3#8] ++ ((0xa4#8 :: literal "mode") ++ ([0xc3#8] ++
        ((0xa6#8 :: literal "enable") ++ [0xc2#8])))))))
    NamedFieldsOnly [(literal "i_target", .float 0x3f800000#32), (literal "enable", .bool true),
        (literal "mode", .bool true), (literal "enable", .bool false)] staticM1
      (handleIncomingCommand .wrap32 (Mem.store (fun _ => 0#8) 0x20000000 bytes) .cmdM1
        (cwUnpackContextInit .wrap32 default 0x20000000 bytes.length) staticM1) := by
  intro bytes
  have encoded : Encodes (commandMap [(literal "i_target", .float 0x3f800000#32), (literal "enable", .bool true),
      (literal "mode", .bool true), (literal "enable", .bool false)]) bytes :=
    .map (.fix (by decide))
      (.cons (.scalar (.fixstr (by decide))) (.cons (.scalar (.float 0x3f800000#32))
      (.cons (.scalar (.fixstr (by decide))) (.cons (.scalar (.bool true))
      (.cons (.scalar (.fixstr (by decide))) (.cons (.scalar (.bool true))
      (.cons (.scalar (.fixstr (by decide))) (.cons (.scalar (.bool false)) .nil))))))))
  refine (handleIncomingCommand_namedFieldsOnly_iff .wrap32 ?_ encoded (Mem.store_holds _ _ _) (by decide) default
    staticM1).mpr ?_
  · simp [Value.Flat]
  · have mode : ¬ LooseMatch enableKey (literal "mode") := by decide
    simp only [List.forall_mem_cons]
    exact ⟨fun _ => rfl, fun _ => rfl, fun loose => absurd loose mode, fun _ => rfl, by simp⟩

/-- The map `{"": true}` enables the motor. -/
theorem handleIncomingCommand_emptyKey :
    let bytes := [0x81#8, 0xa0#8, 0xc3#8]
    Encodes (commandMap [([], .bool true)]) bytes ∧ Value.Flat (.bool true) ∧
      ¬ NamedFieldsOnly [([], .bool true)] staticM1
        (handleIncomingCommand .wrap32 (Mem.store (fun _ => 0#8) 0x20000000 bytes) .cmdM1
          (cwUnpackContextInit .wrap32 default 0x20000000 bytes.length) staticM1) := by
  refine ⟨.map (.fix (by decide)) (.cons (.scalar (.fixstr (by decide))) (.cons (.scalar (.bool true)) .nil)),
    trivial, fun outcome => ?_⟩
  have enabled : (handleIncomingCommand .wrap32 (Mem.store (fun _ => 0#8) 0x20000000 [0x81#8, 0xa0#8, 0xc3#8]) .cmdM1
      (cwUnpackContextInit .wrap32 default 0x20000000 3) staticM1).mc.enabled = true := by decide +kernel
  have unchanged := outcome.enabled
  exact absurd (enabled.symm.trans unchanged) (by decide)

end Maglev
