import Maglev.Comms.Delivery

namespace Maglev

/-- The arguments have the C types `uint32_t` and `uint16_t`. -/
def ClientEvent.Typed : ClientEvent → Prop
  | .pub _ totLen => totLen < 2 ^ 32
  | .data bytes _ => bytes.length < 2 ^ 16

/-- A call that the client can make; nothing is known of what it announces. -/
structure ClientCall where
  event : ClientEvent
  typed : event.Typed

/-- The incoming side with what a client could say about its calls: whether there has been
a publish, the fragments since the last one, and whether one of them was refused for its
length. The code keeps none of this. -/
structure Reception where
  comms : Comms
  begun : Bool
  fragments : List (List Byte)
  refused : Bool

def Reception.start (c : Comms) : Reception := ⟨c, false, [], false⟩

/-- The publish is accepted, but there is no room for the fragment. -/
def Reception.refuses (s : Reception) (fragment : List Byte) : Bool :=
  s.comms.incomingPublish ≠ .none && s.comms.subBuffer + subBufferSize < s.comms.subPtr + fragment.length

def receptionMachine : Machine Reception ClientCall InpubCall where
  step s call :=
    let after := commsMachine.step s.comms call.event
    match call.event with
    | .pub _ _ => (⟨after.1, true, [], false⟩, after.2)
    | .data fragment _ =>
      (⟨after.1, s.begun, s.fragments ++ [fragment], s.refused || s.refuses fragment⟩, after.2)

/-- From the first publish on, the pointer is in the buffer or at its end. -/
def PointerInside (s : Reception) (call : ClientCall) : Prop :=
  let after := (receptionMachine.step s call).1
  after.begun = true →
    after.comms.subBuffer ≤ after.comms.subPtr ∧ after.comms.subPtr ≤ after.comms.subBuffer + subBufferSize

/-- What is handed over is all that has come since the last publish, and nothing of it
was refused. -/
def HandsOverWhole (s : Reception) (call : ClientCall) : Prop :=
  let after := receptionMachine.step s call
  ∀ handed ∈ after.2, handed.payload = after.1.fragments.flatten ∧ after.1.refused = false

/-- A fragment that ends the message and fits, after another one has been refused. -/
def CompletesRefused (s : Reception) (call : ClientCall) : Prop :=
  match call.event with
  | .pub _ _ => False
  | .data fragment flags =>
    s.refused = true ∧ s.comms.incomingPublish ≠ .none ∧ s.comms.inpubCb = true ∧
      s.refuses fragment = false ∧ flags &&& mqttDataFlagLast ≠ 0#8

instance (s : Reception) (call : ClientCall) : Decidable (HandsOverWhole s call) :=
  inferInstanceAs (Decidable (∀ handed ∈ (receptionMachine.step s call).2, _ ∧ _))

instance (s : Reception) : ∀ call, Decidable (CompletesRefused s call)
  | ⟨.pub _ _, _⟩ => inferInstanceAs (Decidable False)
  | ⟨.data _ _, _⟩ => inferInstanceAs (Decidable (_ ∧ _))

/-- As long as a message is being received, the buffer holds those of its fragments that
were not refused. -/
structure Consistent (s : Reception) : Prop where
  inside : s.begun = true →
    s.comms.subBuffer ≤ s.comms.subPtr ∧ s.comms.subPtr ≤ s.comms.subBuffer + subBufferSize
  receiving : s.comms.incomingPublish ≠ .none →
    s.begun = true ∧ ∃ taken, Gathered taken s.comms ∧ (s.refused = false → taken = s.fragments.flatten)

theorem consistent_start {c : Comms} (idle : c.incomingPublish = .none) : Consistent (.start c) where
  inside := by simp [Reception.start]
  receiving := fun accepted => absurd idle accepted

theorem Gathered.inside {bytes : List Byte} {c : Comms} (gathered : Gathered bytes c) :
    c.subBuffer ≤ c.subPtr ∧ c.subPtr ≤ c.subBuffer + subBufferSize := by
  have pointer := gathered.pointer
  have room := gathered.room
  omega

theorem Gathered.refuses {s : Reception} {bytes : List Byte} (gathered : Gathered bytes s.comms)
    (accepted : s.comms.incomingPublish ≠ .none) (fragment : List Byte) :
    s.refuses fragment = decide (subBufferSize < bytes.length + fragment.length) := by
  have pointer := gathered.pointer
  simp only [Reception.refuses, accepted, ne_eq, not_false_eq_true, decide_true, Bool.true_and, decide_eq_decide]
  omega

/-- A publish starts with an empty buffer, whether it is accepted or not. -/
theorem mqttPubCb_gathered (c : Comms) (topic : CString) (totLen : Nat) : Gathered [] (mqttPubCb c topic totLen) := by
  unfold mqttPubCb
  dsimp only
  split_ifs <;> exact ⟨rfl, holds_nil _ _, Nat.zero_le _⟩

/-- What one fragment does, with the three things that can happen to it. -/
theorem receptionMachine_data {s : Reception} {fragment : List Byte} (flags : BitVec 8)
    (short : fragment.length < 2 ^ 16) (consistent : Consistent s) :
    let after := receptionMachine.step s ⟨.data fragment flags, short⟩
    (s.comms.incomingPublish = .none ∧ after.1.comms = s.comms ∧ after.2 = []) ∨
    (s.comms.incomingPublish ≠ .none ∧ s.refuses fragment = true ∧ after.1.comms = s.comms ∧ after.2 = []) ∨
    (s.comms.incomingPublish ≠ .none ∧ s.refuses fragment = false ∧
      ∃ taken, (s.refused = false → taken = s.fragments.flatten) ∧ Gathered (taken ++ fragment) after.1.comms ∧
        after.2 = if flags &&& mqttDataFlagLast ≠ 0#8 ∧ s.comms.inpubCb = true then
          [⟨s.comms.incomingPublish, taken ++ fragment⟩] else []) := by
  have step : commsMachine.step s.comms (.data fragment flags) = mqttDataCb s.comms fragment flags := rfl
  simp only [receptionMachine, step]
  by_cases idle : s.comms.incomingPublish = .none
  · have ignored : mqttDataCb s.comms fragment flags = (s.comms, []) := if_pos idle
    rw [ignored]
    exact Or.inl ⟨idle, rfl, rfl⟩
  · obtain ⟨-, taken, gathered, whole⟩ := consistent.receiving idle
    rw [gathered.refuses idle, gathered.mqttDataCb idle short flags]
    by_cases long : subBufferSize < taken.length + fragment.length
    · exact Or.inr (Or.inl ⟨idle, by simpa using long, by simp [long], by simp [long]⟩)
    · refine Or.inr (Or.inr ⟨idle, by simpa using long, taken, whole, ?_, ?_⟩)
      · have stored := gathered.store (Nat.not_lt.mp long)
        split_ifs
        · exact ⟨stored.pointer, stored.held, stored.room⟩
        · exact stored
      · by_cases last : flags &&& mqttDataFlagLast ≠ 0#8
        · simp only [if_neg long, if_pos last, and_iff_right last]
        · simp only [if_neg long, last, false_and, if_false]

theorem Consistent.step {s : Reception} (consistent : Consistent s) (call : ClientCall) :
    Consistent (receptionMachine.step s call).1 := by
  obtain ⟨event, typed⟩ := call
  cases event with
  | pub topic totLen =>
    have gathered := mqttPubCb_gathered s.comms topic totLen
    exact ⟨fun _ => gathered.inside, fun _ => ⟨rfl, [], gathered, fun _ => rfl⟩⟩
  | data fragment flags =>
    have begun : (receptionMachine.step s ⟨.data fragment flags, typed⟩).1.begun = s.begun := rfl
    have refused : (receptionMachine.step s ⟨.data fragment flags, typed⟩).1.refused =
        (s.refused || s.refuses fragment) := rfl
    have fragments : (receptionMachine.step s ⟨.data fragment flags, typed⟩).1.fragments =
        s.fragments ++ [fragment] := rfl
    rcases receptionMachine_data flags typed consistent with
      ⟨idle, same, -⟩ | ⟨accepted, refuses, same, -⟩ | ⟨accepted, fits, taken, whole, gathered, -⟩
    · constructor
      · rw [begun, same]
        exact consistent.inside
      · rw [same]
        exact fun accepted => absurd idle accepted
    · obtain ⟨started, taken, gathered, -⟩ := consistent.receiving accepted
      constructor
      · rw [begun, same]
        exact consistent.inside
      · rw [begun, refused, refuses, same]
        exact fun _ => ⟨started, taken, gathered, by simp⟩
    · constructor
      · exact fun _ => gathered.inside
      · rw [begun, refused, fits, fragments, Bool.or_false]
        refine fun _ => ⟨(consistent.receiving accepted).1, taken ++ fragment, gathered, fun none => ?_⟩
        simp [whole none]

theorem Consistent.handsOverWhole_iff {s : Reception} (consistent : Consistent s) (call : ClientCall) :
    HandsOverWhole s call ↔ ¬ CompletesRefused s call := by
  obtain ⟨event, typed⟩ := call
  cases event with
  | pub topic totLen => simp [HandsOverWhole, CompletesRefused, receptionMachine, commsMachine]
  | data fragment flags =>
    have refused : (receptionMachine.step s ⟨.data fragment flags, typed⟩).1.refused =
        (s.refused || s.refuses fragment) := rfl
    have fragments : (receptionMachine.step s ⟨.data fragment flags, typed⟩).1.fragments =
        s.fragments ++ [fragment] := rfl
    simp only [HandsOverWhole, CompletesRefused, refused, fragments]
    rcases receptionMachine_data flags typed consistent with
      ⟨idle, -, silent⟩ | ⟨-, refuses, -, silent⟩ | ⟨accepted, fits, taken, whole, -, handed⟩
    · simp [silent, idle]
    · simp [silent, refuses]
    · rw [handed, fits, Bool.or_false]
      by_cases last : flags &&& mqttDataFlagLast ≠ 0#8 ∧ s.comms.inpubCb = true
      · rw [if_pos last, List.forall_mem_singleton]
        constructor
        · rintro ⟨-, none⟩ ⟨some, -⟩
          rw [none] at some
          cases some
        · intro never
          have none : s.refused = false := by
            by_contra some
            exact never ⟨by simpa using some, accepted, last.2, rfl, last.1⟩
          exact ⟨by simp [whole none], none⟩
      · rw [if_neg last]
        refine iff_of_true (by simp) ?_
        rintro ⟨-, -, handler, -, flag⟩
        exact last ⟨flag, handler⟩

/-- Whatever calls the client makes, the pointer stays in the buffer; and all that is
handed over is whole exactly if no message is completed after a fragment of it was
refused. -/
theorem receptionMachine_handsOverWhole_iff {c : Comms} (idle : c.incomingPublish = .none)
    (calls : List ClientCall) :
    receptionMachine.Everywhere PointerInside (.start c) calls ∧
      (receptionMachine.Everywhere HandsOverWhole (.start c) calls ↔
        receptionMachine.Everywhere (fun s call => ¬ CompletesRefused s call) (.start c) calls) := by
  have kept (s : Reception) (call : ClientCall) (consistent : Consistent s) :
      Consistent (receptionMachine.step s call).1 := consistent.step call
  refine ⟨?_, receptionMachine.everywhere_congr kept (fun _ call consistent => consistent.handsOverWhole_iff call)
    (consistent_start idle) calls⟩
  refine receptionMachine.everywhere_of_invariant kept (fun s call consistent => ?_) (consistent_start idle) calls
  exact (consistent.step call).inside

/-- The incoming side of the device with the identifier zero. -/
def zeroComms : Comms := (commTaskTopics ⟨List.replicate 12 0#8, rfl⟩ staticComms).1

def commandPub (totLen : Nat) (fits : totLen < 2 ^ 32) : ClientCall :=
  ⟨.pub (DeviceId.topic ⟨List.replicate 12 0#8, rfl⟩ cmdSuffix) totLen, fits⟩

def commandData (bytes : List Byte) (flags : BitVec 8) (short : bytes.length < 2 ^ 16) : ClientCall :=
  ⟨.data bytes flags, short⟩

/-- A stray fragment, a message of which the last fragment is refused, and a whole one. -/
theorem receptionMachine_handsOverWhole_refused :
    let long := List.replicate 1024 0xa0#8
    receptionMachine.Everywhere HandsOverWhole (.start zeroComms)
      [commandData [0xff#8] 1#8 (by decide), commandPub 3 (by decide), commandData [0x81#8] 0#8 (by decide),
        commandData long 1#8 (List.length_replicate.trans_lt (by decide)), commandPub 3 (by decide),
        commandData [0x81#8, 0xa0#8] 0#8 (by decide), commandData [0xc3#8] 1#8 (by decide)] :=
  (receptionMachine_handsOverWhole_iff rfl _).2.mpr (by decide +kernel)

/-- The fragment in the middle is refused, and the last one completes the message without it. -/
theorem receptionMachine_completesRefused :
    let long := List.replicate 1024 0xa0#8
    let calls := [commandPub 3 (by decide), commandData [0x81#8] 0#8 (by decide),
      commandData long 0#8 (List.length_replicate.trans_lt (by decide)), commandData [0xc0#8] 1#8 (by decide)]
    receptionMachine.outputs (.start zeroComms) calls = [⟨.cmdM1, [0x81#8, 0xc0#8]⟩] ∧
      ¬ receptionMachine.Everywhere HandsOverWhole (.start zeroComms) calls := by
  decide +kernel

/-- The topic is the one of the commands, as `mqtt_pub_cb` compares it. -/
def Comms.isCommand (c : Comms) (topic : CString) : Bool :=
  strncmp topic.char (fun i => c.m1CmdTopic.getD i 0#8) c.m1CmdTopic.length = 0

/-- A message as its calls describe it: whether it is wanted, how many bytes of it were taken,
and whether a fragment was refused. -/
structure Arrival where
  wanted : Bool
  taken : Nat
  refused : Bool

/-- Says of every message that is completed whether a fragment of it was refused. It has no
buffer: it only adds up lengths. -/
def arrivalMachine (isCommand : CString → Bool) : Machine Arrival ClientCall Bool where
  step a call :=
    match call.event with
    | .pub topic totLen => (⟨decide (totLen ≤ subBufferSize) && isCommand topic, 0, false⟩, [])
    | .data fragment flags =>
      if a.wanted = false then (a, [])
      else if subBufferSize < a.taken + fragment.length then ({ a with refused := true }, [])
      else if flags &&& mqttDataFlagLast ≠ 0#8 then (⟨false, a.taken + fragment.length, a.refused⟩, [a.refused])
      else ({ a with taken := a.taken + fragment.length }, [])

/-- The machine of the lengths follows the code. -/
structure Describes (isCommand : CString → Bool) (s : Reception) (a : Arrival) : Prop where
  consistent : Consistent s
  handler : s.comms.inpubCb = true
  topic : s.comms.isCommand = isCommand
  wanted : a.wanted = decide (s.comms.incomingPublish ≠ .none)
  taken : s.comms.incomingPublish ≠ .none → s.comms.subPtr = s.comms.subBuffer + a.taken
  refused : a.refused = s.refused

theorem mqttPubCb_isCommand (c : Comms) (topic : CString) (totLen : Nat) :
    (mqttPubCb c topic totLen).isCommand = c.isCommand ∧ (mqttPubCb c topic totLen).inpubCb = c.inpubCb := by
  unfold mqttPubCb
  dsimp only
  split_ifs <;> exact ⟨rfl, rfl⟩

theorem mqttPubCb_wanted (c : Comms) (topic : CString) (totLen : Nat) :
    decide ((mqttPubCb c topic totLen).incomingPublish ≠ .none) =
      (decide (totLen ≤ subBufferSize) && c.isCommand topic) := by
  unfold mqttPubCb Comms.isCommand
  dsimp only
  split_ifs with long same
  · rw [decide_eq_false (Nat.not_le.mpr long)]
    rfl
  · rw [decide_eq_true (Nat.not_lt.mp long), decide_eq_true same]
    rfl
  · rw [decide_eq_false same, Bool.and_false]
    rfl

theorem mqttDataCb_isCommand (c : Comms) (fragment : List Byte) (flags : BitVec 8) :
    (mqttDataCb c fragment flags).1.isCommand = c.isCommand ∧ (mqttDataCb c fragment flags).1.inpubCb = c.inpubCb := by
  unfold mqttDataCb
  split_ifs <;> exact ⟨rfl, rfl⟩

section

variable {isCommand : CString → Bool} {s : Reception} {a : Arrival}

/-- A fragment of a message that is wanted is refused for the length it has with the others. -/
theorem Describes.refuses (describes : Describes isCommand s a) (accepted : s.comms.incomingPublish ≠ .none)
    (fragment : List Byte) :
    s.refuses fragment = decide (subBufferSize < a.taken + fragment.length) := by
  have pointer := describes.taken accepted
  simp only [Reception.refuses, accepted, ne_eq, not_false_eq_true, decide_true, Bool.true_and, decide_eq_decide]
  omega

theorem Describes.completesRefused_iff (describes : Describes isCommand s a) (call : ClientCall) :
    CompletesRefused s call ↔ true ∈ ((arrivalMachine isCommand).step a call).2 := by
  obtain ⟨event, typed⟩ := call
  cases event with
  | pub => simp [CompletesRefused, arrivalMachine]
  | data fragment flags =>
    simp only [CompletesRefused, arrivalMachine, describes.wanted, describes.handler, ← describes.refused]
    by_cases idle : s.comms.incomingPublish = .none
    · simp [idle]
    · rw [describes.refuses idle]
      by_cases long : subBufferSize < a.taken + fragment.length
      · simp [idle, long]
      · by_cases last : flags &&& mqttDataFlagLast = 0#8
        · simp [idle, long, last]
        · simp [idle, long, last]

/-- What a fragment does to the record, and what to the lengths. -/
theorem Describes.data (describes : Describes isCommand s a) {fragment : List Byte}
    (short : fragment.length < 2 ^ 16) (flags : BitVec 8) :
    let comms := (mqttDataCb s.comms fragment flags).1
    let next := ((arrivalMachine isCommand).step a ⟨.data fragment flags, short⟩).1
    next.wanted = decide (comms.incomingPublish ≠ .none) ∧
      (comms.incomingPublish ≠ .none → comms.subPtr = comms.subBuffer + next.taken) ∧
      next.refused = (s.refused || s.refuses fragment) := by
  by_cases idle : s.comms.incomingPublish = .none
  · have unwanted : a.wanted = false := describes.wanted.trans (decide_eq_false (not_not_intro idle))
    have ignored : mqttDataCb s.comms fragment flags = (s.comms, []) := if_pos idle
    simp [arrivalMachine, unwanted, ignored, idle, Reception.refuses, describes.refused]
  · obtain ⟨-, bytes, gathered, -⟩ := describes.consistent.receiving idle
    have wants : a.wanted = true := describes.wanted.trans (decide_eq_true idle)
    have pointer := gathered.pointer
    have taken : a.taken = bytes.length := by
      have same := describes.taken idle
      omega
    rw [describes.refuses idle, gathered.mqttDataCb idle short, ← describes.refused]
    by_cases long : subBufferSize < bytes.length + fragment.length
    · simp [arrivalMachine, taken, long, wants, idle, pointer]
    · by_cases last : flags &&& mqttDataFlagLast = 0#8
      · simp [arrivalMachine, taken, long, last, wants, idle, pointer, Nat.add_assoc]
      · simp [arrivalMachine, taken, long, last, wants]

theorem Describes.step (describes : Describes isCommand s a) (call : ClientCall) :
    Describes isCommand (receptionMachine.step s call).1 ((arrivalMachine isCommand).step a call).1 := by
  have next := describes.consistent.step call
  obtain ⟨event, typed⟩ := call
  cases event with
  | pub name totLen =>
    obtain ⟨same, set⟩ := mqttPubCb_isCommand s.comms name totLen
    refine ⟨next, set.trans describes.handler, same.trans describes.topic, ?_, fun _ => ?_, rfl⟩
    · exact describes.topic ▸ (mqttPubCb_wanted s.comms name totLen).symm
    · exact (mqttPubCb_gathered s.comms name totLen).pointer
  | data fragment flags =>
    obtain ⟨same, set⟩ := mqttDataCb_isCommand s.comms fragment flags
    obtain ⟨wanted, taken, refused⟩ := describes.data typed flags
    exact ⟨next, set.trans describes.handler, same.trans describes.topic, wanted, taken, refused⟩

end

/-- Whether all is handed over whole can be told from the calls alone, by adding up lengths. -/
theorem receptionMachine_arrivals {c : Comms} (idle : c.incomingPublish = .none) (handler : c.inpubCb = true)
    (calls : List ClientCall) :
    receptionMachine.Everywhere HandsOverWhole (.start c) calls ↔
      ∀ incomplete ∈ (arrivalMachine c.isCommand).outputs ⟨false, 0, false⟩ calls, incomplete = false := by
  have start : Describes c.isCommand (.start c) ⟨false, 0, false⟩ :=
    ⟨consistent_start idle, handler, rfl, (decide_eq_false (not_not_intro idle)).symm,
      fun accepted => absurd idle accepted, rfl⟩
  refine receptionMachine.everywhere_iff_outputs (fun _ _ call describes _ => describes.step call) ?_ start calls
  intro s a call describes
  rw [describes.consistent.handsOverWhole_iff, describes.completesRefused_iff]
  simp

end Maglev
