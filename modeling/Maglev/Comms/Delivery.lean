import Mathlib.Data.List.Basic
import Maglev.Lib.Machine
import Maglev.Comms.Topics

namespace Maglev

/-- A callback of the MQTT client for incoming data. -/
inductive ClientEvent
  | pub (topic : CString) (totLen : Nat)
  | data (bytes : List Byte) (flags : BitVec 8)

def commsMachine : Machine Comms ClientEvent InpubCall where
  step
    | c, .pub topic totLen => (mqttPubCb c topic totLen, [])
    | c, .data bytes flags => mqttDataCb c bytes flags

/-- The fragments of a message, the last one and no other with the flag. -/
def dataEvents : List (List Byte) → List ClientEvent
  | [] => []
  | [last] => [.data last mqttDataFlagLast]
  | fragment :: next :: rest => .data fragment 0#8 :: dataEvents (next :: rest)

/-- A publish as the client announces it, and how many of its fragments arrive
before the connection is lost. -/
structure Publish where
  topic : CString
  totLen : Nat
  fragments : List (List Byte)
  delivered : Nat
  nonempty : fragments ≠ []
  announced : fragments.flatten.length = totLen
  inMessage : delivered ≤ fragments.length
  fits : totLen < 2 ^ 32
  fragmentFits : ∀ fragment ∈ fragments, fragment.length < 2 ^ 16

def Publish.events (p : Publish) : List ClientEvent :=
  .pub p.topic p.totLen :: (dataEvents p.fragments).take p.delivered

/-- The call that a publish is worth. -/
def Publish.call? (command : CString) (p : Publish) : Option InpubCall :=
  if p.delivered = p.fragments.length ∧ p.topic = command ∧ p.totLen ≤ subBufferSize then
    some ⟨.cmdM1, p.fragments.flatten⟩
  else none

/-- Between two publishes: the topic is set up, and nothing else is known. -/
structure Listening (command : CString) (c : Comms) : Prop where
  handler : c.inpubCb = true
  filled : c.m1CmdTopic = command.bytes ++ [0#8]

/-- In the middle of a message of which some bytes have come. -/
structure Receiving (command : CString) (bytes : List Byte) (c : Comms) : Prop extends Listening command c where
  accepted : c.incomingPublish = .cmdM1
  pointer : c.subPtr = c.subBuffer + bytes.length
  held : Holds c.mem c.subBuffer bytes

/-- What has come of a message stands in the buffer, up to the pointer. -/
structure Gathered (bytes : List Byte) (c : Comms) : Prop where
  pointer : c.subPtr = c.subBuffer + bytes.length
  held : Holds c.mem c.subBuffer bytes
  room : bytes.length ≤ subBufferSize

theorem Gathered.received {bytes : List Byte} {c : Comms} (gathered : Gathered bytes c) :
    c.received = bytes.length := by
  have top := c.room
  have room := gathered.room
  unfold subBufferSize at room
  unfold Comms.received
  rw [gathered.pointer]
  omega

/-- A call hands over what the buffer holds up to the pointer. -/
theorem Gathered.processIncomingPublish {bytes : List Byte} {c : Comms} (gathered : Gathered bytes c) :
    processIncomingPublish c = if c.inpubCb then [⟨c.incomingPublish, bytes⟩] else [] := by
  have top := c.room
  have room := gathered.room
  have span : (cwUnpackContextInit .wrap32 default c.subBuffer c.received).end_ = c.subBuffer + bytes.length := by
    rw [gathered.received]
    exact PtrModel.wrap32.add_of_lt (by omega)
  have start : (cwUnpackContextInit .wrap32 default c.subBuffer c.received).start = c.subBuffer := rfl
  simp only [Maglev.processIncomingPublish, span, start, Nat.add_sub_cancel_left, gathered.held.read_eq]

/-- The fragment is stored behind what has come before, whatever its flags are. -/
theorem Gathered.store {bytes : List Byte} {c : Comms} (gathered : Gathered bytes c) {fragment : List Byte}
    (room : bytes.length + fragment.length ≤ subBufferSize) :
    Gathered (bytes ++ fragment)
      { c with mem := c.mem.store c.subPtr fragment, subPtr := c.subPtr + fragment.length } where
  pointer := by simp only [gathered.pointer, List.length_append, Nat.add_assoc]
  held := by
    have pointer := gathered.pointer
    refine holds_append.mpr ⟨gathered.held.store_later (by omega) fragment, ?_⟩
    rw [← pointer]
    exact c.mem.store_holds c.subPtr fragment
  room := by simpa using room

/-- A fragment of a message that is being received: it is taken if there is room for it,
and otherwise nothing changes. -/
theorem Gathered.mqttDataCb {bytes : List Byte} {c : Comms} (gathered : Gathered bytes c)
    (accepted : c.incomingPublish ≠ .none) {fragment : List Byte} (short : fragment.length < 2 ^ 16)
    (flags : BitVec 8) :
    mqttDataCb c fragment flags =
      if subBufferSize < bytes.length + fragment.length then (c, [])
      else
        let c := { c with mem := c.mem.store c.subPtr fragment, subPtr := c.subPtr + fragment.length }
        if flags &&& mqttDataFlagLast ≠ 0#8 then
          ({ c with incomingPublish := .none },
            if c.inpubCb then [⟨c.incomingPublish, bytes ++ fragment⟩] else [])
        else (c, []) := by
  have few := gathered.room
  have check : ((c.subPtr : Int) - c.subBuffer + fragment.length) % 2 ^ 32 > subBufferSize ↔
      subBufferSize < bytes.length + fragment.length := by
    rw [gathered.pointer]
    unfold subBufferSize at few ⊢
    omega
  unfold Maglev.mqttDataCb
  simp only [if_neg accepted, check]
  by_cases long : subBufferSize < bytes.length + fragment.length
  · rw [if_pos long, if_pos long]
  · have handed := (gathered.store (Nat.not_lt.mp long)).processIncomingPublish
    simp only [if_neg long, handed]

theorem Receiving.gathered {command : CString} {bytes : List Byte} {c : Comms}
    (receiving : Receiving command bytes c) (room : bytes.length ≤ subBufferSize) : Gathered bytes c :=
  ⟨receiving.pointer, receiving.held, room⟩

theorem Receiving.store {command : CString} {bytes : List Byte} {c : Comms} (receiving : Receiving command bytes c)
    {fragment : List Byte} (room : bytes.length + fragment.length ≤ subBufferSize) :
    Receiving command (bytes ++ fragment)
      { c with mem := c.mem.store c.subPtr fragment, subPtr := c.subPtr + fragment.length } :=
  have gathered := (receiving.gathered (by omega)).store room
  ⟨⟨receiving.handler, receiving.filled⟩, receiving.accepted, gathered.pointer, gathered.held⟩

theorem Receiving.mqttDataCb {command : CString} {bytes : List Byte} {c : Comms}
    (receiving : Receiving command bytes c) (fragment : List Byte)
    (room : bytes.length + fragment.length ≤ subBufferSize) (flags : BitVec 8) :
    mqttDataCb c fragment flags =
      let c := { c with mem := c.mem.store c.subPtr fragment, subPtr := c.subPtr + fragment.length }
      if flags &&& mqttDataFlagLast ≠ 0#8 then
        ({ c with incomingPublish := .none }, [⟨.cmdM1, bytes ++ fragment⟩])
      else (c, []) := by
  have notNone : c.incomingPublish ≠ .none := by
    rw [receiving.accepted]
    decide
  have short : fragment.length < 2 ^ 16 := by
    unfold subBufferSize at room
    omega
  rw [(receiving.gathered (by omega)).mqttDataCb notNone short flags, if_neg (Nat.not_lt.mpr room)]
  simp only [receiving.handler, receiving.accepted, if_true]

/-- The rest of an accepted message leads to one call if it arrives completely, and to none otherwise. -/
theorem Receiving.run {command : CString} (fragments : List (List Byte)) {bytes : List Byte} {c : Comms} {k : Nat}
    (receiving : Receiving command bytes c) (nonempty : fragments ≠ [])
    (room : bytes.length + fragments.flatten.length ≤ subBufferSize) (some : k ≤ fragments.length) :
    Listening command (commsMachine.final c ((dataEvents fragments).take k)) ∧
      commsMachine.outputs c ((dataEvents fragments).take k) =
        if k = fragments.length then [⟨.cmdM1, bytes ++ fragments.flatten⟩] else [] := by
  induction fragments generalizing bytes c k with
  | nil => exact absurd rfl nonempty
  | cons fragment rest ih =>
    cases k with
    | zero => exact ⟨receiving.toListening, by simp⟩
    | succ k =>
      rw [List.flatten_cons, List.length_append] at room
      have taken := receiving.mqttDataCb fragment (by omega)
      have stored := receiving.store (show bytes.length + fragment.length ≤ subBufferSize by omega)
      cases rest with
      | nil =>
        have single : k = 0 := by simpa using some
        have last : mqttDataFlagLast &&& mqttDataFlagLast ≠ 0#8 := by decide
        simp only [single, dataEvents, List.take_succ_cons, List.take_nil, Machine.final_cons, Machine.final_nil,
          Machine.outputs_cons, Machine.outputs_nil, commsMachine, taken, if_pos last, List.append_nil,
          List.flatten_cons, List.flatten_nil, List.length_singleton, if_true, Nat.zero_add]
        exact ⟨⟨stored.handler, stored.filled⟩, trivial⟩
      | cons next rest =>
        have notLast : ¬ (0#8 &&& mqttDataFlagLast ≠ 0#8) := by decide
        have later := @ih (bytes ++ fragment) _ k stored (by simp) (by rw [List.length_append]; omega)
          (by simpa using some)
        have step : commsMachine.step c (.data fragment 0#8) =
            ({ c with mem := c.mem.store c.subPtr fragment, subPtr := c.subPtr + fragment.length }, []) := by
          simp only [commsMachine, taken, if_neg notLast]
        rw [dataEvents, List.take_succ_cons, Machine.final_cons, Machine.outputs_cons, step, List.nil_append,
          List.flatten_cons, ← List.append_assoc]
        refine ⟨later.1, later.2.trans ?_⟩
        simp only [List.length_cons, Nat.add_right_cancel_iff]

/-- Fragments of a message that was not accepted change nothing. -/
theorem outputs_of_none (fragments : List (List Byte)) {c : Comms} (none : c.incomingPublish = .none) (k : Nat) :
    commsMachine.final c ((dataEvents fragments).take k) = c ∧
      commsMachine.outputs c ((dataEvents fragments).take k) = [] := by
  have ignored (bytes : List Byte) (flags : BitVec 8) : commsMachine.step c (.data bytes flags) = (c, []) :=
    if_pos none
  induction fragments generalizing k with
  | nil => simp [dataEvents]
  | cons fragment rest ih =>
    cases k with
    | zero => simp
    | succ k =>
      cases rest with
      | nil => simp [dataEvents, ignored]
      | cons next rest => simpa [dataEvents, ignored] using ih k

/-- One publish, from whatever the ones before have left. -/
theorem Listening.publish {command : CString} {c : Comms} (listening : Listening command c) (p : Publish) :
    Listening command (commsMachine.final c p.events) ∧
      commsMachine.outputs c p.events = (p.call? command).toList := by
  have begun := mqttPubCb_eq listening.filled p.topic p.totLen
  have step : commsMachine.step c (.pub p.topic p.totLen) = (mqttPubCb c p.topic p.totLen, []) := rfl
  rw [Publish.events, Machine.final_cons, Machine.outputs_cons, step, List.nil_append, begun]
  by_cases accepted : p.totLen ≤ subBufferSize ∧ p.topic = command
  · simp only [if_pos accepted]
    have receiving : Receiving command [] { c with subPtr := c.subBuffer, incomingPublish := .cmdM1 } :=
      ⟨⟨listening.handler, listening.filled⟩, rfl, rfl, holds_nil _ _⟩
    have ran := receiving.run p.fragments p.nonempty (by simpa [p.announced] using accepted.1) p.inMessage
    refine ⟨ran.1, ran.2.trans ?_⟩
    by_cases complete : p.delivered = p.fragments.length
    · simp [Publish.call?, complete, accepted]
    · simp [Publish.call?, complete]
  · simp only [if_neg accepted]
    have ignored := @outputs_of_none p.fragments { c with subPtr := c.subBuffer, incomingPublish := .none } rfl
      p.delivered
    rw [ignored.1, ignored.2]
    have worthless : p.call? command = none := if_neg fun all => accepted ⟨all.2.2, all.2.1⟩
    exact ⟨⟨listening.handler, listening.filled⟩, by rw [worthless]; rfl⟩

/-- Whatever the client delivers, in whatever pieces, the calls are the complete
commands in order, each with its own bytes. -/
theorem commsMachine_delivers (u : DeviceId) {c : Comms} (handler : c.inpubCb = true) (publishes : List Publish) :
    commsMachine.outputs (commTaskTopics u c).1 (publishes.flatMap Publish.events) =
      publishes.filterMap (Publish.call? (u.topic cmdSuffix)) := by
  have listening : Listening (u.topic cmdSuffix) (commTaskTopics u c).1 := by
    rw [commTaskTopics_eq]
    exact ⟨handler, rfl⟩
  rw [List.filterMap_eq_flatMap_toList]
  exact commsMachine.outputs_blocks (fun _ held p => held.publish p) listening publishes

/-- A command in two fragments, cut off after the first one and sent again. -/
theorem commsMachine_delivers_resent :
    let u : DeviceId := ⟨List.replicate 12 0#8, rfl⟩
    let sent : Publish :=
      { topic := u.topic cmdSuffix
        totLen := 3
        fragments := [[0x81#8, 0xa0#8], [0xc3#8]]
        delivered := 2
        nonempty := by simp
        announced := rfl
        inMessage := by decide
        fits := by decide
        fragmentFits := by simp }
    commsMachine.outputs (commTaskTopics u staticComms).1
        ([{ sent with delivered := 1, inMessage := by decide }, sent].flatMap Publish.events) =
      [⟨.cmdM1, [0x81#8, 0xa0#8, 0xc3#8]⟩] := by
  intro u sent
  rw [commsMachine_delivers u rfl]
  simp [sent, Publish.call?, subBufferSize]

end Maglev
