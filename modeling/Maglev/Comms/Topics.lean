import Maglev.Comms.State

namespace Maglev

def hexDigits : List Byte := literal "0123456789ABCDEF"

def nibbleToHex (nibble : Byte) : Byte := hexDigits.getD (nibble &&& 0xf#8).toNat 0#8

/-- The loop of `bytesToHex` from index `i` on. -/
def bytesToHexFrom (i : Nat) (buffer : List Byte) : List Byte → List Byte
  | [] => buffer
  | b :: bytes =>
    bytesToHexFrom (i + 1) ((buffer.set (2 * i) (nibbleToHex (b >>> 4))).set (2 * i + 1) (nibbleToHex b)) bytes

def bytesToHex (buffer bytes : List Byte) : List Byte := bytesToHexFrom 0 buffer bytes

/-- The twelve bytes at `STM32_UUID`. -/
structure DeviceId where
  bytes : List Byte
  size : bytes.length = 12
  deriving DecidableEq

/-- The static variables of `uniqueID`. -/
structure UniqueIdStatics where
  uid : Bool
  buffer : List Byte

def UniqueIdStatics.init : UniqueIdStatics := ⟨false, List.replicate 25 0#8⟩

def uniqueID (u : DeviceId) (statics : UniqueIdStatics) : UniqueIdStatics × List Byte :=
  if statics.uid then (statics, statics.buffer)
  else
    let buffer := bytesToHex statics.buffer u.bytes
    (⟨true, buffer⟩, buffer)

/-- `memcpy` of the first `n` bytes of `src` to an offset in an array. -/
def splice (dst : List Byte) (offset : Nat) (src : List Byte) (n : Nat) : List Byte :=
  dst.take offset ++ src.take n ++ dst.drop (offset + n)

def topicBase : List Byte := literal "controller/________________________/"

def m1Cmd : List Byte := topicBase ++ literal "m1/" ++ literal "cmd"

def m1Telem : List Byte := topicBase ++ literal "m1/" ++ literal "telem"

def heartbeatTopicBase : List Byte := topicBase ++ literal "heartbeat"

/-- The set-up at the start of `_CommTask`: the topics of the state, and `heartbeat_topic`. -/
def commTaskTopics (u : DeviceId) (c : Comms) : Comms × List Byte :=
  let (statics, id) := uniqueID u .init
  let heartbeatTopic := splice (heartbeatTopicBase ++ [0#8]) 11 id 24
  let (statics, id) := uniqueID u statics
  let cmd := splice (m1Cmd ++ [0#8]) 11 id 24
  let (_, id) := uniqueID u statics
  let telem := splice (m1Telem ++ [0#8]) 11 id 24
  ({ c with m1CmdTopic := cmd, m1TelemTopic := telem }, heartbeatTopic)

/-- The digit of a number below sixteen. -/
def upperHexDigit (n : Nat) : Byte := BitVec.ofNat 8 (if n < 10 then 0x30 + n else 0x41 + (n - 10))

/-- The digits of a byte sequence, most significant nibble first. -/
def hexOf (bytes : List Byte) : List Byte :=
  bytes.flatMap fun b => [upperHexDigit (b.toNat / 16), upperHexDigit (b.toNat % 16)]

theorem upperHexDigit_injective {m n : Nat} (mBound : m < 16) (nBound : n < 16)
    (same : upperHexDigit m = upperHexDigit n) : m = n := by
  unfold upperHexDigit at same
  have values := congrArg BitVec.toNat same
  simp only [BitVec.toNat_ofNat] at values
  split at values <;> split at values <;> omega

theorem upperHexDigit_ne_zero {n : Nat} (bound : n < 16) : upperHexDigit n ≠ 0#8 := by
  intro zero
  unfold upperHexDigit at zero
  have value := congrArg BitVec.toNat zero
  simp only [BitVec.toNat_ofNat] at value
  split at value <;> omega

theorem hexDigits_getD : ∀ n < 16, hexDigits.getD n 0#8 = upperHexDigit n := by
  decide

theorem nibbleToHex_low (b : Byte) : nibbleToHex b = upperHexDigit (b.toNat % 16) := by
  have masked : (b &&& 0xf#8).toNat = b.toNat % 16 := by
    rw [BitVec.toNat_and]
    exact Nat.and_two_pow_sub_one_eq_mod b.toNat 4
  rw [nibbleToHex, masked, hexDigits_getD _ (Nat.mod_lt _ (by omega))]

theorem nibbleToHex_high (b : Byte) : nibbleToHex (b >>> 4) = upperHexDigit (b.toNat / 16) := by
  have bound := b.isLt
  have shifted : (b >>> 4).toNat = b.toNat / 16 := by
    rw [BitVec.toNat_ushiftRight]
    exact Nat.shiftRight_eq_div_pow b.toNat 4
  rw [nibbleToHex_low, shifted, Nat.mod_eq_of_lt (by omega)]

theorem hexOf_length (bytes : List Byte) : (hexOf bytes).length = 2 * bytes.length := by
  induction bytes with
  | nil => rfl
  | cons b bytes ih =>
    unfold hexOf at ih ⊢
    rw [List.flatMap_cons, List.length_append, ih, List.length_cons]
    simp only [List.length_cons, List.length_nil]
    omega

theorem hexOf_injective {xs ys : List Byte} (same : hexOf xs = hexOf ys) : xs = ys := by
  induction xs generalizing ys with
  | nil =>
    cases ys with
    | nil => rfl
    | cons y ys => simp [hexOf] at same
  | cons x xs ih =>
    cases ys with
    | nil => simp [hexOf] at same
    | cons y ys =>
      simp only [hexOf, List.flatMap_cons, List.cons_append, List.nil_append, List.cons.injEq] at same
      obtain ⟨high, low, rest⟩ := same
      have xBound := x.isLt
      have yBound := y.isLt
      have highs := upperHexDigit_injective (by omega) (by omega) high
      have lows := upperHexDigit_injective (by omega) (by omega) low
      have first : x = y := BitVec.eq_of_toNat_eq (by omega)
      rw [first, ih rest]

theorem hexOf_ne_zero {bytes : List Byte} : ∀ b ∈ hexOf bytes, b ≠ 0#8 := by
  intro digit member
  obtain ⟨b, _, digits⟩ := List.mem_flatMap.mp member
  have bound := b.isLt
  rcases List.mem_cons.mp digits with rfl | second
  · exact upperHexDigit_ne_zero (by omega)
  · rw [List.mem_singleton.mp second]
    exact upperHexDigit_ne_zero (by omega)

/-- The loop puts the digits in the place of what the buffer holds from `2 * i` on. -/
theorem bytesToHexFrom_eq (bytes : List Byte) {i : Nat} {before old after : List Byte}
    (position : before.length = 2 * i) (size : old.length = 2 * bytes.length) :
    bytesToHexFrom i (before ++ old ++ after) bytes = before ++ hexOf bytes ++ after := by
  induction bytes generalizing i before old with
  | nil =>
    have empty : old = [] := List.length_eq_zero_iff.mp size
    rw [empty]
    rfl
  | cons b bytes ih =>
    rcases old with _ | ⟨first, _ | ⟨second, old⟩⟩
    · simp at size
    · simp only [List.length_cons, List.length_nil] at size
      omega
    · have written : ((before ++ (first :: second :: old) ++ after).set (2 * i) (nibbleToHex (b >>> 4))).set
          (2 * i + 1) (nibbleToHex b) = (before ++ [nibbleToHex (b >>> 4), nibbleToHex b]) ++ old ++ after := by
        simp [← position]
      simp only [List.length_cons] at size
      rw [bytesToHexFrom, written, ih (by simp; omega) (by omega), nibbleToHex_high, nibbleToHex_low]
      simp [hexOf]

theorem uniqueID_init (u : DeviceId) :
    uniqueID u .init = (⟨true, hexOf u.bytes ++ [0#8]⟩, hexOf u.bytes ++ [0#8]) := by
  have size := u.size
  have written := @bytesToHexFrom_eq u.bytes 0 [] (List.replicate 24 0#8) [0#8] rfl (by simp [size])
  have buffer : bytesToHex (List.replicate 25 0#8) u.bytes = hexOf u.bytes ++ [0#8] := written
  simp only [uniqueID, UniqueIdStatics.init, Bool.false_eq_true, if_false, buffer]

/-- The string that all topics of a device begin with, and a suffix. -/
def DeviceId.topic (u : DeviceId) (suffix : CString) : CString where
  bytes := literal "controller/" ++ hexOf u.bytes ++ suffix.bytes
  noNul := by
    intro b member
    rcases List.mem_append.mp member with front | back
    · rcases List.mem_append.mp front with base | digits
      · have nonzero : ∀ b ∈ literal "controller/", b ≠ 0#8 := by decide
        exact nonzero b base
      · exact hexOf_ne_zero b digits
    · exact suffix.noNul b back

def cmdSuffix : CString := ⟨literal "/m1/cmd", by decide⟩

def telemSuffix : CString := ⟨literal "/m1/telem", by decide⟩

def heartbeatSuffix : CString := ⟨literal "/heartbeat", by decide⟩

theorem DeviceId.topic_injective {u v : DeviceId} {suffix : CString} (same : u.topic suffix = v.topic suffix) :
    u = v := by
  have bytes : literal "controller/" ++ hexOf u.bytes ++ suffix.bytes =
      literal "controller/" ++ hexOf v.bytes ++ suffix.bytes := congrArg CString.bytes same
  have digits : hexOf u.bytes = hexOf v.bytes := List.append_cancel_left (List.append_cancel_right bytes)
  cases u
  cases v
  simpa using hexOf_injective digits

/-- A splice of the id into a literal that has room for it at offset 11. -/
theorem splice_topic (u : DeviceId) {text : List Byte} {suffix : CString}
    (front : text.take 11 = literal "controller/") (back : text.drop 35 = suffix.bytes ++ [0#8]) :
    splice text 11 (hexOf u.bytes ++ [0#8]) 24 = (u.topic suffix).bytes ++ [0#8] := by
  have digits : (hexOf u.bytes).length = 24 := by rw [hexOf_length, u.size]
  have id : (hexOf u.bytes ++ [0#8]).take 24 = hexOf u.bytes := by
    rw [← digits, List.take_left]
  rw [splice, front, id, back, DeviceId.topic, List.append_assoc _ suffix.bytes]

theorem commTaskTopics_eq (u : DeviceId) (c : Comms) :
    commTaskTopics u c =
      ({ c with
          m1CmdTopic := (u.topic cmdSuffix).bytes ++ [0#8]
          m1TelemTopic := (u.topic telemSuffix).bytes ++ [0#8] },
        (u.topic heartbeatSuffix).bytes ++ [0#8]) := by
  have cmd := @splice_topic u (m1Cmd ++ [0#8]) cmdSuffix (by decide) (by decide)
  have telem := @splice_topic u (m1Telem ++ [0#8]) telemSuffix (by decide) (by decide)
  have heartbeat := @splice_topic u (heartbeatTopicBase ++ [0#8]) heartbeatSuffix (by decide) (by decide)
  simp only [commTaskTopics, uniqueID_init]
  simp only [uniqueID, if_true, cmd, telem, heartbeat]

/-- An array that a string and its terminator fill is compared as a whole. -/
theorem mqttPubCb_eq {c : Comms} {command : CString} (filled : c.m1CmdTopic = command.bytes ++ [0#8])
    (topic : CString) (totLen : Nat) :
    mqttPubCb c topic totLen =
      { c with
        subPtr := c.subBuffer
        incomingPublish := if totLen ≤ subBufferSize ∧ topic = command then .cmdM1 else .none } := by
  have chars : (fun i => c.m1CmdTopic.getD i 0#8) = command.char := by
    funext i
    rw [filled, CString.char]
    by_cases inside : i < command.bytes.length
    · rw [List.getD_append _ _ _ _ inside]
    · rw [List.getD_append_right _ _ _ _ (Nat.not_lt.mp inside), List.getD_eq_default _ _ (Nat.not_lt.mp inside)]
      rcases i - command.bytes.length with _ | beyond <;> rfl
  have compared :
      strncmp topic.char (fun i => c.m1CmdTopic.getD i 0#8) c.m1CmdTopic.length = 0 ↔ topic = command := by
    rw [chars, filled]
    exact strncmp_eq_zero_iff_eq (by simp)
  unfold mqttPubCb
  by_cases long : totLen > subBufferSize
  · have refused : ¬ (totLen ≤ subBufferSize ∧ topic = command) := fun both => by omega
    simp only [if_pos long, if_neg refused]
  · by_cases same : topic = command
    · have accepted : totLen ≤ subBufferSize ∧ topic = command := ⟨by omega, same⟩
      simp only [if_neg long, if_pos (compared.mpr same), if_pos accepted]
    · have refused : ¬ (totLen ≤ subBufferSize ∧ topic = command) := fun both => same both.2
      simp only [if_neg long, if_neg (mt compared.mp same), if_neg refused]

theorem mqttPubCb_selects {c : Comms} {command : CString} (filled : c.m1CmdTopic = command.bytes ++ [0#8])
    (topic : CString) (totLen : Nat) :
    (mqttPubCb c topic totLen).incomingPublish = .cmdM1 ↔ totLen ≤ subBufferSize ∧ topic = command := by
  rw [mqttPubCb_eq filled]
  by_cases accepted : totLen ≤ subBufferSize ∧ topic = command
  · simp [accepted]
  · simp [accepted]

/-- A device listens to its own command topic and to nothing else. -/
theorem commTaskTopics_isolates (u : DeviceId) (c : Comms) :
    (commTaskTopics u c).1.m1CmdTopic = (u.topic cmdSuffix).bytes ++ [0#8] ∧
      (commTaskTopics u c).1.m1TelemTopic = (u.topic telemSuffix).bytes ++ [0#8] ∧
      (commTaskTopics u c).2 = (u.topic heartbeatSuffix).bytes ++ [0#8] ∧
      (∀ topic totLen, totLen ≤ subBufferSize →
        ((mqttPubCb (commTaskTopics u c).1 topic totLen).incomingPublish = .cmdM1 ↔ topic = u.topic cmdSuffix)) ∧
      ∀ v d, u ≠ v → ∀ topic totLen otherLen,
        ¬ ((mqttPubCb (commTaskTopics u c).1 topic totLen).incomingPublish = .cmdM1 ∧
          (mqttPubCb (commTaskTopics v d).1 topic otherLen).incomingPublish = .cmdM1) := by
  have filled (u : DeviceId) (c : Comms) :
      (commTaskTopics u c).1.m1CmdTopic = (u.topic cmdSuffix).bytes ++ [0#8] := by
    rw [commTaskTopics_eq]
  refine ⟨filled u c, by rw [commTaskTopics_eq], by rw [commTaskTopics_eq], ?_, ?_⟩
  · intro topic totLen fits
    rw [mqttPubCb_selects (filled u c)]
    exact ⟨fun both => both.2, fun same => ⟨fits, same⟩⟩
  · rintro v d different topic totLen otherLen ⟨first, second⟩
    have mine := ((mqttPubCb_selects (filled u c) topic totLen).mp first).2
    have theirs := ((mqttPubCb_selects (filled v d) topic otherLen).mp second).2
    exact different (DeviceId.topic_injective (mine.symm.trans theirs))

theorem commTaskTopics_isolates_zeros :
    let zeros : DeviceId := ⟨List.replicate 12 0#8, rfl⟩
    let ones : DeviceId := ⟨List.replicate 12 1#8, rfl⟩
    (mqttPubCb (commTaskTopics zeros staticComms).1 (zeros.topic cmdSuffix) 9).incomingPublish = .cmdM1 ∧
      (mqttPubCb (commTaskTopics ones staticComms).1 (zeros.topic cmdSuffix) 9).incomingPublish ≠ .cmdM1 := by
  intro zeros ones
  obtain ⟨_, _, _, selects, isolates⟩ := commTaskTopics_isolates zeros staticComms
  have mine := (selects (zeros.topic cmdSuffix) 9 (by decide)).mpr rfl
  exact ⟨mine, fun theirs => isolates ones staticComms (by decide) _ 9 9 ⟨mine, theirs⟩⟩

end Maglev
