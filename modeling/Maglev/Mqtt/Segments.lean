import Mathlib.Data.Nat.Bitwise
import Maglev.Mqtt.ByteParser

namespace Maglev

theorem headerSize_eq_some {client : MqttClient} {n : Nat} :
    headerSize client = some n ↔
      (2 ≤ n ∧ n ≤ 6 ∧ n ≤ client.msgIdx) ∧ ¬ Continues (client.rxBuffer (n - 1)) ∧
        ∀ i, 0 < i → i + 1 < n → Continues (client.rxBuffer i) := by
  simp only [headerSize, List.find?_range'_eq_some, decide_eq_true_eq, List.mem_range', Continues, not_not]
  constructor
  · rintro ⟨⟨inside, last⟩, ⟨i, few, rfl⟩, before⟩
    refine ⟨⟨by omega, by omega, inside⟩, last, fun i pos earlier => ?_⟩
    have next := before (i + 1) (by omega) (by omega)
    simp only [Nat.add_sub_cancel, Bool.not_eq_true', decide_eq_false_iff_not, not_and] at next
    exact next (by omega)
  · rintro ⟨⟨two, six, inside⟩, last, before⟩
    refine ⟨⟨inside, last⟩, ⟨n - 2, by omega, by omega⟩, fun j from_ earlier => ?_⟩
    have continues := before (j - 1) (by omega) (by omega)
    simp only [Bool.not_eq_true', decide_eq_false_iff_not, not_and]
    exact fun _ => continues

theorem headerSize_eq_none {client : MqttClient} :
    headerSize client = none ↔ ∀ i, 0 < i → i < 6 → i < client.msgIdx → Continues (client.rxBuffer i) := by
  simp only [headerSize, List.find?_eq_none, List.mem_range', decide_eq_true_eq, not_and, Continues]
  constructor
  · intro none i pos few inside
    exact none (i + 1) ⟨i - 1, by omega, by omega⟩ inside
  · rintro all n ⟨i, few, rfl⟩ inside
    have continues := all (2 + 1 * i - 1) (by omega) (by omega) (by omega)
    exact continues

theorem lengthOf_succ (rx : Mem) {n : Nat} (pos : 0 < n) :
    lengthOf rx (n + 1) = lengthOf rx n ||| ((rx n &&& 0x7f#8).toNat <<< ((n - 1) * 7)) % 2 ^ 32 := by
  rw [lengthOf, if_neg (by omega)]

theorem lengthOf_congr {rx rx' : Mem} {n : Nat} (same : ∀ i < n, rx' i = rx i) : lengthOf rx' n = lengthOf rx n := by
  induction n with
  | zero => rfl
  | succ n ih => rw [lengthOf, lengthOf, ih fun i before => same i (by omega), same n (by omega)]

/-- The seven bits of a length byte, at their place. -/
theorem group_shift_lt (b : Byte) (n : Nat) : (b &&& 0x7f#8).toNat <<< (n * 7) < 2 ^ ((n + 1) * 7) := by
  have small : (b &&& 0x7f#8).toNat < 2 ^ 7 := by
    rw [BitVec.toNat_and]
    exact Nat.and_lt_two_pow _ (by decide)
  rw [Nat.shiftLeft_eq, Nat.add_mul, Nat.pow_add, Nat.mul_comm (2 ^ (n * 7))]
  exact Nat.mul_lt_mul_of_pos_right small (Nat.two_pow_pos _)

theorem lengthOf_lt (rx : Mem) (n : Nat) : lengthOf rx (n + 1) < 2 ^ (n * 7) := by
  induction n with
  | zero => exact Nat.one_pos
  | succ n ih =>
    rw [lengthOf_succ rx (by omega)]
    refine Nat.or_lt_two_pow (ih.trans_le (Nat.pow_le_pow_right (by decide) (by omega))) ?_
    exact (Nat.mod_le _ _).trans_lt (group_shift_lt _ n)

/-- Between two bytes, the buffer holds the beginning of a packet: some of its fixed
header, or all of that and less than the message, whose end the index can reach. -/
structure Framed (client : MqttClient) : Prop where
  header : headerSize client = none → client.msgIdx ≤ 6
  body : ∀ n, headerSize client = some n → client.msgIdx < lengthOf client.rxBuffer n + n
  small : ∀ n, headerSize client = some n → lengthOf client.rxBuffer n + n < 2 ^ 32

theorem framed_of_zero {client : MqttClient} (zero : client.msgIdx = 0) : Framed client where
  header := fun _ => by omega
  body := fun n some => by
    have inside := (headerSize_eq_some.mp some).1
    omega
  small := fun n some => by
    have inside := (headerSize_eq_some.mp some).1
    omega

theorem SameInput.headerSize {client client' : MqttClient} (same : SameInput client client') :
    headerSize client' = headerSize client := by
  unfold Maglev.headerSize
  rw [same.index, same.buffer]

theorem SameInput.framed {client client' : MqttClient} (same : SameInput client client') (framed : Framed client) :
    Framed client' where
  header := by
    rw [same.headerSize, same.index]
    exact framed.header
  body := by
    rw [same.headerSize, same.index, same.buffer]
    exact framed.body
  small := by
    rw [same.headerSize, same.buffer]
    exact framed.small

section Body

variable {client : MqttClient} {fixedHdrIdx : Nat}

theorem le_bodyIndex (client : MqttClient) (fixedHdrIdx : Nat) : fixedHdrIdx ≤ bodyIndex client fixedHdrIdx :=
  Nat.le_add_left _ _

theorem bodyIndex_lt (header : headerSize client = some fixedHdrIdx) :
    bodyIndex client fixedHdrIdx < mqttVarHeaderBufferLen := by
  have few := (headerSize_eq_some.mp header).1
  have inside := Nat.mod_lt (client.msgIdx - fixedHdrIdx) (show 0 < mqttVarHeaderBufferLen - fixedHdrIdx by
    unfold mqttVarHeaderBufferLen
    omega)
  unfold bodyIndex
  omega

theorem copied_before (client : MqttClient) {index a : Nat} (bytes : List Byte) (before : a < index) :
    (client.copied index bytes).rxBuffer a = client.rxBuffer a :=
  Mem.store_before _ _ before

theorem copied_headerSize (header : headerSize client = some fixedHdrIdx) {index : Nat}
    (behind : fixedHdrIdx ≤ index) (bytes : List Byte) : headerSize (client.copied index bytes) = some fixedHdrIdx := by
  obtain ⟨⟨two, six, inside⟩, last, before⟩ := headerSize_eq_some.mp header
  refine headerSize_eq_some.mpr ⟨⟨two, six, Nat.le_add_right_of_le inside⟩, ?_, fun i pos earlier => ?_⟩
  · rwa [copied_before client bytes (by omega)]
  · rw [copied_before client bytes (by omega)]
    exact before i pos earlier

theorem copied_lengthOf {index : Nat} (behind : fixedHdrIdx ≤ index) (bytes : List Byte) :
    lengthOf (client.copied index bytes).rxBuffer fixedHdrIdx = lengthOf client.rxBuffer fixedHdrIdx :=
  lengthOf_congr fun _ before => copied_before client bytes (by omega)

theorem copied_bodyLeft {index : Nat} (behind : fixedHdrIdx ≤ index) (bytes : List Byte) :
    bodyLeft (client.copied index bytes) fixedHdrIdx = bodyLeft client fixedHdrIdx - bytes.length := by
  unfold bodyLeft
  rw [copied_lengthOf behind]
  exact (Nat.sub_sub _ _ _).symm

/-- Up to the end of the buffer the bytes go one behind the other. -/
theorem copied_bodyIndex (header : headerSize client = some fixedHdrIdx) {bytes : List Byte}
    (room : bodyIndex client fixedHdrIdx + bytes.length < mqttVarHeaderBufferLen) (index : Nat) :
    bodyIndex (client.copied index bytes) fixedHdrIdx = bodyIndex client fixedHdrIdx + bytes.length := by
  have inside := (headerSize_eq_some.mp header).1
  have moved : (client.copied index bytes).msgIdx - fixedHdrIdx = client.msgIdx - fixedHdrIdx + bytes.length := by
    change client.msgIdx + bytes.length - fixedHdrIdx = _
    omega
  unfold bodyIndex at room ⊢
  rw [moved, Nat.add_mod, Nat.mod_eq_of_lt (show bytes.length < _ by omega),
    Nat.mod_eq_of_lt (by omega)]
  omega

theorem copied_framed (framed : Framed client) (header : headerSize client = some fixedHdrIdx) {index : Nat}
    (behind : fixedHdrIdx ≤ index) {bytes : List Byte} (more : bytes.length < bodyLeft client fixedHdrIdx) :
    Framed (client.copied index bytes) where
  header := fun none => by
    rw [copied_headerSize header behind] at none
    cases none
  body := fun n some => by
    rw [copied_headerSize header behind] at some
    cases some
    rw [copied_lengthOf behind]
    change client.msgIdx + bytes.length < _
    unfold bodyLeft at more
    omega
  small := fun n some => by
    rw [copied_headerSize header behind] at some
    cases some
    rw [copied_lengthOf behind]
    exact framed.small fixedHdrIdx header

theorem copied_append (client : MqttClient) (index : Nat) (first rest : List Byte) :
    (client.copied index first).copied (index + first.length) rest = client.copied index (first ++ rest) := by
  simp only [MqttClient.copied, Mem.store_append, List.length_append, Nat.add_assoc]

/-- Bytes behind the fixed header one by one and at once, up to the end of the message
and of the buffer. -/
theorem byteParser_body (header : headerSize client = some fixedHdrIdx) {bytes : List Byte} (nonempty : bytes ≠ [])
    (left : bytes.length ≤ bodyLeft client fixedHdrIdx)
    (room : bodyIndex client fixedHdrIdx + bytes.length ≤ mqttVarHeaderBufferLen) :
    byteParser.run client bytes = feedBody client fixedHdrIdx bytes := by
  induction bytes generalizing client with
  | nil => exact absurd rfl nonempty
  | cons b rest ih =>
    have first : byteParser.step client b = feedBody client fixedHdrIdx [b] := by
      simp only [byteParser, feed, header]
    rw [Consumer.run_cons, first]
    cases rest with
    | nil =>
      have last : (fun r => byteParser.andThen r (byteParser.run · [])) = some := by
        funext r
        by_cases going : r.2.2 = byteParser.going
        · obtain ⟨s, out, res⟩ := r
          obtain rfl : res = byteParser.going := going
          simp [Consumer.andThen_going]
        · exact byteParser.andThen_stopped going _
      rw [last]
      exact Option.bind_fun_some _
    | cons next rest =>
      simp only [List.length_cons] at left room
      have silent : feedBody client fixedHdrIdx [b] =
          some (client.copied (bodyIndex client fixedHdrIdx) [b], [], byteParser.going) := by
        refine if_neg ?_
        simp only [List.length_singleton]
        omega
      have behind := le_bodyIndex client fixedHdrIdx
      have index := @copied_bodyIndex client fixedHdrIdx header [b] (by rw [List.length_singleton]; omega)
        (bodyIndex client fixedHdrIdx)
      have shorter := @copied_bodyLeft client fixedHdrIdx _ behind [b]
      rw [silent, Option.bind_some, Consumer.andThen_silent,
        ih (copied_headerSize header behind _) (by simp) (by rw [shorter]; simp; omega) (by rw [index]; simp; omega)]
      simp only [feedBody, index, shorter, copied_append]
      simp only [List.length_cons, List.length_nil, List.cons_append, List.nil_append, Nat.add_assoc, Nat.sub_sub,
        Nat.zero_add, Nat.add_comm 1]

end Body

/-- The parser is in the fixed header: it has looked at the bytes before `fixedHdrIdx`,
and there are more of them. -/
structure Scanning (s : ParseState) : Prop where
  inside : s.fixedHdrIdx ≤ s.client.msgIdx
  value : s.msgRemLen = lengthOf s.client.rxBuffer s.fixedHdrIdx
  continues : ∀ i, 0 < i → i < s.fixedHdrIdx → Continues (s.client.rxBuffer i)
  current : 2 ≤ s.fixedHdrIdx → s.b = s.client.rxBuffer (s.fixedHdrIdx - 1)

/-- The parser is behind the fixed header. -/
structure InBody (s : ParseState) : Prop where
  header : headerSize s.client = some s.fixedHdrIdx
  current : ¬ Continues s.b
  value : s.msgRemLen = bodyLeft s.client s.fixedHdrIdx

/-- The variables of the parser fit the buffer; it takes that many rounds more than there
are bytes, to look at the fixed header once more. -/
inductive Parsed (s : ParseState) : Nat → Prop
  | scanning (at_ : Scanning s) : Parsed s (min s.client.msgIdx 6 - s.fixedHdrIdx)
  | body (at_ : InBody s) : Parsed s 0

/-- A round does its part of what the bytes lead to one by one, and `bound` goes down. -/
inductive Feeds (p : List Byte) (bound : Nat) (r : MqttClient × List MqttCall × Nat) : ParseRound → Prop
  | returned {s : ParseState} {calls : List MqttCall} {res : Nat} (stopped : res ≠ mqttConnectAccepted)
      (same : (s.client, calls, res) = r) : Feeds p bound r ⟨s, calls, some res⟩
  | goesOn {s : ParseState} {calls : List MqttCall} {extra : Nat} (framed : Framed s.client) (parsed : Parsed s extra)
      (less : p.length - s.inOffset + extra < bound)
      (fed : byteParser.andThen (s.client, calls, mqttConnectAccepted) (byteParser.run · (p.drop s.inOffset)) = some r) :
      Feeds p bound r ⟨s, calls, none⟩

theorem scanning_start {client : MqttClient} {inOffset msgRemLen : Nat} {b : Byte} (nothing : msgRemLen = 0) :
    Scanning ⟨client, inOffset, msgRemLen, 0, b⟩ where
  inside := Nat.zero_le _
  value := nothing
  continues := fun _ _ before => absurd before (Nat.not_lt_zero _)
  current := fun two => absurd two (by simp)

/-- The bytes that a round behind the fixed header takes. -/
def bodyChunk (p : List Byte) (s : ParseState) : List Byte :=
  (p.drop s.inOffset).take (min s.msgRemLen (mqttVarHeaderBufferLen - bodyIndex s.client s.fixedHdrIdx))

theorem bodyChunk_length (p : List Byte) (s : ParseState) :
    (bodyChunk p s).length =
      min (min (p.length - s.inOffset) s.msgRemLen)
        (mqttVarHeaderBufferLen - bodyIndex s.client s.fixedHdrIdx) := by
  simp only [bodyChunk, List.length_take, List.length_drop]
  omega

theorem parseBody_eq {p : List Byte} {s : ParseState} (framed : Framed s.client) (inBody : InBody s) :
    parseBody p s =
      let bytes := bodyChunk p s
      let index := bodyIndex s.client s.fixedHdrIdx
      let s : ParseState := { s with
        client := s.client.copied index bytes
        inOffset := s.inOffset + bytes.length
        msgRemLen := s.msgRemLen - bytes.length }
      if s.msgRemLen = 0 ∨ index + bytes.length = mqttVarHeaderBufferLen then
        (mqttMessageReceived s.client s.fixedHdrIdx (index + bytes.length - s.fixedHdrIdx) s.msgRemLen).map
          (messageAnswered s)
      else some ⟨s, [], none⟩ := by
  have inside := (headerSize_eq_some.mp inBody.header).1
  have below := framed.body _ inBody.header
  have small := framed.small _ inBody.header
  have room := bodyIndex_lt inBody.header
  have length := bodyChunk_length p s
  have start : (s.client.msgIdx + 2 ^ 32 - s.fixedHdrIdx) % 2 ^ 32 % (mqttVarHeaderBufferLen - s.fixedHdrIdx) +
      s.fixedHdrIdx = bodyIndex s.client s.fixedHdrIdx := by
    rw [show s.client.msgIdx + 2 ^ 32 - s.fixedHdrIdx = s.client.msgIdx - s.fixedHdrIdx + 2 ^ 32 by omega,
      Nat.add_mod_right, Nat.mod_eq_of_lt (show s.client.msgIdx - s.fixedHdrIdx < 2 ^ 32 by omega)]
    rfl
  have taken : (p.drop s.inOffset).take (bodyChunk p s).length = bodyChunk p s := by
    rw [bodyChunk, List.length_take, List.take_eq_take_min, Nat.min_assoc, Nat.min_self, ← List.take_eq_take_min]
  have moved : (s.client.msgIdx + (bodyChunk p s).length) % 2 ^ 32 = s.client.msgIdx + (bodyChunk p s).length := by
    have value := inBody.value
    unfold bodyLeft at value
    apply Nat.mod_eq_of_lt
    omega
  have full : (bodyChunk p s).length = mqttVarHeaderBufferLen - bodyIndex s.client s.fixedHdrIdx ↔
      bodyIndex s.client s.fixedHdrIdx + (bodyChunk p s).length = mqttVarHeaderBufferLen := by omega
  have within : bodyIndex s.client s.fixedHdrIdx + (bodyChunk p s).length ≤ mqttVarHeaderBufferLen := by omega
  unfold parseBody
  simp only [start, ← length, taken, moved, full, if_pos within]
  rfl

/-- What a message that was looked at leaves, in the round and byte by byte. -/
theorem InBody.feeds_delivered {p : List Byte} {s : ParseState} {bound end_ : Nat}
    {answer r : MqttClient × List MqttCall × Nat} (framed : s.msgRemLen ≠ 0 → Framed s.client) (inBody : InBody s)
    (less : p.length - s.inOffset < bound)
    (received : mqttMessageReceived s.client s.fixedHdrIdx (end_ - s.fixedHdrIdx) s.msgRemLen = some answer)
    (fed : (deliver s.client s.fixedHdrIdx end_ s.msgRemLen).bind
      (byteParser.andThen · (byteParser.run · (p.drop s.inOffset))) = some r) :
    Feeds p bound r (messageAnswered s answer) := by
  obtain ⟨client, calls, res⟩ := answer
  have same := mqttMessageReceived_sameInput received
  rw [deliver, received] at fed
  simp only [messageAnswered]
  by_cases going : res = mqttConnectAccepted
  · subst going
    by_cases complete : s.msgRemLen = 0
    · simp only [complete, and_self, if_true, ne_eq, not_true_eq_false, if_false, Option.bind_eq_bind,
        Option.bind_some] at fed ⊢
      refine .goesOn (framed_of_zero rfl) (.scanning (scanning_start rfl)) ?_ fed
      simpa using less
    · simp only [complete, and_false, if_false, ne_eq, not_true_eq_false, Option.bind_eq_bind, Option.bind_some] at fed ⊢
      have inBody' : InBody { s with client } := by
        refine ⟨same.headerSize.trans inBody.header, inBody.current, inBody.value.trans ?_⟩
        unfold bodyLeft
        rw [same.index, same.buffer]
      exact .goesOn (same.framed (framed complete)) (.body inBody') less fed
  · simp only [going, false_and, if_false, Option.bind_eq_bind, Option.bind_some,
      byteParser.andThen_stopped (show (client, calls, res).2.2 ≠ byteParser.going from going)] at fed
    rw [if_pos going]
    exact .returned going (Option.some.inj fed)

theorem InBody.feeds {p : List Byte} {s : ParseState} {r : MqttClient × List MqttCall × Nat}
    (framed : Framed s.client) (inBody : InBody s) (more : s.inOffset < p.length)
    (fed : byteParser.run s.client (p.drop s.inOffset) = some r) :
    ∃ round, parseRound p s = some round ∧ Feeds p (p.length - s.inOffset) r round := by
  have inside := (headerSize_eq_some.mp inBody.header).1
  have below := framed.body _ inBody.header
  have room := bodyIndex_lt inBody.header
  have behind := le_bodyIndex s.client s.fixedHdrIdx
  have length := bodyChunk_length p s
  have value := inBody.value
  have positive : 0 < s.msgRemLen := by
    rw [value, bodyLeft]
    omega
  have nonempty : 0 < (bodyChunk p s).length := by omega
  have split : p.drop s.inOffset = bodyChunk p s ++ p.drop (s.inOffset + (bodyChunk p s).length) := by
    rw [← List.drop_drop]
    nth_rewrite 1 [← List.take_append_drop (bodyChunk p s).length (p.drop s.inOffset)]
    congr 1
    rw [bodyChunk, List.length_take, List.take_eq_take_min, Nat.min_assoc, Nat.min_self, ← List.take_eq_take_min]
  rw [split, Consumer.run_append, byteParser_body inBody.header (List.length_pos_iff.mp nonempty)
    (by omega) (by omega)] at fed
  rw [parseRound, if_neg (not_or.mpr ⟨by omega, inBody.current⟩), parseBody_eq framed inBody]
  have inBody' : InBody { s with
      client := s.client.copied (bodyIndex s.client s.fixedHdrIdx) (bodyChunk p s)
      inOffset := s.inOffset + (bodyChunk p s).length
      msgRemLen := s.msgRemLen - (bodyChunk p s).length } :=
    ⟨copied_headerSize inBody.header behind _, inBody.current, by rw [copied_bodyLeft behind, value]⟩
  have less : p.length - (s.inOffset + (bodyChunk p s).length) < p.length - s.inOffset := by omega
  simp only [feedBody, ← value] at fed
  dsimp only
  split_ifs at fed ⊢ with looked
  · obtain ⟨rr, delivered, -⟩ := Option.bind_eq_some_iff.mp fed
    obtain ⟨answer, received, -⟩ := Option.bind_eq_some_iff.mp delivered
    rw [received]
    refine ⟨_, rfl, inBody'.feeds_delivered (fun left => ?_) less received fed⟩
    exact copied_framed framed inBody.header behind (by rw [← value]; dsimp only at left; omega)
  · rw [Option.bind_some, show mqttConnectAccepted = byteParser.going from rfl, Consumer.andThen_silent] at fed
    refine ⟨_, rfl, .goesOn ?_ (.body inBody') less ?_⟩
    · exact copied_framed framed inBody.header behind (by rw [← value]; omega)
    · exact (byteParser.andThen_silent _ _).trans fed

/-- The parser has taken the byte `k` of a fixed header, and not seen yet what it means. -/
structure Looked (s : ParseState) (k : Nat) : Prop where
  index : s.fixedHdrIdx = k + 1
  inside : k < s.client.msgIdx
  few : k < 6
  value : s.msgRemLen = lengthOf s.client.rxBuffer k
  continues : ∀ i, 0 < i → i < k → Continues (s.client.rxBuffer i)
  current : s.b = s.client.rxBuffer k

/-- The state with the length as far as it is known. -/
def ParseState.scanned (s : ParseState) : ParseState :=
  { s with msgRemLen := lengthOf s.client.rxBuffer s.fixedHdrIdx }

theorem Looked.lengthOf_succ {s : ParseState} {k : Nat} (looked : Looked s k) (pos : 0 < k) :
    s.msgRemLen ||| ((s.b &&& 0x7f#8).toNat <<< ((k + 1 - 2) * 7)) % 2 ^ 32 =
      lengthOf s.client.rxBuffer (k + 1) := by
  rw [Nat.add_sub_add_right, Maglev.lengthOf_succ _ pos, looked.value, looked.current]

theorem Looked.continue_ {s : ParseState} {k : Nat} (looked : Looked s k) (more : 0 < k → Continues s.b) :
    parseLength s = some ⟨s.scanned, [], none⟩ ∧ Scanning s.scanned := by
  constructor
  · unfold parseLength ParseState.scanned
    by_cases first : k = 0
    · have nothing : s.msgRemLen = lengthOf s.client.rxBuffer s.fixedHdrIdx := by
        rw [looked.value, looked.index, first]
        rfl
      rw [if_pos (by rw [looked.index]; omega), ← nothing]
    · have few := looked.few
      rw [looked.index, if_neg (by omega)]
      simp only [looked.lengthOf_succ (by omega), if_pos (show (k + 1 - 2) * 7 < 32 by omega),
        if_pos (more (by omega))]
  · refine ⟨?_, rfl, fun i pos before => ?_, fun two => ?_⟩
    all_goals simp only [ParseState.scanned, looked.index] at *
    · exact looked.inside
    · by_cases last : i = k
      · rw [last, ← looked.current]
        exact more (by omega)
      · exact looked.continues i pos (by omega)
    · exact looked.current

theorem Looked.headerSize {s : ParseState} {k : Nat} (looked : Looked s k) (pos : 0 < k) (last : ¬ Continues s.b) :
    headerSize s.client = some (k + 1) := by
  have few := looked.few
  have inside := looked.inside
  refine headerSize_eq_some.mpr ⟨⟨by omega, by omega, by omega⟩, ?_, fun i pos before => ?_⟩
  · rwa [Nat.add_sub_cancel, ← looked.current]
  · exact looked.continues i pos (by omega)

/-- The last byte of a fixed header. -/
theorem Looked.finish {s : ParseState} {k : Nat} (looked : Looked s k) (pos : 0 < k) (last : ¬ Continues s.b) :
    parseLength s =
      if lengthOf s.client.rxBuffer (k + 1) = 0 then
        (mqttMessageReceived s.client (k + 1) 0 0).map fun (client, calls, _) =>
          ⟨{ s with client := { client with msgIdx := 0 }, msgRemLen := 0, fixedHdrIdx := 0 }, calls, none⟩
      else
        some ⟨{ s with
          msgRemLen := (lengthOf s.client.rxBuffer (k + 1) + (k + 1) + 2 ^ 32 - s.client.msgIdx) % 2 ^ 32 },
          [], none⟩ := by
  have few := looked.few
  unfold parseLength
  rw [looked.index, if_neg (by omega)]
  simp only [looked.lengthOf_succ pos, if_pos (show (k + 1 - 2) * 7 < 32 by omega), if_neg last]
  by_cases empty : lengthOf s.client.rxBuffer (k + 1) = 0
  · simp only [empty, if_true]
  · simp only [empty, if_false]

/-- The fixed header is complete, and there is a message behind it. -/
theorem Looked.inBody {s : ParseState} {k : Nat} (looked : Looked s k) (pos : 0 < k) (last : ¬ Continues s.b)
    (inside : s.client.msgIdx < lengthOf s.client.rxBuffer (k + 1) + (k + 1))
    (small : lengthOf s.client.rxBuffer (k + 1) + (k + 1) < 2 ^ 32) :
    InBody { s with
      msgRemLen := (lengthOf s.client.rxBuffer (k + 1) + (k + 1) + 2 ^ 32 - s.client.msgIdx) % 2 ^ 32 } := by
  refine ⟨by rw [looked.index]; exact looked.headerSize pos last, last, ?_⟩
  simp only [bodyLeft, looked.index]
  omega

/-- A byte of the fixed header that is in the buffer already. -/
theorem Scanning.reread {p : List Byte} {s : ParseState} {r : MqttClient × List MqttCall × Nat}
    (framed : Framed s.client) (scanning : Scanning s) (before : s.fixedHdrIdx < s.client.msgIdx)
    (fed : byteParser.run s.client (p.drop s.inOffset) = some r) :
    ∃ round, parseHeader p s = some round ∧
      Feeds p (p.length - s.inOffset + (min s.client.msgIdx 6 - s.fixedHdrIdx)) r round := by
  have few : s.fixedHdrIdx < 6 := by
    by_contra many
    have none : Maglev.headerSize s.client = none :=
      headerSize_eq_none.mpr fun i pos small _ => scanning.continues i pos (by omega)
    have := framed.header none
    omega
  have looked : Looked { s with b := s.client.rxBuffer s.fixedHdrIdx, fixedHdrIdx := s.fixedHdrIdx + 1 }
      s.fixedHdrIdx :=
    ⟨rfl, before, few, scanning.value, scanning.continues, rfl⟩
  have silent : byteParser.andThen (s.client, [], mqttConnectAccepted)
      (byteParser.run · (p.drop s.inOffset)) = some r := (byteParser.andThen_silent _ _).trans fed
  rw [parseHeader, parseHeaderByte, if_pos before, Option.bind_some]
  by_cases more : 0 < s.fixedHdrIdx → Continues (s.client.rxBuffer s.fixedHdrIdx)
  · obtain ⟨ran, scanned⟩ := looked.continue_ more
    refine ⟨_, ran, .goesOn framed (.scanning scanned) ?_ silent⟩
    simp only [ParseState.scanned]
    omega
  · obtain ⟨pos, last⟩ := Classical.not_imp.mp more
    have inside := framed.body _ (looked.headerSize pos last)
    have small := framed.small _ (looked.headerSize pos last)
    refine ⟨_, (looked.finish pos last).trans (if_neg (by dsimp only; omega)), .goesOn framed
      (.body (looked.inBody pos last inside small)) ?_ silent⟩
    dsimp only
    omega

theorem stored_rxBuffer (client : MqttClient) (b : Byte) (i : Nat) :
    (client.stored b).rxBuffer i = if i = client.msgIdx then b else client.rxBuffer i :=
  Function.update_apply client.rxBuffer client.msgIdx b i

theorem stored_before (client : MqttClient) (b : Byte) {i : Nat} (before : i < client.msgIdx) :
    (client.stored b).rxBuffer i = client.rxBuffer i := by
  rw [stored_rxBuffer, if_neg (Nat.ne_of_lt before)]

theorem stored_last (client : MqttClient) (b : Byte) : (client.stored b).rxBuffer client.msgIdx = b := by
  rw [stored_rxBuffer, if_pos rfl]

theorem Scanning.stored {s : ParseState} (scanning : Scanning s) (all : s.fixedHdrIdx = s.client.msgIdx)
    (few : s.client.msgIdx < 6) (b : Byte) :
    Looked { s with
      client := s.client.stored b
      inOffset := s.inOffset + 1
      b
      fixedHdrIdx := s.fixedHdrIdx + 1 } s.client.msgIdx := by
  refine ⟨congrArg (· + 1) all, Nat.lt_succ_self _, few, ?_, fun i pos before => ?_, ?_⟩
  · rw [lengthOf_congr fun i before => stored_before s.client b before, ← all]
    exact scanning.value
  · rw [stored_before s.client b before]
    exact scanning.continues i pos (by omega)
  · exact (stored_last s.client b).symm

/-- The fixed header goes on behind the byte that the input has given. -/
theorem Looked.feeds_continued {p : List Byte} {s : ParseState} {k bound : Nat} {r : MqttClient × List MqttCall × Nat}
    {client : MqttClient} {b : Byte} (looked : Looked s k) (continued : 0 < k → Continues s.b)
    (stored : s.client = client.stored b) (all : s.client.msgIdx = k + 1) (less : p.length - s.inOffset < bound)
    (fed : (feedHeader client b).bind (byteParser.andThen · (byteParser.run · (p.drop s.inOffset))) = some r) :
    ∃ round, parseLength s = some round ∧ Feeds p bound r round := by
  obtain ⟨ran, scanned⟩ := looked.continue_ continued
  have index : s.scanned.fixedHdrIdx = s.client.msgIdx := looked.index.trans all.symm
  have open_ : Maglev.headerSize s.client = none :=
    headerSize_eq_none.mpr fun i pos _ before => scanned.continues i pos (index ▸ before)
  simp only [feedHeader, ← stored, open_] at fed
  refine ⟨_, ran, .goesOn ⟨fun _ => ?_, fun n some => ?_, fun n some => ?_⟩ (.scanning scanned) ?_ fed⟩
  · exact all ▸ looked.few
  · cases open_.symm.trans some
  · cases open_.symm.trans some
  · have none : min s.client.msgIdx 6 - s.scanned.fixedHdrIdx = 0 := by
      rw [index]
      exact Nat.sub_eq_zero_of_le (Nat.min_le_left _ _)
    exact none ▸ less

/-- The byte that the input has given is the last one of the fixed header. -/
theorem Looked.feeds_last {p : List Byte} {s : ParseState} {k bound : Nat} {r : MqttClient × List MqttCall × Nat}
    {client : MqttClient} {b : Byte} (looked : Looked s k) (pos : 0 < k) (last : ¬ Continues s.b)
    (stored : s.client = client.stored b) (all : s.client.msgIdx = k + 1) (less : p.length - s.inOffset < bound)
    (fed : (feedHeader client b).bind (byteParser.andThen · (byteParser.run · (p.drop s.inOffset))) = some r) :
    ∃ round, parseLength s = some round ∧ Feeds p bound r round := by
  have closed := looked.headerSize pos last
  have finish := looked.finish pos last
  simp only [feedHeader, ← stored, closed] at fed
  by_cases empty : lengthOf s.client.rxBuffer (k + 1) = 0
  · rw [if_pos empty] at fed finish
    obtain ⟨⟨client, calls, res⟩, answered, next⟩ := Option.bind_eq_some_iff.mp fed
    obtain ⟨answer, received, same⟩ := Option.map_eq_some_iff.mp answered
    cases same
    rw [received] at finish
    exact ⟨_, finish, .goesOn (framed_of_zero rfl) (.scanning (scanning_start rfl)) (by simpa using less) next⟩
  · rw [if_neg empty] at fed finish
    have inside : s.client.msgIdx < lengthOf s.client.rxBuffer (k + 1) + (k + 1) := by omega
    by_cases small : lengthOf s.client.rxBuffer (k + 1) + (k + 1) < 2 ^ 32
    · rw [if_pos small] at fed
      refine ⟨_, finish, .goesOn ⟨fun none => ?_, fun n some => ?_, fun n some => ?_⟩
        (.body (looked.inBody pos last inside small)) less fed⟩
      · cases closed.symm.trans none
      · cases closed.symm.trans some
        exact inside
      · cases closed.symm.trans some
        exact small
    · rw [if_neg small] at fed
      cases fed

/-- A byte of the fixed header that the input gives. -/
theorem Scanning.read {p : List Byte} {s : ParseState} {r : MqttClient × List MqttCall × Nat}
    (scanning : Scanning s) (all : s.fixedHdrIdx = s.client.msgIdx) (more : s.inOffset < p.length)
    (fed : byteParser.run s.client (p.drop s.inOffset) = some r) :
    ∃ round, parseHeader p s = some round ∧
      Feeds p (p.length - s.inOffset + (min s.client.msgIdx 6 - s.fixedHdrIdx)) r round := by
  have none : Maglev.headerSize s.client = none :=
    headerSize_eq_none.mpr fun i pos _ before => scanning.continues i pos (by omega)
  rw [List.drop_eq_getElem_cons more, Consumer.run_cons] at fed
  have step : byteParser.step s.client p[s.inOffset] =
      if s.client.msgIdx < 6 then feedHeader s.client p[s.inOffset] else .none := by
    simp only [byteParser, feed, none]
  rw [step] at fed
  by_cases few : s.client.msgIdx < 6
  · have looked := scanning.stored all few p[s.inOffset]
    have byte : parseHeaderByte p s = some { s with
        client := s.client.stored p[s.inOffset]
        inOffset := s.inOffset + 1
        b := p[s.inOffset]
        fixedHdrIdx := s.fixedHdrIdx + 1 } := by
      unfold parseHeaderByte mqttVarHeaderBufferLen
      rw [if_neg (by omega), if_pos (by omega), Nat.mod_eq_of_lt (by omega)]
      simp only [List.getD_eq_getElem _ _ more]
      rfl
    have less : p.length - (s.inOffset + 1) < p.length - s.inOffset + (min s.client.msgIdx 6 - s.fixedHdrIdx) := by
      omega
    rw [parseHeader, byte, Option.bind_some]
    rw [if_pos few] at fed
    by_cases continued : 0 < s.client.msgIdx → Continues p[s.inOffset]
    · exact looked.feeds_continued continued rfl rfl less fed
    · obtain ⟨pos, last⟩ := Classical.not_imp.mp continued
      exact looked.feeds_last pos last rfl rfl less fed
  · rw [if_neg few] at fed
    cases fed

/-- One round of the loop, wherever the parser is. -/
theorem Parsed.feeds {p : List Byte} {s : ParseState} {extra : Nat} {r : MqttClient × List MqttCall × Nat}
    (framed : Framed s.client) (parsed : Parsed s extra) (more : s.inOffset < p.length)
    (fed : byteParser.run s.client (p.drop s.inOffset) = some r) :
    ∃ round, parseRound p s = some round ∧ Feeds p (p.length - s.inOffset + extra) r round := by
  cases parsed with
  | body inBody => exact inBody.feeds framed more fed
  | scanning scanning =>
    have inHeader : s.fixedHdrIdx < 2 ∨ Continues s.b := by
      by_cases first : s.fixedHdrIdx < 2
      · exact Or.inl first
      · rw [scanning.current (by omega)]
        exact Or.inr (scanning.continues _ (by omega) (by omega))
    rw [parseRound, if_pos inHeader]
    rcases Nat.lt_or_eq_of_le scanning.inside with before | all
    · exact scanning.reread framed before fed
    · exact scanning.read all more fed

/-- The loop does what the bytes lead to one by one. -/
theorem parseLoop_eq {p : List Byte} {fuel extra : Nat} {s : ParseState} {r : MqttClient × List MqttCall × Nat}
    (framed : Framed s.client) (parsed : Parsed s extra) (enough : p.length - s.inOffset + extra ≤ fuel)
    (fed : byteParser.run s.client (p.drop s.inOffset) = some r) :
    parseLoop p fuel s = some r ∧ (r.2.2 = mqttConnectAccepted → Framed r.1) := by
  induction fuel generalizing s extra r with
  | zero =>
    have through : p.length ≤ s.inOffset := by omega
    rw [List.drop_eq_nil_of_le through] at fed
    cases fed
    exact ⟨if_pos through, fun _ => framed⟩
  | succ fuel ih =>
    by_cases through : p.length ≤ s.inOffset
    · rw [List.drop_eq_nil_of_le through] at fed
      cases fed
      exact ⟨if_pos through, fun _ => framed⟩
    · obtain ⟨round, ran, feeds⟩ := parsed.feeds framed (Nat.not_le.mp through) fed
      rw [parseLoop, if_neg through, ran]
      cases feeds with
      | returned stopped same =>
        subst same
        exact ⟨rfl, fun going => absurd going stopped⟩
      | @goesOn s' calls extra' framed' parsed' less next =>
        rw [show mqttConnectAccepted = byteParser.going from rfl, Consumer.andThen_going] at next
        obtain ⟨later, fedLater, rfl⟩ := Option.map_eq_some_iff.mp next
        obtain ⟨loop, kept⟩ := ih framed' parsed' (by omega) fedLater
        refine ⟨?_, kept⟩
        simp only [Option.bind_eq_bind, Option.bind_some, loop]

theorem mqttParseIncoming_eq {client : MqttClient} {p : List Byte} {r : MqttClient × List MqttCall × Nat}
    (framed : Framed client) (fed : byteParser.run client p = some r) :
    mqttParseIncoming client p = some r ∧ (r.2.2 = mqttConnectAccepted → Framed r.1) := by
  have start : Scanning ⟨client, 0, 0, 0, 0#8⟩ := scanning_start rfl
  refine parseLoop_eq framed (.scanning start) ?_ fed
  dsimp only
  omega

/-- However the TCP layer cuts the bytes into segments, the parser makes the same calls
as if they came one by one, and ends the same way. -/
theorem segmentParser_run {client : MqttClient} (framed : Framed client) (segments : List (List Byte))
    {r : MqttClient × List MqttCall × Nat} (fed : byteParser.run client segments.flatten = some r) :
    segmentParser.run client segments = some r :=
  byteParser.run_flatten rfl (fun _ _ _ framed fed => mqttParseIncoming_eq framed fed) framed segments fed

/-- A ping response whose length takes five bytes, and the refusal of the connection, in
three segments. -/
theorem segmentParser_run_refused :
    ∃ client, segmentParser.run { MqttClient.zero true with connState := .mqttConnecting }
      [[0xd0#8, 0x80#8, 0x80#8], [0x80#8, 0x80#8, 0#8, 0x20#8, 2#8], [0#8, 5#8]] = some (client, [], 5) :=
  ⟨_, segmentParser_run (framed_of_zero rfl)
    [[0xd0#8, 0x80#8, 0x80#8], [0x80#8, 0x80#8, 0#8, 0x20#8, 2#8], [0#8, 5#8]] rfl⟩

end Maglev
