import Maglev.Mqtt.OpenRequests
import Maglev.Mqtt.Serving

namespace Maglev

def ClientOutput.told (n : Nat) (out : ClientOutput) : Option Err := out.request?.bind (RequestCall.told n)

/-- The machine of the deadlines does the same. -/
theorem Serves.represents {q q' : RequestQueue} {inputs : List RequestInput} {calls : List RequestCall} {s : Deadlines}
    (serves : Serves q inputs calls q') (represents : Represents q s) :
    Represents q' (deadlineMachine.final s inputs) ∧
      calls = (deadlineMachine.outputs s inputs).filterMap RequestOutput.call? := by
  obtain ⟨out, ran, rfl⟩ := serves
  obtain ⟨final, same, represents'⟩ := represents.run inputs
  rw [ran] at same
  cases same
  exact ⟨represents', rfl⟩

theorem filterMap_told (n : Nat) (outs : List ClientOutput) :
    outs.filterMap (ClientOutput.told n) = (outs.filterMap ClientOutput.request?).filterMap (RequestCall.told n) :=
  (List.filterMap_filterMap ..).symm

/-- What the step has to do with the callback `n`, if it does not ask for it. -/
theorem RequestInput.Within.other {client client' : MqttClient} {input : ClientInput} {i : RequestInput}
    (within : i.Within client input client') {n : Nat} (other : input.cb ≠ some n) :
    i.cb ≠ some n ∧ i.Prompt ∧ i ≠ .tick := by
  cases i with
  | request pktId cb => exact ⟨fun same => other (within ▸ same), trivial, RequestInput.noConfusion⟩
  | answer pktId err => exact ⟨(Option.some_ne_none n).symm, within, RequestInput.noConfusion⟩
  | tick => exact within.elim
  | _ => exact ⟨(Option.some_ne_none n).symm, trivial, RequestInput.noConfusion⟩

/-- The requests after a step of the client, as their machine has them. -/
theorem Handles.represents {client client' : MqttClient} {input : ClientInput} {outs : List ClientOutput}
    {s : Deadlines} (handles : Handles client input outs client') (represents : Represents client.requests s) (n : Nat) :
    ∃ rest, (∀ i ∈ rest, i.Within client input client') ∧
      Represents client'.requests (deadlineMachine.final s (input.ages client ++ rest)) ∧
      outs.filterMap (ClientOutput.told n) =
        (deadlineMachine.outputs s (input.ages client ++ rest)).filterMap (RequestOutput.told n) := by
  obtain ⟨rest, within, serves⟩ := handles.serves
  obtain ⟨represents', calls⟩ := serves.represents represents
  refine ⟨rest, within, represents', ?_⟩
  rw [filterMap_told, calls, List.filterMap_filterMap]
  rfl

theorem ClientInput.ages_eq (input : ClientInput) (client : MqttClient) :
    input.ages client = [] ∨ input.ages client = [.tick] := by
  unfold ClientInput.ages
  split
  · exact Or.inr rfl
  · exact Or.inl rfl

theorem ClientInput.eq_tick_of_mem_ages {input : ClientInput} {client : MqttClient} {i : RequestInput}
    (aged : i ∈ input.ages client) : i = .tick := by
  rcases input.ages_eq client with none | tick
  · rw [none] at aged
    cases aged
  · rw [tick] at aged
    exact List.mem_singleton.mp aged

/-- A connection has to end before the requests are initialised. -/
theorem Handles.lost_le {client client' : MqttClient} {input : ClientInput} {rest : List RequestInput} {s : Deadlines}
    (within : ∀ i ∈ rest, i.Within client input client') (connected : client.connState = .mqttConnected) :
    s.lost ≤ (deadlineMachine.final s (input.ages client ++ rest)).lost := by
  refine deadlineMachine_lost_le fun init => ?_
  rcases List.mem_append.mp init with aged | other
  · cases ClientInput.eq_tick_of_mem_ages aged
  · have disconnected : client.connState = .tcpDisconnected := within _ other
    rw [connected] at disconnected
    cases disconnected

theorem Handles.closed {client client' : MqttClient} {input : ClientInput} {outs : List ClientOutput} {s : Deadlines}
    {n : Nat} (handles : Handles client input outs client') (represents : Represents client.requests s)
    (closed : Closed n s.waiting) (other : input.cb ≠ some n) :
    ∃ s', Represents client'.requests s' ∧ Closed n s'.waiting ∧ outs.filterMap (ClientOutput.told n) = [] ∧
      (client.connState = .mqttConnected → s.lost ≤ s'.lost) := by
  obtain ⟨rest, within, represents', told⟩ := handles.represents represents n
  have others : ∀ i ∈ input.ages client ++ rest, i.cb ≠ some n := by
    refine List.forall_mem_append.mpr ⟨fun i aged => ?_, fun i among => ((within i among).other other).1⟩
    rw [ClientInput.eq_tick_of_mem_ages aged]
    exact (Option.some_ne_none n).symm
  obtain ⟨final, silent⟩ := closed.run _ others
  exact ⟨_, represents', final, told.trans silent, Handles.lost_le within⟩

/-- What a step of the client does to a request that is open. -/
theorem Handles.open_ {client client' : MqttClient} {input : ClientInput} {outs : List ClientOutput} {s : Deadlines}
    {n k : Nat} (handles : Handles client input outs client') (represents : Represents client.requests s)
    (open_ : Open n k s.waiting) (other : input.cb ≠ some n) :
    ∃ s', Represents client'.requests s' ∧ (client.connState = .mqttConnected → s.lost ≤ s'.lost) ∧
      Outcome n (k + (input.ages client).length) s'.waiting (outs.filterMap (ClientOutput.told n))
        (k + (input.ages client).length ≤ 6 ∧
          (client'.connState = .tcpDisconnected ∨ client.connState = .tcpDisconnected ∨ s.lost < s'.lost)) := by
  obtain ⟨rest, within, represents', told⟩ := handles.represents represents n
  have lost := fun connected => @Handles.lost_le client client' input rest s within connected
  have others := fun i among => ((within i among).other other).1
  have prompt := fun i among => ((within i among).other other).2.1
  have still : .tick ∉ rest := fun tick => ((within _ tick).other other).2.2 rfl
  have dropped {s : Deadlines} (gone : .clear ∈ rest ∨ .init ∈ rest ∨ s.lost < (deadlineMachine.final s rest).lost) :
      client'.connState = .tcpDisconnected ∨ client.connState = .tcpDisconnected ∨
        s.lost < (deadlineMachine.final s rest).lost :=
    gone.imp (within _) (Or.imp_left (within _))
  refine ⟨_, represents', lost, ?_⟩
  rw [told]
  rcases input.ages_eq client with none | tick
  · rw [none, List.nil_append]
    exact (open_.run others prompt still).mono fun gone => ⟨open_.early, dropped gone⟩
  · rw [tick, List.singleton_append, Machine.outputs_cons, List.filterMap_append, Machine.final_cons]
    cases @Open.tick n k s.waiting open_ False with
    | waits older silent =>
      have aged : (deadlineMachine.step s .tick).2.filterMap (RequestOutput.told n) = [] := silent
      rw [aged, List.nil_append]
      have next : Open n (k + 1) (deadlineMachine.step s .tick).1.waiting := older
      exact (next.run others prompt still).mono fun gone => ⟨older.early, dropped gone⟩
    | answered closed called late =>
      have aged : (deadlineMachine.step s .tick).2.filterMap (RequestOutput.told n) = [_] := called
      have next : Closed n (deadlineMachine.step s .tick).1.waiting := closed
      obtain ⟨final, silent⟩ := next.run rest others
      exact .answered final (by rw [aged, silent]; rfl) late
    | dropped _ _ no => exact no.elim

/-- The client is connected whenever it is called. -/
abbrev StaysConnected : MqttClient → List ClientInput → Prop :=
  clientMachine.Along fun client _ => client.connState = .mqttConnected

theorem StaysConnected.step {client client' : MqttClient} {input : ClientInput} {rest : List ClientInput}
    {outs : List ClientOutput} (stays : StaysConnected client (input :: rest))
    (stepped : clientMachine.step client input = some (client', outs)) :
    client.connState = .mqttConnected ∧ StaysConnected client' rest :=
  ⟨stays.1, stays.2 client' outs (clientMachine.consumer_step stepped)⟩

/-- A callback without a request is not called. -/
theorem Closed.clientRun {n : Nat} {client client' : MqttClient} {inputs : List ClientInput} {outs : List ClientOutput}
    {s : Deadlines} (closed : Closed n s.waiting) (represents : Represents client.requests s)
    (fresh : ∀ input ∈ inputs, input.cb ≠ some n) (ran : clientMachine.run client inputs = some (client', outs)) :
    outs.filterMap (ClientOutput.told n) = [] ∧ ∃ s', Represents client'.requests s' ∧ Closed n s'.waiting ∧
      (StaysConnected client inputs → s.lost ≤ s'.lost) := by
  induction inputs generalizing client outs s with
  | nil =>
    cases ran
    exact ⟨rfl, s, represents, closed, fun _ => Nat.le_refl _⟩
  | cons input rest ih =>
    obtain ⟨here, later⟩ := List.forall_mem_cons.mp fresh
    obtain ⟨between, first, more, stepped, finished, rfl⟩ := clientMachine.run_cons_eq_some ran
    obtain ⟨s₁, represents₁, closed₁, silent, lost⟩ := (clientMachine_handles stepped).closed represents closed here
    obtain ⟨silentRest, s', represents', closed', lostRest⟩ := ih closed₁ represents₁ later finished
    refine ⟨by rw [List.filterMap_append, silent, silentRest]; rfl, s', represents', closed', fun stays => ?_⟩
    obtain ⟨connected, staysRest⟩ := stays.step stepped
    exact (lost connected).trans (lostRest staysRest)

/-- The ticks of a client that is connected are those that age its requests. -/
theorem ClientInput.ages_length {input : ClientInput} {client : MqttClient} (connected : client.connState = .mqttConnected)
    (timer : client.timer = true) : (input.ages client).length = if input.isTick then 1 else 0 := by
  simp only [ClientInput.ages, connected, timer, and_true]
  split <;> rfl

theorem ClientInput.ages_length_le (input : ClientInput) (client : MqttClient) :
    (input.ages client).length ≤ if input.isTick then 1 else 0 := by
  unfold ClientInput.ages
  by_cases tick : input.isTick = true
  · rw [if_pos tick]
    split <;> simp
  · simp [tick]

/-- By induction on the inputs, with the ticks that have come so far. -/
theorem Open.clientRun {n k : Nat} {client client' : MqttClient} {inputs : List ClientInput} {outs : List ClientOutput}
    {s : Deadlines} (open_ : Open n k s.waiting) (represents : Represents client.requests s) (timed : Timed client)
    (fresh : ∀ input ∈ inputs, input.cb ≠ some n) (ran : clientMachine.run client inputs = some (client', outs)) :
    let told := outs.filterMap (ClientOutput.told n)
    told.length ≤ 1 ∧ (.timeout ∈ told → 6 ≤ k + inputs.countP ClientInput.isTick) ∧
      (StaysConnected client inputs → (∀ s', Represents client'.requests s' → s'.lost ≤ s.lost) →
        7 ≤ k + inputs.countP ClientInput.isTick → told.length = 1) := by
  induction inputs generalizing client outs s k with
  | nil =>
    cases ran
    refine ⟨Nat.zero_le _, fun member => by simp at member, fun _ _ late => ?_⟩
    have early := open_.early
    rw [List.countP_nil] at late
    omega
  | cons input rest ih =>
    obtain ⟨here, later⟩ := List.forall_mem_cons.mp fresh
    obtain ⟨between, first, more, stepped, finished, rfl⟩ := clientMachine.run_cons_eq_some ran
    have handles := clientMachine_handles stepped
    obtain ⟨s₁, represents₁, lost, outcome⟩ := handles.open_ represents open_ here
    have most := input.ages_length_le client
    simp only [List.filterMap_append, List.countP_cons]
    cases outcome with
    | waits older silent =>
      obtain ⟨once, late, exactly⟩ := ih older represents₁ (handles.timed timed) later finished
      rw [silent, List.nil_append]
      refine ⟨once, fun timeout => (late timeout).trans (by omega), fun stays kept enough => ?_⟩
      obtain ⟨connected, staysRest⟩ := stays.step stepped
      have ticks := @ClientInput.ages_length input client connected (timed (Or.inr connected))
      exact exactly staysRest (fun s' final => (kept s' final).trans (lost connected)) (by omega)
    | answered closed told late =>
      obtain ⟨silent, -⟩ := closed.clientRun represents₁ later finished
      rw [told, silent, List.append_nil]
      refine ⟨Nat.le_refl _, fun timeout => ?_, fun _ _ _ => rfl⟩
      have enough := late (List.mem_singleton.mp timeout).symm
      omega
    | dropped closed silent dropped =>
      obtain ⟨silentRest, s', represents', -, lostRest⟩ := closed.clientRun represents₁ later finished
      rw [silent, silentRest, List.append_nil]
      refine ⟨Nat.zero_le _, fun timeout => by simp at timeout, fun stays kept enough => ?_⟩
      obtain ⟨connected, staysRest⟩ := stays.step stepped
      have ticks := @ClientInput.ages_length input client connected (timed (Or.inr connected))
      obtain ⟨early, ended | ended | fewer⟩ := dropped
      · cases rest with
        | nil =>
          rw [List.countP_nil] at enough
          omega
        | cons next rest =>
          have still : between.connState = .mqttConnected := staysRest.1
          rw [ended] at still
          cases still
      · rw [connected] at ended
        cases ended
      · have final := (lostRest staysRest).trans (kept s' represents')
        omega

/-- The requests that wait, in their order. -/
def RequestQueue.chain (q : RequestQueue) : Nat → Option RequestPtr → List RequestPtr
  | 0, _ | _, none => []
  | fuel + 1, some r => r :: q.chain fuel (q.next r)

/-- The requests that neither wait nor are to be had. -/
def RequestQueue.lost (q : RequestQueue) : Finset RequestPtr :=
  Finset.univ.filter fun r => q.next r ≠ some r ∧ r ∉ q.chain mqttReqMaxInFlight q.pendReqQueue

theorem RequestQueue.chain_eq {q : RequestQueue} {fuel : Nat} {head : Option RequestPtr} {nodes : List RequestPtr}
    (linked : Linked q.next head nodes none) (enough : nodes.length ≤ fuel) : q.chain fuel head = nodes := by
  induction nodes generalizing fuel head with
  | nil =>
    obtain rfl : head = none := linked
    cases fuel <;> rfl
  | cons r rest ih =>
    obtain ⟨rfl, later⟩ := linked
    cases fuel with
    | zero => simp at enough
    | succ fuel => rw [RequestQueue.chain, ih later (by simpa using enough)]

theorem Represents.lost_eq {q : RequestQueue} {s : Deadlines} (represents : Represents q s) : s.lost = q.lost.card := by
  obtain ⟨pending, lost, accounted, rfl⟩ := represents
  have queued := accounted.queued
  have nodes := RequestQueue.chain_eq queued.linked (by simpa using queued.length_le)
  refine congrArg Finset.card (Finset.ext fun r => ?_)
  rw [RequestQueue.lost, Finset.mem_filter_univ, nodes]
  constructor
  · intro among
    have outside := accounted.apart r among
    exact ⟨(accounted.unused r outside).not.mpr (not_not_intro among), outside⟩
  · rintro ⟨used, outside⟩
    exact not_not.mp ((accounted.unused r outside).not.mp used)

theorem represents_zero (timer : Bool) : Represents (MqttClient.zero timer).requests ⟨[], mqttReqMaxInFlight⟩ := by
  have used (r : RequestPtr) : (MqttClient.zero timer).requests.next r ≠ some r := (Option.some_ne_none r).symm
  refine ⟨[], Finset.univ, ⟨⟨rfl, by simp, trivial, by simp⟩, by simp, fun r _ => ?_⟩, ?_⟩
  · exact iff_of_false (used r) fun outside => outside (Finset.mem_univ r)
  · rw [Finset.card_univ, Fintype.card_fin]
    rfl

/-- The call has taken a request. -/
def ClientOutput.accepts : ClientOutput → Bool
  | .publishReturns err | .subUnsubReturns err => err = .ok
  | _ => false

theorem clientMachine_accepted {client client' : MqttClient} {input : ClientInput} {out : List ClientOutput} {n : Nat}
    (asks : input.cb = some n) (stepped : clientMachine.step client input = some (client', out))
    (accepted : out.any ClientOutput.accepts = true) : ∃ pktId,
      requestMachine.step client.requests (.request pktId (some n)) = some (client'.requests, [.accepted true]) := by
  cases input with
  | publish topic payload qos retain cb =>
    obtain rfl : cb = some n := asks
    obtain ⟨⟨final, err⟩, ran, same⟩ := Option.map_eq_some_iff.mp stepped
    cases same
    obtain rfl : err = .ok := by simpa [ClientOutput.accepts] using accepted
    exact (mqttPublish_asked ran).accepted rfl
  | subUnsub topic qos cb sub =>
    obtain rfl : cb = some n := asks
    obtain ⟨⟨final, err⟩, ran, same⟩ := Option.map_eq_some_iff.mp stepped
    cases same
    obtain rfl : err = .ok := by simpa [ClientOutput.accepts] using accepted
    exact (mqttSubUnsub_asked ran).accepted rfl
  | _ => cases asks

/-- A request that has just been accepted is open. -/
theorem Closed.accept {n : Nat} {q q' : RequestQueue} {s : Deadlines} {pktId : BitVec 16} (closed : Closed n s.waiting)
    (represents : Represents q s)
    (accepted : requestMachine.step q (.request pktId (some n)) = some (q', [.accepted true])) :
    ∃ s', Represents q' s' ∧ Open n 0 s'.waiting := by
  obtain ⟨q₁, taken, represents'⟩ := represents.request pktId (some n)
  obtain ⟨rfl, room⟩ := Prod.mk.inj (Option.some.inj (accepted.symm.trans taken))
  refine ⟨_, represents', ?_⟩
  simp only [deadlineMachine] at room ⊢
  split at room
  case isFalse => simp at room
  case isTrue fits =>
    rw [if_pos fits]
    obtain ⟨pending, lost, accounted, rfl⟩ := represents
    obtain ⟨-, -, deltas, bounded⟩ := accounted.queued
    have early : ∀ x ∈ pending.map q.waiting, x.2 ≤ 30 := List.forall_mem_map.mpr bounded
    obtain ⟨ordered', bounded'⟩ := ordered_append (List.pairwise_map.mpr deltas.ordered) early ⟨some n, pktId⟩
    refine ⟨ordered', bounded', ⟨⟨some n, pktId⟩, ?_⟩, Nat.zero_le _⟩
    rw [List.filter_append, show (pending.map q.waiting).filter (hasCallback n) = [] from closed]
    simp [hasCallback]

/-- In every run of the client, the callback of a request that was accepted is called at most
once, and told of a timeout not before the sixth tick of the timer. If the client stays
connected, it is called once by the seventh, unless a request is lost in the meantime. -/
theorem clientMachine_callsOnce (timer : Bool) {before after : List ClientInput} {input : ClientInput} {n : Nat}
    (asks : input.cb = some n) (fresh : ∀ other ∈ before ++ after, other.cb ≠ some n)
    (admissible : clientMachine.Along Admissible (MqttClient.zero timer) (before ++ input :: after)) :
    ∃ client earlier client₁ out client' later,
      clientMachine.run (MqttClient.zero timer) before = some (client, earlier) ∧
      clientMachine.step client input = some (client₁, out) ∧
      clientMachine.run client₁ after = some (client', later) ∧
      (out.any ClientOutput.accepts = true →
        let told := later.filterMap (ClientOutput.told n)
        told.length ≤ 1 ∧ (.timeout ∈ told → 6 ≤ after.countP ClientInput.isTick) ∧
          (StaysConnected client₁ after → client'.requests.lost.card ≤ client₁.requests.lost.card →
            7 ≤ after.countP ClientInput.isTick → told.length = 1)) := by
  obtain ⟨client', outs, ran, -⟩ := clientMachine.run_total (fun _ _ safe admissible => Safe.step safe admissible)
    (safe_of_closed rfl rfl) admissible
  obtain ⟨client, earlier, rest, ranBefore, ranRest, -⟩ := clientMachine.run_append_eq_some ran
  obtain ⟨client₁, out, later, stepped, ranAfter, -⟩ := clientMachine.run_cons_eq_some ranRest
  refine ⟨client, earlier, client₁, out, client', later, ranBefore, stepped, ranAfter, fun accepted => ?_⟩
  obtain ⟨freshBefore, freshAfter⟩ := List.forall_mem_append.mp fresh
  have none : Closed n (Deadlines.mk [] mqttReqMaxInFlight).waiting := rfl
  obtain ⟨-, s, represents, closed, -⟩ := none.clientRun (represents_zero timer) freshBefore ranBefore
  obtain ⟨pktId, taken⟩ := clientMachine_accepted asks stepped accepted
  obtain ⟨s₁, represents₁, open_⟩ := closed.accept represents taken
  have timed : Timed client := by
    refine clientMachine.run_relation (fun _ => id) (fun _ _ _ _ _ stepped => (clientMachine_handles stepped).timed)
      (fun _ _ _ _ _ now later => later ∘ now) (fun _ _ => trivial) ranBefore (timed_of_disconnected rfl)
  have timed₁ := (clientMachine_handles stepped).timed timed
  obtain ⟨once, late, exactly⟩ := open_.clientRun represents₁ timed₁ freshAfter ranAfter
  rw [Nat.zero_add] at late exactly
  refine ⟨once, late, fun stays kept => exactly stays fun s' final => ?_⟩
  rw [final.lost_eq, represents₁.lost_eq]
  exact kept

/-- Connects to a server, which accepts. -/
def connectedRun : List ClientInput :=
  [.connect ⟨.ofBytes [], 0#16, none, 0#8, false⟩ (.started 100 []), .connected .ok,
    .received (some [0x20#8, 2#8, 0#8, 0#8]) .ok]

/-- Nobody answers a publish, and the seventh tick has given it up. -/
theorem clientMachine_callsOnce_unanswered : ∃ client earlier client₁ out client' later,
    clientMachine.run (MqttClient.zero false) connectedRun = some (client, earlier) ∧
      clientMachine.step client (.publish (.ofBytes [0x61#8]) [7#8] 1#8 0#8 (some 0)) = some (client₁, out) ∧
      clientMachine.run client₁ (List.replicate 7 .tick) = some (client', later) ∧
      (later.filterMap (ClientOutput.told 0)).length = 1 := by
  obtain ⟨client, earlier, client₁, out, client', later, before, asked, after, once⟩ :=
    @clientMachine_callsOnce false connectedRun (List.replicate 7 .tick)
      (.publish (.ofBytes [0x61#8]) [7#8] 1#8 0#8 (some 0)) 0 rfl (by decide) (by decide +kernel)
  have fine : ((clientMachine.run (MqttClient.zero false) connectedRun).bind fun r =>
      clientMachine.step r.1 (.publish (.ofBytes [0x61#8]) [7#8] 1#8 0#8 (some 0))).all (fun r =>
        r.2.any ClientOutput.accepts && decide (StaysConnected r.1 (List.replicate 7 .tick)) &&
          (clientMachine.run r.1 (List.replicate 7 .tick)).all fun r' =>
            decide (r'.1.requests.lost.card ≤ r.1.requests.lost.card)) = true := by decide +kernel
  simp only [before, asked, after, Option.bind_some, Option.all_some, Bool.and_eq_true, decide_eq_true_eq] at fine
  obtain ⟨⟨accepted, stays⟩, kept⟩ := fine
  exact ⟨client, earlier, client₁, out, client', later, before, asked, after,
    (once accepted).2.2 stays kept (by decide)⟩

-- The loss is real: a SUBACK without a body takes the identifier that the buffer still holds.
example : (clientMachine.run setUpClient [.subUnsub (.ofBytes [0x61#8]) 0#8 (some 0) true,
    .received (some [0x62#8, 2#8, 0#8, 1#8, 0x90#8, 0#8]) .ok]).map
      (fun r => (r.1.connState, r.1.requests.lost.card)) = some (.mqttConnected, 1) := by
  decide +kernel

end Maglev
