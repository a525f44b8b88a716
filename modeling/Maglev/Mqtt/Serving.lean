import Maglev.Mqtt.Safety

namespace Maglev

def MqttCall.request? : MqttCall → Option RequestCall
  | .request made => some made
  | _ => none

def ClientOutput.request? : ClientOutput → Option RequestCall
  | .call made => made.request?
  | _ => none

@[simp] theorem filterMap_call (calls : List RequestCall) :
    (calls.map RequestOutput.call).filterMap RequestOutput.call? = calls := by
  simp [List.filterMap_map, Function.comp_def, RequestOutput.call?]

@[simp] theorem filterMap_request (calls : List RequestCall) :
    (calls.map MqttCall.request).filterMap MqttCall.request? = calls := by
  simp [List.filterMap_map, Function.comp_def, MqttCall.request?]

@[simp] theorem filterMap_outputs (calls : List MqttCall) :
    (calls.map ClientOutput.call).filterMap ClientOutput.request? = calls.filterMap MqttCall.request? := by
  rw [List.filterMap_map]
  rfl

/-- A run of the machine of the requests, and the calls that it makes. -/
def Serves (q : RequestQueue) (inputs : List RequestInput) (calls : List RequestCall) (q' : RequestQueue) : Prop :=
  ∃ out, requestMachine.run q inputs = some (q', out) ∧ out.filterMap RequestOutput.call? = calls

theorem serves_nil (q : RequestQueue) : Serves q [] [] q := ⟨[], rfl, rfl⟩

theorem serves_step {q q' : RequestQueue} {input : RequestInput} {out : List RequestOutput}
    (stepped : requestMachine.step q input = some (q', out)) :
    Serves q [input] (out.filterMap RequestOutput.call?) q' := by
  refine ⟨out, ?_, rfl⟩
  rw [requestMachine.run_cons stepped, requestMachine.run_nil]
  simp

theorem Serves.trans {a b c : RequestQueue} {first rest : List RequestInput} {calls more : List RequestCall}
    (now : Serves a first calls b) (later : Serves b rest more c) : Serves a (first ++ rest) (calls ++ more) c := by
  obtain ⟨out, ran, rfl⟩ := now
  obtain ⟨out', ran', rfl⟩ := later
  refine ⟨out ++ out', ?_, List.filterMap_append⟩
  rw [requestMachine.run_append ran, ran']
  rfl

/-- What an incoming packet does to a request. -/
def RequestInput.Reply : RequestInput → Prop
  | .answer _ err => err ≠ .timeout
  | .tooShort _ => True
  | _ => False

/-- Requests are answered, and the timer is left alone. -/
structure Answers (client : MqttClient) (calls : List MqttCall) (client' : MqttClient) : Prop where
  timer : client'.timer = client.timer
  serves : ∃ inputs, (∀ i ∈ inputs, i.Reply) ∧
    Serves client.requests inputs (calls.filterMap MqttCall.request?) client'.requests

theorem answers_of_same {client client' : MqttClient} {calls : List MqttCall} (timer : client'.timer = client.timer)
    (requests : client'.requests = client.requests) (silent : calls.filterMap MqttCall.request? = []) :
    Answers client calls client' := by
  refine ⟨timer, [], List.forall_mem_nil _, ?_⟩
  rw [silent, requests]
  exact serves_nil _

theorem Answers.trans {a b c : MqttClient} {calls more : List MqttCall} (now : Answers a calls b)
    (later : Answers b more c) : Answers a (calls ++ more) c := by
  obtain ⟨first, replies, serves⟩ := now.serves
  obtain ⟨rest, repliesRest, servesRest⟩ := later.serves
  refine ⟨later.timer.trans now.timer, first ++ rest, List.forall_mem_append.mpr ⟨replies, repliesRest⟩, ?_⟩
  rw [List.filterMap_append]
  exact serves.trans servesRest

theorem MqttClient.send_same {client client' : MqttClient} (sent : client.send = some client') :
    client'.timer = client.timer ∧ client'.connState = client.connState ∧ client'.requests = client.requests := by
  obtain ⟨pcb, -, rfl⟩ := Option.map_eq_some_iff.mp sent
  exact ⟨rfl, rfl, rfl⟩

theorem receivedConnack_same (client : MqttClient) (varHdrPayload : Nat) :
    (receivedConnack client varHdrPayload).1.timer = client.timer ∧
      (receivedConnack client varHdrPayload).1.requests = client.requests ∧
      (receivedConnack client varHdrPayload).2.1.filterMap MqttCall.request? = [] := by
  simp only [receivedConnack]
  split_ifs <;> exact ⟨rfl, rfl, rfl⟩

theorem pubAckRecRelResponse_answers {client client' : MqttClient} {msg : MqttMessageType} {pktId : BitVec 16}
    {qos : Byte} (responded : pubAckRecRelResponse client msg pktId qos = some client') : Answers client [] client' := by
  unfold pubAckRecRelResponse at responded
  split at responded
  · obtain ⟨timer, -, requests⟩ := MqttClient.send_same responded
    exact answers_of_same timer requests rfl
  · cases responded
    exact answers_of_same rfl rfl rfl

/-- A subscription that is answered without a result is not told anything. -/
theorem receivedAnswer_answers {client client' : MqttClient} {pktType : Byte} {pktId : BitVec 16}
    {varHdrPayload length res : Nat} {calls : List MqttCall}
    (received : receivedAnswer client pktType pktId varHdrPayload length = some (client', calls, res)) :
    Answers client calls client' := by
  obtain ⟨⟨requests, found⟩, taken, finished⟩ := Option.bind_eq_some_iff.mp received
  have short : requestMachine.step client.requests (.tooShort pktId) = some (requests, []) := by
    simp only [requestMachine, taken, Option.map_some]
  cases found with
  | none =>
    cases finished
    exact ⟨rfl, [.tooShort pktId], List.forall_mem_singleton.mpr trivial, serves_step short⟩
  | some r =>
    dsimp only at finished
    split_ifs at finished
    · cases finished
      exact ⟨rfl, [.tooShort pktId], List.forall_mem_singleton.mpr trivial, serves_step short⟩
    · cases finished
      have prompt : replyErr pktType (client.rxBuffer (varHdrPayload + 2)) ≠ .timeout := by
        unfold replyErr
        split <;> decide
      refine ⟨rfl, [.answer pktId _], List.forall_mem_singleton.mpr prompt, ?_⟩
      rw [filterMap_request, ← filterMap_call ((requests.reqList r).call _)]
      apply serves_step
      simp only [requestMachine, taken, Option.map_some]

theorem answers_rule : IncomingRule Answers where
  trans := Answers.trans
  input _ _ _ := answers_of_same rfl rfl rfl
  identifier _ _ := answers_of_same rfl rfl rfl
  told _ _ := answers_of_same rfl rfl rfl
  connack client varHdrPayload :=
    have ⟨timer, requests, silent⟩ := receivedConnack_same client varHdrPayload
    answers_of_same timer requests silent
  response _ responded := pubAckRecRelResponse_answers responded
  answer := receivedAnswer_answers

theorem mqttClose_serves {client client' : MqttClient} {reason : Nat} {calls : List MqttCall}
    (closed : mqttClose client reason = some (client', calls)) :
    Serves client.requests [.clear] (calls.filterMap MqttCall.request?) client'.requests := by
  obtain ⟨requests, cleared, rest⟩ := Option.bind_eq_some_iff.mp closed
  have step : requestMachine.step client.requests .clear = some (requests, []) := by
    simp only [requestMachine, cleared, Option.map_some]
  dsimp only at rest
  split at rest
  · cases rest
    split <;> exact serves_step step
  · cases rest
    exact serves_step step

/-- The requests are given up with the connection, and only then. -/
theorem closeWhen_serves {bad : Prop} [Decidable bad] {client client' : MqttClient} {reason : Nat}
    {calls : List MqttCall} (closed : closeWhen bad client reason = some (client', calls)) :
    ∃ inputs, Serves client.requests inputs (calls.filterMap MqttCall.request?) client'.requests ∧
      (inputs = [.clear] ∧ client'.connState = .tcpDisconnected ∨ inputs = [] ∧ ¬ bad ∧ client' = client) := by
  unfold closeWhen at closed
  split at closed
  case isTrue =>
    exact ⟨[.clear], mqttClose_serves closed, Or.inl ⟨rfl, (mqttClose_closed closed).2⟩⟩
  case isFalse good =>
    cases closed
    exact ⟨[], serves_nil _, Or.inr ⟨rfl, good, rfl⟩⟩

/-- What becomes of the request of a call. -/
structure Asked (client : MqttClient) (cb : Option Nat) (err : Err) (client' : MqttClient) : Prop where
  timer : client'.timer = client.timer
  state : client'.connState = client.connState
  accepted : err = .ok → ∃ pktId,
    requestMachine.step client.requests (.request pktId cb) = some (client'.requests, [.accepted true])
  refused : err ≠ .ok → client'.requests = client.requests ∨ ∃ pktId,
    requestMachine.step client.requests (.refused pktId cb) = some (client'.requests, [.accepted false])

theorem asked_unchanged {client : MqttClient} {cb : Option Nat} {err : Err} (failure : err ≠ .ok) :
    Asked client cb err client := ⟨rfl, rfl, fun ok => absurd ok failure, fun _ => Or.inl rfl⟩

theorem MqttClient.sendRequest_asked {client client' : MqttClient} {pktId : BitVec 16} {cb : Option Nat}
    {remainingLength : BitVec 16} {append : MqttRingbuf → MqttRingbuf} {err : Err}
    (sent : client.sendRequest pktId cb remainingLength append = some (client', err)) : Asked client cb err client' := by
  unfold MqttClient.sendRequest MqttClient.request at sent
  cases created : mqttCreateRequest client.requests pktId cb with
  | none =>
    simp only [created] at sent
    cases sent
    exact asked_unchanged (by decide)
  | some result =>
    obtain ⟨r, requests⟩ := result
    by_cases space : mqttOutputCheckSpace client.output remainingLength = true
    · simp only [created, if_pos space] at sent
      obtain ⟨queued, appended, rest⟩ := Option.bind_eq_some_iff.mp sent
      obtain ⟨final, written, done⟩ := Option.bind_eq_some_iff.mp rest
      cases done
      obtain ⟨timer, state, same⟩ := MqttClient.send_same written
      refine ⟨timer, state, fun _ => ⟨pktId, ?_⟩, fun failure => absurd rfl failure⟩
      simp only [requestMachine, created, appended, Option.map_some, same]
    · simp only [created, if_neg space] at sent
      cases sent
      refine ⟨rfl, rfl, (fun ok => by cases ok), fun _ => Or.inr ⟨pktId, ?_⟩⟩
      simp only [requestMachine, created]

theorem mqttPublish_asked {client client' : MqttClient} {topic : CString} {payload : List Byte} {qos retain : Byte}
    {cb : Option Nat} {err : Err} (published : mqttPublish client topic payload qos retain cb = some (client', err)) :
    Asked client cb err client' := by
  unfold mqttPublish at published
  split at published
  · cases published
    exact asked_unchanged (by decide)
  · dsimp only at published
    split at published
    · unfold MqttClient.publishId at published
      split at published
      all_goals
        obtain ⟨timer, state, accepted, refused⟩ := MqttClient.sendRequest_asked published
        exact ⟨timer, state, accepted, refused⟩
    · cases published

theorem mqttSubUnsub_asked {client client' : MqttClient} {topic : CString} {qos : Byte} {cb : Option Nat}
    {sub : Bool} {err : Err} (asked : mqttSubUnsub client topic qos cb sub = some (client', err)) :
    Asked client cb err client' := by
  unfold mqttSubUnsub at asked
  dsimp only at asked
  generalize topic.bytes.length + 2 + 2 + (if sub then 1 else 0) = totalLen at asked
  split at asked
  · split at asked
    · cases asked
      exact asked_unchanged (by decide)
    · obtain ⟨timer, state, accepted, refused⟩ := MqttClient.sendRequest_asked asked
      exact ⟨timer, state, accepted, refused⟩
  · cases asked

/-- The timer runs as long as the client needs it. -/
def Timed (client : MqttClient) : Prop :=
  client.connState = .mqttConnecting ∨ client.connState = .mqttConnected → client.timer = true

theorem timed_of_disconnected {client : MqttClient} (disconnected : client.connState = .tcpDisconnected) :
    Timed client := by
  rw [Timed, disconnected]
  rintro (waiting | waiting) <;> cases waiting

theorem Timed.of_same {client client' : MqttClient} (timed : Timed client)
    (state : client'.connState = client.connState) (timer : client'.timer = client.timer) : Timed client' := by
  rw [Timed, state, timer]
  exact timed

/-- What a step of the client may do to a request, apart from the passing of time. -/
def RequestInput.Within (client : MqttClient) (input : ClientInput) (client' : MqttClient) : RequestInput → Prop
  | .request _ cb | .refused _ cb => cb = input.cb
  | .answer _ err => err ≠ .timeout
  | .tooShort _ | .sent => True
  | .tick => False
  | .clear => client'.connState = .tcpDisconnected
  | .init => client.connState = .tcpDisconnected

theorem RequestInput.Reply.within {i : RequestInput} (reply : i.Reply) (client : MqttClient) (input : ClientInput)
    (client' : MqttClient) : i.Within client input client' := by
  cases i with
  | answer | tooShort => exact reply
  | _ => exact reply.elim

/-- The requests grow older with the timer of a client that is connected, and with nothing
else. -/
def ClientInput.ages (input : ClientInput) (client : MqttClient) : List RequestInput :=
  if input.isTick = true ∧ client.timer = true ∧ client.connState = .mqttConnected then [.tick] else []

theorem ClientInput.ages_of_not_tick {input : ClientInput} (other : input.isTick = false) (client : MqttClient) :
    input.ages client = [] := if_neg fun tick => by simp [other] at tick

/-- What a step of the client does to its requests is a run of their machine. -/
structure Handles (client : MqttClient) (input : ClientInput) (outs : List ClientOutput) (client' : MqttClient) :
    Prop where
  timed : Timed client → Timed client'
  serves : ∃ rest, (∀ i ∈ rest, i.Within client input client') ∧
    Serves client.requests (input.ages client ++ rest) (outs.filterMap ClientOutput.request?) client'.requests

theorem handles_of_same {client client' : MqttClient} {input : ClientInput} {outs : List ClientOutput}
    (timed : Timed client → Timed client') (requests : client'.requests = client.requests)
    (silent : outs.filterMap ClientOutput.request? = []) (still : input.ages client = []) :
    Handles client input outs client' := by
  refine ⟨timed, [], List.forall_mem_nil _, ?_⟩
  rw [still, requests, silent]
  exact serves_nil _

theorem Asked.handles {client client' : MqttClient} {input : ClientInput} {err : Err} {out : ClientOutput}
    (asked : Asked client input.cb err client') (other : input.isTick = false) (silent : out.request? = none) :
    Handles client input [out] client' := by
  have timed (before : Timed client) : Timed client' := before.of_same asked.state asked.timer
  have still := ClientInput.ages_of_not_tick other client
  have nothing : [out].filterMap ClientOutput.request? = [] := by simp [silent]
  by_cases ok : err = .ok
  · obtain ⟨pktId, step⟩ := asked.accepted ok
    refine ⟨timed, [.request pktId input.cb], List.forall_mem_singleton.mpr rfl, ?_⟩
    rw [still, nothing]
    exact serves_step step
  · rcases asked.refused ok with same | ⟨pktId, step⟩
    · exact handles_of_same timed same nothing still
    · refine ⟨timed, [.refused pktId input.cb], List.forall_mem_singleton.mpr rfl, ?_⟩
      rw [still, nothing]
      exact serves_step step

theorem mqttClose_handles {client between client' : MqttClient} {input : ClientInput} {reason : Nat}
    {calls : List MqttCall} (closed : mqttClose between reason = some (client', calls))
    (requests : between.requests = client.requests) (still : input.ages client = []) :
    Handles client input (calls.map .call) client' := by
  obtain ⟨-, disconnected⟩ := mqttClose_closed closed
  refine ⟨fun _ => timed_of_disconnected disconnected, [.clear], List.forall_mem_singleton.mpr disconnected, ?_⟩
  rw [still, filterMap_outputs, ← requests]
  exact mqttClose_serves closed

/-- A step that may end with the connection. -/
theorem closeWhen_handles {bad : Prop} [Decidable bad] {client between ended client' : MqttClient}
    {input : ClientInput} {inputs : List RequestInput} {first closed : List MqttCall} {reason : Nat}
    (serves : Serves client.requests (input.ages client ++ inputs) (first.filterMap MqttCall.request?) between.requests)
    (within : ∀ i ∈ inputs, i.Within client input client')
    (finish : closeWhen bad between reason = some (ended, closed))
    (requests : client'.requests = ended.requests) (state : client'.connState = ended.connState)
    (timed : ¬ bad → ended = between → Timed client → Timed client') :
    Handles client input ((first ++ closed).map .call) client' := by
  obtain ⟨ends, gives, outcome⟩ := closeWhen_serves finish
  have all : Serves client.requests (input.ages client ++ (inputs ++ ends))
      (((first ++ closed).map ClientOutput.call).filterMap ClientOutput.request?) client'.requests := by
    rw [filterMap_outputs, List.filterMap_append, requests, ← List.append_assoc]
    exact serves.trans gives
  rcases outcome with ⟨rfl, disconnected⟩ | ⟨rfl, good, same⟩
  · have final := state.trans disconnected
    have cleared : ∀ i ∈ [RequestInput.clear], i.Within client input client' := List.forall_mem_singleton.mpr final
    exact ⟨fun _ => timed_of_disconnected final, _, List.forall_mem_append.mpr ⟨within, cleared⟩, all⟩
  · exact ⟨timed good same, _, List.forall_mem_append.mpr ⟨within, List.forall_mem_nil _⟩, all⟩

theorem mqttTcpRecvCb_handles {client client' : MqttClient} {p : Option (List Byte)} {err : Err}
    {calls : List MqttCall} (listens : client.listens = true)
    (received : mqttTcpRecvCb client p err = some (client', calls)) :
    Handles client (.received p err) (calls.map .call) client' := by
  cases p with
  | none => exact mqttClose_handles received rfl rfl
  | some p =>
    rw [mqttTcpRecvCb] at received
    dsimp only at received
    split at received
    case isTrue =>
      cases received
      exact handles_of_same id rfl rfl rfl
    case isFalse =>
      obtain ⟨⟨parsed, first, res⟩, parse, rest⟩ := Option.bind_eq_some_iff.mp received
      obtain ⟨⟨ended, closed⟩, finish, same⟩ := Option.bind_eq_some_iff.mp rest
      have answers : Answers client first parsed := answers_rule.parse parse
      obtain ⟨inputs, replies, serves⟩ := answers.serves
      have watched : client'.requests = ended.requests ∧ client'.timer = ended.timer ∧
          client'.connState = ended.connState ∧ calls = first ++ closed := by
        simp only [Option.some.injEq, Prod.mk.injEq] at same
        rw [← same.1, ← same.2]
        split <;> exact ⟨rfl, rfl, rfl, rfl⟩
      obtain ⟨requests, timer, final, rfl⟩ := watched
      refine closeWhen_handles serves (fun i among => (replies i among).within ..) finish requests final ?_
      rintro - rfl timed -
      exact timer.trans (answers.timer.trans (timed (listens_state listens)))

theorem mqttTcpSentCb_handles {client client' : MqttClient} {calls : List MqttCall}
    (sent : mqttTcpSentCb client = some (client', calls)) : Handles client .sent (calls.map .call) client' := by
  unfold mqttTcpSentCb at sent
  split at sent
  · obtain ⟨⟨requests, completed⟩, ran, rest⟩ := Option.bind_eq_some_iff.mp sent
    obtain ⟨final, written, same⟩ := Option.bind_eq_some_iff.mp rest
    cases same
    obtain ⟨timer, state, kept⟩ := MqttClient.send_same written
    refine ⟨fun timed => timed.of_same state timer, [.sent], List.forall_mem_singleton.mpr trivial, ?_⟩
    rw [filterMap_outputs, filterMap_request, ← filterMap_call completed, kept]
    apply serves_step
    simp only [requestMachine, ran, Option.map_some]
  · cases sent
    exact handles_of_same id rfl rfl rfl

theorem mqttTcpPollCb_handles {client client' : MqttClient} {calls : List MqttCall}
    (polled : mqttTcpPollCb client = some (client', calls)) : Handles client .polled (calls.map .call) client' := by
  unfold mqttTcpPollCb at polled
  split at polled
  · obtain ⟨final, written, same⟩ := Option.map_eq_some_iff.mp polled
    cases same
    obtain ⟨timer, state, kept⟩ := MqttClient.send_same written
    exact handles_of_same (fun timed => timed.of_same state timer) kept rfl rfl
  · cases polled
    exact handles_of_same id rfl rfl rfl

theorem mqttTcpConnectCb_handles {client client' : MqttClient} {err : Err} {calls : List MqttCall}
    (connected : mqttTcpConnectCb client err = some (client', calls)) :
    Handles client (.connected err) (calls.map .call) client' := by
  unfold mqttTcpConnectCb at connected
  split at connected
  · cases connected
    exact handles_of_same id rfl rfl rfl
  · obtain ⟨final, written, same⟩ := Option.map_eq_some_iff.mp connected
    cases same
    obtain ⟨timer, -, kept⟩ := MqttClient.send_same written
    exact handles_of_same (fun _ _ => timer) kept rfl rfl

theorem mqttCyclicTimer_handles {client client' : MqttClient} {calls : List MqttCall} (running : client.timer = true)
    (ticked : mqttCyclicTimer client = some (client', calls)) : Handles client .tick (calls.map .call) client' := by
  have still (idle : client.connState ≠ .mqttConnected) : ClientInput.tick.ages client = [] :=
    if_neg fun aged => idle aged.2.2
  unfold mqttCyclicTimer at ticked
  dsimp only at ticked
  split at ticked
  case h_1 waiting =>
    have still := still (by rw [waiting]; decide)
    split at ticked
    · exact mqttClose_handles ticked rfl still
    · cases ticked
      exact handles_of_same (fun _ _ => rfl) rfl rfl still
  case h_3 notWaiting idle =>
    cases ticked
    exact handles_of_same (fun _ needed => absurd needed (not_or.mpr ⟨notWaiting, idle⟩)) rfl rfl (still idle)
  case h_2 connected =>
    have ages : ClientInput.tick.ages client = [.tick] := if_pos ⟨rfl, running, connected⟩
    obtain ⟨⟨requests, expired⟩, elapsed, rest⟩ := Option.bind_eq_some_iff.mp ticked
    have older : Serves client.requests [.tick] expired requests := by
      rw [← filterMap_call expired]
      apply serves_step
      simp only [requestMachine]
      exact congrArg (Option.map _) elapsed
    dsimp only at rest
    split at rest
    case isFalse =>
      cases rest
      refine ⟨fun _ _ => rfl, [], List.forall_mem_nil _, ?_⟩
      rw [ages, filterMap_outputs, filterMap_request]
      exact older
    case isTrue =>
      obtain ⟨⟨ended, closed⟩, finish, same⟩ := Option.bind_eq_some_iff.mp rest
      cases same
      obtain ⟨-, kept, -⟩ := pingWhenIdle_same ended
      refine closeWhen_handles ?_ (List.forall_mem_nil _) finish kept (pingWhenIdle_state ended) ?_
      · rw [ages, filterMap_request]
        exact older
      · exact fun responsive _ _ _ => by simpa using responsive

theorem mqttDisconnect_handles {client client' : MqttClient} {calls : List MqttCall}
    (disconnected : mqttDisconnect client = some (client', calls)) :
    Handles client .disconnect (calls.map .call ++ [.disconnectReturns]) client' := by
  have returns : (calls.map ClientOutput.call ++ [ClientOutput.disconnectReturns]).filterMap ClientOutput.request? =
      (calls.map ClientOutput.call).filterMap ClientOutput.request? := by
    rw [List.filterMap_append]
    exact List.append_nil _
  unfold mqttDisconnect at disconnected
  split at disconnected
  · have handles : Handles client .disconnect (calls.map .call) client' := mqttClose_handles disconnected rfl rfl
    exact ⟨handles.timed, returns ▸ handles.serves⟩
  · cases disconnected
    exact handles_of_same id rfl rfl rfl

theorem mqttClientConnect_handles {client client' : MqttClient} {info : MqttConnectClientInfo} {attempt : TcpAttempt}
    {err : Err} (connected : mqttClientConnect client info true attempt = some (client', err)) :
    Handles client (.connect info attempt) [.connectReturns err] client' := by
  by_cases disconnected : client.connState = .tcpDisconnected
  · have init : Serves client.requests [.init] [] initialRequests := ⟨[], rfl, rfl⟩
    have attempted := mqttClientConnect_attempted disconnected connected
    cases attempted with
    | started =>
      refine ⟨fun _ => ?_, [.init], List.forall_mem_singleton.mpr disconnected, init⟩
      rintro (waiting | waiting) <;> cases waiting
    | failed => exact ⟨fun _ => timed_of_disconnected rfl, [.init], List.forall_mem_singleton.mpr disconnected, init⟩
  · rw [mqttClientConnect, if_pos disconnected] at connected
    cases connected
    exact handles_of_same id rfl rfl rfl

theorem handles_whenEnabled {enabled : Bool} {client client' : MqttClient} {result : MqttResult} {input : ClientInput}
    {outs : List ClientOutput} (still : enabled = false → input.ages client = [])
    (handles : ∀ calls, enabled = true → result = some (client', calls) →
      Handles client input (calls.map .call) client')
    (stepped : whenEnabled enabled client result = some (client', outs)) : Handles client input outs client' := by
  rcases whenEnabled_cases stepped with ⟨on, calls, ran, rfl⟩ | ⟨off, rfl, rfl⟩
  · exact handles calls on ran
  · exact handles_of_same id rfl rfl (still off)

/-- Every step of the client does to its requests what their machine can do: the timer ages
them while the client is connected, incoming packets answer them, and the end of the
connection gives them up. -/
theorem clientMachine_handles {client client' : MqttClient} {input : ClientInput} {outs : List ClientOutput}
    (stepped : clientMachine.step client input = some (client', outs)) : Handles client input outs client' := by
  cases input with
  | connect info attempt =>
    obtain ⟨⟨final, err⟩, ran, same⟩ := Option.map_eq_some_iff.mp stepped
    cases same
    exact mqttClientConnect_handles ran
  | publish topic payload qos retain cb =>
    obtain ⟨⟨final, err⟩, ran, same⟩ := Option.map_eq_some_iff.mp stepped
    cases same
    exact Asked.handles (mqttPublish_asked ran) rfl rfl
  | subUnsub topic qos cb sub =>
    obtain ⟨⟨final, err⟩, ran, same⟩ := Option.map_eq_some_iff.mp stepped
    cases same
    exact Asked.handles (mqttSubUnsub_asked ran) rfl rfl
  | setInpub =>
    cases stepped
    exact handles_of_same id rfl rfl rfl
  | disconnect =>
    obtain ⟨⟨final, calls⟩, ran, same⟩ := Option.map_eq_some_iff.mp stepped
    cases same
    exact mqttDisconnect_handles ran
  | connected => exact handles_whenEnabled (fun _ => rfl) (fun _ _ => mqttTcpConnectCb_handles) stepped
  | received => exact handles_whenEnabled (fun _ => rfl) (fun _ => mqttTcpRecvCb_handles) stepped
  | sent => exact handles_whenEnabled (fun _ => rfl) (fun _ _ => mqttTcpSentCb_handles) stepped
  | polled => exact handles_whenEnabled (fun _ => rfl) (fun _ _ => mqttTcpPollCb_handles) stepped
  | failed => exact handles_whenEnabled (fun _ => rfl) (fun _ _ closed => mqttClose_handles closed rfl rfl) stepped
  | tick =>
    refine handles_whenEnabled (fun off => if_neg fun aged => ?_) (fun _ => mqttCyclicTimer_handles) stepped
    rw [aged.2.1] at off
    cases off
  | window =>
    cases stepped
    exact handles_of_same id rfl rfl rfl

end Maglev
