import Maglev.Mqtt.RequestsSpec

namespace Maglev

/-- What the client does with its requests: a new one, which is given back when there is
no room for its packet; an answer, which may be too short to tell anything; the completion
of what nobody answers, when data has been sent; the timer; the end of a connection, and the
beginning of another one. -/
inductive RequestInput
  | request (pktId : BitVec 16) (cb : Option Nat)
  | refused (pktId : BitVec 16) (cb : Option Nat)
  | answer (pktId : BitVec 16) (err : Err)
  | tooShort (pktId : BitVec 16)
  | sent
  | tick
  | clear
  | init
  deriving DecidableEq, Repr

/-- Whether there was a request to be had, and the calls of the callbacks. -/
inductive RequestOutput
  | accepted (yes : Bool)
  | call (call : RequestCall)
  deriving DecidableEq, Repr

def RequestOutput.call? : RequestOutput → Option RequestCall
  | .call made => some made
  | .accepted _ => none

/-- The five seconds of `MQTT_CYCLIC_TIMER_INTERVAL`. -/
def tickSeconds : BitVec 8 := 5#8

/-- The requests right after `mqtt_client_connect` has initialised them. -/
def initialRequests : RequestQueue := mqttInitRequests ⟨fun _ => ⟨none, none, 0#16, 0#16⟩, none⟩

def requestMachine : PartialMachine RequestQueue RequestInput RequestOutput where
  step
    | q, .request pktId cb =>
      match mqttCreateRequest q pktId cb with
      | none => some (q, [.accepted false])
      | some (r, q) => (mqttAppendRequest q r).map (·, [.accepted true])
    | q, .refused pktId cb =>
      match mqttCreateRequest q pktId cb with
      | none => some (q, [.accepted false])
      | some (r, q) => some (mqttDeleteRequest q r, [.accepted false])
    | q, .answer pktId err =>
      (mqttTakeRequest q pktId).map fun
        | (q, none) => (q, [])
        | (q, some r) => (mqttDeleteRequest q r, ((q.reqList r).call err).map .call)
    -- the request is taken, but neither answered nor deleted
    | q, .tooShort pktId => (mqttTakeRequest q pktId).map fun (q, _) => (q, [])
    | q, .sent =>
      (completeUnanswered q (mqttReqMaxInFlight + 1)).map fun (q, calls) => (q, calls.map .call)
    | q, .tick =>
      (mqttRequestTimeElapsed q mqttReqMaxInFlight tickSeconds).map fun (q, calls) => (q, calls.map .call)
    | q, .clear => (mqttClearRequests q).map (·, [])
    | _, .init => some (initialRequests, [])

/-- What the requests are there for: a callback and the packet whose answer it waits for. -/
structure Waiting where
  cb : Option Nat
  pktId : BitVec 16
  deriving DecidableEq, Repr

def Waiting.call (w : Waiting) (err : Err) : List RequestOutput :=
  (w.cb.map fun cb => RequestOutput.call ⟨cb, err⟩).toList

def waitsFor (pktId : BitVec 16) (x : Waiting × Nat) : Bool := x.1.pktId = pktId

/-- The requests without pointers and differences: those that wait, each with the time until
it is given up, and the number of those that are lost until the next connection. -/
structure Deadlines where
  waiting : List (Waiting × Nat)
  lost : Nat

def deadlineMachine : Machine Deadlines RequestInput RequestOutput where
  step
    | s, .request pktId cb =>
      if s.waiting.length + s.lost < mqttReqMaxInFlight then
        ({ s with waiting := s.waiting ++ [(⟨cb, pktId⟩, 30)] }, [.accepted true])
      else (s, [.accepted false])
    | s, .refused _ _ => (s, [.accepted false])
    | s, .answer pktId err =>
      ({ s with waiting := s.waiting.eraseP (waitsFor pktId) },
        (s.waiting.find? (waitsFor pktId)).toList.flatMap (·.1.call err))
    | s, .tooShort pktId =>
      (⟨s.waiting.eraseP (waitsFor pktId), s.lost + (s.waiting.find? (waitsFor pktId)).toList.length⟩, [])
    | s, .sent =>
      ({ s with waiting := s.waiting.filter (!waitsFor 0#16 ·) },
        (s.waiting.filter (waitsFor 0#16)).flatMap (·.1.call .ok))
    | s, .tick =>
      ({ s with waiting := (expire 5 s.waiting).2 }, (expire 5 s.waiting).1.flatMap (·.1.call .timeout))
    | s, .clear => ({ s with waiting := [] }, [])
    | _, .init => (⟨[], 0⟩, [])

/-- The request behind a pointer. -/
def RequestQueue.waiting (q : RequestQueue) (x : RequestPtr × Nat) : Waiting × Nat :=
  (⟨(q.reqList x.1).cb, (q.reqList x.1).pktId⟩, x.2)

/-- Every request waits, is lost, or is not in use. -/
structure Accounted (q : RequestQueue) (pending : List (RequestPtr × Nat)) (lost : Finset RequestPtr) : Prop where
  queued : Queued q pending
  apart : ∀ r ∈ lost, r ∉ pending.map Prod.fst
  unused : ∀ r ∉ pending.map Prod.fst, q.next r = some r ↔ r ∉ lost

/-- A queue stands for the list of its requests and the number of the lost ones. -/
def Represents (q : RequestQueue) (s : Deadlines) : Prop :=
  ∃ pending lost, Accounted q pending lost ∧ s = ⟨pending.map q.waiting, lost.card⟩

theorem SameRequests.waiting {q q' : RequestQueue} (same : SameRequests q q') : q'.waiting = q.waiting := by
  funext x
  rw [RequestQueue.waiting, (same x.1).1, (same x.1).2, RequestQueue.waiting]

theorem waiting_call (q : RequestQueue) (x : RequestPtr × Nat) (err : Err) :
    (q.waiting x).1.call err = ((q.reqList x.1).call err).map .call := by
  simp only [Waiting.call, RequestQueue.waiting, MqttRequest.call]
  cases (q.reqList x.1).cb <;> rfl

theorem waitsFor_waiting {q : RequestQueue} {pktId : BitVec 16} {x : RequestPtr × Nat} :
    waitsFor pktId (q.waiting x) = true ↔ (q.reqList x.1).pktId = pktId := decide_eq_true_iff

/-- A request is to be had as long as not all of them wait or are lost. -/
theorem mqttCreateRequest_isSome_iff {q : RequestQueue} {pending : List (RequestPtr × Nat)} {lost : Finset RequestPtr}
    (accounted : Accounted q pending lost) (pktId : BitVec 16) (cb : Option Nat) :
    (mqttCreateRequest q pktId cb).isSome ↔ pending.length + lost.card < mqttReqMaxInFlight := by
  obtain ⟨queued, apart, unused⟩ := accounted
  have nodes := List.toFinset_card_of_nodup queued.distinct
  rw [List.length_map] at nodes
  have disjoint : Disjoint (pending.map Prod.fst).toFinset lost :=
    Finset.disjoint_right.mpr fun r among => by simpa using apart r among
  have members (r : RequestPtr) : (q.reqList r).next = some r ↔ r ∉ (pending.map Prod.fst).toFinset ∪ lost := by
    rw [Finset.mem_union, List.mem_toFinset, not_or]
    exact ⟨fun self => ⟨queued.not_mem_of_unused self, (unused r (queued.not_mem_of_unused self)).mp self⟩,
      fun ⟨outside, kept⟩ => (unused r outside).mpr kept⟩
  have found : (mqttCreateRequest q pktId cb).isSome ↔ ∃ r, r ∉ (pending.map Prod.fst).toFinset ∪ lost := by
    simp only [mqttCreateRequest, Option.isSome_map, List.find?_isSome, List.mem_finRange, true_and, decide_eq_true_eq,
      members]
  have all : (∃ r, r ∉ (pending.map Prod.fst).toFinset ∪ lost) ↔
      ((pending.map Prod.fst).toFinset ∪ lost).card < Fintype.card RequestPtr := by
    rw [Finset.card_lt_iff_ne_univ, Ne, Finset.eq_univ_iff_forall, not_forall]
  rw [found, all, Finset.card_union_of_disjoint disjoint, nodes, Fintype.card_fin]

/-- The others are left alone when requests that wait are given back. -/
theorem Accounted.giveBack {q q' : RequestQueue} {pending pending' : List (RequestPtr × Nat)}
    {lost : Finset RequestPtr} (accounted : Accounted q pending lost) (queued : Queued q' pending')
    (part : pending'.map Prod.fst ⊆ pending.map Prod.fst)
    (freed : ∀ r ∈ pending.map Prod.fst, r ∉ pending'.map Prod.fst → q'.next r = some r)
    (elsewhere : ∀ r ∉ pending.map Prod.fst, q'.next r = q.next r) : Accounted q' pending' lost where
  queued
  apart := fun r among member => accounted.apart r among (part member)
  unused := fun r outside => by
    by_cases waited : r ∈ pending.map Prod.fst
    · exact iff_of_true (freed r waited outside) fun among => accounted.apart r among waited
    · rw [elsewhere r waited]
      exact accounted.unused r waited

/-- A store to a request that does not wait changes nothing of what waits. -/
theorem waiting_set {q : RequestQueue} {pending : List (RequestPtr × Nat)} {r : RequestPtr}
    (other : r ∉ pending.map Prod.fst) (request : MqttRequest) :
    pending.map (q.set r request).waiting = pending.map q.waiting := by
  apply List.map_congr_left
  intro x member
  have apart : x.1 ≠ r := ne_of_mem_of_not_mem (List.mem_map_of_mem member) other
  simp [RequestQueue.waiting, apart]

theorem Represents.request {q : RequestQueue} {s : Deadlines} (represents : Represents q s) (pktId : BitVec 16)
    (cb : Option Nat) :
    ∃ q', requestMachine.step q (.request pktId cb) = some (q', (deadlineMachine.step s (.request pktId cb)).2) ∧
      Represents q' (deadlineMachine.step s (.request pktId cb)).1 := by
  obtain ⟨pending, lost, accounted, rfl⟩ := represents
  have room := mqttCreateRequest_isSome_iff accounted pktId cb
  simp only [requestMachine, deadlineMachine, List.length_map]
  cases created : mqttCreateRequest q pktId cb with
  | none =>
    rw [if_neg (by simpa [created] using room.not)]
    exact ⟨q, rfl, pending, lost, accounted, rfl⟩
  | some result =>
    obtain ⟨r, q₁⟩ := result
    rw [if_pos (by simpa [created] using room)]
    obtain ⟨self, other, rfl, queued₁⟩ := mqttCreateRequest_queued accounted.queued created
    have ends : (q.set r { q.reqList r with next := none, cb, pktId }).next r = none := by
      rw [RequestQueue.set_next, Function.update_self]
    obtain ⟨q₂, appended, queued₂, same, elsewhere⟩ := mqttAppendRequest_queued queued₁ other ends
    refine ⟨q₂, by simp [appended], pending ++ [(r, 30)], lost, ⟨queued₂, ?_, ?_⟩, ?_⟩
    · intro i among member
      rcases List.mem_append.mp (List.map_append ▸ member) with old | new
      · exact accounted.apart i among old
      · obtain rfl : i = r := by simpa using new
        exact (accounted.unused i other).mp self among
    · intro i outside
      rw [List.map_append, List.mem_append, not_or] at outside
      have apart : i ≠ r := by simpa using outside.2
      rw [elsewhere i outside.1, RequestQueue.set_next, Function.update_of_ne apart]
      exact accounted.unused i outside.1
    · have new : (q.set r { q.reqList r with next := none, cb, pktId }).waiting (r, 30) = (⟨cb, pktId⟩, 30) := by
        simp [RequestQueue.waiting]
      rw [SameRequests.waiting same, List.map_append, waiting_set other, List.map_singleton, new]

theorem Represents.refused {q : RequestQueue} {s : Deadlines} (represents : Represents q s) (pktId : BitVec 16)
    (cb : Option Nat) :
    ∃ q', requestMachine.step q (.refused pktId cb) = some (q', [.accepted false]) ∧ Represents q' s := by
  obtain ⟨pending, lost, accounted, rfl⟩ := represents
  simp only [requestMachine]
  cases created : mqttCreateRequest q pktId cb with
  | none => exact ⟨q, rfl, pending, lost, accounted, rfl⟩
  | some result =>
    obtain ⟨r, q₁⟩ := result
    obtain ⟨self, other, rfl, queued₁⟩ := mqttCreateRequest_queued accounted.queued created
    refine ⟨_, rfl, pending, lost, ?_, ?_⟩
    · refine accounted.giveBack (queued₁.set other _) (List.Subset.refl _) (fun i inside out => absurd inside out) ?_
      intro i _
      rw [mqttDeleteRequest, RequestQueue.set_next]
      by_cases here : i = r
      · rw [here, Function.update_self]
        exact self.symm
      · rw [Function.update_of_ne here, RequestQueue.set_next, Function.update_of_ne here]
    · rw [mqttDeleteRequest, waiting_set other, waiting_set other]

/-- The first request for a packet is taken out, if there is one. It is lost if it is not
deleted. -/
theorem Represents.take {q : RequestQueue} {s : Deadlines} (represents : Represents q s) (pktId : BitVec 16) :
    ((∀ x ∈ s.waiting, ¬ waitsFor pktId x = true) ∧ mqttTakeRequest q pktId = some (q, none)) ∨
      ∃ before x after q' r, s.waiting = before ++ x :: after ∧ (∀ y ∈ before, ¬ waitsFor pktId y = true) ∧
        waitsFor pktId x = true ∧ mqttTakeRequest q pktId = some (q', some r) ∧
        (∀ err, ((q'.reqList r).call err).map RequestOutput.call = x.1.call err) ∧
        Represents (mqttDeleteRequest q' r) ⟨before ++ after, s.lost⟩ ∧ Represents q' ⟨before ++ after, s.lost + 1⟩ := by
  obtain ⟨pending, lost, accounted, rfl⟩ := represents
  rcases accounted.queued.take pktId with
    ⟨absent, taken⟩ | ⟨before, r, time, after, q', rfl, absent, found, taken, kept, apart⟩
  · exact Or.inl ⟨List.forall_mem_map.mpr fun x member => waitsFor_waiting.not.mpr (absent x member), taken⟩
  · have waited : r ∈ (before ++ (r, time) :: after).map Prod.fst := by simp
    have others {i : RequestPtr} (other : i ≠ r) :
        i ∈ (before ++ (r, time) :: after).map Prod.fst ↔ i ∈ (before ++ after).map Prod.fst := by simp [other]
    have deleted : (mqttDeleteRequest q' r).next = Function.update q'.next r (some r) := RequestQueue.set_next ..
    refine Or.inr ⟨before.map q.waiting, q.waiting (r, time), after.map q.waiting, q', r, by simp, ?_,
      waitsFor_waiting.mpr found, taken, fun err => ?_, ?_, ?_⟩
    · exact List.forall_mem_map.mpr fun x member => waitsFor_waiting.not.mpr (absent x member)
    · rw [waiting_call, kept.same.call]
    · refine ⟨before ++ after, lost, accounted.giveBack (kept.queued.set apart _) ?_ ?_ ?_, ?_⟩
      · intro i member
        exact (others (ne_of_mem_of_not_mem member apart)).mpr member
      · intro i inside outside
        obtain rfl : i = r := by
          by_contra other
          exact outside ((others other).mp inside)
        rw [deleted, Function.update_self]
      · intro i outside
        have other : i ≠ r := fun same => outside (same ▸ waited)
        rw [deleted, Function.update_of_ne other, kept.elsewhere i ((others other).not.mp outside) other]
      · rw [mqttDeleteRequest, waiting_set apart, kept.same.waiting, ← List.map_append]
    · have fresh : r ∉ lost := fun among => accounted.apart r among waited
      refine ⟨before ++ after, insert r lost, ⟨kept.queued, ?_, ?_⟩, ?_⟩
      · intro i among member
        rcases Finset.mem_insert.mp among with rfl | old
        · exact apart member
        · exact accounted.apart i old ((others (ne_of_mem_of_not_mem member apart)).mpr member)
      · intro i outside
        by_cases same : i = r
        · rw [same, kept.ends]
          simp
        · rw [kept.elsewhere i outside same, accounted.unused i ((others same).not.mpr outside)]
          simp [same]
      · rw [kept.same.waiting, ← List.map_append, Finset.card_insert_of_notMem fresh]

theorem Represents.answer {q : RequestQueue} {s : Deadlines} (represents : Represents q s) (pktId : BitVec 16)
    (err : Err) :
    ∃ q', requestMachine.step q (.answer pktId err) = some (q', (deadlineMachine.step s (.answer pktId err)).2) ∧
      Represents q' (deadlineMachine.step s (.answer pktId err)).1 := by
  simp only [requestMachine, deadlineMachine]
  rcases represents.take pktId with
    ⟨absent, taken⟩ | ⟨before, x, after, q', r, waiting, earlier, here, taken, call, left, -⟩
  · rw [taken, List.eraseP_of_forall_not absent, List.find?_eq_none.mpr absent]
    exact ⟨q, rfl, represents⟩
  · rw [taken, waiting, List.eraseP_append_right _ earlier, List.eraseP_cons_of_pos here, List.find?_append,
      List.find?_eq_none.mpr earlier, List.find?_cons_of_pos here]
    exact ⟨_, by simp [call], left⟩

theorem Represents.tooShort {q : RequestQueue} {s : Deadlines} (represents : Represents q s) (pktId : BitVec 16) :
    ∃ q', requestMachine.step q (.tooShort pktId) = some (q', []) ∧
      Represents q' (deadlineMachine.step s (.tooShort pktId)).1 := by
  simp only [requestMachine, deadlineMachine]
  rcases represents.take pktId with
    ⟨absent, taken⟩ | ⟨before, x, after, q', r, waiting, earlier, here, taken, -, -, lost⟩
  · rw [taken, List.eraseP_of_forall_not absent, List.find?_eq_none.mpr absent]
    exact ⟨q, rfl, represents⟩
  · rw [taken, waiting, List.eraseP_append_right _ earlier, List.eraseP_cons_of_pos here, List.find?_append,
      List.find?_eq_none.mpr earlier, List.find?_cons_of_pos here]
    exact ⟨q', rfl, lost⟩

/-- By induction on the fuel, which is more than there are requests. -/
theorem Represents.complete {fuel : Nat} {q : RequestQueue} {waiting : List (Waiting × Nat)} {lost : Nat}
    (represents : Represents q ⟨waiting, lost⟩) (enough : waiting.length < fuel) :
    ∃ q' calls, completeUnanswered q fuel = some (q', calls) ∧
      calls.map RequestOutput.call = (waiting.filter (waitsFor 0#16)).flatMap (·.1.call .ok) ∧
      Represents q' ⟨waiting.filter (!waitsFor 0#16 ·), lost⟩ := by
  induction fuel generalizing q waiting with
  | zero => exact absurd enough (Nat.not_lt_zero _)
  | succ fuel ih =>
    rcases represents.take 0#16 with
      ⟨absent, taken⟩ | ⟨before, x, after, q', r, rfl, earlier, here, taken, call, left, -⟩
    · refine ⟨q, [], by rw [completeUnanswered, taken]; rfl, ?_, ?_⟩
      · rw [List.filter_eq_nil_iff.mpr absent]
        rfl
      · rw [List.filter_eq_self.mpr (by simpa using absent)]
        exact represents
    · obtain ⟨q'', calls, completed, called, rest⟩ := ih left (by simp at enough ⊢; omega)
      have first := List.filter_eq_nil_iff.mpr earlier
      refine ⟨q'', (q'.reqList r).call .ok ++ calls, by rw [completeUnanswered, taken]; simp [completed], ?_, ?_⟩
      · rw [List.filter_append, first, List.nil_append] at called
        rw [List.map_append, call, called, List.filter_append, first, List.filter_cons_of_pos here, List.nil_append,
          List.flatMap_cons]
      · rw [List.filter_append, List.filter_cons_of_neg (by simpa using here), ← List.filter_append]
        exact rest

theorem Represents.sent {q : RequestQueue} {s : Deadlines} (represents : Represents q s) :
    ∃ q', requestMachine.step q .sent = some (q', (deadlineMachine.step s .sent).2) ∧
      Represents q' (deadlineMachine.step s .sent).1 := by
  have few : s.waiting.length ≤ mqttReqMaxInFlight := by
    obtain ⟨pending, lost, accounted, rfl⟩ := represents
    rw [List.length_map]
    exact accounted.queued.length_le
  obtain ⟨q', calls, completed, called, rest⟩ := Represents.complete represents (Nat.lt_succ_of_le few)
  refine ⟨q', ?_, rest⟩
  simp only [requestMachine, deadlineMachine, completed, Option.map_some, called]

theorem Represents.tick {q : RequestQueue} {s : Deadlines} (represents : Represents q s) :
    ∃ q', requestMachine.step q .tick = some (q', (deadlineMachine.step s .tick).2) ∧
      Represents q' (deadlineMachine.step s .tick).1 := by
  obtain ⟨pending, lost, accounted, rfl⟩ := represents
  obtain ⟨q', calls, ran, elapsed⟩ :=
    mqttRequestTimeElapsed_elapsed accounted.queued (show 0 < tickSeconds.toNat by decide) accounted.queued.length_le
  have seconds : tickSeconds.toNat = 5 := rfl
  rw [seconds] at elapsed
  have mapped : expire 5 (pending.map q.waiting) =
      ((expire 5 pending).1.map q.waiting, (expire 5 pending).2.map q.waiting) :=
    expire_map (fun r => Waiting.mk (q.reqList r).cb (q.reqList r).pktId) 5 pending
  simp only [requestMachine, deadlineMachine, ran, mapped]
  have nodes := expire_nodes 5 pending
  refine ⟨q', ?_, (expire 5 pending).2, lost, accounted.giveBack elapsed.queued ?_ ?_ elapsed.elsewhere,
    by rw [elapsed.same.waiting]⟩
  · simp only [Option.map_some, elapsed.calls, List.map_flatMap, List.flatMap_map, waiting_call]
  · rw [← nodes]
    exact List.subset_append_right ..
  · intro i waited outside
    rw [← nodes, List.mem_append] at waited
    obtain ⟨x, due, rfl⟩ := List.mem_map.mp (waited.resolve_right outside)
    exact elapsed.freed x due

/-- Every request of a queue is given back. -/
theorem clearFrom_eq {fuel : Nat} {q : RequestQueue} {iter : Option RequestPtr} {nodes : List RequestPtr}
    (linked : Linked q.next iter nodes none) (distinct : nodes.Nodup) (enough : nodes.length ≤ fuel) :
    ∃ q', clearFrom q fuel iter = some q' ∧ q'.pendReqQueue = none ∧
      ∀ i, q'.next i = if i ∈ nodes then some i else q.next i := by
  induction nodes generalizing fuel q iter with
  | nil =>
    have ends : iter = none := linked
    subst ends
    refine ⟨{ q with pendReqQueue := none }, ?_, rfl, fun i => by simp; rfl⟩
    cases fuel <;> rfl
  | cons r rest ih =>
    obtain ⟨here, links⟩ := linked
    obtain ⟨apart, others⟩ := List.nodup_cons.mp distinct
    cases fuel with
    | zero => simp at enough
    | succ fuel =>
      have nexts : (mqttDeleteRequest q r).next = Function.update q.next r (some r) := RequestQueue.set_next ..
      have later : Linked (mqttDeleteRequest q r).next (q.next r) rest none := by
        rw [nexts]
        exact links.update apart _
      obtain ⟨q', ran, ends, freed⟩ := ih later others (by simpa using enough)
      refine ⟨q', by rw [here, clearFrom]; exact ran, ends, fun i => ?_⟩
      rw [freed, nexts]
      by_cases same : i = r
      · subst same
        simp [apart]
      · simp [same]

theorem Represents.clear {q : RequestQueue} {s : Deadlines} (represents : Represents q s) :
    ∃ q', mqttClearRequests q = some q' ∧ Represents q' { s with waiting := [] } := by
  obtain ⟨pending, lost, accounted, rfl⟩ := represents
  have queued := accounted.queued
  obtain ⟨q', ran, ends, freed⟩ : ∃ q', mqttClearRequests q = some q' ∧ q'.pendReqQueue = none ∧
      ∀ i, q'.next i = if i ∈ pending.map Prod.fst then some i else q.next i :=
    clearFrom_eq queued.linked queued.distinct (by simpa using queued.length_le)
  have empty : Queued q' [] := ⟨ends, by simp, trivial, by simp⟩
  refine ⟨q', ran, [], lost, accounted.giveBack empty (List.nil_subset _) ?_ ?_, rfl⟩
  · exact fun i waited _ => (freed i).trans (if_pos waited)
  · exact fun i outside => (freed i).trans (if_neg outside)

theorem represents_initial : Represents initialRequests ⟨[], 0⟩ :=
  ⟨[], ∅, ⟨⟨rfl, by simp, trivial, by simp⟩, by simp, fun _ _ => iff_of_true rfl (by simp)⟩, rfl⟩

theorem Represents.step {q : RequestQueue} {s : Deadlines} (represents : Represents q s) (input : RequestInput) :
    ∃ q', requestMachine.step q input = some (q', (deadlineMachine.step s input).2) ∧
      Represents q' (deadlineMachine.step s input).1 := by
  cases input with
  | request pktId cb => exact represents.request pktId cb
  | refused pktId cb => exact represents.refused pktId cb
  | answer pktId err => exact represents.answer pktId err
  | tooShort pktId => exact represents.tooShort pktId
  | sent => exact represents.sent
  | tick => exact represents.tick
  | clear =>
    obtain ⟨q', ran, empty⟩ := represents.clear
    exact ⟨q', by simp [requestMachine, deadlineMachine, ran], empty⟩
  | init => exact ⟨initialRequests, rfl, represents_initial⟩

theorem Represents.run {q : RequestQueue} {s : Deadlines} (represents : Represents q s) (inputs : List RequestInput) :
    ∃ q', requestMachine.run q inputs = some (q', deadlineMachine.outputs s inputs) ∧
      Represents q' (deadlineMachine.final s inputs) :=
  requestMachine.run_simulates (fun _ _ input represents _ => represents.step input) represents inputs
    fun _ _ => trivial

/-- The linked queue of time differences does, in every run, what the list of deadlines
does: no assertion fails, no loop goes on for ever, and the same callbacks are called. -/
theorem requestMachine_run (inputs : List RequestInput) :
    ∃ q, requestMachine.run initialRequests inputs = some (q, deadlineMachine.outputs ⟨[], 0⟩ inputs) ∧
      Represents q (deadlineMachine.final ⟨[], 0⟩ inputs) := represents_initial.run inputs


end Maglev
