import Mathlib.Data.Fintype.Card
import Maglev.Lib.DeltaQueue
import Maglev.Lib.PartialMachine
import Maglev.Mqtt.Requests

namespace Maglev

namespace RequestQueue

def next (q : RequestQueue) (r : RequestPtr) : Option RequestPtr := (q.reqList r).next

def diff (q : RequestQueue) (r : RequestPtr) : Nat := (q.reqList r).timeoutDiff.toNat

variable (q : RequestQueue) (r : RequestPtr) (request : MqttRequest)

@[simp] theorem set_pendReqQueue : (q.set r request).pendReqQueue = q.pendReqQueue := rfl

@[simp] theorem set_reqList : (q.set r request).reqList = Function.update q.reqList r request := rfl

theorem set_next : (q.set r request).next = Function.update q.next r request.next := by
  funext i
  by_cases same : i = r
  · subst same
    simp [next]
  · simp [next, same]

theorem set_diff : (q.set r request).diff = Function.update q.diff r request.timeoutDiff.toNat := by
  funext i
  by_cases same : i = r
  · subst same
    simp [diff]
  · simp [diff, same]

end RequestQueue

/-- The requests that wait for an answer, each with the time until it is given up. -/
structure Queued (q : RequestQueue) (pending : List (RequestPtr × Nat)) : Prop where
  linked : Linked q.next q.pendReqQueue (pending.map Prod.fst) none
  distinct : (pending.map Prod.fst).Nodup
  deltas : Deltas q.diff 0 pending
  bounded : ∀ x ∈ pending, x.2 ≤ 30

/-- A store to a request that does not wait. -/
theorem Queued.set {q : RequestQueue} {pending : List (RequestPtr × Nat)} (queued : Queued q pending)
    {r : RequestPtr} (other : r ∉ pending.map Prod.fst) (request : MqttRequest) : Queued (q.set r request) pending where
  linked := by
    rw [RequestQueue.set_next]
    exact queued.linked.update other _
  distinct := queued.distinct
  deltas := by
    rw [RequestQueue.set_diff]
    refine queued.deltas.congr fun x member => Function.update_of_ne ?_ ..
    exact ne_of_mem_of_not_mem (List.mem_map_of_mem member) other
  bounded := queued.bounded

/-- There are no more of them than there are requests. -/
theorem Queued.length_le {q : RequestQueue} {pending : List (RequestPtr × Nat)} (queued : Queued q pending) :
    pending.length ≤ mqttReqMaxInFlight := by
  have few := queued.distinct.length_le_card
  rwa [List.length_map, Fintype.card_fin] at few

theorem Queued.not_mem_of_unused {q : RequestQueue} {pending : List (RequestPtr × Nat)} (queued : Queued q pending)
    {r : RequestPtr} (unused : (q.reqList r).next = some r) : r ∉ pending.map Prod.fst :=
  queued.linked.not_mem_of_self queued.distinct unused

theorem mqttCreateRequest_queued {q q' : RequestQueue} {pending : List (RequestPtr × Nat)} (queued : Queued q pending)
    {pktId : BitVec 16} {cb : Option Nat} {r : RequestPtr} (created : mqttCreateRequest q pktId cb = some (r, q')) :
    q.next r = some r ∧ r ∉ pending.map Prod.fst ∧ q' = q.set r { q.reqList r with next := none, cb, pktId } ∧
      Queued q' pending := by
  simp only [mqttCreateRequest, Option.map_eq_some_iff, Prod.mk.injEq] at created
  obtain ⟨r, found, rfl, rfl⟩ := created
  have unused : (q.reqList r).next = some r := by simpa using List.find?_some found
  have other := queued.not_mem_of_unused unused
  exact ⟨unused, other, rfl, queued.set other _⟩

/-- The loop finds the last request, and the sum is the time until that one is given up. -/
theorem findHead_eq {q : RequestQueue} {fuel : Nat} {iter head : Option RequestPtr} {timeBefore : BitVec 16}
    {pending : List (RequestPtr × Nat)} (linked : Linked q.next iter (pending.map Prod.fst) none)
    (deltas : Deltas q.diff timeBefore.toNat pending) (bounded : ∀ x ∈ pending, x.2 ≤ 30)
    (enough : pending.length ≤ fuel) :
    ∃ total, findHead q fuel iter timeBefore head = some (total, (pending.getLast?.map Prod.fst).or head) ∧
      total.toNat = (pending.getLast?.map Prod.snd).getD timeBefore.toNat := by
  induction pending generalizing fuel iter head timeBefore with
  | nil =>
    have ends : iter = none := linked
    subst ends
    cases fuel <;> exact ⟨timeBefore, rfl, rfl⟩
  | cons x rest ih =>
    obtain ⟨i, time⟩ := x
    obtain ⟨here, later⟩ := linked
    obtain ⟨sum, deltas⟩ := deltas
    cases fuel with
    | zero => simp at enough
    | succ fuel =>
      have small := bounded (i, time) (List.mem_cons_self ..)
      have next : (timeBefore + (q.reqList i).timeoutDiff).toNat = time := by
        rw [BitVec.toNat_add]
        unfold RequestQueue.diff at sum
        omega
      rw [← next] at deltas
      obtain ⟨total, found, value⟩ := @ih fuel (q.next i) (some i) _ later deltas
        (fun y member => bounded y (List.mem_cons_of_mem _ member)) (by simpa using enough)
      refine ⟨total, ?_, ?_⟩
      · rw [here, findHead]
        refine found.trans ?_
        rw [List.getLast?_cons]
        cases rest.getLast? <;> rfl
      · rw [value, next, List.getLast?_cons]
        cases rest.getLast? <;> rfl

/-- A new request gets the difference that makes its time the full one. -/
theorem Queued.setDiff {q : RequestQueue} {pending : List (RequestPtr × Nat)} (queued : Queued q pending)
    {r : RequestPtr} (other : r ∉ pending.map Prod.fst) {total : BitVec 16}
    (last : total.toNat = (pending.getLast?.map Prod.snd).getD 0) (small : total.toNat ≤ 30) :
    Deltas (q.set r { q.reqList r with timeoutDiff := mqttReqTimeout - total }).diff 0 (pending ++ [(r, 30)]) := by
  refine deltas_append.mpr ⟨(queued.set other _).deltas, ?_, trivial⟩
  have rest : (mqttReqTimeout - total).toNat = 30 - total.toNat :=
    BitVec.toNat_sub_of_le (BitVec.le_def.mpr small)
  rw [← last, RequestQueue.set_diff, Function.update_self, rest]
  omega

theorem mqttAppendRequest_queued {q : RequestQueue} {pending : List (RequestPtr × Nat)} (queued : Queued q pending)
    {r : RequestPtr} (other : r ∉ pending.map Prod.fst) (ends : q.next r = none) :
    ∃ q', mqttAppendRequest q r = some q' ∧ Queued q' (pending ++ [(r, 30)]) ∧
      (∀ i, (q'.reqList i).cb = (q.reqList i).cb ∧ (q'.reqList i).pktId = (q.reqList i).pktId) ∧
      ∀ i ∉ pending.map Prod.fst, q'.next i = q.next i := by
  obtain ⟨total, found, value⟩ : ∃ total,
      findHead q mqttReqMaxInFlight q.pendReqQueue 0#16 none =
        some (total, (pending.getLast?.map Prod.fst).or none) ∧
      total.toNat = (pending.getLast?.map Prod.snd).getD 0 :=
    findHead_eq queued.linked queued.deltas queued.bounded queued.length_le
  have small : total.toNat ≤ 30 := by
    rw [value]
    cases last : pending.getLast? with
    | none => simp
    | some x => exact queued.bounded x (List.mem_of_getLast? last)
  have early : total.toInt ≤ mqttReqTimeout.toInt := by
    have limit : mqttReqTimeout.toInt = 30 := by decide
    rw [limit, BitVec.toInt_eq_toNat_of_lt (by omega)]
    exact_mod_cast small
  have deltas := queued.setDiff other value small
  have times : ∀ x ∈ pending ++ [(r, 30)], x.2 ≤ 30 := by
    intro x member
    rcases List.mem_append.mp member with old | new
    · exact queued.bounded x old
    · rw [List.mem_singleton.mp new]
  have distinct : ((pending ++ [(r, 30)]).map Prod.fst).Nodup := by
    rw [List.map_append, List.nodup_append]
    exact ⟨queued.distinct, by simp, fun i member j new same => other (by simp_all)⟩
  have nexts : (q.set r { q.reqList r with timeoutDiff := mqttReqTimeout - total }).next = q.next := by
    rw [RequestQueue.set_next]
    exact Function.update_eq_self ..
  rw [mqttAppendRequest, found]
  simp only [Option.bind_eq_bind, Option.bind_some, if_pos early, Option.or_none]
  rcases List.eq_nil_or_concat pending with rfl | ⟨first, ⟨last, time⟩, rfl⟩
  · refine ⟨_, rfl, ⟨?_, distinct, deltas, times⟩, ?_, ?_⟩
    · exact ⟨rfl, (congrFun nexts r).trans ends⟩
    · intro i
      by_cases same : i = r
      · subst same
        simp
      · simp [same]
    · exact fun i _ => congrFun nexts i
  · have behind : ((first.concat (last, time)).getLast?.map Prod.fst) = some last := by simp
    rw [behind]
    rw [List.concat_eq_append, List.map_append, List.map_singleton] at other
    have apart : last ≠ r := fun same => other (by simp [same])
    have linked : Linked q.next q.pendReqQueue (first.map Prod.fst ++ [last]) none := by
      simpa using queued.linked
    have whole : (first.map Prod.fst ++ [last]).Nodup := by simpa using queued.distinct
    have links := linked.extend whole other ends
    have relinked (target : MqttRequest) : ((q.set r
        { q.reqList r with timeoutDiff := mqttReqTimeout - total }).set last target).next =
          Function.update q.next last target.next := by
      rw [RequestQueue.set_next, nexts]
    refine ⟨_, rfl, ⟨?_, distinct, ?_, times⟩, ?_, ?_⟩
    · rw [relinked]
      simpa using links
    · rw [RequestQueue.set_diff]
      exact deltas.congr fun x _ => congrFun (Function.update_eq_self ..) x.1
    · intro i
      by_cases same : i = last
      · subst same
        simp [apart]
      · by_cases new : i = r
        · subst new
          simp [apart.symm]
        · simp [same, new]
    · intro i outside
      rw [relinked]
      exact Function.update_of_ne (fun same => outside (by simp [same])) ..

theorem findRequest_none {q : RequestQueue} {pktId : BitVec 16} {fuel : Nat} {iter prev : Option RequestPtr}
    {nodes : List RequestPtr} (linked : Linked q.next iter nodes none)
    (absent : ∀ i ∈ nodes, (q.reqList i).pktId ≠ pktId) (enough : nodes.length ≤ fuel) :
    ∃ last, findRequest q pktId fuel iter prev = some (none, last) := by
  induction nodes generalizing fuel iter prev with
  | nil =>
    have ends : iter = none := linked
    subst ends
    cases fuel <;> exact ⟨prev, rfl⟩
  | cons i rest ih =>
    obtain ⟨here, later⟩ := linked
    cases fuel with
    | zero => simp at enough
    | succ fuel =>
      rw [here, findRequest, if_neg (absent i (List.mem_cons_self ..))]
      exact ih later (fun j member => absent j (List.mem_cons_of_mem _ member)) (by simpa using enough)

theorem findRequest_some {q : RequestQueue} {pktId : BitVec 16} {fuel : Nat} {iter prev : Option RequestPtr}
    {before after : List RequestPtr} {r : RequestPtr} (linked : Linked q.next iter (before ++ r :: after) none)
    (absent : ∀ i ∈ before, (q.reqList i).pktId ≠ pktId) (found : (q.reqList r).pktId = pktId)
    (enough : before.length < fuel) :
    findRequest q pktId fuel iter prev = some (some r, before.getLast?.or prev) := by
  induction before generalizing fuel iter prev with
  | nil =>
    obtain ⟨here, _⟩ := linked
    cases fuel with
    | zero => simp at enough
    | succ fuel =>
      rw [here, findRequest, if_pos found]
      rfl
  | cons i before ih =>
    obtain ⟨here, later⟩ := linked
    cases fuel with
    | zero => simp at enough
    | succ fuel =>
      rw [here, findRequest, if_neg (absent i (List.mem_cons_self ..))]
      refine (ih later (fun j member => absent j (List.mem_cons_of_mem _ member)) (by simpa using enough)).trans ?_
      rw [List.getLast?_cons]
      cases before.getLast? <;> rfl

theorem mqttTakeRequest_none {q : RequestQueue} {pending : List (RequestPtr × Nat)} (queued : Queued q pending)
    {pktId : BitVec 16} (absent : ∀ x ∈ pending, (q.reqList x.1).pktId ≠ pktId) :
    mqttTakeRequest q pktId = some (q, none) := by
  obtain ⟨last, found⟩ : ∃ last, findRequest q pktId mqttReqMaxInFlight q.pendReqQueue none = some (none, last) :=
    findRequest_none queued.linked (by simpa using absent) (by simpa using queued.length_le)
  rw [mqttTakeRequest, found]
  rfl

/-- The parts of a request that only `mqtt_create_request` sets. -/
def SameRequests (q q' : RequestQueue) : Prop :=
  ∀ i, (q'.reqList i).cb = (q.reqList i).cb ∧ (q'.reqList i).pktId = (q.reqList i).pktId

theorem SameRequests.set {q q' : RequestQueue} (same : SameRequests q q') (r : RequestPtr) {request : MqttRequest}
    (cb : request.cb = (q'.reqList r).cb) (pktId : request.pktId = (q'.reqList r).pktId) :
    SameRequests q (q'.set r request) := by
  intro i
  by_cases here : i = r
  · subst here
    simpa [cb, pktId] using same i
  · simpa [here] using same i

theorem sameRequests_pend (q : RequestQueue) (head : Option RequestPtr) :
    SameRequests q { q with pendReqQueue := head } := fun _ => ⟨rfl, rfl⟩

/-- What is called depends on nothing else. -/
theorem SameRequests.call {q q' : RequestQueue} (same : SameRequests q q') (i : RequestPtr) (err : Err) :
    (q'.reqList i).call err = (q.reqList i).call err := by
  rw [MqttRequest.call, (same i).1, MqttRequest.call]

theorem SameRequests.trans {q q' q'' : RequestQueue} (first : SameRequests q q') (rest : SameRequests q' q'') :
    SameRequests q q'' := fun i => ⟨(rest i).1.trans (first i).1, (rest i).2.trans (first i).2⟩

theorem addRemaining_next (q : RequestQueue) (r : RequestPtr) : (addRemaining q r).next = q.next := by
  unfold addRemaining
  split
  · rfl
  · rw [RequestQueue.set_next]
    exact Function.update_eq_self ..

theorem addRemaining_pendReqQueue (q : RequestQueue) (r : RequestPtr) :
    (addRemaining q r).pendReqQueue = q.pendReqQueue := by
  unfold addRemaining
  split <;> rfl

theorem addRemaining_same {q q' : RequestQueue} (same : SameRequests q q') (r : RequestPtr) :
    SameRequests q (addRemaining q' r) := by
  unfold addRemaining
  split
  · exact same
  · exact same.set _ rfl rfl

/-- The times of the others do not change when a request is taken out. -/
theorem addRemaining_deltas {q : RequestQueue} {before after : List (RequestPtr × Nat)} {r : RequestPtr} {time : Nat}
    (deltas : Deltas q.diff 0 (before ++ (r, time) :: after)) (bounded : ∀ x ∈ after, x.2 ≤ 30)
    (distinct : ((before ++ (r, time) :: after).map Prod.fst).Nodup)
    (link : q.next r = (after.head?.map Prod.fst)) : Deltas (addRemaining q r).diff 0 (before ++ after) := by
  cases after with
  | nil =>
    have last : (q.reqList r).next = none := link
    rw [addRemaining, last, List.append_nil]
    exact (deltas_append.mp deltas).1
  | cons x after =>
    obtain ⟨j, behind⟩ := x
    have next : (q.reqList r).next = some j := link
    have small := bounded (j, behind) (List.mem_cons_self ..)
    obtain ⟨_, _, sum, _⟩ := deltas_append.mp deltas
    have moved : ((q.reqList j).timeoutDiff + (q.reqList r).timeoutDiff).toNat = q.diff j + q.diff r := by
      rw [BitVec.toNat_add]
      unfold RequestQueue.diff at *
      omega
    rw [addRemaining, next, RequestQueue.set_diff, moved]
    exact deltas.remove distinct

/-- What is left of the queue, once its pointers pass over a request. -/
theorem unchain_linked {q : RequestQueue} {before after : List RequestPtr} {r : RequestPtr}
    (linked : Linked q.next q.pendReqQueue (before ++ r :: after) none) (distinct : (before ++ r :: after).Nodup) :
    Linked (unchain q r before.getLast?).next (unchain q r before.getLast?).pendReqQueue (before ++ after) none := by
  rcases List.eq_nil_or_concat before with rfl | ⟨first, last, rfl⟩
  · exact linked.2
  · simp only [List.concat_eq_append, List.getLast?_concat, List.append_assoc, List.cons_append, List.nil_append]
      at linked distinct ⊢
    rw [unchain, RequestQueue.set_next]
    exact linked.unlink distinct

theorem unchain_diff (q : RequestQueue) (r : RequestPtr) (prev : Option RequestPtr) :
    (unchain q r prev).diff = q.diff := by
  cases prev with
  | none => rfl
  | some prev =>
    rw [unchain, RequestQueue.set_diff]
    exact Function.update_eq_self ..

theorem unchain_next_of_ne (q : RequestQueue) (r : RequestPtr) {prev : Option RequestPtr} {i : RequestPtr}
    (other : prev ≠ some i) : (unchain q r prev).next i = q.next i := by
  cases prev with
  | none => rfl
  | some prev =>
    rw [unchain, RequestQueue.set_next]
    exact Function.update_of_ne (fun same => other (by rw [same])) ..

theorem unchain_same (q : RequestQueue) (r : RequestPtr) (prev : Option RequestPtr) :
    SameRequests q (unchain q r prev) := by
  have start : SameRequests q q := fun _ => ⟨rfl, rfl⟩
  cases prev with
  | none => exact start
  | some prev => exact start.set prev rfl rfl

/-- The request that was taken out of the queue: the others stay, with their times. -/
structure Taken (q : RequestQueue) (r : RequestPtr) (pending : List (RequestPtr × Nat)) (q' : RequestQueue) : Prop where
  queued : Queued q' pending
  same : SameRequests q q'
  ends : q'.next r = none
  elsewhere : ∀ i ∉ pending.map Prod.fst, i ≠ r → q'.next i = q.next i

theorem mqttTakeRequest_some {q : RequestQueue} {before after : List (RequestPtr × Nat)} {r : RequestPtr} {time : Nat}
    (queued : Queued q (before ++ (r, time) :: after)) {pktId : BitVec 16}
    (absent : ∀ x ∈ before, (q.reqList x.1).pktId ≠ pktId) (found : (q.reqList r).pktId = pktId) :
    ∃ q', mqttTakeRequest q pktId = some (q', some r) ∧ Taken q r (before ++ after) q' := by
  have links : Linked q.next q.pendReqQueue (before.map Prod.fst ++ r :: after.map Prod.fst) none := by
    simpa using queued.linked
  have distinct : (before.map Prod.fst ++ r :: after.map Prod.fst).Nodup := by simpa using queued.distinct
  have few := queued.length_le
  rw [List.length_append, List.length_cons] at few
  have search : findRequest q pktId mqttReqMaxInFlight q.pendReqQueue none =
      some (some r, (before.map Prod.fst).getLast?.or none) :=
    findRequest_some links (by simpa using absent) found (by rw [List.length_map]; omega)
  rw [Option.or_none] at search
  have apart : r ∉ before.map Prod.fst ++ after.map Prod.fst :=
    (List.nodup_cons.mp (List.nodup_middle.mp distinct)).1
  have notPrev {i : RequestPtr} (outside : i ∉ before.map Prod.fst) : (before.map Prod.fst).getLast? ≠ some i :=
    fun last => outside (List.mem_of_getLast? last)
  have link : (unchain q r (before.map Prod.fst).getLast?).next r = after.head?.map Prod.fst := by
    rw [unchain_next_of_ne _ _ (notPrev fun member => apart (List.mem_append_left _ member))]
    obtain ⟨_, _, _, behind⟩ := linked_append.mp links
    cases after with
    | nil => exact behind
    | cons x after => exact behind.1
  have rest : Queued (addRemaining (unchain q r (before.map Prod.fst).getLast?) r) (before ++ after) := by
    refine ⟨?_, ?_, ?_, ?_⟩
    · rw [addRemaining_next, addRemaining_pendReqQueue, List.map_append]
      exact unchain_linked links distinct
    · rw [List.map_append]
      exact (List.nodup_cons.mp (List.nodup_middle.mp distinct)).2
    · refine addRemaining_deltas ?_ (fun x member => queued.bounded x (by simp [member])) queued.distinct link
      rw [unchain_diff]
      exact queued.deltas
    · exact fun x member => queued.bounded x (by
        rcases List.mem_append.mp member with old | new
        · simp [old]
        · simp [new])
  rw [mqttTakeRequest, search]
  refine ⟨_, rfl, rest.set (by simpa using apart) _, ?_, ?_, ?_⟩
  · exact (addRemaining_same (unchain_same q r _) r).set r rfl rfl
  · rw [RequestQueue.set_next, Function.update_self]
  · intro i outside other
    rw [List.map_append, List.mem_append, not_or] at outside
    rw [RequestQueue.set_next, Function.update_of_ne other, addRemaining_next]
    exact unchain_next_of_ne _ _ (notPrev outside.1)

/-- The first request for a packet is taken out, if there is one. -/
theorem Queued.take {q : RequestQueue} {pending : List (RequestPtr × Nat)} (queued : Queued q pending)
    (pktId : BitVec 16) :
    ((∀ x ∈ pending, (q.reqList x.1).pktId ≠ pktId) ∧ mqttTakeRequest q pktId = some (q, none)) ∨
      ∃ before r time after q', pending = before ++ (r, time) :: after ∧
        (∀ x ∈ before, (q.reqList x.1).pktId ≠ pktId) ∧ (q.reqList r).pktId = pktId ∧
        mqttTakeRequest q pktId = some (q', some r) ∧ Taken q r (before ++ after) q' ∧
        r ∉ (before ++ after).map Prod.fst := by
  by_cases present : ∃ x ∈ pending, (q.reqList x.1).pktId = pktId
  · obtain ⟨x, member, found⟩ := present
    obtain ⟨⟨r, time⟩, before, after, absent, found, rfl, -⟩ :=
      @List.exists_of_eraseP _ (fun x => decide ((q.reqList x.1).pktId = pktId)) pending x member (by simpa using found)
    simp only [decide_eq_true_eq] at absent found
    obtain ⟨q', taken, kept⟩ := mqttTakeRequest_some queued absent found
    refine Or.inr ⟨before, r, time, after, q', rfl, absent, found, taken, kept, ?_⟩
    have distinct := queued.distinct
    rw [List.map_append, List.map_cons] at distinct
    rw [List.map_append]
    exact (List.nodup_cons.mp (List.nodup_middle.mp distinct)).1
  · push Not at present
    exact Or.inl ⟨present, mqttTakeRequest_none queued present⟩

/-- The first request is given back, when its time is over. -/
theorem Queued.expired {q : RequestQueue} {r : RequestPtr} {time : Nat} {rest : List (RequestPtr × Nat)}
    (queued : Queued q ((r, time) :: rest)) :
    Queued (mqttDeleteRequest { q with pendReqQueue := (q.reqList r).next } r) (later time rest) := by
  obtain ⟨⟨_, links⟩, distinct, ⟨first, deltas⟩, bounded⟩ := queued
  obtain ⟨apart, others⟩ := List.nodup_cons.mp distinct
  refine ⟨?_, by simpa using others, ?_, ?_⟩
  · rw [later_nodes, mqttDeleteRequest, RequestQueue.set_next]
    exact links.update apart _
  · rw [mqttDeleteRequest, RequestQueue.set_diff]
    have shifted : Deltas q.diff 0 (later time rest) := Deltas.later (by rwa [Nat.zero_add])
    exact shifted.congr fun x _ => congrFun (Function.update_eq_self ..) x.1
  · intro x member
    obtain ⟨y, inRest, rfl⟩ := List.mem_map.mp member
    have small := bounded y (List.mem_cons_of_mem _ inRest)
    simp only
    omega

/-- The first request goes on with what is left of its time, and the others with it. -/
theorem Queued.elapse {q : RequestQueue} {r : RequestPtr} {time : Nat} {rest : List (RequestPtr × Nat)}
    (queued : Queued q ((r, time) :: rest)) {t : BitVec 8} (early : t.toNat < time) :
    Queued (q.set r { q.reqList r with timeoutDiff := (q.reqList r).timeoutDiff - t.setWidth 16 })
      (later t.toNat ((r, time) :: rest)) := by
  obtain ⟨links, distinct, ⟨first, deltas⟩, bounded⟩ := queued
  have apart := (List.nodup_cons.mp distinct).1
  have wide : (t.setWidth 16).toNat = t.toNat := by
    rw [BitVec.toNat_setWidth, Nat.mod_eq_of_lt (t.isLt.trans (by decide))]
  have left : ((q.reqList r).timeoutDiff - t.setWidth 16).toNat = time - t.toNat := by
    unfold RequestQueue.diff at first
    rw [BitVec.toNat_sub_of_le (by rw [BitVec.le_def, wide]; omega), wide]
    omega
  refine ⟨?_, by simpa using distinct, ?_, ?_⟩
  · rw [later_nodes, RequestQueue.set_next]
    exact links.congr fun i _ => congrFun (Function.update_eq_self ..) i
  · rw [RequestQueue.set_diff, left, later_cons]
    refine ⟨by rw [Function.update_self, Nat.zero_add], ?_⟩
    have shifted : Deltas q.diff (time - t.toNat) (later t.toNat rest) :=
      Deltas.later (by rwa [Nat.sub_add_cancel early.le])
    refine shifted.congr fun x member => Function.update_of_ne ?_ ..
    have node : x.1 ∈ rest.map Prod.fst := by
      rw [← later_nodes t.toNat]
      exact List.mem_map_of_mem member
    exact ne_of_mem_of_not_mem node apart
  · intro x member
    obtain ⟨y, inside, rfl⟩ := List.mem_map.mp member
    have small := bounded y inside
    simp only
    omega

/-- What the passing of time has done to the queue, and the calls it has led to. -/
structure Elapsed (q : RequestQueue) (pending : List (RequestPtr × Nat)) (t : Nat) (q' : RequestQueue)
    (calls : List RequestCall) : Prop where
  queued : Queued q' (expire t pending).2
  calls : calls = (expire t pending).1.flatMap fun x => (q.reqList x.1).call .timeout
  same : SameRequests q q'
  freed : ∀ x ∈ (expire t pending).1, q'.next x.1 = some x.1
  elsewhere : ∀ i ∉ pending.map Prod.fst, q'.next i = q.next i

theorem mqttRequestTimeElapsed_zero (q : RequestQueue) (fuel : Nat) :
    mqttRequestTimeElapsed q fuel 0#8 = some (q, []) := by
  rw [mqttRequestTimeElapsed.eq_def]
  cases q.pendReqQueue <;> rfl

theorem mqttRequestTimeElapsed_elapsed {fuel : Nat} {q : RequestQueue} {pending : List (RequestPtr × Nat)}
    (queued : Queued q pending) {t : BitVec 8} (passes : 0 < t.toNat) (enough : pending.length ≤ fuel) :
    ∃ q' calls, mqttRequestTimeElapsed q fuel t = some (q', calls) ∧ Elapsed q pending t.toNat q' calls := by
  have nonzero : t ≠ 0#8 := fun zero => by simp [zero] at passes
  -- by the fuel: every round but the last one takes a request off the queue
  induction fuel generalizing q pending t with
  | zero =>
    have empty : pending = [] := by simpa using enough
    subst empty
    have ends : q.pendReqQueue = none := queued.linked
    rw [mqttRequestTimeElapsed, ends]
    exact ⟨q, [], rfl, queued, rfl, fun _ => ⟨rfl, rfl⟩, by simp [expire], fun _ _ => rfl⟩
  | succ fuel ih =>
    cases pending with
    | nil =>
      have ends : q.pendReqQueue = none := queued.linked
      rw [mqttRequestTimeElapsed, ends]
      exact ⟨q, [], rfl, queued, rfl, fun _ => ⟨rfl, rfl⟩, by simp [expire], fun _ _ => rfl⟩
    | cons x rest =>
      obtain ⟨r, time⟩ := x
      have head : q.pendReqQueue = some r := queued.linked.1
      have first : (q.reqList r).timeoutDiff.toNat = time := by
        simpa [RequestQueue.diff] using queued.deltas.1
      rw [mqttRequestTimeElapsed]
      simp only [head, if_neg nonzero, first]
      by_cases early : t.toNat < time
      · rw [if_neg (by omega)]
        have waits : expire t.toNat ((r, time) :: rest) = ([], later t.toNat ((r, time) :: rest)) := by
          rw [expire, if_neg (by simp only; omega), if_neg (by simp only; omega)]
        refine ⟨_, [], rfl, ?_⟩
        constructor
        · rw [waits]
          exact queued.elapse early
        · rw [waits]
          rfl
        · exact SameRequests.set (fun _ => ⟨rfl, rfl⟩) r rfl rfl
        · rw [waits]
          simp
        · intro i _
          rw [RequestQueue.set_next]
          exact congrFun (Function.update_eq_self ..) i
      · rw [if_pos (by omega)]
        have byte : ((q.reqList r).timeoutDiff.setWidth 8).toNat = time := by
          rw [BitVec.toNat_setWidth, first, Nat.mod_eq_of_lt (by have := t.isLt; omega)]
        have left : (t - (q.reqList r).timeoutDiff.setWidth 8).toNat = t.toNat - time := by
          rw [BitVec.toNat_sub_of_le (by rw [BitVec.le_def, byte]; omega), byte]
        have expired := queued.expired
        have same : SameRequests q (mqttDeleteRequest { q with pendReqQueue := (q.reqList r).next } r) :=
          (sameRequests_pend q _).set r rfl rfl
        have nexts : (mqttDeleteRequest { q with pendReqQueue := (q.reqList r).next } r).next =
            Function.update q.next r (some r) := RequestQueue.set_next ..
        generalize mqttDeleteRequest { q with pendReqQueue := (q.reqList r).next } r = q₁ at expired same nexts ⊢
        have elsewhere : ∀ i ∉ ((r, time) :: rest).map Prod.fst, q₁.next i = q.next i := by
          intro i outside
          rw [nexts]
          exact Function.update_of_ne (fun here => outside (by simp [here])) ..
        rcases Nat.eq_or_lt_of_le (Nat.not_lt.mp early) with exact | before
        · have through : t - (q.reqList r).timeoutDiff.setWidth 8 = 0#8 := BitVec.eq_of_toNat_eq (by rw [left]; simp; omega)
          have last : expire t.toNat ((r, time) :: rest) = ([(r, time)], later t.toNat rest) := by
            rw [expire, if_neg (by simp only; omega), if_pos exact]
          rw [through, mqttRequestTimeElapsed_zero]
          refine ⟨q₁, (q.reqList r).call .timeout, by simp, ?_, ?_, same, ?_, elsewhere⟩
          · rw [last, ← exact]
            exact expired
          · rw [last, List.flatMap_singleton]
          · rw [last, List.forall_mem_singleton, nexts, Function.update_self]
        · obtain ⟨q', calls, ran, elapsed⟩ := ih expired (by rw [left]; omega) (by simpa [later] using enough)
            (fun zero => by rw [zero] at left; simp at left; omega)
          rw [left] at elapsed
          obtain ⟨queued', called, same', freed, elsewhere'⟩ := elapsed
          rw [expire_later before.le queued.deltas.2.base_le] at queued' called freed
          have goes : expire t.toNat ((r, time) :: rest) =
              ((r, time) :: (expire t.toNat rest).1, (expire t.toNat rest).2) := by
            rw [expire, if_pos before]
          rw [ran]
          refine ⟨q', (q.reqList r).call .timeout ++ calls, rfl, ?_, ?_, same.trans same', ?_, ?_⟩
          · rw [goes]
            exact queued'
          · rw [goes, called, List.flatMap_cons]
            simp only [later, List.flatMap_map, same.call]
          · rw [goes, List.forall_mem_cons]
            refine ⟨?_, fun x member => freed (x.1, x.2 - time) (List.mem_map_of_mem member)⟩
            have outside : r ∉ (later time rest).map Prod.fst := by
              rw [later_nodes]
              exact (List.nodup_cons.mp queued.distinct).1
            rw [elsewhere' r outside, nexts, Function.update_self]
          · intro i outside
            rw [elsewhere' i (by rw [later_nodes]; exact fun member => outside (List.mem_cons_of_mem _ member))]
            exact elsewhere i outside

end Maglev
