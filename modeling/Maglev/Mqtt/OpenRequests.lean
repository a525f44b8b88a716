import Maglev.Mqtt.Deadlines

namespace Maglev

/-- What a callback is told by a call, if it is the one that is called. -/
def RequestCall.told (n : Nat) (made : RequestCall) : Option Err := if made.cb = n then some made.err else none

def RequestOutput.told (n : Nat) (out : RequestOutput) : Option Err := out.call?.bind (RequestCall.told n)

/-- The requests with a certain callback. -/
def hasCallback (n : Nat) (x : Waiting × Nat) : Bool := x.1.cb = some n

/-- One request with the callback `n` waits since `k` ticks of the timer. -/
structure Open (n k : Nat) (waiting : List (Waiting × Nat)) : Prop where
  ordered : waiting.Pairwise (·.2 ≤ ·.2)
  bounded : ∀ x ∈ waiting, x.2 ≤ 30
  one : ∃ w, waiting.filter (hasCallback n) = [(w, 30 - 5 * k)]
  early : k ≤ 6

/-- No request with the callback `n` waits. -/
def Closed (n : Nat) (waiting : List (Waiting × Nat)) : Prop := waiting.filter (hasCallback n) = []

theorem told_call (n : Nat) (w : Waiting) (err : Err) :
    (w.call err).filterMap (RequestOutput.told n) = if w.cb = some n then [err] else [] := by
  unfold Waiting.call
  cases cb : w.cb with
  | none => simp
  | some m =>
    by_cases same : m = n
    · simp [RequestOutput.told, RequestOutput.call?, RequestCall.told, same]
    · simp [RequestOutput.told, RequestOutput.call?, RequestCall.told, same]

/-- The calls of a callback come from the requests that have it. -/
theorem told_calls (n : Nat) (waiting : List (Waiting × Nat)) (err : Err) :
    (waiting.flatMap (·.1.call err)).filterMap (RequestOutput.told n) =
      (waiting.filter (hasCallback n)).map fun _ => err := by
  induction waiting with
  | nil => rfl
  | cons x rest ih =>
    rw [List.flatMap_cons, List.filterMap_append, told_call, ih]
    by_cases here : x.1.cb = some n
    · simp [here, hasCallback]
    · simp [here, hasCallback]

theorem filter_later (n t : Nat) (waiting : List (Waiting × Nat)) :
    (later t waiting).filter (hasCallback n) = later t (waiting.filter (hasCallback n)) := by
  simp only [later, List.filter_map]
  rfl

/-- Of the first request for a packet: it is not there, or it is taken out. -/
theorem eraseP_waitsFor (waiting : List (Waiting × Nat)) (pktId : BitVec 16) :
    (waiting.eraseP (waitsFor pktId) = waiting ∧ waiting.find? (waitsFor pktId) = none) ∨
      ∃ before x after, waiting = before ++ x :: after ∧ waiting.eraseP (waitsFor pktId) = before ++ after ∧
        waiting.find? (waitsFor pktId) = some x := by
  by_cases present : ∃ x ∈ waiting, waitsFor pktId x = true
  · obtain ⟨y, member, found⟩ := present
    obtain ⟨x, before, after, absent, found, rfl, erased⟩ := List.exists_of_eraseP member found
    refine Or.inr ⟨before, x, after, rfl, erased, ?_⟩
    rw [List.find?_append, List.find?_eq_none.mpr absent, List.find?_cons_of_pos found]
    rfl
  · push Not at present
    exact Or.inl ⟨List.eraseP_of_forall_not present, List.find?_eq_none.mpr present⟩

/-- The callback that an input brings with it. -/
def RequestInput.cb : RequestInput → Option Nat
  | .request _ cb => cb
  | _ => none

/-- An answer does not pass for the end of the waiting. -/
def RequestInput.Prompt : RequestInput → Prop
  | .answer _ err => err ≠ .timeout
  | _ => True

theorem Closed.taken {n : Nat} {before after : List (Waiting × Nat)} {x : Waiting × Nat}
    (closed : Closed n (before ++ x :: after)) : Closed n (before ++ after) ∧ x.1.cb ≠ some n := by
  rw [Closed, List.filter_append, List.filter_cons, List.append_eq_nil_iff] at closed
  by_cases here : x.1.cb = some n
  · simp [hasCallback, here] at closed
  · rw [if_neg (by simpa [hasCallback] using here)] at closed
    exact ⟨by rw [Closed, List.filter_append, closed.1, closed.2, List.append_nil], here⟩

theorem Closed.step {n : Nat} {s : Deadlines} (closed : Closed n s.waiting) {input : RequestInput}
    (other : input.cb ≠ some n) :
    Closed n (deadlineMachine.step s input).1.waiting ∧
      (deadlineMachine.step s input).2.filterMap (RequestOutput.told n) = [] := by
  cases input with
  | request pktId cb =>
    have another : hasCallback n (⟨cb, pktId⟩, 30) = false := by
      simpa [hasCallback, RequestInput.cb] using other
    simp only [deadlineMachine]
    split
    · refine ⟨?_, rfl⟩
      rw [Closed, List.filter_append, closed, List.filter_singleton, another]
      rfl
    · exact ⟨closed, rfl⟩
  | refused => exact ⟨closed, rfl⟩
  | answer pktId err =>
    simp only [deadlineMachine]
    rcases eraseP_waitsFor s.waiting pktId with ⟨same, absent⟩ | ⟨before, x, after, split, rest, found⟩
    · rw [same, absent]
      exact ⟨closed, rfl⟩
    · rw [split] at closed
      obtain ⟨still, here⟩ := closed.taken
      rw [rest, found]
      refine ⟨still, ?_⟩
      rw [Option.toList_some, List.flatMap_singleton, told_call, if_neg here]
  | tooShort pktId =>
    simp only [deadlineMachine]
    rcases eraseP_waitsFor s.waiting pktId with ⟨same, -⟩ | ⟨before, x, after, split, rest, -⟩
    · rw [same]
      exact ⟨closed, rfl⟩
    · rw [split] at closed
      rw [rest]
      exact ⟨closed.taken.1, rfl⟩
  | sent =>
    have none : s.waiting.filter (hasCallback n) = [] := closed
    simp only [deadlineMachine, Closed, told_calls, List.filter_comm (hasCallback n), none]
    exact ⟨rfl, rfl⟩
  | tick =>
    obtain ⟨kept, parts, rest, -, -⟩ := expire_split 5 s.waiting
    rw [Closed, parts, List.filter_append, List.append_eq_nil_iff] at closed
    simp only [deadlineMachine, Closed, told_calls, rest, filter_later, closed.1, closed.2]
    exact ⟨rfl, rfl⟩
  | clear | init => exact ⟨rfl, rfl⟩

/-- What has become of a request that was open, what its callback has been told, and whether
it was dropped without a word. -/
inductive Outcome (n k : Nat) (waiting : List (Waiting × Nat)) (told : List Err) (dropped : Prop) : Prop
  | waits : Open n k waiting → told = [] → Outcome n k waiting told dropped
  | answered {err : Err} : Closed n waiting → told = [err] → (err = .timeout → 6 ≤ k) → Outcome n k waiting told dropped
  | dropped : Closed n waiting → told = [] → dropped → Outcome n k waiting told dropped

theorem Outcome.mono {n k : Nat} {waiting : List (Waiting × Nat)} {told : List Err} {dropped dropped' : Prop}
    (outcome : Outcome n k waiting told dropped) (weaker : dropped → dropped') : Outcome n k waiting told dropped' := by
  cases outcome with
  | waits open_ silent => exact .waits open_ silent
  | answered closed told late => exact .answered closed told late
  | dropped closed silent dropped => exact .dropped closed silent (weaker dropped)

theorem Open.sublist {n k : Nat} {waiting part : List (Waiting × Nat)} (open_ : Open n k waiting)
    (sub : part.Sublist waiting) (same : part.filter (hasCallback n) = waiting.filter (hasCallback n)) :
    Open n k part :=
  ⟨open_.ordered.sublist sub, fun x member => open_.bounded x (sub.mem member), same ▸ open_.one, open_.early⟩

/-- Another request is taken out, or it is the one. -/
theorem Open.taken {n k : Nat} {before after : List (Waiting × Nat)} {x : Waiting × Nat}
    (open_ : Open n k (before ++ x :: after)) :
    Open n k (before ++ after) ∧ x.1.cb ≠ some n ∨ Closed n (before ++ after) ∧ x.1.cb = some n := by
  by_cases here : x.1.cb = some n
  · obtain ⟨w, one⟩ := open_.one
    rw [List.filter_append, List.filter_cons, if_pos (by simpa [hasCallback] using here),
      List.append_eq_singleton_iff] at one
    obtain ⟨first, last⟩ | ⟨-, no⟩ := one
    · refine Or.inr ⟨?_, here⟩
      rw [Closed, List.filter_append, first, (List.cons.inj last).2, List.append_nil]
    · cases no
  · refine Or.inl ⟨open_.sublist ((List.sublist_cons_self ..).append_left before) ?_, here⟩
    rw [List.filter_append, List.filter_append, List.filter_cons, if_neg (by simpa [hasCallback] using here)]

/-- A new request has the latest deadline. -/
theorem ordered_append {waiting : List (Waiting × Nat)} (ordered : waiting.Pairwise (·.2 ≤ ·.2))
    (bounded : ∀ x ∈ waiting, x.2 ≤ 30) (w : Waiting) :
    List.Pairwise (fun x y => x.2 ≤ y.2) (waiting ++ [(w, 30)]) ∧ ∀ x ∈ waiting ++ [(w, 30)], x.2 ≤ 30 := by
  refine ⟨List.pairwise_append.mpr ⟨ordered, List.pairwise_singleton _ _, fun x member y new => ?_⟩, ?_⟩
  · rw [List.mem_singleton.mp new]
    exact bounded x member
  · exact List.forall_mem_append.mpr ⟨bounded, List.forall_mem_singleton.mpr (Nat.le_refl _)⟩

theorem Open.append {n k : Nat} {waiting : List (Waiting × Nat)} (open_ : Open n k waiting) {w : Waiting}
    (other : w.cb ≠ some n) : Open n k (waiting ++ [(w, 30)]) where
  ordered := (ordered_append open_.ordered open_.bounded w).1
  bounded := (ordered_append open_.ordered open_.bounded w).2
  one := by
    have another : hasCallback n (w, 30) = false := by simpa [hasCallback] using other
    rw [List.filter_append, List.filter_singleton, another]
    simpa using open_.one
  early := open_.early

/-- The timer has come once more: the request is over, or it waits for one tick longer. -/
theorem Open.tick {n k : Nat} {waiting : List (Waiting × Nat)} (open_ : Open n k waiting) {dropped : Prop} :
    Outcome n (k + 1) (expire 5 waiting).2
      (((expire 5 waiting).1.flatMap (·.1.call .timeout)).filterMap (RequestOutput.told n)) dropped := by
  obtain ⟨ordered, bounded, ⟨w, one⟩, early⟩ := open_
  obtain ⟨kept, parts, rest, due, late⟩ := expire_split 5 waiting
  have part : kept.Sublist waiting := by
    conv_rhs => rw [parts]
    exact List.sublist_append_right ..
  rw [parts, List.filter_append, List.append_eq_singleton_iff] at one
  rw [told_calls, rest]
  rcases one with ⟨none, goes⟩ | ⟨ended, none⟩
  · have waits : (w, 30 - 5 * k) ∈ kept := List.mem_of_mem_filter (goes ▸ List.mem_singleton_self _)
    have time : 5 ≤ 30 - 5 * k := late ordered _ waits
    refine .waits ⟨?_, ?_, ⟨w, ?_⟩, by omega⟩ (by rw [none]; rfl)
    · exact List.pairwise_map.mpr ((ordered.sublist part).imp fun less => Nat.sub_le_sub_right less 5)
    · intro y member
      obtain ⟨z, inKept, rfl⟩ := List.mem_map.mp member
      exact (Nat.sub_le ..).trans (bounded z (part.mem inKept))
    · rw [filter_later, goes, later_cons, show 30 - 5 * k - 5 = 30 - 5 * (k + 1) by omega]
      rfl
  · have expired : (w, 30 - 5 * k) ∈ (expire 5 waiting).1 :=
      List.mem_of_mem_filter (ended ▸ List.mem_singleton_self _)
    have time : 30 - 5 * k ≤ 5 := due _ expired
    refine .answered ?_ (by rw [ended]; rfl) fun _ => by omega
    rw [Closed, filter_later, none]
    rfl

/-- What an input other than a tick does to a request that waits. -/
theorem Open.step {n k : Nat} {s : Deadlines} (open_ : Open n k s.waiting) {input : RequestInput}
    (other : input.cb ≠ some n) (prompt : input.Prompt) (still : input ≠ .tick) :
    Outcome n k (deadlineMachine.step s input).1.waiting
      ((deadlineMachine.step s input).2.filterMap (RequestOutput.told n))
      (input = .clear ∨ input = .init ∨ s.lost < (deadlineMachine.step s input).1.lost) := by
  cases input with
  | request pktId cb =>
    simp only [deadlineMachine]
    split
    · exact .waits (open_.append other) rfl
    · exact .waits open_ rfl
  | refused => exact .waits open_ rfl
  | answer pktId err =>
    simp only [deadlineMachine]
    rcases eraseP_waitsFor s.waiting pktId with ⟨same, absent⟩ | ⟨before, x, after, split, rest, found⟩
    · rw [same, absent]
      exact .waits open_ rfl
    · rw [split] at open_
      rw [rest, found, Option.toList_some, List.flatMap_singleton, told_call]
      rcases open_.taken with ⟨waits, another⟩ | ⟨closed, here⟩
      · exact .waits waits (if_neg another)
      · exact .answered closed (if_pos here) fun late => absurd late prompt
  | tooShort pktId =>
    simp only [deadlineMachine]
    rcases eraseP_waitsFor s.waiting pktId with ⟨same, -⟩ | ⟨before, x, after, split, rest, found⟩
    · rw [same]
      exact .waits open_ rfl
    · rw [split] at open_
      rw [rest, found]
      rcases open_.taken with ⟨waits, -⟩ | ⟨closed, -⟩
      · exact .waits waits rfl
      · exact .dropped closed rfl (Or.inr (Or.inr (Nat.lt_succ_self _)))
  | sent =>
    obtain ⟨w, one⟩ := open_.one
    simp only [deadlineMachine, told_calls, List.filter_comm (hasCallback n), one]
    by_cases here : w.pktId = 0#16
    · refine .answered ?_ (by simp [waitsFor, here]; rfl) (fun late => by cases late)
      simp [Closed, List.filter_comm (hasCallback n), one, waitsFor, here]
    · refine .waits (open_.sublist List.filter_sublist ?_) (by simp [waitsFor, here])
      simp [List.filter_comm (hasCallback n), one, waitsFor, here]
  | tick => exact absurd rfl still
  | clear => exact .dropped rfl rfl (Or.inl rfl)
  | init => exact .dropped rfl rfl (Or.inr (Or.inl rfl))

theorem Closed.run {n : Nat} (inputs : List RequestInput) {s : Deadlines} (closed : Closed n s.waiting)
    (others : ∀ i ∈ inputs, i.cb ≠ some n) :
    Closed n (deadlineMachine.final s inputs).waiting ∧
      (deadlineMachine.outputs s inputs).filterMap (RequestOutput.told n) = [] := by
  induction inputs generalizing s with
  | nil => exact ⟨closed, rfl⟩
  | cons i rest ih =>
    obtain ⟨here, later⟩ := List.forall_mem_cons.mp others
    obtain ⟨next, silent⟩ := closed.step here
    obtain ⟨final, silentRest⟩ := ih next later
    rw [Machine.outputs_cons, List.filterMap_append, silent, silentRest]
    exact ⟨final, rfl⟩

/-- A lost request stays so as long as nothing is initialised. -/
theorem deadlineMachine_lost_le_step {s : Deadlines} {input : RequestInput} (noInit : input ≠ .init) :
    s.lost ≤ (deadlineMachine.step s input).1.lost := by
  cases input with
  | init => exact absurd rfl noInit
  | tooShort => exact Nat.le_add_right ..
  | request =>
    simp only [deadlineMachine]
    split <;> exact Nat.le_refl _
  | _ => exact Nat.le_refl _

theorem deadlineMachine_lost_le {s : Deadlines} {inputs : List RequestInput} (noInit : .init ∉ inputs) :
    s.lost ≤ (deadlineMachine.final s inputs).lost := by
  induction inputs generalizing s with
  | nil => exact Nat.le_refl _
  | cons i rest ih =>
    obtain ⟨here, later⟩ := not_or.mp (List.mem_cons.not.mp noInit)
    exact (deadlineMachine_lost_le_step (Ne.symm here)).trans (ih later)

theorem Open.run {n k : Nat} {inputs : List RequestInput} {s : Deadlines} (open_ : Open n k s.waiting)
    (others : ∀ i ∈ inputs, i.cb ≠ some n) (prompt : ∀ i ∈ inputs, i.Prompt) (still : .tick ∉ inputs) :
    Outcome n k (deadlineMachine.final s inputs).waiting
      ((deadlineMachine.outputs s inputs).filterMap (RequestOutput.told n))
      (.clear ∈ inputs ∨ .init ∈ inputs ∨ s.lost < (deadlineMachine.final s inputs).lost) := by
  induction inputs generalizing s with
  | nil => exact .waits open_ rfl
  | cons i rest ih =>
    obtain ⟨here, later⟩ := List.forall_mem_cons.mp others
    obtain ⟨now, promptLater⟩ := List.forall_mem_cons.mp prompt
    obtain ⟨noTick, stillLater⟩ := not_or.mp (List.mem_cons.not.mp still)
    rw [Machine.outputs_cons, List.filterMap_append, Machine.final_cons]
    cases open_.step here now (Ne.symm noTick) with
    | waits next silent =>
      rw [silent, List.nil_append]
      refine (ih next later promptLater stillLater).mono ?_
      rintro (clear | init | lost)
      · exact Or.inl (List.mem_cons_of_mem _ clear)
      · exact Or.inr (Or.inl (List.mem_cons_of_mem _ init))
      · by_cases init : i = .init
        · exact Or.inr (Or.inl (init ▸ List.mem_cons_self))
        · exact Or.inr (Or.inr ((deadlineMachine_lost_le_step init).trans_lt lost))
    | answered closed told late =>
      obtain ⟨final, silent⟩ := closed.run rest later
      exact .answered final (by rw [told, silent]; rfl) late
    | dropped closed silent dropped =>
      obtain ⟨final, silentRest⟩ := closed.run rest later
      refine .dropped final (by rw [silent, silentRest]; rfl) ?_
      rcases dropped with rfl | rfl | lost
      · exact Or.inl List.mem_cons_self
      · exact Or.inr (Or.inl List.mem_cons_self)
      · by_cases init : .init ∈ rest
        · exact Or.inr (Or.inl (List.mem_cons_of_mem _ init))
        · exact Or.inr (Or.inr (lost.trans_le (deadlineMachine_lost_le init)))

end Maglev
