import Mathlib.Data.List.Nodup
import Mathlib.Logic.Function.Basic
import Mathlib.Tactic.Common

namespace Maglev

/-- `next` leads from `head` through the listed nodes, in their order, to `tail`. -/
def Linked {ι : Type*} (next : ι → Option ι) : Option ι → List ι → Option ι → Prop
  | head, [], tail => head = tail
  | head, i :: rest, tail => head = some i ∧ Linked next (next i) rest tail

section

variable {ι : Type*} {next : ι → Option ι} {head tail : Option ι}

theorem linked_append {first rest : List ι} :
    Linked next head (first ++ rest) tail ↔ ∃ middle, Linked next head first middle ∧ Linked next middle rest tail := by
  induction first generalizing head with
  | nil => simp [Linked]
  | cons i first ih => simp [Linked, ih, and_assoc]

/-- Only what stands behind the listed nodes matters. -/
theorem Linked.congr {next' : ι → Option ι} {nodes : List ι} (linked : Linked next head nodes tail)
    (same : ∀ i ∈ nodes, next' i = next i) : Linked next' head nodes tail := by
  induction nodes generalizing head with
  | nil => exact linked
  | cons i rest ih =>
    obtain ⟨here, later⟩ := linked
    refine ⟨here, ?_⟩
    rw [same i (List.mem_cons_self ..)]
    exact ih later fun j member => same j (List.mem_cons_of_mem _ member)

/-- A node that points to itself is in no list that ends. -/
theorem Linked.not_mem_of_self {nodes : List ι} (linked : Linked next head nodes none) (distinct : nodes.Nodup)
    {i : ι} (self : next i = some i) : i ∉ nodes := by
  intro member
  obtain ⟨first, rest, rfl⟩ := List.append_of_mem member
  obtain ⟨_, _, _, behind⟩ := linked_append.mp linked
  rw [self] at behind
  cases rest with
  | nil => cases behind
  | cons j rest =>
    have same : i = j := Option.some.inj behind.1
    rw [same] at distinct
    exact absurd (List.mem_cons_self ..) (List.nodup_cons.mp (List.nodup_append.mp distinct).2.1).1

variable [DecidableEq ι]

theorem Linked.update {nodes : List ι} (linked : Linked next head nodes tail) {i : ι} (other : i ∉ nodes)
    (target : Option ι) : Linked (Function.update next i target) head nodes tail :=
  linked.congr fun _ member => Function.update_of_ne (ne_of_mem_of_not_mem member other) ..

/-- The last node gets a successor. -/
theorem Linked.extend {first : List ι} {last new : ι} (linked : Linked next head (first ++ [last]) none)
    (distinct : (first ++ [last]).Nodup) (fresh : new ∉ first ++ [last]) (ends : next new = none) :
    Linked (Function.update next last (some new)) head (first ++ [last, new]) none := by
  obtain ⟨middle, before, here, _⟩ := linked_append.mp linked
  have apart : last ∉ first := fun member =>
    (List.nodup_append.mp distinct).2.2 last member last (List.mem_singleton_self _) rfl
  have other : new ≠ last := fun same => fresh (same ▸ by simp)
  refine linked_append.mpr ⟨middle, before.update apart _, here, ?_⟩
  rw [Function.update_self]
  exact ⟨rfl, (Function.update_of_ne other ..).trans ends⟩

/-- A node is passed over. -/
theorem Linked.unlink {first rest : List ι} {before i : ι} (linked : Linked next head (first ++ before :: i :: rest) tail)
    (distinct : (first ++ before :: i :: rest).Nodup) :
    Linked (Function.update next before (next i)) head (first ++ before :: rest) tail := by
  obtain ⟨middle, front, here, _, behind⟩ := linked_append.mp linked
  obtain ⟨_, others, apart⟩ := List.nodup_append.mp distinct
  have notFirst : before ∉ first := fun member => apart before member before (List.mem_cons_self ..) rfl
  have notRest : before ∉ rest := fun member => (List.nodup_cons.mp others).1 (List.mem_cons_of_mem _ member)
  refine linked_append.mpr ⟨middle, front.update notFirst _, here, ?_⟩
  rw [Function.update_self]
  exact behind.update notRest _

end

/-- The times after `t` has passed. -/
def later {ι : Type*} (t : Nat) (times : List (ι × Nat)) : List (ι × Nat) := times.map fun x => (x.1, x.2 - t)

@[simp] theorem later_nodes {ι : Type*} (t : Nat) (times : List (ι × Nat)) :
    (later t times).map Prod.fst = times.map Prod.fst := by simp [later]

theorem later_cons {ι : Type*} (t : Nat) (x : ι × Nat) (rest : List (ι × Nat)) :
    later t (x :: rest) = (x.1, x.2 - t) :: later t rest := rfl

/-- Times that are kept as differences to the one before: the listed ones are the sums. -/
def Deltas {ι : Type*} (diff : ι → Nat) : Nat → List (ι × Nat) → Prop
  | _, [] => True
  | base, (i, time) :: rest => base + diff i = time ∧ Deltas diff time rest

section

variable {ι : Type*} {diff : ι → Nat} {base : Nat}

theorem Deltas.congr {diff' : ι → Nat} {times : List (ι × Nat)} (deltas : Deltas diff base times)
    (same : ∀ x ∈ times, diff' x.1 = diff x.1) : Deltas diff' base times := by
  induction times generalizing base with
  | nil => trivial
  | cons x rest ih =>
    obtain ⟨here, later⟩ := deltas
    refine ⟨?_, ih later fun y member => same y (List.mem_cons_of_mem _ member)⟩
    rw [same x (List.mem_cons_self ..)]
    exact here

theorem deltas_append {first rest : List (ι × Nat)} :
    Deltas diff base (first ++ rest) ↔
      Deltas diff base first ∧ Deltas diff ((first.getLast?.map Prod.snd).getD base) rest := by
  induction first generalizing base with
  | nil => simp [Deltas]
  | cons x first ih =>
    rw [List.cons_append, Deltas, ih, Deltas, and_assoc, List.getLast?_cons]
    cases first.getLast? <;> simp

/-- No time comes before the base. -/
theorem Deltas.base_le {times : List (ι × Nat)} (deltas : Deltas diff base times) :
    ∀ x ∈ times, base ≤ x.2 := by
  induction times generalizing base with
  | nil => simp
  | cons x rest ih =>
    obtain ⟨here, later⟩ := deltas
    have step := ih later
    intro y member
    cases member with
    | head => omega
    | tail _ behind => exact Nat.le_trans (by omega) (step y behind)

theorem Deltas.ordered {times : List (ι × Nat)} (deltas : Deltas diff base times) :
    times.Pairwise (·.2 ≤ ·.2) := by
  induction times generalizing base with
  | nil => exact .nil
  | cons x rest ih => exact .cons deltas.2.base_le (ih deltas.2)

/-- Time passes: every difference stays but the first. -/
theorem Deltas.later {n : Nat} {times : List (ι × Nat)} (deltas : Deltas diff (base + n) times) :
    Deltas diff base (later n times) := by
  induction times generalizing base with
  | nil => trivial
  | cons x rest ih =>
    obtain ⟨here, later⟩ := deltas
    refine ⟨by omega, ?_⟩
    have earlier : x.2 = (x.2 - n) + n := by omega
    rw [earlier] at later
    exact ih later

/-- One is taken out, and its difference goes to the one behind it. -/
theorem Deltas.remove [DecidableEq ι] {first rest : List (ι × Nat)} {i j : ι} {before behind : Nat}
    (deltas : Deltas diff base (first ++ (i, before) :: (j, behind) :: rest))
    (distinct : ((first ++ (i, before) :: (j, behind) :: rest).map Prod.fst).Nodup) :
    Deltas (Function.update diff j (diff j + diff i)) base (first ++ (j, behind) :: rest) := by
  obtain ⟨front, here, next, back⟩ := deltas_append.mp deltas
  rw [List.map_append, List.nodup_append] at distinct
  obtain ⟨_, others, apart⟩ := distinct
  have notFirst : ∀ x ∈ first, x.1 ≠ j := fun x member =>
    apart x.1 (List.mem_map_of_mem member) j (by simp)
  have notRest : ∀ x ∈ rest, x.1 ≠ j := by
    rintro x member rfl
    exact (List.nodup_cons.mp (List.nodup_cons.mp others).2).1 (List.mem_map.mpr ⟨x, member, rfl⟩)
  refine deltas_append.mpr ⟨front.congr fun x member => Function.update_of_ne (notFirst x member) .., ?_,
    back.congr fun x member => Function.update_of_ne (notRest x member) ..⟩
  rw [Function.update_self]
  omega

end

/-- What has become of the times after `t` has passed: those that are over, and the rest. One
that is over exactly at the end keeps those behind it until the next time. -/
def expire {ι : Type*} (t : Nat) : List (ι × Nat) → List (ι × Nat) × List (ι × Nat)
  | [] => ([], [])
  | x :: rest =>
    if x.2 < t then (x :: (expire t rest).1, (expire t rest).2)
    else if x.2 = t then ([x], later t rest)
    else ([], later t (x :: rest))

/-- It makes no difference if some of the time has passed before. -/
theorem expire_later {ι : Type*} {n t : Nat} (less : n ≤ t) {times : List (ι × Nat)} (behind : ∀ x ∈ times, n ≤ x.2) :
    expire (t - n) (later n times) = (later n (expire t times).1, (expire t times).2) := by
  induction times with
  | nil => rfl
  | cons x rest ih =>
    have here := behind x (List.mem_cons_self ..)
    have rests := ih fun y member => behind y (List.mem_cons_of_mem _ member)
    have twice : later (t - n) (later n (x :: rest)) = later t (x :: rest) := by
      simp only [later, List.map_map, Function.comp_def]
      congr
      funext y
      exact congrArg _ (by omega)
    have head : later n (x :: rest) = (x.1, x.2 - n) :: later n rest := rfl
    rw [head] at twice ⊢
    rw [expire, expire, rests]
    by_cases before : x.2 < t
    · rw [if_pos before, if_pos (by simp only; omega)]
      rfl
    · rw [if_neg before, if_neg (by simp only; omega)]
      by_cases exact : x.2 = t
      · rw [if_pos exact, if_pos (by simp only; omega)]
        exact Prod.ext rfl (List.cons.inj twice).2
      · rw [if_neg exact, if_neg (by simp only; omega), twice]
        rfl

theorem expire_map {α β : Type*} (f : α → β) (t : Nat) (times : List (α × Nat)) :
    expire t (times.map fun x => (f x.1, x.2)) =
      ((expire t times).1.map fun x => (f x.1, x.2), (expire t times).2.map fun x => (f x.1, x.2)) := by
  have shift (times : List (α × Nat)) :
      later t (times.map fun x => (f x.1, x.2)) = (later t times).map fun x => (f x.1, x.2) := by
    simp [later]
  induction times with
  | nil => rfl
  | cons x rest ih =>
    rw [List.map_cons, expire, expire, ih]
    split_ifs
    · rfl
    · rw [shift]
      rfl
    · exact Prod.ext rfl (shift (x :: rest))

/-- The times fall into those that are over and those that go on. If they are in order, no
time that is over comes behind one that goes on. -/
theorem expire_split {ι : Type*} (t : Nat) (times : List (ι × Nat)) :
    ∃ kept, times = (expire t times).1 ++ kept ∧ (expire t times).2 = later t kept ∧
      (∀ x ∈ (expire t times).1, x.2 ≤ t) ∧ (times.Pairwise (·.2 ≤ ·.2) → ∀ x ∈ kept, t ≤ x.2) := by
  induction times with
  | nil => exact ⟨[], rfl, rfl, by simp [expire], by simp⟩
  | cons x rest ih =>
    rw [expire, List.pairwise_cons]
    split_ifs with before exact
    · obtain ⟨kept, parts, shifted, due, open_⟩ := ih
      refine ⟨kept, by rw [List.cons_append, ← parts], shifted, ?_, fun ordered => open_ ordered.2⟩
      exact List.forall_mem_cons.mpr ⟨Nat.le_of_lt before, due⟩
    · exact ⟨rest, rfl, rfl, by simp [exact], fun ordered y member => exact ▸ ordered.1 y member⟩
    · refine ⟨x :: rest, rfl, rfl, by simp, fun ordered => List.forall_mem_cons.mpr ⟨by omega, fun y member => ?_⟩⟩
      have behind := ordered.1 y member
      omega

/-- Nobody is lost. -/
theorem expire_nodes {ι : Type*} (t : Nat) (times : List (ι × Nat)) :
    (expire t times).1.map Prod.fst ++ (expire t times).2.map Prod.fst = times.map Prod.fst := by
  induction times with
  | nil => rfl
  | cons x rest ih =>
    rw [expire]
    split_ifs
    · rw [List.map_cons, List.cons_append, ih, List.map_cons]
    · simp
    · simp

end Maglev
