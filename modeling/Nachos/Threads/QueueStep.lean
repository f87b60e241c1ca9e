import Nachos.Threads.TotalOrder

/-!
# One step of the queue

What the insert-and-drain step is for: a message goes behind the ones that are not later, and what
is due by the earliest valid entry of the table is handed on. The code starts its minimum with the
first entry, valid or not, and reads the table at the index of the queue.

* `queueStep_iff`: exactly when steps 3 to 5 do that.
-/

namespace Nachos.Threads

open Nachos.Lib Nachos.Network

/-- The time stamp is not after the earliest valid entry. -/
def Due (table : List NetThreadInfoEntry) (m : Mail) : Prop :=
  ∃ entry ∈ table, m.timeStamp ≤ entry.timeStamp ∧ Valid entry ∧
    ∀ other ∈ table, Valid other → entry.timeStamp ≤ other.timeStamp

instance (table : List NetThreadInfoEntry) (m : Mail) : Decidable (Due table m) :=
  inferInstanceAs (Decidable (∃ entry ∈ table, _))

/-- The queue with the message, behind those that are not later. -/
def arrived (isTimeStamp : Bool) (m : Mail) (queue : List Mail) : List Mail :=
  if isTimeStamp then queue
  else queue.filter (·.timeStamp ≤ m.timeStamp) ++ m :: queue.filter (m.timeStamp < ·.timeStamp)

/-- **The step** succeeds, hands on what is due, and keeps the rest in order. -/
def StepRight (s : ThreadState) (isTimeStamp : Bool) (m : Mail) : Prop :=
  let table := updateTable m s.localNetThreadInfo
  let queue := arrived isTimeStamp m s.msgQueue
  (totalOrder s isTimeStamp m).1 = queue.filter (Due table ·) ∧
    ∃ s', (totalOrder s isTimeStamp m).2 = .ok s' ∧ s'.msgQueue = queue.filter (¬ Due table ·) ∧
      Ordered (·.timeStamp) s'.msgQueue

/-! ## The earliest entry -/

section

variable {table : List NetThreadInfoEntry} {first : NetThreadInfoEntry} {earliest : Timeval}

/-- The fold of step 4 returns the value it starts from or a valid entry. -/
theorem foldl_earliest_mem (table : List NetThreadInfoEntry) (start : Timeval) :
    let earliest := table.foldl (fun earliest entry =>
      if Valid entry ∧ entry.timeStamp < earliest then entry.timeStamp else earliest) start
    earliest = start ∨ ∃ entry ∈ table, Valid entry ∧ entry.timeStamp = earliest := by
  induction table generalizing start with
  | nil => exact Or.inl rfl
  | cons entry rest ih =>
    intro earliest
    rcases ih (if Valid entry ∧ entry.timeStamp < start then entry.timeStamp else start) with
      hstart | ⟨other, hother, hvalid, heq⟩
    · by_cases h : Valid entry ∧ entry.timeStamp < start
      · rw [if_pos h] at hstart
        refine Or.inr ⟨entry, List.mem_cons_self, h.1, ?_⟩
        show _ = List.foldl _ _ (entry :: rest)
        rw [List.foldl_cons, if_pos h, hstart]
      · rw [if_neg h] at hstart
        left
        show List.foldl _ _ (entry :: rest) = _
        rw [List.foldl_cons, if_neg h, hstart]
    · exact Or.inr ⟨other, List.mem_cons_of_mem _ hother, hvalid, heq⟩

/-- With a valid first entry the code finds the earliest valid one. -/
theorem due_iff (hfirst : table.head? = some first) (hvalid : Valid first)
    (hearliest : earliestTimeStamp table = .ok earliest) (m : Mail) :
    Due table m ↔ m.timeStamp ≤ earliest := by
  have hle {entry : NetThreadInfoEntry} (hentry : entry ∈ table) (hv : Valid entry) :=
    earliestTimeStamp_le hearliest hentry hv
  have hmem : ∃ entry ∈ table, Valid entry ∧ entry.timeStamp = earliest := by
    match table, hfirst, hearliest with
    | entry :: rest, hfirst, hearliest =>
      cases hfirst
      cases hearliest
      rcases foldl_earliest_mem rest first.timeStamp with heq | ⟨other, hother, hv, heq⟩
      · exact ⟨first, List.mem_cons_self, hvalid, heq.symm⟩
      · exact ⟨other, List.mem_cons_of_mem _ hother, hv, heq⟩
  obtain ⟨least, hleast, hv, rfl⟩ := hmem
  constructor
  · rintro ⟨entry, -, hm, -, hmin⟩
    exact hm.trans (hmin least hleast hv)
  · intro hm
    exact ⟨least, hleast, hm, hv, fun other hother => hle hother⟩

end

/-! ## The step -/

section

variable {s : ThreadState} {m : Mail}

theorem insertMessage_eq (h : Ordered (·.timeStamp) s.msgQueue) (isTimeStamp : Bool) :
    insertMessage isTimeStamp m s.msgQueue = arrived isTimeStamp m s.msgQueue := by
  unfold insertMessage arrived
  split_ifs
  · rfl
  · exact insertBefore_eq_filter h

/-- What the step hands on and what it keeps, by the code's earliest time stamp. -/
theorem totalOrder_filter (h : Ordered (·.timeStamp) s.msgQueue) (isTimeStamp : Bool)
    {earliest : Timeval}
    (hearliest : earliestTimeStamp (updateTable m s.localNetThreadInfo) = .ok earliest) :
    let queue := arrived isTimeStamp m s.msgQueue
    totalOrder s isTimeStamp m = (queue.filter (·.timeStamp ≤ earliest),
      if (queue.filter (earliest < ·.timeStamp)).length ≤ s.localNetThreadInfo.length then
        .ok { s with
          localNetThreadInfo := updateTable m s.localNetThreadInfo
          msgQueue := queue.filter (earliest < ·.timeStamp) }
      else .error .outOfBounds) := by
  intro queue
  have hqueue := insertMessage_ordered (m := m) h isTimeStamp
  rw [totalOrder_eq h isTimeStamp hearliest, takeWhile_eq_filter hqueue, dropWhile_eq_filter hqueue,
    insertMessage_eq h]

theorem arrived_ordered (h : Ordered (·.timeStamp) s.msgQueue) (isTimeStamp : Bool) :
    Ordered (·.timeStamp) (arrived isTimeStamp m s.msgQueue) := by
  rw [← insertMessage_eq h]
  exact insertMessage_ordered h isTimeStamp

/-- The step by what the code takes for due. -/
theorem stepRight_iff (h : Ordered (·.timeStamp) s.msgQueue) (isTimeStamp : Bool)
    {earliest : Timeval}
    (hearliest : earliestTimeStamp (updateTable m s.localNetThreadInfo) = .ok earliest) :
    let table := updateTable m s.localNetThreadInfo
    let queue := arrived isTimeStamp m s.msgQueue
    StepRight s isTimeStamp m ↔ (∀ m' ∈ queue, Due table m' ↔ m'.timeStamp ≤ earliest) ∧
      (queue.filter (¬ Due table ·)).length ≤ s.localNetThreadInfo.length := by
  intro table queue
  have hordered : Ordered (·.timeStamp) queue := arrived_ordered h isTimeStamp
  have hlater (hdue : ∀ m' ∈ queue, Due table m' ↔ m'.timeStamp ≤ earliest) :
      queue.filter (earliest < ·.timeStamp) = queue.filter (¬ Due table ·) :=
    List.filter_congr fun m' hm' => decide_eq_decide.mpr (by rw [hdue m' hm', not_le])
  unfold StepRight
  simp only [totalOrder_filter (m := m) h isTimeStamp hearliest]
  constructor
  · rintro ⟨hhanded, s', hs', hqueue, -⟩
    have hdue : ∀ m' ∈ queue, Due table m' ↔ m'.timeStamp ≤ earliest := by
      intro m' hm'
      have hmem := congrArg (m' ∈ ·) hhanded
      simpa [queue, hm'] using hmem.symm
    refine ⟨hdue, ?_⟩
    rw [← hlater hdue]
    by_contra hlong
    rw [if_neg hlong] at hs'
    cases hs'
  · rintro ⟨hdue, hlength⟩
    refine ⟨List.filter_congr fun m' hm' => decide_eq_decide.mpr (hdue m' hm').symm, ?_⟩
    rw [hlater hdue, if_pos hlength]
    exact ⟨_, rfl, rfl, hordered.filter _⟩

/-- **The step is right** if and only if the first entry of the table is valid or nothing is due,
    and no more messages than the group has members are not due. -/
theorem queueStep_iff (s : ThreadState) (isTimeStamp : Bool) (m : Mail)
    (h : Ordered (·.timeStamp) s.msgQueue) (hsize : 1 ≤ s.localNetThreadInfo.length) :
    let table := updateTable m s.localNetThreadInfo
    let queue := arrived isTimeStamp m s.msgQueue
    StepRight s isTimeStamp m ↔
      ((∀ first ∈ table.head?, Valid first) ∨ ∀ m' ∈ queue, ¬ Due table m') ∧
        (queue.filter (¬ Due table ·)).length ≤ s.localNetThreadInfo.length := by
  intro table queue
  have hlength : 1 ≤ table.length := by rwa [length_updateTable]
  obtain ⟨earliest, hearliest⟩ := earliestTimeStamp_ok (List.ne_nil_of_length_pos hlength)
  obtain ⟨first, hfirst⟩ : ∃ first, table.head? = some first :=
    Option.isSome_iff_exists.mp (by simpa using List.ne_nil_of_length_pos hlength)
  refine (stepRight_iff h isTimeStamp hearliest).trans (and_congr_left fun _ => ?_)
  have hnever (hvalid : ¬ Valid first) (m' : Mail) : earliest < m'.timeStamp :=
    earliest_lt_of_not_valid hearliest (List.head?_eq_getElem?.symm.trans hfirst) hvalid m'
  constructor
  · intro hdue
    by_cases hvalid : Valid first
    · left
      rintro other hother
      rw [hfirst] at hother
      cases hother
      exact hvalid
    · right
      intro m' hm'
      rw [hdue m' hm', not_le]
      exact hnever hvalid m'
  · rintro (hvalid | hnone)
    · exact fun m' _ => due_iff hfirst (hvalid first hfirst) hearliest m'
    · intro m' hm'
      by_cases hvalid : Valid first
      · exact due_iff hfirst hvalid hearliest m'
      · exact iff_of_false (hnone m' hm') (hnever hvalid m').not_ge

end

/-- A group of two members, of which the first has been heard at `sec`, with two requests of the
    second in the queue. -/
def twoMembers (sec : ℤ) : ThreadState where
  localNetThreadInfo := [⟨0, 0, ⟨sec, 0⟩⟩, ⟨1, 0, ⟨12, 0⟩⟩]
  receivedMessages := []
  msgQueue := [mailFrom 1 false 11 (by decide), mailFrom 1 false 12 (by decide)]

/-- The first of three requests is due. -/
theorem queueStep_iff_two : StepRight (twoMembers 11) false (mailFrom 1 false 13 (by decide)) :=
  (queueStep_iff (twoMembers 11) false (mailFrom 1 false 13 (by decide)) (by decide)
    (by decide)).mpr (by decide +kernel)

/-- **Neither safe nor complete**: a silent first member holds back what is due, and with three
    requests that are not due the loop reads the table behind its end. -/
theorem queueStep_wrong :
    ¬ StepRight (twoMembers 0) true (mailFrom 1 true 13 (by decide)) ∧
      ¬ StepRight (twoMembers 10) false (mailFrom 1 false 13 (by decide)) := by
  constructor
  · rintro ⟨hhanded, -⟩
    revert hhanded
    decide +kernel
  · rintro ⟨-, s', hs', -⟩
    revert hs'
    have hfault : (totalOrder (twoMembers 10) false (mailFrom 1 false 13 (by decide))).2 =
        .error .outOfBounds := rfl
    rw [hfault]
    nofun

end Nachos.Threads
