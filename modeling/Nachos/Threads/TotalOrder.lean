import Nachos.Threads.NetworkThread

/-!
# Delivery in the order of time stamps

Runs of the main loop from a table without valid time stamps, together with the
messages that have been handed to `processMessage` out of the queue. A member that
has not been heard from does not hold the queue back, the first one of the table
excepted.

* `handed_in_order`: what is handed on stays in order if no message is older than one
  that has been handed on when its sender has no valid time stamp in the table.
* `handed_out_of_order`: without that, a silent member breaks the order.
-/

namespace Nachos.Threads

open Nachos.Lib Nachos.Network

/-! ## Runs -/

/-- The thread, the messages it has handed on out of its queue, and whether it still
    runs. -/
structure OrderState where
  thread : ThreadState
  handed : List Mail
  running : Bool

/-- The thread receives a message. What it hands on before an exception counts. -/
def orderStep (t : NetThread) (s : OrderState) (m : Mail) : Except Fault OrderState :=
  if s.running then
    let o := mainLoop t s.thread m
    match o.next with
    | .ok thread => .ok ⟨thread, s.handed ++ o.ordered, true⟩
    | .error _ => .ok ⟨s.thread, s.handed ++ o.ordered, false⟩
  else .ok s

/-- A thread that has registered: a table of any members whose time stamps are zero. -/
def OrderState.init (members : List (ℤ × ℤ)) (receivedMessages : List Mail) : OrderState where
  thread :=
    { localNetThreadInfo := members.map fun address => ⟨address.1, address.2, ⟨0, 0⟩⟩
      receivedMessages
      msgQueue := [] }
  handed := []
  running := true

/-- The table has a valid time stamp for the sender. -/
def Heard (s : ThreadState) (m : Mail) : Prop :=
  ∃ entry ∈ s.localNetThreadInfo, entry.address = m.sender ∧ Valid entry

/-- Messages of each sender arrive in the order of their time stamps, and a message
    whose sender has not been heard is not older than one that has been handed on. -/
def InOrder (t : NetThread) (s : OrderState) (m : Mail) : Prop :=
  IsOrdered t s.thread m →
    (∀ m' ∈ s.thread.receivedMessages, m'.sender = m.sender → m'.timeStamp ≤ m.timeStamp) ∧
      (¬ Heard s.thread m → ∀ m' ∈ s.handed, m'.timeStamp ≤ m.timeStamp)

instance (s : ThreadState) (m : Mail) : Decidable (Heard s m) :=
  inferInstanceAs (Decidable (∃ entry ∈ s.localNetThreadInfo, _))

instance (t : NetThread) (s : OrderState) (m : Mail) : Decidable (InOrder t s m) :=
  inferInstanceAs (Decidable (_ → _ ∧ _))

/-! ## The invariant -/

/-- The handed messages and the queue behind them are in order, valid time stamps of
    the table are those of received messages, and none is older than a handed message. -/
structure ThreadInv (thread : ThreadState) (handed : List Mail) : Prop where
  ordered : Ordered (·.timeStamp) (handed ++ thread.msgQueue)
  table : ∀ entry ∈ thread.localNetThreadInfo, Valid entry →
    (∃ m ∈ thread.receivedMessages, m.sender = entry.address ∧ m.timeStamp = entry.timeStamp) ∧
      ∀ m ∈ handed, m.timeStamp ≤ entry.timeStamp

/-- Once the thread has stopped only the handed messages count. -/
def OrderInv (s : OrderState) : Prop :=
  Ordered (·.timeStamp) s.handed ∧ (s.running → ThreadInv s.thread s.handed)

theorem ThreadInv.handed_ordered {thread : ThreadState} {handed : List Mail}
    (h : ThreadInv thread handed) : Ordered (·.timeStamp) handed :=
  (List.pairwise_append.mp h.ordered).1

theorem OrderInv.init (members : List (ℤ × ℤ)) (receivedMessages : List Mail) :
    OrderInv (.init members receivedMessages) := by
  refine ⟨List.Pairwise.nil, fun _ => ⟨List.Pairwise.nil, fun entry hentry hvalid => ?_⟩⟩
  obtain ⟨address, -, rfl⟩ := List.mem_map.mp hentry
  exact absurd hvalid (lt_irrefl _)

section

variable {t : NetThread} {thread : ThreadState} {handed : List Mail} {m : Mail}

/-- A message in order is not older than the messages handed on. -/
theorem ThreadInv.handed_le (h : ThreadInv thread handed)
    (hsender : ∀ m' ∈ thread.receivedMessages, m'.sender = m.sender → m'.timeStamp ≤ m.timeStamp)
    (hunheard : ¬ Heard thread m → ∀ m' ∈ handed, m'.timeStamp ≤ m.timeStamp) :
    ∀ m' ∈ handed, m'.timeStamp ≤ m.timeStamp := by
  by_cases hheard : Heard thread m
  · obtain ⟨entry, hentry, haddress, hvalid⟩ := hheard
    obtain ⟨⟨last, hlast, hlastSender, hlastStamp⟩, hhanded⟩ := h.table entry hentry hvalid
    have hle := hsender last hlast (hlastSender.trans haddress)
    exact fun m' hm' => (hhanded m' hm').trans (hlastStamp ▸ hle)
  · exact hunheard hheard

/-- **Steps 2 to 5** keep the order. -/
theorem totalOrder_inv (h : ThreadInv thread handed)
    (hle : ∀ m' ∈ handed, m'.timeStamp ≤ m.timeStamp) (isTimeStamp : Bool) {received : List Mail}
    (hreceived : ∀ m', m' = m ∨ m' ∈ thread.receivedMessages → m' ∈ received) :
    let r := totalOrder { thread with receivedMessages := received } isTimeStamp m
    Ordered (·.timeStamp) (handed ++ r.1) ∧
      ∀ thread', r.2 = .ok thread' → ThreadInv thread' (handed ++ r.1) := by
  dsimp only
  generalize hqueue : insertMessage isTimeStamp m thread.msgQueue = queue
  have hordered : Ordered (·.timeStamp) (handed ++ queue) := by
    rw [← hqueue, insertMessage]
    split_ifs
    · exact h.ordered
    · exact ordered_insertBefore_append h.ordered hle
  cases hearliest : earliestTimeStamp (updateTable m thread.localNetThreadInfo) with
  | error fault =>
    rw [totalOrder_error (s := { thread with receivedMessages := received }) hearliest]
    exact ⟨by simpa using h.handed_ordered, by simp⟩
  | ok earliest =>
    rw [totalOrder_eq (s := { thread with receivedMessages := received })
      (List.pairwise_append.mp h.ordered).2.1 isTimeStamp hearliest]
    simp only [hqueue]
    -- a prefix of the queue moves to the messages handed on
    have hmoved := hordered
    rw [← List.takeWhile_append_dropWhile (p := (·.timeStamp ≤ earliest)) (l := queue),
      ← List.append_assoc] at hmoved
    refine ⟨(List.pairwise_append.mp hmoved).1, fun thread' hthread' => ?_⟩
    split_ifs at hthread'
    cases hthread'
    refine ⟨hmoved, fun entry hentry hvalid => ⟨?_, fun m' hm' => ?_⟩⟩
    · rcases mem_updateTable hentry with hold | ⟨haddress, hstamp⟩
      · obtain ⟨m', hm', hm''⟩ := (h.table entry hold hvalid).1
        exact ⟨m', hreceived m' (Or.inr hm'), hm''⟩
      · exact ⟨m, hreceived m (Or.inl rfl), haddress.symm, hstamp.symm⟩
    · rcases List.mem_append.mp hm' with hm' | hm'
      · rcases mem_updateTable hentry with hold | ⟨-, hstamp⟩
        · exact (h.table entry hold hvalid).2 m' hm'
        · exact hstamp ▸ hle m' hm'
      · exact (le_of_mem_takeWhile hm').trans (earliestTimeStamp_le hearliest hentry hvalid)

/-- What is not put into the total order hands nothing out of the queue. -/
theorem mainLoop_not_ordered (h : ¬ IsOrdered t thread m) :
    (mainLoop t thread m).ordered = [] ∧ ∀ thread', (mainLoop t thread m).next = .ok thread' →
      thread'.localNetThreadInfo = thread.localNetThreadInfo ∧ thread'.msgQueue = thread.msgQueue ∧
        thread.receivedMessages ⊆ thread'.receivedMessages := by
  have hself {thread' : ThreadState} (heq : (.ok thread : Except Fault ThreadState) = .ok thread') :
      thread'.localNetThreadInfo = thread.localNetThreadInfo ∧ thread'.msgQueue = thread.msgQueue ∧
        thread.receivedMessages ⊆ thread'.receivedMessages := by
    cases heq
    exact ⟨rfl, rfl, fun _ hm => hm⟩
  rw [mainLoop]
  cases hread : m.read with
  | error fault => exact ⟨rfl, by simp⟩
  | ok r =>
    dsimp only
    split_ifs with hack hredundant huser
    · exact ⟨rfl, fun _ => hself⟩
    · exact ⟨rfl, fun _ => hself⟩
    · refine ⟨rfl, fun thread' heq => ?_⟩
      cases heq
      exact ⟨rfl, rfl, fun _ hm => List.mem_append_left _ hm⟩
    · exact absurd ⟨mt (Mail.hasType_iff hread _).mp hack, hredundant, huser⟩ h

/-- **Step lemma.** -/
theorem orderStep_inv {s s' : OrderState} (hs : OrderInv s) (hm : InOrder t s m)
    (h : orderStep t s m = .ok s') : OrderInv s' := by
  rw [orderStep] at h
  split_ifs at h with hrunning
  · have hinv := hs.2 hrunning
    have hnext : Ordered (·.timeStamp) (s.handed ++ (mainLoop t s.thread m).ordered) ∧
        ∀ thread, (mainLoop t s.thread m).next = .ok thread →
          ThreadInv thread (s.handed ++ (mainLoop t s.thread m).ordered) := by
      by_cases hordered : IsOrdered t s.thread m
      · obtain ⟨hsender, hunheard⟩ := hm hordered
        cases hread : m.read with
        | error fault => simpa [mainLoop, hread] using hs.1
        | ok r =>
          obtain ⟨hhanded, hthread⟩ := mainLoop_ordered hordered hread
          rw [hhanded, hthread]
          exact totalOrder_inv hinv (hinv.handed_le hsender hunheard) _ fun m' hm' => by
            simpa [or_comm] using hm'
      · obtain ⟨hhanded, hthread⟩ := mainLoop_not_ordered hordered
        rw [hhanded, List.append_nil]
        refine ⟨hs.1, fun thread hnext => ?_⟩
        obtain ⟨htable, hqueue, hreceived⟩ := hthread thread hnext
        refine ⟨by rw [hqueue]; exact hinv.ordered, fun entry hentry hvalid => ?_⟩
        obtain ⟨⟨m', hm', hm''⟩, hle⟩ := hinv.table entry (htable ▸ hentry) hvalid
        exact ⟨⟨m', hreceived hm', hm''⟩, hle⟩
    cases hcase : (mainLoop t s.thread m).next with
    | ok thread =>
      simp only [hcase] at h
      cases h
      exact ⟨hnext.1, fun _ => hnext.2 thread hcase⟩
    | error fault =>
      simp only [hcase] at h
      cases h
      exact ⟨hnext.1, by simp⟩
  · cases h
    exact hs

end

/-- **Delivery in order** over every run whose messages arrive in order. -/
theorem handed_in_order {t : NetThread} {members : List (ℤ × ℤ)} {receivedMessages arrivals : List Mail}
    {s : OrderState} (hok : Guarded (orderStep t) (InOrder t) (.init members receivedMessages) arrivals)
    (hrun : exec (orderStep t) (.init members receivedMessages) arrivals = .ok s) :
    Ordered (·.timeStamp) s.handed :=
  (exec_inv (fun _ _ _ => orderStep_inv) (OrderInv.init members receivedMessages) hok hrun).1

/-! ## Two runs -/

/-- A request or a `TIMESTAMP` from the network thread of a machine. -/
def mailFrom (machine : ℤ) (isTimeStamp : Bool) (sec : ℤ) (h : 0 < sec) : Mail where
  pktHdr := ⟨0, machine⟩
  mailHdr := ⟨0, 0⟩
  data := if isTimeStamp then "30_".toList else "1__100_0".toList
  timeStamp := ⟨sec, 0⟩
  stamped := h
  fits := by cases isTimeStamp <;> decide

/-- Machine 2 is silent until its request, which is the latest. -/
theorem handed_in_order_three : ∃ s, exec (orderStep ⟨0, 0⟩)
    (.init [(0, 0), (1, 0), (2, 0)] []) [mailFrom 1 false 10 (by decide),
      mailFrom 0 true 11 (by decide), mailFrom 2 false 12 (by decide)] = .ok s ∧
    s.handed.length = 1 ∧ Ordered (·.timeStamp) s.handed := by
  obtain ⟨s, hrun, hs⟩ : Ends (orderStep ⟨0, 0⟩) (.init [(0, 0), (1, 0), (2, 0)] [])
      [mailFrom 1 false 10 (by decide), mailFrom 0 true 11 (by decide), mailFrom 2 false 12 (by decide)]
      (·.handed.length = 1) := by decide +kernel
  exact ⟨s, hrun, hs, handed_in_order (by decide +kernel) hrun⟩

/-- **Out of order**: machine 2 has been silent, so a request of machine 1 with time
    stamp 10 is handed on; then the first message of machine 2 arrives, with 5. -/
theorem handed_out_of_order :
    let arrivals := [mailFrom 1 false 10 (by decide), mailFrom 0 true 11 (by decide),
      mailFrom 2 false 5 (by decide)]
    arrivals.Pairwise (fun m m' => m.sender = m'.sender → m.timeStamp ≤ m'.timeStamp) ∧
      Ends (orderStep ⟨0, 0⟩) (.init [(0, 0), (1, 0), (2, 0)] []) arrivals
        fun s => s.handed.map (·.timeStamp.sec) = [10, 5] ∧ ¬ Ordered (·.timeStamp) s.handed := by
  decide +kernel

end Nachos.Threads
