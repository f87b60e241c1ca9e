import Nachos.Mail.PostOffice
import Nachos.Threads.Registration

/-!
# At-most-once processing

All arrivals at a network thread's mailbox, from its start on: `PostOffice::Receive` compares
the number of a message with the counter for its sender and returns it or waits for
the next one, and the thread acknowledges what is returned.

* `processed_at_most_once`: messages that are handed to `processMessage` differ in their
  headers or their time stamps, and whatever `Receive` returns is acknowledged,
  acknowledgements excepted.
* `discarded_not_acknowledged`: the second message of a sender whose first one is lost.
-/

namespace Nachos.Threads

open Nachos.Lib Nachos.Network Nachos.Mail

/-! ## Arrivals -/

/-- What arrives in the mailbox: a message with the number that `Send` has put in front of
    its text, and the memory in which new table entries are made. -/
structure Parcel where
  counter : ℤ
  mail : Threads.Mail
  memory : ℕ → Timeval

/-- A message that `Receive` has returned: whether `Ack` is called for it, and what is
    sent until the next one is returned. -/
structure Returned where
  mail : Threads.Mail
  acked : Bool
  out : List Message

/-- A network thread with its receive counters, the messages that `Receive` has returned
    and those that `processMessage` has been called with. After an exception there is
    no thread any more. -/
structure NodeRun where
  server : Except Fault ServerState
  receiveCounters : ℤ × ℤ → Option ℤ
  returned : List Returned
  handed : List Threads.Mail

/-- A thread that has just started. -/
def NodeRun.init : NodeRun := ⟨.ok .init, fun _ => none, [], []⟩

/-- A message is returned to the thread. -/
def take (t : NetThread) (s : NodeRun) (server : ServerState) (p : Parcel) : NodeRun :=
  let o := networkThread t p.memory server p.mail
  { s with
    server := o.next
    returned := s.returned ++ [⟨p.mail, o.acked, o.out⟩]
    handed := s.handed ++ (o.direct ++ o.ordered) }

/-- A message arrives at the thread `t`. -/
def arrive (t : NetThread) (s : NodeRun) (p : Parcel) : NodeRun :=
  match s.server with
  | .error _ => s
  | .ok server =>
    let (success, entry) := accept (s.receiveCounters p.mail.sender) p.counter
    let s := { s with receiveCounters := Function.update s.receiveCounters p.mail.sender entry }
    if success then take t s server p else s

/-- All messages of a run arrive. -/
def arrivals (t : NetThread) (parcels : List Parcel) : NodeRun := parcels.foldl (arrive t) .init

/-- The message is acknowledged: `Ack` is called, and what `Ack` sends is sent first. -/
def Returned.Acknowledged (t : NetThread) (r : Returned) : Prop := r.acked ∧ ack t r.mail <+: r.out

/-! ## The invariant -/

/-- Messages that have been handed on or wait in the queue differ in their keys, and are
    recorded. -/
structure Distinct (received handed queue : List Mail) : Prop where
  nodup : ((handed ++ queue).map Mail.key).Nodup
  recorded : ∀ m ∈ handed ++ queue, messageIsRedundant received m

/-- The messages handed on differ in their keys, and as long as the thread runs they are
    recorded, as those in the queue are. -/
structure NodeInv (t : NetThread) (s : NodeRun) : Prop where
  nodup : (s.handed.map Mail.key).Nodup
  running : ∀ server, s.server = .ok server →
    Distinct server.thread.receivedMessages s.handed server.thread.msgQueue
  returned : ∀ r ∈ s.returned, r.mail.HasType .ack ∨ r.Acknowledged t

theorem NodeInv.init (t : NetThread) : NodeInv t .init where
  nodup := List.nodup_nil
  running server h := by
    cases h
    exact ⟨List.nodup_nil, nofun⟩
  returned := nofun

section

variable {t : NetThread}

/-- The drain hands on messages of the queue, and leaves the others. -/
theorem drain_sublist (table : List NetThreadInfoEntry) (earliest : Timeval) (queue : List Mail) (i : ℕ) :
    (drain table earliest i queue).1.Sublist queue ∧
      ∀ left, (drain table earliest i queue).2 = .ok left →
        ((drain table earliest i queue).1 ++ left).Perm queue := by
  induction queue generalizing i with
  | nil => exact ⟨List.Sublist.refl _, fun left h => by cases h; exact List.Perm.refl _⟩
  | cons m queue ih =>
    rw [drain]
    cases table[i]? with
    | none => exact ⟨List.nil_sublist _, by simp⟩
    | some entry =>
      simp only
      split_ifs
      · obtain ⟨hsublist, hperm⟩ := ih i
        exact ⟨hsublist.cons_cons m, fun left h => (hperm left h).cons m⟩
      · obtain ⟨hsublist, hperm⟩ := ih (i + 1)
        refine ⟨hsublist.cons m, fun left h => ?_⟩
        cases hleft : (drain table earliest (i + 1) queue).2 with
        | error fault =>
          rw [hleft] at h
          cases h
        | ok rest =>
          rw [hleft] at h
          cases h
          exact List.perm_middle.trans ((hperm rest hleft).cons m)

/-- **Steps 2 to 5** hand on messages of the queue with the new one inserted, and leave
    the others. -/
theorem totalOrder_perm (s : ThreadState) (isTimeStamp : Bool) (m : Mail) :
    (totalOrder s isTimeStamp m).1.Sublist (insertMessage isTimeStamp m s.msgQueue) ∧
      ∀ s', (totalOrder s isTimeStamp m).2 = .ok s' →
        ((totalOrder s isTimeStamp m).1 ++ s'.msgQueue).Perm (insertMessage isTimeStamp m s.msgQueue) ∧
          s'.receivedMessages = s.receivedMessages := by
  simp only [totalOrder]
  cases hearliest : earliestTimeStamp (updateTable m s.localNetThreadInfo) with
  | error fault => exact ⟨List.nil_sublist _, nofun⟩
  | ok earliest =>
    obtain ⟨hsublist, hperm⟩ := drain_sublist (updateTable m s.localNetThreadInfo) earliest
      (insertMessage isTimeStamp m s.msgQueue) 0
    refine ⟨hsublist, fun s' h => ?_⟩
    cases hleft : (drain (updateTable m s.localNetThreadInfo) earliest 0
        (insertMessage isTimeStamp m s.msgQueue)).2 with
    | error fault =>
      simp only [hleft] at h
      cases h
    | ok left =>
      simp only [hleft] at h
      cases h
      exact ⟨hperm left hleft, rfl⟩

theorem insertMessage_subperm (isTimeStamp : Bool) (m : Mail) (queue : List Mail) :
    (insertMessage isTimeStamp m queue).Subperm (m :: queue) := by
  rw [insertMessage]
  split_ifs
  · exact (List.sublist_cons_self m queue).subperm
  · exact insertBefore_perm.subperm

/-- Some of the items of a list without repetitions. -/
theorem nodup_of_subperm {l l' : List Mail} (h : l.Subperm l') (hnodup : (l'.map Mail.key).Nodup) :
    (l.map Mail.key).Nodup := by
  obtain ⟨l'', hperm, hsublist⟩ := h
  exact (hperm.map _).nodup_iff.mp ((hsublist.map _).nodup hnodup)

section

variable {received handed queue : List Mail} {m : Mail}

/-- A message that is not redundant has a key of its own. -/
theorem Distinct.cons (h : Distinct received handed queue) (hnew : ¬ messageIsRedundant received m) :
    ((handed ++ m :: queue).map Mail.key).Nodup := by
  have hkey : m.key ∉ (handed ++ queue).map Mail.key := by
    intro hmem
    obtain ⟨m', hm', heq⟩ := List.mem_map.mp hmem
    have hredundant := h.recorded m' hm'
    rw [messageIsRedundant, heq] at hredundant
    exact hnew hredundant
  have hperm : (handed ++ m :: queue).Perm (m :: (handed ++ queue)) := List.perm_middle
  rw [(hperm.map _).nodup_iff, List.map_cons, List.nodup_cons]
  exact ⟨hkey, h.nodup⟩

/-- **A new message** is recorded; it and those in the queue are handed on, left in the
    queue or forgotten. -/
theorem Distinct.take (h : Distinct received handed queue) (hnew : ¬ messageIsRedundant received m)
    {handed' left : List Mail} (hperm : (handed' ++ left).Subperm (m :: queue)) :
    Distinct (received ++ [m]) (handed ++ handed') left where
  nodup := by
    rw [List.append_assoc]
    exact nodup_of_subperm ((List.subperm_append_left handed).mpr hperm) (h.cons hnew)
  recorded m' hm' := by
    rw [messageIsRedundant_append]
    rw [List.append_assoc, List.mem_append] at hm'
    rcases hm' with hm' | hm'
    · exact Or.inl (h.recorded m' (List.mem_append_left _ hm'))
    · rcases List.mem_cons.mp (hperm.subset hm') with rfl | hm'
      · exact Or.inr rfl
      · exact Or.inl (h.recorded m' (List.mem_append_right _ hm'))

end

/-! ## The steps -/

/-- **The main loop** with a message: what it hands on is new. -/
theorem mainLoop_distinct {thread : ThreadState} {handed : List Mail} (m : Mail)
    (h : Distinct thread.receivedMessages handed thread.msgQueue) :
    let o := mainLoop t thread m
    ((handed ++ (o.direct ++ o.ordered)).map Mail.key).Nodup ∧
      ∀ thread', o.next = .ok thread' →
        Distinct thread'.receivedMessages (handed ++ (o.direct ++ o.ordered)) thread'.msgQueue := by
  obtain ⟨r, hread⟩ := m.read_ok
  have hhanded : (handed.map Mail.key).Nodup :=
    nodup_of_subperm (List.sublist_append_left handed thread.msgQueue).subperm h.nodup
  simp only [mainLoop, hread]
  split_ifs with hack hredundant huser
  · refine ⟨by simpa using hhanded, fun thread' heq => ?_⟩
    cases heq
    simpa using h
  · refine ⟨by simpa using hhanded, fun thread' heq => ?_⟩
    cases heq
    simpa using h
  · -- a message of the user thread is handed on at once
    have hnext := h.take hredundant (List.Subperm.refl ([m] ++ thread.msgQueue))
    refine ⟨nodup_of_subperm (List.sublist_append_left _ _).subperm hnext.nodup, fun thread' heq => ?_⟩
    cases heq
    exact hnext
  · -- any other goes through the queue
    obtain ⟨hsublist, hperm⟩ := totalOrder_perm
      { thread with receivedMessages := thread.receivedMessages ++ [m] }
      (r.1 = RequestType.timestamp.code) m
    have hinsert := insertMessage_subperm (r.1 = RequestType.timestamp.code) m thread.msgQueue
    rw [List.nil_append]
    refine ⟨?_, fun thread' heq => ?_⟩
    · have hnext := h.take hredundant (show (_ ++ []).Subperm _ by simpa using hsublist.subperm.trans hinsert)
      simpa using hnext.nodup
    · obtain ⟨hperm, hreceived⟩ := hperm thread' heq
      rw [hreceived]
      exact h.take hredundant (hperm.subperm.trans hinsert)

/-- What `Receive` returns is acknowledged, unless it is an acknowledgement itself. -/
theorem networkThread_acknowledged (memory : ℕ → Timeval) (server : ServerState) (m : Mail) :
    let o := networkThread t memory server m
    m.HasType .ack ∨ o.acked ∧ ack t m <+: o.out := by
  obtain ⟨r, hread⟩ := m.read_ok
  by_cases hack : m.HasType .ack
  · exact Or.inl hack
  · have hne := mt (Mail.hasType_iff hread _).mpr hack
    right
    unfold networkThread
    split_ifs with hphase
    · simp only [mainLoop, hread, if_neg hne]
      split_ifs
      · exact ⟨rfl, List.prefix_rfl⟩
      · exact ⟨rfl, List.prefix_append _ _⟩
      · exact ⟨rfl, List.prefix_append _ _⟩
    · simp only [receiveLoop, hread, if_neg hne]
      split_ifs
      · split
        · exact ⟨rfl, List.prefix_rfl⟩
        · exact ⟨rfl, List.prefix_append _ _⟩
      · exact ⟨rfl, List.prefix_rfl⟩

/-- The registration hands on nothing, and leaves the queue as it is. -/
theorem receiveLoop_distinct (memory : ℕ → Timeval) {server : ServerState} {handed : List Mail} (m : Mail)
    (h : Distinct server.thread.receivedMessages handed server.thread.msgQueue) :
    let o := receiveLoop t memory server m
    o.direct = [] ∧ o.ordered = [] ∧ ∀ server', o.next = .ok server' →
      Distinct server'.thread.receivedMessages handed server'.thread.msgQueue := by
  obtain ⟨r, hread⟩ := m.read_ok
  have hrecord : Distinct (record server.thread.receivedMessages m) handed server.thread.msgQueue :=
    ⟨h.nodup, fun m' hm' => messageIsRedundant_record.mpr (Or.inl (h.recorded m' hm'))⟩
  simp only [receiveLoop, hread]
  split_ifs
  · refine ⟨rfl, rfl, fun server' heq => ?_⟩
    cases heq
    exact h
  · split
    · exact ⟨rfl, rfl, by simp⟩
    · refine ⟨rfl, rfl, fun server' heq => ?_⟩
      cases heq
      exact hrecord
  · refine ⟨rfl, rfl, fun server' heq => ?_⟩
    cases heq
    exact hrecord

variable {s : NodeRun} {server : ServerState} {p : Parcel}

/-- **A message is returned** to the thread. -/
theorem take_inv (h : NodeInv t s) (hserver : s.server = .ok server) : NodeInv t (take t s server p) := by
  have hdistinct := h.running server hserver
  have hreturned : ∀ r ∈ s.returned ++ [⟨p.mail, (networkThread t p.memory server p.mail).acked,
      (networkThread t p.memory server p.mail).out⟩], r.mail.HasType .ack ∨ r.Acknowledged t := by
    intro r hr
    rcases List.mem_append.mp hr with hr | hr
    · exact h.returned r hr
    · rw [List.mem_singleton.mp hr]
      exact networkThread_acknowledged p.memory server p.mail
  by_cases hphase : server.phase = .main
  · obtain ⟨hnodup, hrunning⟩ := mainLoop_distinct (t := t) p.mail hdistinct
    refine ⟨?_, fun server' heq => ?_, hreturned⟩
    · simpa only [take, networkThread, if_pos hphase] using hnodup
    · simp only [take, networkThread, if_pos hphase] at heq ⊢
      cases hnext : (mainLoop t server.thread p.mail).next with
      | error fault =>
        rw [hnext] at heq
        cases heq
      | ok thread' =>
        rw [hnext] at heq
        cases heq
        exact hrunning thread' hnext
  · obtain ⟨hdirect, hordered, hrunning⟩ :=
      receiveLoop_distinct (t := t) p.memory p.mail hdistinct
    refine ⟨?_, fun server' heq => ?_, hreturned⟩
    · simpa only [take, networkThread, if_neg hphase, hdirect, hordered, List.append_nil] using h.nodup
    · simp only [take, networkThread, if_neg hphase] at heq ⊢
      simpa only [hdirect, hordered, List.append_nil] using hrunning server' heq

/-- **Step lemma.** -/
theorem arrive_inv (h : NodeInv t s) : NodeInv t (arrive t s p) := by
  unfold arrive
  split
  · exact h
  · next server hserver =>
    simp only
    split_ifs
    · exact take_inv ⟨h.nodup, h.running, h.returned⟩ hserver
    · exact ⟨h.nodup, h.running, h.returned⟩

end

/-- **At most once**: over all arrivals at a network thread, messages for which it calls
    `processMessage` differ in their headers or their time stamps, and each message that
    `Receive` returns is acknowledged, if it is no acknowledgement. -/
theorem processed_at_most_once (t : NetThread) (parcels : List Parcel) :
    ((arrivals t parcels).handed.map Mail.key).Nodup ∧
      ∀ r ∈ (arrivals t parcels).returned, r.mail.HasType .ack ∨ r.Acknowledged t := by
  have hinv : NodeInv t (arrivals t parcels) := by
    unfold arrivals
    apply List.foldlRecOn (motive := NodeInv t)
    · exact NodeInv.init t
    · intro s hs p _
      exact arrive_inv hs
  exact ⟨hinv.nodup, hinv.returned⟩

/-- **Not acknowledged**: the message arrives with the number 1, because the first one of
    its sender has been lost, and `Receive` waits for the next one. -/
theorem discarded_not_acknowledged : ∃ p : Parcel, ¬ p.mail.HasType .ack ∧
    ∀ r ∈ (arrivals ⟨1, 0⟩ [p]).returned, r.mail ≠ p.mail :=
  ⟨⟨1, startMessage ⟨1, 0⟩, fun _ => ⟨0, 0⟩⟩, by decide, nofun⟩

end Nachos.Threads
