import Nachos.Threads.NetworkThread

/-!
# Acknowledged messages

Runs of a network thread from its start, through the registration into the main
loop, together with the messages it has acknowledged and those it has acted on. A
registration step acts on the message it waits for, `processMessage` on what it is
handed, and the main loop on a `TIMESTAMP` by storing it in the table.

* `acknowledged_once_iff`: every acknowledged message is acted on once, or held back
  by the total order, if and only if nothing else than the awaited messages and
  retransmissions arrives during the registration, and four smaller conditions hold.
* `acknowledged_lost`: a request of a peer that has registered earlier is lost.
-/

namespace Nachos.Threads

open Nachos.Lib Nachos.Network

/-! ## Runs -/

/-- A message that arrives, and the memory in which new table entries are made. -/
structure Arrival where
  mail : Mail
  memory : ℕ → Timeval

/-- The thread, the messages it has acknowledged, and those it has acted on. -/
structure ServerRun where
  server : ServerState
  acked : List Mail
  acted : List Mail

/-- The message is the one that the registration waits for. -/
def Awaited (s : ServerState) (m : Mail) : Prop := ∃ r ∈ s.phase.awaited, m.HasType r

/-- The main loop stores the time stamp of a `TIMESTAMP` from a member in the table. -/
def Stored (t : NetThread) (s : ThreadState) (m : Mail) : Prop :=
  m.HasType .timestamp ∧ ¬ messageIsRedundant s.receivedMessages m ∧ ¬ FromUser t m ∧
    ∃ entry ∈ s.localNetThreadInfo, m.sender = entry.address

instance (s : ServerState) (m : Mail) : Decidable (Awaited s m) :=
  inferInstanceAs (Decidable (∃ r ∈ s.phase.awaited, _))

instance (t : NetThread) (s : ThreadState) (m : Mail) : Decidable (Stored t s m) :=
  inferInstanceAs (Decidable (_ ∧ _ ∧ _ ∧ ∃ entry ∈ s.localNetThreadInfo, _))

/-- The messages that the thread acts on when `m` arrives. -/
def actedOn (t : NetThread) (memory : ℕ → Timeval) (s : ServerState) (m : Mail) : List Mail :=
  let o := networkThread t memory s m
  if s.phase = .main then o.direct ++ (if Stored t s.thread m then [m] else []) ++ o.ordered
  else if Awaited s m then [m] else []

/-- A message arrives at the thread. -/
def serverStep (t : NetThread) (s : ServerRun) (a : Arrival) : Except Fault ServerRun := do
  let o := networkThread t a.memory s.server a.mail
  let server ← o.next
  return ⟨server, s.acked ++ if o.acked then [a.mail] else [],
    s.acted ++ actedOn t a.memory s.server a.mail⟩

/-- A thread that has just started. -/
def ServerRun.init : ServerRun := ⟨.init, [], []⟩

/-- **Every acknowledged message** has been acted on once or waits once in the queue,
    where only those wait that are later than the earliest time stamp of the table. -/
structure AckedOnce (s : ServerRun) : Prop where
  once : ∀ m ∈ s.acked, (s.acted ++ s.server.thread.msgQueue).count m = 1
  waiting : ∀ m ∈ s.server.thread.msgQueue, ∃ earliest,
    earliestTimeStamp s.server.thread.localNetThreadInfo = .ok earliest ∧ earliest < m.timeStamp

/-- The messages that stay in the queue are no more than the members. -/
def Fits (s : ThreadState) (m : Mail) : Prop :=
  ∃ earliest ∈ (earliestTimeStamp (updateTable m s.localNetThreadInfo)).toOption,
    (if m.HasType .timestamp then s.msgQueue else m :: s.msgQueue).countP
      (earliest < ·.timeStamp) ≤ s.localNetThreadInfo.length

/-- What keeps acknowledged messages from being lost. During the registration a message
    that is awaited has not been acted on before and can be parsed, and any other is a
    retransmission of one that has. In the main loop what is taken for redundant is a
    retransmission, a `TIMESTAMP` comes from a member, and the queue is not longer than
    the table. -/
def ServerOk (t : NetThread) (s : ServerRun) (a : Arrival) : Prop :=
  ¬ a.mail.HasType .ack →
    if s.server.phase = .main then
      if messageIsRedundant s.server.thread.receivedMessages a.mail then
        a.mail ∈ s.acted ++ s.server.thread.msgQueue
      else ¬ FromUser t a.mail →
        (a.mail.HasType .timestamp → Stored t s.server.thread a.mail) ∧ Fits s.server.thread a.mail
    else (Awaited s.server a.mail ↔ a.mail ∉ s.acted) ∧
      (Awaited s.server a.mail → ∀ r ∈ a.mail.read.toOption,
        (register t a.memory s.server.phase r.2 s.server.thread.localNetThreadInfo).isOk)

instance (s : ThreadState) (m : Mail) : Decidable (Fits s m) :=
  inferInstanceAs (Decidable (∃ earliest ∈ Except.toOption _, _))

instance (t : NetThread) (s : ServerRun) (a : Arrival) : Decidable (ServerOk t s a) := by
  unfold ServerOk
  infer_instance

/-! ## The invariant -/

/-- Messages acted on or waiting are recorded, none of them twice; the queue is in
    order, later than the table, and empty during the registration. -/
structure ServerInv (s : ServerRun) : Prop where
  acked : ∀ m ∈ s.acked, m ∈ s.acted ++ s.server.thread.msgQueue
  nodup : (s.acted ++ s.server.thread.msgQueue).Nodup
  recorded : ∀ m ∈ s.acted ++ s.server.thread.msgQueue,
    messageIsRedundant s.server.thread.receivedMessages m
  ordered : Ordered (·.timeStamp) s.server.thread.msgQueue
  waiting : ∀ m ∈ s.server.thread.msgQueue, ∃ earliest,
    earliestTimeStamp s.server.thread.localNetThreadInfo = .ok earliest ∧ earliest < m.timeStamp
  registering : s.server.phase ≠ .main → s.server.thread.msgQueue = []

theorem ServerInv.init : ServerInv .init where
  acked := nofun
  nodup := List.nodup_nil
  recorded := nofun
  ordered := List.Pairwise.nil
  waiting := nofun
  registering _ := rfl

theorem ServerInv.ackedOnce {s : ServerRun} (h : ServerInv s) : AckedOnce s where
  once m hm := List.count_eq_one_of_mem h.nodup (h.acked m hm)
  waiting := h.waiting

@[simp] theorem messageIsRedundant_append {received : List Mail} {m m' : Mail} :
    messageIsRedundant (received ++ [m']) m ↔ messageIsRedundant received m ∨ m'.key = m.key := by
  simp [messageIsRedundant]

/-- **A message that is acted on or queued for the first time.** -/
theorem ServerInv.add {s : ServerRun} (h : ServerInv s) {m : Mail} {server : ServerState}
    {acted : List Mail} (hnew : m ∉ s.acted ++ s.server.thread.msgQueue)
    (hperm : (acted ++ server.thread.msgQueue).Perm (m :: (s.acted ++ s.server.thread.msgQueue)))
    (hrecorded : ∀ m', messageIsRedundant s.server.thread.receivedMessages m' ∨ m' = m →
      messageIsRedundant server.thread.receivedMessages m')
    (hordered : Ordered (·.timeStamp) server.thread.msgQueue)
    (hwaiting : ∀ m ∈ server.thread.msgQueue, ∃ earliest,
      earliestTimeStamp server.thread.localNetThreadInfo = .ok earliest ∧ earliest < m.timeStamp)
    (hregistering : server.phase ≠ .main → server.thread.msgQueue = []) :
    ServerInv ⟨server, s.acked ++ [m], acted⟩ where
  acked m' hm' := by
    rw [hperm.mem_iff, List.mem_cons]
    rcases List.mem_append.mp hm' with hm' | hm'
    · exact Or.inr (h.acked m' hm')
    · exact Or.inl (List.mem_singleton.mp hm')
  nodup := hperm.nodup_iff.mpr (List.nodup_cons.mpr ⟨hnew, h.nodup⟩)
  recorded m' hm' := by
    rcases List.mem_cons.mp (hperm.mem_iff.mp hm') with rfl | hm'
    · exact hrecorded _ (Or.inr rfl)
    · exact hrecorded m' (Or.inl (h.recorded m' hm'))
  ordered := hordered
  waiting := hwaiting
  registering := hregistering

/-- A retransmission of a message that has been acted on or queued. -/
theorem ServerInv.again {s : ServerRun} (h : ServerInv s) {m : Mail} {server : ServerState}
    (hold : m ∈ s.acted ++ s.server.thread.msgQueue)
    (hqueue : server.thread.msgQueue = s.server.thread.msgQueue)
    (htable : server.thread.localNetThreadInfo = s.server.thread.localNetThreadInfo)
    (hphase : server.phase = s.server.phase)
    (hrecorded : ∀ m', messageIsRedundant s.server.thread.receivedMessages m' →
      messageIsRedundant server.thread.receivedMessages m') :
    ServerInv ⟨server, s.acked ++ [m], s.acted⟩ where
  acked m' hm' := by
    simp only [hqueue]
    rcases List.mem_append.mp hm' with hm' | hm'
    · exact h.acked m' hm'
    · exact List.mem_singleton.mp hm' ▸ hold
  nodup := by simpa only [hqueue] using h.nodup
  recorded m' hm' := hrecorded m' (h.recorded m' (by simpa only [hqueue] using hm'))
  ordered := by simpa only [hqueue] using h.ordered
  waiting := by simpa only [hqueue, htable] using h.waiting
  registering := by simpa only [hqueue, hphase] using h.registering

/-! ## The steps -/

section

variable {t : NetThread} {s s' : ServerRun} {a : Arrival}

theorem hasType_unique {m : Mail} {r r' : RequestType} (h : m.HasType r) (h' : m.HasType r') : r = r' := by
  have hcode : r.code = r'.code := by
    rw [Mail.HasType] at h h'
    exact Option.some_injective _ (h.symm.trans h')
  simpa using congrArg RequestType.ofCode hcode

/-- An `ACK` changes nothing here. -/
theorem serverStep_ack (h : a.mail.HasType .ack) : serverStep t s a = .ok s := by
  obtain ⟨r, hread⟩ := a.mail.read_ok
  have hack := (Mail.hasType_iff hread _).mp h
  have hstored : ¬ Stored t s.server.thread a.mail := fun hstored =>
    absurd (hasType_unique h hstored.1) (by decide)
  have hawaited : ¬ Awaited s.server a.mail := by
    rintro ⟨r', hr', htype⟩
    cases hasType_unique h htype
    revert hr'
    cases s.server.phase <;> simp [Phase.awaited]
  by_cases hphase : s.server.phase = .main
  · have hs : s = ⟨⟨.main, s.server.thread⟩, s.acked, s.acted⟩ := by rw [← hphase]
    rw [hs] at hstored ⊢
    simp [serverStep, actedOn, networkThread, mainLoop, hread, hack, hstored, Except.map]
  · simp [serverStep, actedOn, networkThread, receiveLoop, hread, hack, hphase, hawaited]

/-! ### Registration -/

theorem awaited_iff {r : ℤ × Option Text} (hread : a.mail.read = .ok r) :
    s.server.phase.awaited.map RequestType.code = some r.1 ↔ Awaited s.server a.mail := by
  cases hphase : s.server.phase.awaited <;>
    simp [Awaited, hphase, Mail.hasType_iff hread, eq_comm]

/-- The message that is awaited leads to the next phase. -/
theorem serverStep_awaited (hphase : s.server.phase ≠ .main) (hawaited : Awaited s.server a.mail)
    (hack : ¬ a.mail.HasType .ack) {r : ℤ × Option Text} (hread : a.mail.read = .ok r) :
    serverStep t s a = (do
      let (phase, _, table) ←
        register t a.memory s.server.phase r.2 s.server.thread.localNetThreadInfo
      return ⟨⟨phase, ⟨table, record s.server.thread.receivedMessages a.mail,
        s.server.thread.msgQueue⟩⟩, s.acked ++ [a.mail], s.acted ++ [a.mail]⟩) := by
  have hne : r.1 ≠ RequestType.ack.code := mt (Mail.hasType_iff hread _).mpr hack
  simp only [serverStep, actedOn, networkThread, if_neg hphase, receiveLoop, hread, if_neg hne,
    if_pos ((awaited_iff hread).mpr hawaited), if_pos hawaited]
  cases register t a.memory s.server.phase r.2 s.server.thread.localNetThreadInfo <;> rfl

/-- Any other message is acknowledged and recorded. -/
theorem serverStep_dropped (hphase : s.server.phase ≠ .main) (hawaited : ¬ Awaited s.server a.mail)
    (hack : ¬ a.mail.HasType .ack) :
    serverStep t s a = .ok ⟨⟨s.server.phase, { s.server.thread with
      receivedMessages := record s.server.thread.receivedMessages a.mail }⟩,
      s.acked ++ [a.mail], s.acted⟩ := by
  obtain ⟨r, hread⟩ := a.mail.read_ok
  have hne : r.1 ≠ RequestType.ack.code := mt (Mail.hasType_iff hread _).mpr hack
  simp only [serverStep, actedOn, networkThread, if_neg hphase, receiveLoop, hread, if_neg hne,
    if_neg (mt (awaited_iff hread).mp hawaited), if_neg hawaited, if_true, ok_bind, pure_eq_ok,
    List.append_nil]

@[simp] theorem messageIsRedundant_record {received : List Mail} {m m' : Mail} :
    messageIsRedundant (record received m') m ↔ messageIsRedundant received m ∨ m'.key = m.key := by
  rw [record]
  split_ifs with h
  · refine ⟨Or.inl, fun hm => hm.elim id fun hkey => ?_⟩
    rwa [messageIsRedundant, ← hkey]
  · exact messageIsRedundant_append

/-- **A registration step** that loses nothing. -/
theorem registering_ok (h : ServerInv s) (hphase : s.server.phase ≠ .main)
    (hack : ¬ a.mail.HasType .ack) (hok : ServerOk t s a) :
    ∃ s', serverStep t s a = .ok s' ∧ ServerInv s' := by
  obtain ⟨hawaited, hparse⟩ := (if_neg hphase).mp (hok hack)
  have hqueue := h.registering hphase
  obtain ⟨r, hread⟩ := a.mail.read_ok
  by_cases hcase : Awaited s.server a.mail
  · obtain ⟨⟨phase, out, table⟩, hregister⟩ : ∃ x, register t a.memory s.server.phase r.2
        s.server.thread.localNetThreadInfo = .ok x := by
      have hisOk := hparse hcase r (by rw [hread]; rfl)
      cases hregister : register t a.memory s.server.phase r.2 s.server.thread.localNetThreadInfo with
      | error fault => rw [hregister] at hisOk; cases hisOk
      | ok x => exact ⟨x, rfl⟩
    refine ⟨_, by rw [serverStep_awaited hphase hcase hack hread, hregister]; rfl, ?_⟩
    refine h.add ?_ ?_ ?_ ?_ ?_ ?_
    · simpa [hqueue] using hawaited.mp hcase
    · simp [hqueue]
    · rintro m' (hm' | rfl)
      · simp [hm']
      · simp
    · simp [hqueue, Ordered]
    · simp [hqueue]
    · simp [hqueue]
  · have hold : a.mail ∈ s.acted := by_contra fun hold => hcase (hawaited.mpr hold)
    refine ⟨_, serverStep_dropped hphase hcase hack, ?_⟩
    exact h.again (List.mem_append_left _ hold) rfl rfl rfl fun m' hm' => by simp [hm']

/-- **Any other registration step** loses a message or acts on one again. -/
theorem registering_bad (h : ServerInv s) (hphase : s.server.phase ≠ .main)
    (hack : ¬ a.mail.HasType .ack) (hbad : ¬ ServerOk t s a) (hs' : serverStep t s a = .ok s') :
    ¬ AckedOnce s' := by
  intro honce
  have hqueue := h.registering hphase
  obtain ⟨r, hread⟩ := a.mail.read_ok
  by_cases hcase : Awaited s.server a.mail
  · rw [serverStep_awaited hphase hcase hack hread, bind_eq_ok] at hs'
    obtain ⟨⟨phase, out, table⟩, hregister, hs'⟩ := hs'
    cases hs'
    have hagain : a.mail ∈ s.acted := by
      by_contra hnew
      refine hbad fun _ => (if_neg hphase).mpr ⟨iff_of_true hcase hnew, fun _ r' hr' => ?_⟩
      rw [hread] at hr'
      cases hr'
      rw [hregister]
      rfl
    have hcount := honce.once a.mail (by simp)
    simp only [hqueue, List.append_nil, List.count_append, List.count_singleton_self] at hcount
    have := List.count_pos_iff.mpr hagain
    omega
  · have hnew : a.mail ∉ s.acted := by
      intro hold
      exact hbad fun _ => (if_neg hphase).mpr ⟨iff_of_false hcase (not_not.mpr hold), fun h => absurd h hcase⟩
    rw [serverStep_dropped hphase hcase hack] at hs'
    cases hs'
    have hcount := honce.once a.mail (by simp)
    simp only [hqueue, List.append_nil] at hcount
    exact hnew (List.count_pos_iff.mp (by omega))

/-! ### Main loop -/

/-- The state of a thread in the main loop, by its variables. -/
theorem server_eq (hphase : s.server.phase = .main) (thread : ThreadState) :
    ({ s.server with thread := thread } : ServerState) = ⟨.main, thread⟩ := by
  rw [← hphase]

theorem serverStep_main (hphase : s.server.phase = .main) :
    serverStep t s a = (do
      let o := mainLoop t s.server.thread a.mail
      let thread ← o.next
      return ⟨⟨.main, thread⟩, s.acked ++ if o.acked then [a.mail] else [],
        s.acted ++ (o.direct ++ (if Stored t s.server.thread a.mail then [a.mail] else []) ++
          o.ordered)⟩) := by
  simp only [serverStep, networkThread, actedOn, if_pos hphase]
  cases (mainLoop t s.server.thread a.mail).next with
  | error fault => rfl
  | ok thread => simp only [Except.map, ok_bind, server_eq hphase]

theorem serverStep_redundant (hphase : s.server.phase = .main) (hack : ¬ a.mail.HasType .ack)
    (h : messageIsRedundant s.server.thread.receivedMessages a.mail) :
    serverStep t s a = .ok ⟨⟨.main, s.server.thread⟩, s.acked ++ [a.mail], s.acted⟩ := by
  obtain ⟨r, hread⟩ := a.mail.read_ok
  have hne : r.1 ≠ RequestType.ack.code := mt (Mail.hasType_iff hread _).mpr hack
  have hstored : ¬ Stored t s.server.thread a.mail := fun hstored => hstored.2.1 h
  rw [serverStep_main hphase]
  simp [mainLoop, hread, hne, h, hstored]

theorem serverStep_user (hphase : s.server.phase = .main) (hack : ¬ a.mail.HasType .ack)
    (h : ¬ messageIsRedundant s.server.thread.receivedMessages a.mail) (huser : FromUser t a.mail) :
    serverStep t s a = .ok ⟨⟨.main, { s.server.thread with
      receivedMessages := s.server.thread.receivedMessages ++ [a.mail] }⟩, s.acked ++ [a.mail],
      s.acted ++ [a.mail]⟩ := by
  obtain ⟨r, hread⟩ := a.mail.read_ok
  have hne : r.1 ≠ RequestType.ack.code := mt (Mail.hasType_iff hread _).mpr hack
  have hstored : ¬ Stored t s.server.thread a.mail := fun hstored => hstored.2.2.1 huser
  rw [serverStep_main hphase]
  simp [mainLoop, hread, hne, h, huser, hstored]

theorem serverStep_ordered (hphase : s.server.phase = .main)
    (h : IsOrdered t s.server.thread a.mail) :
    serverStep t s a = (do
      let r := totalOrder { s.server.thread with
        receivedMessages := s.server.thread.receivedMessages ++ [a.mail] }
        (a.mail.HasType .timestamp) a.mail
      let thread ← r.2
      return ⟨⟨.main, thread⟩, s.acked ++ [a.mail],
        s.acted ++ ((if Stored t s.server.thread a.mail then [a.mail] else []) ++ r.1)⟩) := by
  obtain ⟨r, hread⟩ := a.mail.read_ok
  have hne : r.1 ≠ RequestType.ack.code := mt (Mail.hasType_iff hread _).mpr h.1
  rw [serverStep_main hphase]
  simp only [mainLoop, hread, if_neg hne, if_neg h.2.1, if_neg h.2.2, Mail.hasType_iff hread,
    if_true, List.nil_append]

/-- The queue is short enough exactly if the drain reads no entry beyond the table. -/
theorem fits_iff (h : Ordered (·.timeStamp) s.server.thread.msgQueue) {earliest : Timeval}
    (hearliest : earliestTimeStamp (updateTable a.mail s.server.thread.localNetThreadInfo) =
      .ok earliest) :
    Fits s.server.thread a.mail ↔
      ((insertMessage (a.mail.HasType .timestamp) a.mail s.server.thread.msgQueue).dropWhile
        (·.timeStamp ≤ earliest)).length ≤ s.server.thread.localNetThreadInfo.length := by
  rw [length_dropWhile_eq_countP (insertMessage_ordered h _), Fits, hearliest, insertMessage]
  simp only [decide_eq_true_eq, Except.toOption, Option.mem_def, Option.some.injEq, exists_eq_left']
  split_ifs
  · exact Iff.rfl
  · rw [insertBefore_perm.countP_eq]

/-- A new message is stored in the table or goes into the queue. -/
theorem stored_append_insertMessage (hstored : a.mail.HasType .timestamp → Stored t s.server.thread a.mail) :
    ((if Stored t s.server.thread a.mail then [a.mail] else []) ++
      insertMessage (a.mail.HasType .timestamp) a.mail s.server.thread.msgQueue).Perm
      (a.mail :: s.server.thread.msgQueue) := by
  by_cases htype : a.mail.HasType .timestamp
  · rw [if_pos (hstored htype), insertMessage, if_pos (decide_eq_true htype)]
    rfl
  · rw [if_neg fun h => htype h.1, insertMessage, if_neg (by simpa using htype)]
    exact insertBefore_perm

/-- **A step of the total order** that loses nothing. -/
theorem ordered_ok (h : ServerInv s) (hphase : s.server.phase = .main)
    (hordered : IsOrdered t s.server.thread a.mail)
    (hstored : a.mail.HasType .timestamp → Stored t s.server.thread a.mail)
    (hfits : Fits s.server.thread a.mail) :
    ∃ s', serverStep t s a = .ok s' ∧ ServerInv s' := by
  have hnew : a.mail ∉ s.acted ++ s.server.thread.msgQueue := fun hold =>
    hordered.2.1 (h.recorded _ hold)
  cases hearliest : earliestTimeStamp (updateTable a.mail s.server.thread.localNetThreadInfo) with
  | error fault => simp [Fits, hearliest, Except.toOption] at hfits
  | ok earliest =>
    have hlength := (fits_iff h.ordered hearliest).mp hfits
    refine ⟨_, by
      rw [serverStep_ordered hphase hordered]
      dsimp only
      rw [totalOrder_eq (s := { s.server.thread with
          receivedMessages := s.server.thread.receivedMessages ++ [a.mail] }) h.ordered _ hearliest]
      simp only [if_pos hlength, ok_bind, pure_eq_ok]
      rfl, ?_⟩
    have hqueue := insertMessage_ordered (m := a.mail) h.ordered (a.mail.HasType .timestamp)
    refine h.add hnew ?_ ?_ ?_ ?_ ?_
    · simp only [List.append_assoc, List.takeWhile_append_dropWhile]
      exact ((stored_append_insertMessage hstored).append_left _).trans List.perm_middle
    · rintro m' (hm' | rfl)
      · simp [hm']
      · simp
    · exact hqueue.sublist (List.dropWhile_sublist _)
    · exact fun m' hm' => ⟨earliest, hearliest, lt_of_mem_dropWhile hqueue hm'⟩
    · simp

/-- **Step lemma**, for an arrival that loses nothing. -/
theorem serverStep_ok (h : ServerInv s) (hok : ServerOk t s a) :
    ∃ s', serverStep t s a = .ok s' ∧ ServerInv s' := by
  by_cases hack : a.mail.HasType .ack
  · exact ⟨s, serverStep_ack hack, h⟩
  by_cases hphase : s.server.phase = .main
  · have hmain := (if_pos hphase).mp (hok hack)
    by_cases hredundant : messageIsRedundant s.server.thread.receivedMessages a.mail
    · rw [if_pos hredundant] at hmain
      exact ⟨_, serverStep_redundant hphase hack hredundant,
        h.again hmain rfl rfl hphase.symm fun _ hm' => hm'⟩
    · rw [if_neg hredundant] at hmain
      by_cases huser : FromUser t a.mail
      · refine ⟨_, serverStep_user hphase hack hredundant huser, h.add (fun hold =>
          hredundant (h.recorded _ hold)) ?_ ?_ h.ordered h.waiting (by simp)⟩
        · simp
        · rintro m' (hm' | rfl)
          · simp [hm']
          · simp
      · obtain ⟨hstored, hfits⟩ := hmain huser
        exact ordered_ok h hphase ⟨hack, hredundant, huser⟩ hstored hfits
  · exact registering_ok h hphase hack hok

/-- A step of the total order that loses a message or stops the thread. -/
theorem ordered_bad (h : ServerInv s) (hphase : s.server.phase = .main)
    (hordered : IsOrdered t s.server.thread a.mail)
    (hbad : ¬ ((a.mail.HasType .timestamp → Stored t s.server.thread a.mail) ∧
      Fits s.server.thread a.mail)) (hs' : serverStep t s a = .ok s') : ¬ AckedOnce s' := by
  intro honce
  have hnew : a.mail ∉ s.acted ++ s.server.thread.msgQueue := fun hold =>
    hordered.2.1 (h.recorded _ hold)
  rw [serverStep_ordered hphase hordered] at hs'
  dsimp only at hs'
  cases hearliest : earliestTimeStamp (updateTable a.mail s.server.thread.localNetThreadInfo) with
  | error fault =>
    rw [totalOrder_error (s := { s.server.thread with
      receivedMessages := s.server.thread.receivedMessages ++ [a.mail] }) hearliest] at hs'
    cases hs'
  | ok earliest =>
    rw [totalOrder_eq (s := { s.server.thread with
      receivedMessages := s.server.thread.receivedMessages ++ [a.mail] }) h.ordered _ hearliest] at hs'
    dsimp only at hs'
    by_cases hlength : ((insertMessage (a.mail.HasType .timestamp) a.mail
        s.server.thread.msgQueue).dropWhile (·.timeStamp ≤ earliest)).length ≤
        s.server.thread.localNetThreadInfo.length
    · rw [if_pos hlength] at hs'
      cases hs'
      -- a `TIMESTAMP` that is not stored is neither acted on nor queued
      obtain ⟨htype, hstored⟩ : a.mail.HasType .timestamp ∧ ¬ Stored t s.server.thread a.mail := by
        by_contra hcon
        refine hbad ⟨fun htype => ?_, (fits_iff h.ordered hearliest).mpr hlength⟩
        exact by_contra fun hstored => hcon ⟨htype, hstored⟩
      have hcount := honce.once a.mail (by simp)
      simp only [if_neg hstored, List.nil_append, insertMessage, decide_eq_true htype, if_true,
        List.append_assoc, List.takeWhile_append_dropWhile] at hcount
      exact hnew (List.count_pos_iff.mp (by omega))
    · rw [if_neg hlength] at hs'
      cases hs'

/-- **Any other arrival** stops the thread or loses a message. -/
theorem serverStep_bad (h : ServerInv s) (hbad : ¬ ServerOk t s a) (hs' : serverStep t s a = .ok s') :
    ¬ AckedOnce s' := by
  have hack : ¬ a.mail.HasType .ack := fun hack => hbad fun hne => absurd hack hne
  by_cases hphase : s.server.phase = .main
  · by_cases hredundant : messageIsRedundant s.server.thread.receivedMessages a.mail
    · intro honce
      have hnew : a.mail ∉ s.acted ++ s.server.thread.msgQueue := fun hold =>
        hbad fun _ => (if_pos hphase).mpr (by rwa [if_pos hredundant])
      rw [serverStep_redundant hphase hack hredundant] at hs'
      cases hs'
      have hcount := honce.once a.mail (by simp)
      exact hnew (List.count_pos_iff.mp (by rw [hcount]; exact Nat.one_pos))
    · by_cases huser : FromUser t a.mail
      · exact absurd (fun _ => (if_pos hphase).mpr (by
          rw [if_neg hredundant]; exact fun hne => absurd huser hne)) hbad
      · refine ordered_bad h hphase ⟨hack, hredundant, huser⟩ (fun hok => hbad fun _ => ?_) hs'
        rw [if_pos hphase, if_neg hredundant]
        exact fun _ => hok
  · exact registering_bad h hphase hack hbad hs'

/-- **No acknowledged message is lost** in a run if and only if each arrival satisfies
    `ServerOk`. -/
theorem acknowledged_once_iff (arrivals : List Arrival) :
    Throughout (serverStep t) AckedOnce .init arrivals ↔
      Guarded (serverStep t) (ServerOk t) .init arrivals :=
  throughout_iff_guarded (fun _ => ServerInv.ackedOnce) (fun _ _ => serverStep_ok)
    (fun _ _ _ => serverStep_bad) arrivals .init

end

/-! ## Two runs -/

/-- A message with a text, for the thread `(1, 0)`. -/
def arrivalOf (sender : ℤ × ℤ) (sec : ℤ) (data : Text) (h : 0 < sec ∧ data.length < MaxMailSize) :
    Arrival where
  mail :=
    { pktHdr := ⟨1, sender.1⟩
      mailHdr := ⟨0, sender.2⟩
      data
      timeStamp := ⟨sec, 0⟩
      stamped := h.1
      fits := h.2 }
  memory _ := ⟨0, 0⟩

/-- The thread `(1, 0)` registers as the only member and processes a request. -/
theorem acknowledged_once_one : Throughout (serverStep ⟨1, 0⟩) AckedOnce .init
    [arrivalOf (1, 1) 1 "25_".toList (by decide), arrivalOf (0, 0) 2 "27_1".toList (by decide),
      arrivalOf (0, 0) 3 "28_100".toList (by decide), arrivalOf (1, 1) 4 "0_a".toList (by decide),
      arrivalOf (1, 0) 5 "30_".toList (by decide)] :=
  (acknowledged_once_iff _).mpr (by decide +kernel)

/-- **A lost request**: the thread waits for the second `GROUPINFO` when the verify
    message of a peer arrives that has already registered. -/
theorem acknowledged_lost : ¬ Throughout (serverStep ⟨1, 0⟩) AckedOnce .init
    [arrivalOf (1, 1) 1 "25_".toList (by decide), arrivalOf (0, 0) 2 "27_2".toList (by decide),
      arrivalOf (0, 0) 3 "28_100".toList (by decide),
      arrivalOf (2, 0) 4 "13_200_a".toList (by decide)] := by
  intro h
  obtain ⟨s, hrun, m, hm, hcount⟩ : Ends (serverStep ⟨1, 0⟩) .init
      [arrivalOf (1, 1) 1 "25_".toList (by decide), arrivalOf (0, 0) 2 "27_2".toList (by decide),
        arrivalOf (0, 0) 3 "28_100".toList (by decide),
        arrivalOf (2, 0) 4 "13_200_a".toList (by decide)]
      fun s => ∃ m ∈ s.acked, (s.acted ++ s.server.thread.msgQueue).count m ≠ 1 := by
    decide +kernel
  exact hcount ((h.of_exec hrun).once m hm)

end Nachos.Threads
