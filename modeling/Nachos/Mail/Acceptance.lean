import Nachos.Mail.PostOffice

/-!
# Acceptance of mail in order

Runs of the post offices over a network that loses, delays and repeats packets.
`Receive` checks the counter of a packet from a known peer but returns the packet
whatever the counter is.

* `accepted_in_order`: messages are accepted in the order of their numbers if no
  packet with a number beyond the next one is received, threads name their own mailbox
  as the sender, and no message is taken for a resend of another.
* `accepted_out_of_order`: after the loss of a packet the one behind it is returned.
-/

namespace Nachos.Mail

open Nachos.Lib Nachos.Network

/-! ## The property -/

/-- A message with a number is returned only when all messages of its sender with
    smaller numbers have been returned. -/
def InOrder (returned : List Packet) : Prop :=
  ∀ before p after, returned = before ++ p :: after → ∀ sender k, p.origin = some (sender, k) →
    ∀ j, 0 ≤ j → j < k → ∃ q ∈ before, q.origin = some (sender, j)

/-- What keeps the acceptance in order. A thread that sends names its own mailbox, and
    its message has not the headers and the time stamp of one that is still unacknowledged.
    A message that is received from a known peer has no number beyond the next. -/
def MailOk (s : PostState) : MailEvent → Prop
  | .send thread toMachine mailHdr timeStamp _ doAck =>
    (doAck → mailHdr.fromBox = thread.2) ∧
      ¬ (s.unAckedMessages thread.1).any (·.key = (⟨toMachine, thread.1⟩, mailHdr, timeStamp))
  | .receive n => ∀ p ∈ s.transmitted[n]?, ∀ origin ∈ p.origin,
      ∀ counter ∈ s.receiveCounters p.dest p.label, origin.2 ≤ counter + 1
  | .resend _ _ | .acknowledge _ _ => True

instance (s : PostState) (e : MailEvent) : Decidable (MailOk s e) := by
  cases e <;> unfold MailOk <;> infer_instance

theorem inOrder_nil : InOrder [] := fun before p after h => by simp at h

theorem InOrder.append {returned : List Packet} {p : Packet} (h : InOrder returned)
    (hp : ∀ sender k, p.origin = some (sender, k) → ∀ j, 0 ≤ j → j < k →
      ∃ q ∈ returned, q.origin = some (sender, j)) : InOrder (returned ++ [p]) := by
  intro before q after heq
  rcases List.eq_nil_or_concat after with rfl | ⟨after, last, rfl⟩
  · obtain ⟨rfl, hq⟩ := List.append_inj' heq rfl
    cases hq
    exact hp
  · rw [List.concat_eq_append, ← List.cons_append, ← List.append_assoc] at heq
    exact h before q after (List.append_inj' heq rfl).1

/-! ## The invariant -/

/-- A packet carries the number of its message, and names its sender. -/
def WellFormed (p : Packet) : Prop :=
  p.text.length < MaxMailSize ∧
    match p.origin with
    | some (sender, k) => sender = p.label ∧ 0 ≤ k ∧ ∃ data, p.text = counterText k data
    | none => ∃ data, p.text = counterText (-1) data

/-- Packets are well formed; the counter for a peer stands behind messages that have
    all been returned. -/
structure PostInv (s : PostState) : Prop where
  transmitted : ∀ p ∈ s.transmitted, WellFormed p
  unAcked : ∀ machine, ∀ p ∈ s.unAckedMessages machine, WellFormed p ∧ p.pktHdr.fromMachine = machine
  sent : ∀ thread peer, ∀ counter ∈ s.sendCounters thread peer, 0 ≤ counter
  received : ∀ reader peer, ∀ counter ∈ s.receiveCounters reader peer,
    ∀ j, 0 ≤ j → j ≤ counter → ∃ q ∈ s.returned reader, q.origin = some (peer, j)
  inOrder : ∀ reader, InOrder (s.returned reader)

theorem PostInv.init : PostInv .init where
  transmitted := nofun
  unAcked := nofun
  sent := nofun
  received := nofun
  inOrder _ := inOrder_nil

variable {s s' : PostState}

/-- The counter in front of a text is read back. -/
theorem parseValue_counterText {k : ℤ} {data : Text} (h : (counterText k data).length < MaxMailSize) :
    parseValue 0 (bytes (counterText k data)) = .ok (k, (fmtInt k).length + 1) := by
  have hs : HasText (bytes (counterText k data)) 0 (fmtInt k ++ '_' :: data) := hasText_bytes [] _
  obtain ⟨h1, h2⟩ := HasText.append.mp hs
  simp only [counterText, List.length_append, List.length_cons] at h
  rw [parseValue_number h1 (Or.inl h2.1) (by omega), zero_add]

theorem nextCounter_nonneg (h : PostInv s) (thread peer : Address) : 0 ≤ nextCounter s thread peer := by
  have := h.sent thread peer
  rw [nextCounter]
  cases hcounter : s.sendCounters thread peer with
  | none => exact le_rfl
  | some counter =>
    have := this counter hcounter
    simp only
    omega

/-! ## The steps -/

theorem forall_mem_append_singleton {p : Packet} {packets : List Packet} {P : Packet → Prop}
    (h : ∀ q ∈ packets, P q) (hp : P p) : ∀ q ∈ packets ++ [p], P q := by
  intro q hq
  rcases List.mem_append.mp hq with hq | hq
  · exact h q hq
  · exact List.mem_singleton.mp hq ▸ hp

/-- A message that `Send` takes for a new one. -/
theorem send_inv (h : PostInv s) {thread : Address} {toMachine : ℤ} {mailHdr : MailHeader}
    {timeStamp : Timeval} {data : Text} {doAck : Bool} (hbox : doAck → mailHdr.fromBox = thread.2)
    (hnew : ¬ (s.unAckedMessages thread.1).any (·.key = (⟨toMachine, thread.1⟩, mailHdr, timeStamp)))
    (hs' : send s thread toMachine mailHdr timeStamp data doAck none = .ok s') : PostInv s' := by
  unfold send at hs'
  dsimp only at hs'
  rw [if_neg hnew] at hs'
  cases doAck with
  | false =>
    -- an acknowledgement
    simp only [Bool.false_eq_true, if_false] at hs'
    split_ifs at hs' with hargs hlength
    cases hs'
    exact { h with transmitted := forall_mem_append_singleton h.transmitted ⟨Nat.lt_of_succ_lt hlength, data, rfl⟩ }
  | true =>
    -- a message with a number
    simp only [if_true] at hs'
    split_ifs at hs' with hargs hlength
    cases hs'
    have hcounter := nextCounter_nonneg h thread (toMachine, mailHdr.toBox)
    have hsender : thread = ((⟨toMachine, thread.1⟩ : PacketHeader).fromMachine, mailHdr.fromBox) := by
      rw [hbox rfl]
    refine
      { transmitted := forall_mem_append_singleton h.transmitted
          ⟨Nat.lt_of_succ_lt hlength, hsender, hcounter, data, rfl⟩
        unAcked := fun machine => ?_
        sent := fun thread' peer' counter hcounter' => ?_
        received := h.received
        inOrder := h.inOrder }
    · by_cases hmachine : machine = thread.1
      · subst hmachine
        simp only [Function.update_self]
        exact forall_mem_append_singleton (h.unAcked _)
          ⟨⟨Nat.lt_of_succ_lt hlength, hsender, hcounter, data, rfl⟩, rfl⟩
      · simpa only [Function.update_of_ne hmachine] using h.unAcked machine
    · simp only [setCounter_apply] at hcounter'
      split_ifs at hcounter'
      · cases hcounter'
        exact hcounter
      · exact h.sent thread' peer' counter hcounter'

/-- A packet that is sent again is the old one. -/
theorem resend_inv (h : PostInv s) {machine : ℤ} {i : ℕ} (hs' : resend s machine i = .ok s') :
    PostInv s' := by
  rw [resend] at hs'
  cases hp : (s.unAckedMessages machine)[i]? with
  | none =>
    rw [hp] at hs'
    cases hs'
    exact h
  | some p =>
    rw [hp] at hs'
    have hmem := List.mem_of_getElem? hp
    obtain ⟨hwell, hmachine⟩ := h.unAcked machine p hmem
    have hfound : (s.unAckedMessages machine).any
        (·.key = (⟨p.pktHdr.toMachine, machine⟩, p.mailHdr, p.timeStamp)) := by
      rw [List.any_eq_true]
      refine ⟨p, hmem, decide_eq_true ?_⟩
      rw [Packet.key, ← hmachine]
    simp only [send, if_pos hfound] at hs'
    split_ifs at hs'
    cases hs'
    subst hmachine
    exact { h with transmitted := forall_mem_append_singleton h.transmitted hwell }

theorem acknowledge_inv (h : PostInv s) (machine : ℤ) (key : PacketHeader × MailHeader × Timeval) :
    PostInv (acknowledge s machine key) := by
  refine { h with unAcked := fun machine' p hp => ?_ }
  by_cases hmachine : machine' = machine
  · subst hmachine
    simp only [acknowledge, Function.update_self] at hp
    exact h.unAcked _ p (List.mem_of_mem_eraseP hp)
  · simp only [acknowledge, Function.update_of_ne hmachine] at hp
    exact h.unAcked machine' p hp

/-- The counter in front of a well-formed text: the number of the message, or -1. -/
def Packet.counter (p : Packet) : ℤ :=
  match p.origin with
  | some (_, k) => k
  | none => -1

theorem WellFormed.parse {p : Packet} (hp : WellFormed p) :
    ∃ i, parseValue 0 (bytes p.text) = .ok (p.counter, i) := by
  obtain ⟨hlength, hp⟩ := hp
  unfold Packet.counter
  split at hp
  · obtain ⟨-, -, data, htext⟩ := hp
    rw [htext] at hlength ⊢
    exact ⟨_, parseValue_counterText hlength⟩
  · obtain ⟨data, htext⟩ := hp
    rw [htext] at hlength ⊢
    exact ⟨_, parseValue_counterText hlength⟩

theorem WellFormed.origin_of_nonneg {p : Packet} (hp : WellFormed p) (h : 0 ≤ p.counter) :
    p.origin = some (p.label, p.counter) := by
  have hp := hp.2
  unfold Packet.counter at h ⊢
  split at hp
  · next horigin => simp only [horigin, hp.1]
  · next horigin =>
    rw [horigin] at h
    exact absurd h (by decide)

/-- A counter for the peer and perhaps the packet itself are recorded. -/
theorem PostInv.record (h : PostInv s) {p : Packet} {success : Bool} {entry : Option ℤ}
    (hreturned : success → ∀ sender k, p.origin = some (sender, k) → ∀ j, 0 ≤ j → j < k →
      ∃ q ∈ s.returned p.dest, q.origin = some (sender, j))
    (hentry : ∀ counter ∈ entry, ∀ j, 0 ≤ j → j ≤ counter →
      (∃ q ∈ s.returned p.dest, q.origin = some (p.label, j)) ∨
        success ∧ p.origin = some (p.label, j)) :
    PostInv { s with
      receiveCounters := setCounter s.receiveCounters p.dest p.label entry
      returned := if success then Function.update s.returned p.dest (s.returned p.dest ++ [p])
        else s.returned } := by
  -- nothing is taken back that has been returned
  have hkeep (reader : Address) : s.returned reader ⊆
      (if success then Function.update s.returned p.dest (s.returned p.dest ++ [p]) else s.returned)
        reader := by
    intro q hq
    split_ifs
    · rw [Function.update_apply]
      split_ifs with hreader
      · exact List.mem_append_left _ (hreader ▸ hq)
      · exact hq
    · exact hq
  refine { h with received := fun reader peer counter hcounter j h0 hj => ?_, inOrder := fun reader => ?_ }
  · simp only [setCounter_apply] at hcounter
    split_ifs at hcounter with hpeer
    · obtain ⟨rfl, rfl⟩ := hpeer
      rcases hentry counter hcounter j h0 hj with ⟨q, hq, horigin⟩ | ⟨hsuccess, horigin⟩
      · exact ⟨q, hkeep _ hq, horigin⟩
      · refine ⟨p, ?_, horigin⟩
        simp only [if_pos hsuccess, Function.update_self]
        exact List.mem_append_right _ (List.mem_singleton_self p)
    · obtain ⟨q, hq, horigin⟩ := h.received reader peer counter hcounter j h0 hj
      exact ⟨q, hkeep reader hq, horigin⟩
  · dsimp only
    split_ifs with hsuccess
    · rw [Function.update_apply]
      split_ifs with hreader
      · exact (h.inOrder p.dest).append (hreturned hsuccess)
      · exact h.inOrder reader
    · exact h.inOrder reader

/-- **A packet that is received** leaves the acceptance in order, if its number is not
    beyond the next. -/
theorem receive_inv (h : PostInv s) {p : Packet} (hp : WellFormed p)
    (hnext : ∀ origin ∈ p.origin, ∀ counter ∈ s.receiveCounters p.dest p.label,
      origin.2 ≤ counter + 1) (hs' : receive s p = .ok s') : PostInv s' := by
  obtain ⟨i, hparse⟩ := hp.parse
  rw [receive, hparse, ok_bind] at hs'
  cases hs'
  have hreceived := h.received p.dest p.label
  refine h.record (fun hsuccess sender k horigin j h0 hj => ?_) fun counter hcounter j h0 hj => ?_
  · -- what is returned has the next number at most
    have hcounter : p.counter = k := by rw [Packet.counter, horigin]
    have hlabel := hp.origin_of_nonneg (by omega)
    obtain rfl : sender = p.label := by
      rw [hlabel, Option.some.injEq, Prod.mk.injEq] at horigin
      exact horigin.1.symm
    rcases accept_success hsuccess with hfirst | ⟨c, hc⟩
    · omega
    · have hle : k ≤ c + 1 := hnext _ horigin c hc
      exact hreceived c hc j h0 (by omega)
  · rcases accept_entry hcounter with hold | ⟨hsuccess, rfl, hnew⟩
    · exact Or.inl (hreceived counter hold j h0 hj)
    · rcases hj.lt_or_eq with hlt | rfl
      · rcases hnew with ⟨-, hzero⟩ | ⟨c, hc, hsucc⟩
        · omega
        · exact Or.inl (hreceived c hc j h0 (by omega))
      · exact Or.inr ⟨hsuccess, hp.origin_of_nonneg h0⟩

/-- **Step lemma.** -/
theorem mailStep_inv {e : MailEvent} (h : PostInv s) (he : MailOk s e) (hs' : mailStep s e = .ok s') :
    PostInv s' := by
  cases e with
  | send thread toMachine mailHdr timeStamp data doAck => exact send_inv h he.1 he.2 hs'
  | resend machine i => exact resend_inv h hs'
  | acknowledge machine key =>
    cases hs'
    exact acknowledge_inv h machine key
  | receive n =>
    rw [mailStep] at hs'
    cases hn : s.transmitted[n]? with
    | none =>
      rw [hn] at hs'
      cases hs'
      exact h
    | some p =>
      rw [hn] at hs'
      exact receive_inv h (h.transmitted p (List.mem_of_getElem? hn)) (he p hn) hs'

/-- **Acceptance in order** at every receiver, over every run whose steps satisfy
    `MailOk`. -/
theorem accepted_in_order {events : List MailEvent} (hok : Guarded mailStep MailOk .init events)
    (hrun : exec mailStep .init events = .ok s) (reader : Address) : InOrder (s.returned reader) :=
  (exec_inv (fun _ _ _ => mailStep_inv) PostInv.init hok hrun).inOrder reader

/-! ## Two runs -/

/-- The thread `(0, 1)` sends a message to the thread `(1, 0)`. -/
def sendOne (data : Text) (sec : ℤ) : MailEvent := .send (0, 1) 1 ⟨0, 1⟩ ⟨sec, 0⟩ data true

/-- The second of two messages is lost and sent again. -/
theorem accepted_in_order_resent : ∃ s, exec mailStep .init
    [sendOne "0_a".toList 1, .receive 0, sendOne "1_0".toList 2, .resend 0 1, .receive 2] = .ok s ∧
      (s.returned (1, 0)).length = 2 ∧ InOrder (s.returned (1, 0)) := by
  obtain ⟨s, hrun, hs⟩ : Ends mailStep .init
      [sendOne "0_a".toList 1, .receive 0, sendOne "1_0".toList 2, .resend 0 1, .receive 2]
      fun s => (s.returned (1, 0)).length = 2 := by decide +kernel
  exact ⟨s, hrun, hs, accepted_in_order (by decide +kernel) hrun (1, 0)⟩

/-- **Out of order**: of three messages the second is lost, and the third is returned
    after the first. -/
theorem accepted_out_of_order : ∃ s, exec mailStep .init
    [sendOne "0_a".toList 1, sendOne "1_0".toList 2, sendOne "2_0".toList 3, .receive 0, .receive 2] =
      .ok s ∧ ¬ InOrder (s.returned (1, 0)) := by
  obtain ⟨s, hrun, hs⟩ : Ends mailStep .init
      [sendOne "0_a".toList 1, sendOne "1_0".toList 2, sendOne "2_0".toList 3, .receive 0, .receive 2]
      fun s => (s.returned (1, 0)).map Packet.origin = [some ((0, 1), 0), some ((0, 1), 2)] := by
    decide +kernel
  refine ⟨s, hrun, fun hinOrder => ?_⟩
  obtain ⟨p, rest, hreturned, hp, hs⟩ := List.map_eq_cons_iff.mp hs
  obtain ⟨p', rest', rfl, hp', -⟩ := List.map_eq_cons_iff.mp hs
  obtain ⟨q, hq, horigin⟩ := hinOrder [p] p' rest' hreturned (0, 1) 2 hp' 1 (by decide) (by decide)
  rw [List.mem_singleton.mp hq, hp] at horigin
  cases horigin

end Nachos.Mail
