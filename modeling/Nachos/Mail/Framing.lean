import Nachos.Mail.Acceptance
import Nachos.Mail.Retransmission

/-!
# Framing

What a text goes through between a caller of `PostOffice::Send` and a caller of
`PostOffice::Receive` (`network/post.cc`, lines 287-510): the first `Send` puts a counter in
front of it and keeps a copy, a resend gives the copy to the network as it is, and
`Receive` copies what stands behind the counter.

The machine of `Mail/Resend` is watched at the network. Every packet, and every copy in
`unAckedMessages`, is traced back to the call of `Send` that it comes from.

* `round_trip`: every packet is received with the text, the addresses and the time stamp of
  that call, and no resend changes a copy, if every message that the resending thread sends
  is still in the list when its `Send` looks for it.
* `framed_twice`: an acknowledged message gets a second counter.
-/

namespace Nachos.Mail

open Nachos.Lib Nachos.Network Nachos.Threads

/-! ## Receive -/

/-- What the loop of `Receive` (post.cc:431) does with a text whose sender has the counter
    `entry`: the data that it returns, if it returns, and the counter afterwards. -/
def receiveText (entry : Option ℤ) (text : Text) : Except Fault (Option Text × Option ℤ) := do
  let (counter, index) ← parseValue 0 (bytes text)
  let (success, entry) := accept entry counter
  return (if success then some (text.drop index) else none, entry)

theorem drop_counterText (counter : ℤ) (data : Text) :
    (counterText counter data).drop ((fmtInt counter).length + 1) = data := by
  rw [counterText, List.drop_append, List.drop_eq_nil_of_le (by omega), Nat.add_sub_cancel_left]
  rfl

/-- **`Receive` takes off the counter** that `Send` has put in front. -/
theorem receiveText_counterText {counter : ℤ} {data : Text}
    (h : (counterText counter data).length < MaxMailSize) (entry : Option ℤ) :
    receiveText entry (counterText counter data) =
      .ok (if (accept entry counter).1 then some data else none, (accept entry counter).2) := by
  rw [receiveText, parseValue_counterText h]
  simp only [ok_bind, pure_eq_ok, drop_counterText]

/-! ## The wire -/

/-- A packet that has been given to the network. `origin` is no part of it: it is the number
    of the call of `Send` that the packet comes from. -/
structure Sent where
  key : Key
  text : Text
  origin : ℕ
  deriving DecidableEq, Repr

/-- A machine and what it has given to the network. The calls of `Send` by threads other than
    the resending one are numbered as they get to the list: `given` are their messages, with
    the counters. `origin` says which call has sent the message with a key last, `sending`
    which call a thread is in, and `resending` the call whose message is sent again. -/
structure Wire where
  machine : Machine
  given : List (Outgoing × ℤ)
  origin : Key → ℕ
  sending : ℕ → ℕ
  resending : ℕ
  packets : List Sent

/-- Nothing has been sent. -/
def Wire.init : Wire where
  machine := Machine.init
  given := []
  origin _ := 0
  sending _ := 0
  resending := 0
  packets := []

/-- What an event shows at the wire. -/
def Wire.watch (netAddr : ℤ) (w : Wire) : ResendEvent → Wire
  | .call _ _ => w
  | .run n _ =>
    match w.machine.task n with
    | some (.send m) =>
      if w.machine.unAckedMessagesLock.HeldBy (.other n) then
        { w with
          given := w.given ++ [(m, counterOf w.machine (.other n) m)]
          origin := Function.update w.origin (m.key netAddr) w.given.length
          sending := Function.update w.sending n w.given.length }
      else w
    | some (.transmit m text) =>
      { w with packets := w.packets ++ [⟨m.key netAddr, text, w.sending n⟩] }
    | some (.erase _) | none => w
  | .resend _ =>
    match w.machine.resend with
    | .test i _ =>
      match w.machine.unAckedMessages[i]? with
      | some u => { w with resending := w.origin u.key }
      | none => w
    | .transmit _ _ m text => { w with packets := w.packets ++ [⟨m.key netAddr, text, w.resending⟩] }
    | .outside | .acquire | .call _ _ _ | .send _ _ _ | .print _ _ => w

/-- A step of the machine. -/
def wireStep (netAddr : ℤ) (w : Wire) (e : ResendEvent) : Except Fault Wire := do
  let machine ← machineStep netAddr w.machine e
  return { w.watch netAddr e with machine }

/-! ## The property -/

/-- The call of `Send` with a number has passed the message with the key and a text that is
    framed as `text`. -/
def Framed (netAddr : ℤ) (given : List (Outgoing × ℤ)) (key : Key) (text : Text) (origin : ℕ) : Prop :=
  ∃ m counter, given[origin]? = some (m, counter) ∧ m.key netAddr = key ∧
    text = counterText counter m.data ∧ text.length < MaxMailSize

/-- **Round trip**: whatever counter the receiver has for the sender, a packet is received with
    the text and under the key of the call of `Send` that it comes from; and a copy in the list
    is the text with the counter, as that call has put it there. -/
structure RoundTrip (netAddr : ℤ) (w : Wire) : Prop where
  packets : ∀ p ∈ w.packets, ∃ m counter, w.given[p.origin]? = some (m, counter) ∧
    p.key = m.key netAddr ∧ ∀ entry, receiveText entry p.text =
      .ok (if (accept entry counter).1 then some m.data else none, (accept entry counter).2)
  copies : ∀ u ∈ w.machine.unAckedMessages, ∃ m counter,
    w.given[w.origin u.key]? = some (m, counter) ∧ u.key = m.key netAddr ∧
      u.data = counterText counter m.data

/-- No message with the addresses and the time stamp of a new one is pending, and a message that
    the resending thread sends is still in the list when `Send` looks for it. -/
def FramingOk (netAddr : ℤ) (w : Wire) : ResendEvent → Prop
  | .call _ _ => True
  | .run n _ =>
    match w.machine.task n with
    | some (.send m) =>
      w.machine.unAckedMessagesLock.HeldBy (.other n) → m.key netAddr ∉ w.machine.keys
    | _ => True
  | .resend _ =>
    match w.machine.resend with
    | .send _ _ m => w.machine.unAckedMessagesLock.HeldBy .resend → m.key netAddr ∈ w.machine.keys
    | _ => True

/-- A condition on the message that a task sends. -/
def decidableTask {p : Outgoing → Prop} [∀ m, Decidable (p m)] : (task : Option Task) →
    Decidable (match task with
      | some (.send m) => p m
      | _ => True)
  | some (.send m) => inferInstanceAs (Decidable (p m))
  | some (.erase _) | some (.transmit _ _) | none => isTrue trivial

/-- A condition on the message that the resending thread sends. -/
def decidablePhase {p : Outgoing → Prop} [∀ m, Decidable (p m)] : (phase : ResendPhase) →
    Decidable (match phase with
      | .send _ _ m => p m
      | _ => True)
  | .send _ _ m => inferInstanceAs (Decidable (p m))
  | .outside | .acquire | .test _ _ | .call _ _ _ | .transmit _ _ _ _ | .print _ _ => isTrue trivial

instance (netAddr : ℤ) (w : Wire) : (e : ResendEvent) → Decidable (FramingOk netAddr w e)
  | .call _ _ => isTrue trivial
  | .run n _ => decidableTask (w.machine.task n)
  | .resend _ => decidablePhase w.machine.resend

/-! ## The invariant -/

/-- The message that the resending thread sends again, and its text. -/
def ResendPhase.framed : ResendPhase → Option (Outgoing × Text)
  | call _ _ m | send _ _ m => some (m, m.data)
  | transmit _ _ m text => some (m, text)
  | outside | acquire | test _ _ | print _ _ => none

/-- Whatever is on its way to the network is framed, once. -/
structure FramingInv (netAddr : ℤ) (w : Wire) : Prop where
  copies : ∀ u ∈ w.machine.unAckedMessages, Framed netAddr w.given u.key u.data (w.origin u.key)
  sending : ∀ n m text, (n, .transmit m text) ∈ w.machine.tasks →
    Framed netAddr w.given (m.key netAddr) text (w.sending n)
  resending : ∀ m text, w.machine.resend.framed = some (m, text) →
    Framed netAddr w.given (m.key netAddr) text w.resending
  packets : ∀ p ∈ w.packets, Framed netAddr w.given p.key p.text p.origin

theorem FramingInv.init (netAddr : ℤ) : FramingInv netAddr .init where
  copies _ h := absurd h List.not_mem_nil
  sending _ _ _ h := absurd h List.not_mem_nil
  resending _ _ h := nomatch h
  packets _ h := absurd h List.not_mem_nil

theorem FramingInv.roundTrip {netAddr : ℤ} {w : Wire} (h : FramingInv netAddr w) :
    RoundTrip netAddr w where
  packets p hp := by
    obtain ⟨m, counter, hgiven, hkey, htext, hlength⟩ := h.packets p hp
    refine ⟨m, counter, hgiven, hkey.symm, fun entry => ?_⟩
    rw [htext] at hlength ⊢
    exact receiveText_counterText hlength entry
  copies u hu := by
    obtain ⟨m, counter, hgiven, hkey, htext, -⟩ := h.copies u hu
    exact ⟨m, counter, hgiven, hkey.symm, htext⟩

/-! ## The steps -/

section

variable {netAddr : ℤ} {w : Wire} {s s' : Machine} {t : KernelThread} {m : Outgoing} {now : Timeval}
  {text : Text} {key : Key} {origin : ℕ}

/-- A later call of `Send` changes nothing about an earlier one. -/
theorem Framed.append {given : List (Outgoing × ℤ)} (h : Framed netAddr given key text origin)
    (p : Outgoing × ℤ) : Framed netAddr (given ++ [p]) key text origin := by
  obtain ⟨m, counter, hgiven, hrest⟩ := h
  refine ⟨m, counter, ?_, hrest⟩
  rw [List.getElem?_append_left (List.getElem?_eq_some_iff.mp hgiven).1, hgiven]

/-- A message that is in the list goes out as it is. -/
theorem sendLocked_again (hmem : m.key netAddr ∈ s.keys)
    (h : sendLocked netAddr s t m now = .ok (s', text)) :
    text = m.data ∧ s'.tasks = s.tasks ∧ s'.resend = s.resend ∧
      ∀ u' ∈ s'.unAckedMessages, ∃ u ∈ s.unAckedMessages, u'.key = u.key ∧ u'.data = u.data := by
  rw [sendLocked] at h
  split at h
  · split_ifs at h
    cases h
    refine ⟨rfl, rfl, rfl, fun u' hu' => ?_⟩
    obtain ⟨i, hi⟩ := List.mem_iff_getElem?.mp hu'
    rw [List.getElem?_modify] at hi
    obtain ⟨u, hu, heq⟩ := Option.map_eq_some_iff.mp hi
    refine ⟨u, List.mem_of_getElem? hu, ?_⟩
    split_ifs at heq <;> rw [← heq] <;> exact ⟨rfl, rfl⟩
  · next hfound =>
    obtain ⟨u, hu, hkey⟩ := List.mem_map.mp hmem
    simpa [hkey] using List.findIdx?_eq_none_iff.mp hfound u hu

/-- A message that is not in the list gets its counter, and is put into the list if it is to be
    acknowledged. -/
theorem sendLocked_first (hmem : m.key netAddr ∉ s.keys)
    (h : sendLocked netAddr s t m now = .ok (s', text)) :
    text = counterText (counterOf s t m) m.data ∧ text.length < MaxMailSize ∧ s'.tasks = s.tasks ∧
      s'.resend = s.resend ∧ ∀ u' ∈ s'.unAckedMessages, u' ∈ s.unAckedMessages ∨
        u'.key = m.key netAddr ∧ u'.data = text := by
  rw [sendLocked] at h
  split at h
  · next i hfound =>
    obtain ⟨hi, hkey, -⟩ := List.findIdx?_eq_some_iff_getElem.mp hfound
    exact absurd (List.mem_map.mpr ⟨_, List.getElem_mem hi, of_decide_eq_true hkey⟩) hmem
  · simp only at h
    split_ifs at h with hlength
    cases h
    refine ⟨rfl, by omega, ?_⟩
    rw [Machine.append]
    split_ifs
    · refine ⟨rfl, rfl, fun u' hu' => ?_⟩
      rcases List.mem_append.mp hu' with hold | hnew
      · exact Or.inl hold
      · rw [List.mem_singleton.mp hnew]
        exact Or.inr ⟨rfl, rfl⟩
    · exact ⟨rfl, rfl, fun u' hu' => Or.inl hu'⟩

/-- A thread gets to another place, with nothing new for the network. -/
theorem FramingInv.move (h : FramingInv netAddr w) {s' : Machine} {n : ℕ} {task : Option Task}
    (hlist : s'.unAckedMessages ⊆ w.machine.unAckedMessages) (hresend : s'.resend = w.machine.resend)
    (htasks : s'.tasks = moved w.machine.tasks n task) (hnot : ∀ m text, task ≠ some (.transmit m text)) :
    FramingInv netAddr { w with machine := s' } where
  copies u hu := h.copies u (hlist hu)
  sending n' m text hmem := by
    rw [htasks, mem_moved] at hmem
    rcases hmem with ⟨-, htask⟩ | ⟨-, hold⟩
    · exact absurd htask (hnot m text)
    · exact h.sending n' m text hold
  resending m text hm := h.resending m text (by rwa [← hresend])
  packets := h.packets

theorem call_framing (h : FramingInv netAddr w) {n : ℕ} {c : Call}
    (hs' : call netAddr w.machine n c = .ok s') : FramingInv netAddr { w with machine := s' } := by
  unfold call at hs'
  cases htask : w.machine.task n with
  | some task =>
    simp only [htask] at hs'
    cases hs'
    exact h
  | none =>
    cases c with
    | send m =>
      simp only [htask] at hs'
      by_cases hlegal : m.Legal
      · rw [if_pos hlegal] at hs'
        cases hs'
        exact h.move (List.Subset.refl _) rfl rfl nofun
      · rw [if_neg hlegal] at hs'
        cases hs'
    | processAck | localAck =>
      simp only [htask] at hs'
      cases hs'
      exact h.move (List.Subset.refl _) rfl rfl nofun

/-- The first `Send` of a message. -/
theorem FramingInv.first (h : FramingInv netAddr w) {n : ℕ} (hfresh : m.key netAddr ∉ w.machine.keys)
    (hsend : sendLocked netAddr w.machine (.other n) m now = .ok (s', text))
    (happening : Happening) :
    FramingInv netAddr { w with
      machine := ((s'.note m.doAck happening).release (.other n)).setTask n (some (.transmit m text))
      given := w.given ++ [(m, counterOf w.machine (.other n) m)]
      origin := Function.update w.origin (m.key netAddr) w.given.length
      sending := Function.update w.sending n w.given.length } := by
  obtain ⟨htext, hlength, htasks, hresend, hlist⟩ := sendLocked_first hfresh hsend
  have hnew : Framed netAddr (w.given ++ [(m, counterOf w.machine (.other n) m)]) (m.key netAddr) text
      w.given.length := ⟨m, _, List.getElem?_concat_length, rfl, htext, hlength⟩
  refine ⟨fun u' hu' => ?_, fun n' m' text' hmem => ?_, fun m' text' hm' => ?_,
    fun p hp => (h.packets p hp).append _⟩
  · rw [note_eq] at hu'
    rcases hlist u' hu' with hold | ⟨hkey, hdata⟩
    · have hne : u'.key ≠ m.key netAddr := by
        intro heq
        exact hfresh (heq ▸ List.mem_map_of_mem hold)
      have horigin : Function.update w.origin (m.key netAddr) w.given.length u'.key = w.origin u'.key :=
        Function.update_of_ne hne _ _
      show Framed netAddr _ u'.key u'.data (Function.update w.origin _ _ u'.key)
      rw [horigin]
      exact (h.copies u' hold).append _
    · show Framed netAddr _ u'.key u'.data (Function.update w.origin _ _ u'.key)
      rw [hkey, hdata, Function.update_self]
      exact hnew
  · have hmem' : (n', Task.transmit m' text') ∈ moved w.machine.tasks n (some (.transmit m text)) := by
      rw [note_eq] at hmem
      rw [← htasks]
      exact hmem
    rcases mem_moved.mp hmem' with ⟨rfl, heq⟩ | ⟨hne, hold⟩
    · cases heq
      show Framed netAddr _ _ _ (Function.update w.sending n' _ n')
      rw [Function.update_self]
      exact hnew
    · show Framed netAddr _ _ _ (Function.update w.sending n _ n')
      rw [Function.update_of_ne hne]
      exact (h.sending n' m' text' hold).append _
  · rw [note_eq] at hm'
    exact (h.resending m' text' (by rw [← hresend]; exact hm')).append _

/-- A step of a thread that is not the resending one. -/
theorem run_framing (h : FramingInv netAddr w) {n : ℕ} (hok : FramingOk netAddr w (.run n now))
    (hs' : run netAddr w.machine n now = .ok s') :
    FramingInv netAddr { w.watch netAddr (.run n now) with machine := s' } := by
  unfold run at hs'
  unfold Wire.watch
  cases htask : w.machine.task n with
  | none =>
    simp only [htask] at hs' ⊢
    cases hs'
    exact h
  | some task =>
    simp only [htask, FramingOk] at hs' hok ⊢
    cases task with
    | send m =>
      simp only at hs' hok ⊢
      split_ifs at hs' ⊢ with hheld
      · obtain ⟨⟨s'', text⟩, hsend, hs'⟩ := bind_eq_ok.mp hs'
        cases hs'
        exact h.first (hok hheld) hsend _
      · cases hs'
        exact h
    | erase key =>
      simp only at hs' ⊢
      split_ifs at hs' with hheld
      · cases hs'
        exact h.move (List.eraseP_subset) rfl rfl nofun
      · cases hs'
        exact h
    | transmit m text =>
      cases hs'
      have hframed := h.sending n m text (mem_of_task htask)
      have hmoved : FramingInv netAddr { w with machine :=
          (w.machine.note m.doAck (.transmitted (m.key netAddr))).setTask n none } := by
        rw [note_eq]
        exact h.move (List.Subset.refl _) rfl rfl nofun
      exact { hmoved with packets := List.forall_mem_append.mpr ⟨h.packets, List.forall_mem_singleton.mpr hframed⟩ }

/-- The resending thread gets to another place. -/
theorem FramingInv.resend (h : FramingInv netAddr w) {s' : Machine} {origin : ℕ}
    (hlist : ∀ u' ∈ s'.unAckedMessages, ∃ u ∈ w.machine.unAckedMessages,
      u'.key = u.key ∧ u'.data = u.data) (htasks : s'.tasks = w.machine.tasks)
    (hframed : ∀ m text, s'.resend.framed = some (m, text) →
      Framed netAddr w.given (m.key netAddr) text origin) :
    FramingInv netAddr { w with machine := s', resending := origin } where
  copies u' hu' := by
    obtain ⟨u, hu, hkey, hdata⟩ := hlist u' hu'
    show Framed netAddr w.given u'.key u'.data (w.origin u'.key)
    rw [hkey, hdata]
    exact h.copies u hu
  sending n m text hmem := h.sending n m text (by rwa [← htasks])
  resending := hframed
  packets := h.packets

/-- An entry is sent again under its own key. -/
theorem key_again {u : UnAckedMessage} {m : Outgoing} (h : m.key netAddr = u.key) :
    u.again.key netAddr = u.key := by
  have hfrom : u.pktHdr.fromMachine = netAddr := by rw [show u.pktHdr = u.key.1 from rfl, ← h]; rfl
  rw [Outgoing.key, UnAckedMessage.again, ← hfrom]
  rfl

/-- A step of the resending thread. -/
theorem resendStep_framing (h : FramingInv netAddr w) (hok : FramingOk netAddr w (.resend now))
    (hs' : resendStep netAddr w.machine now = .ok s') :
    FramingInv netAddr { w.watch netAddr (.resend now) with machine := s' } := by
  have hsame : ∀ u' ∈ w.machine.unAckedMessages, ∃ u ∈ w.machine.unAckedMessages,
      u'.key = u.key ∧ u'.data = u.data := fun u hu => ⟨u, hu, rfl, rfl⟩
  unfold resendStep at hs'
  unfold Wire.watch
  cases hphase : w.machine.resend with
  | outside =>
    simp only [hphase] at hs' ⊢
    cases hs'
    exact h.resend hsame rfl nofun
  | acquire =>
    simp only [hphase] at hs' ⊢
    split_ifs at hs' <;> cases hs'
    · exact h.resend hsame rfl nofun
    · exact h
  | test i currentTime =>
    simp only [hphase] at hs' ⊢
    cases hu : w.machine.unAckedMessages[i]? with
    | none =>
      simp only [hu] at hs' ⊢
      cases hs'
      exact h.resend hsame rfl nofun
    | some u =>
      simp only [hu] at hs' ⊢
      split_ifs at hs' <;> cases hs'
      · refine h.resend hsame rfl fun m text heq => ?_
        cases heq
        have hmem := List.mem_of_getElem? hu
        obtain ⟨m, -, -, hkey, -⟩ := h.copies u hmem
        rw [key_again hkey]
        exact h.copies u hmem
      · exact h.resend hsame rfl nofun
  | call i currentTime m =>
    simp only [hphase] at hs' ⊢
    cases hs'
    exact h.resend hsame rfl fun m' text heq => h.resending m' text (by rw [hphase]; exact heq)
  | send i currentTime m =>
    simp only [hphase, FramingOk] at hs' hok ⊢
    split_ifs at hs' with hheld
    · obtain ⟨⟨s'', text⟩, hsend, hs'⟩ := bind_eq_ok.mp hs'
      obtain ⟨htext, htasks, -, hlist⟩ := sendLocked_again (hok hheld) hsend
      cases hs'
      rw [note_eq]
      refine h.resend hlist htasks fun m' text' heq => ?_
      cases heq
      exact h.resending m text (by rw [hphase, htext]; rfl)
    · cases hs'
      exact h
  | transmit i currentTime m text =>
    simp only [hphase] at hs' ⊢
    cases hs'
    have hframed := h.resending m text (by rw [hphase]; rfl)
    rw [note_eq]
    have hprint : FramingInv netAddr { w with machine := { w.machine with
        history := w.machine.history ++ if m.doAck then [.transmitted (m.key netAddr)] else []
        resend := .print i currentTime } } := h.resend hsame rfl nofun
    exact { hprint with
      packets := List.forall_mem_append.mpr ⟨h.packets, List.forall_mem_singleton.mpr hframed⟩ }
  | print i currentTime =>
    simp only [hphase] at hs' ⊢
    cases hs'
    exact h.resend hsame rfl nofun

/-- **Step lemma.** -/
theorem wireStep_inv {w' : Wire} {e : ResendEvent} (h : FramingInv netAddr w)
    (hok : FramingOk netAddr w e) (hs' : wireStep netAddr w e = .ok w') : FramingInv netAddr w' := by
  rw [wireStep, bind_eq_ok] at hs'
  obtain ⟨s', hmachine, hs'⟩ := hs'
  cases hs'
  cases e with
  | call n c => exact call_framing h hmachine
  | run n now => exact run_framing h hok hmachine
  | resend now => exact resendStep_framing h hok hmachine

end

/-- **Round trip** of every text in every run in which the resending thread finds what it sends
    in the list. -/
theorem round_trip {netAddr : ℤ} {events : List ResendEvent} {w : Wire}
    (hok : Guarded (wireStep netAddr) (FramingOk netAddr) Wire.init events)
    (hrun : exec (wireStep netAddr) Wire.init events = .ok w) : RoundTrip netAddr w :=
  (exec_inv (fun _ _ _ => wireStep_inv) (FramingInv.init netAddr) hok hrun).roundTrip

/-! ### Two runs -/

/-- A message is sent and, after three seconds, sent again: both packets carry its text. -/
theorem round_trip_resent : ∃ w, exec (wireStep 0) Wire.init (sendEvents 0 10 ++ passEvents 6 14) = .ok w ∧
    w.packets.length = 2 ∧ RoundTrip 0 w := by
  obtain ⟨w, hrun, hw⟩ : Ends (wireStep 0) Wire.init (sendEvents 0 10 ++ passEvents 6 14)
      fun w => w.packets.length = 2 := by decide +kernel
  exact ⟨w, hrun, hw, round_trip (by decide +kernel) hrun⟩

/-- **A second counter**: the second message is acknowledged between its test and its `Send`,
    which takes it for a new one. `Receive` returns it with the old counter in its text. -/
theorem framed_twice : ∃ w, exec (wireStep 0) Wire.init
    (sendEvents 0 10 ++ sendEvents 0 11 ++ passEvents 5 14 ++ [ackCall 1 11] ++ passEvents 4 14 ++
      [.run 1 ⟨14, 0⟩] ++ passEvents 2 14) = .ok w ∧ ¬ RoundTrip 0 w := by
  obtain ⟨w, hrun, hpacket, hgiven⟩ : Ends (wireStep 0) Wire.init
      (sendEvents 0 10 ++ sendEvents 0 11 ++ passEvents 5 14 ++ [ackCall 1 11] ++ passEvents 4 14 ++
        [.run 1 ⟨14, 0⟩] ++ passEvents 2 14)
      fun w => (⟨(message 11).key 0, "0_1_0_a".toList, 1⟩ : Sent) ∈ w.packets ∧
        w.given[1]? = some (message 11, 1) := by decide +kernel
  refine ⟨w, hrun, fun h => ?_⟩
  obtain ⟨m, counter, hm, -, hreceive⟩ := h.packets _ hpacket
  cases hgiven.symm.trans hm
  have hreturned : (receiveText (some 0) "0_1_0_a".toList).toOption.map Prod.fst =
      some (some "1_0_a".toList) := by decide +kernel
  rw [hreceive] at hreturned
  exact absurd hreturned (by decide +kernel)

end Nachos.Mail
