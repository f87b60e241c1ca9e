import Nachos.Mail.PostOffice
import Nachos.Network.Process

/-!
# Sending the messages of a call

`processMessage` passes its messages to `PostOffice::Send` (`network/post.cc`, line
288). An assertion of `Send` stops the server: a mailbox that the post office does not
have, or a text that leaves no room for the counter in front of it. `serve` is a call of
`processMessage` whose messages are sent by the checked `Mail.send`.

* `Office.Takes`: the messages that `Send` takes.
* `Office.carry_single`: a call with one message returns if and only if it is taken.
* `Office.takes_of_short`: of a short text every counter leaves room, so that only the
  mailbox matters.
-/

namespace Nachos.Network

open Nachos.Lib

/-- The post offices that a call finds, and what `gettimeofday` gives for each of the
    messages that it sends. The counters are `int`s. -/
structure Office where
  post : Mail.PostState
  clock : ℕ → Timeval
  ints : ∀ thread peer, IsInt (Mail.nextCounter post thread peer)

/-- Nothing has been sent before. -/
def Office.quiet : Office where
  post := .init
  clock k := ⟨0, k⟩
  ints _ _ := by norm_num [Mail.nextCounter, Mail.PostState.init, IsInt]

/-- The messages of a call, sent one after the other from the `k`-th on. -/
def sendAll (t : NetThread) (clock : ℕ → Timeval) :
    List Message → ℕ → Mail.PostState → Except Fault Mail.PostState
  | [], _, s => .ok s
  | m :: out, k, s => do
    let s ← Mail.send s t.address m.pktHdr.toMachine m.mailHdr (clock k) m.data true none
    sendAll t clock out (k + 1) s

namespace Office

variable (p : Office) (t : NetThread)

/-- What comes of a call of thread `t` when its messages are sent. -/
def carry (call : Except Fault Result) : Except Fault Result := do
  let r ← call
  let _ ← sendAll t p.clock r.out 0 p.post
  return r

/-- The message has the headers and the time stamp of one that waits for its
    acknowledgement: `Send` takes it for the same message sent again. -/
def looksResent (m : Message) : Bool :=
  (p.post.unAckedMessages t.machineID).any
    (·.key = ({ toMachine := m.pktHdr.toMachine, fromMachine := t.machineID }, m.mailHdr, p.clock 0))

/-- The text that `Send` puts into the packet: the data behind the counter, or the data
    alone. -/
def wireText (m : Message) : Text :=
  if p.looksResent t m then m.data
  else Mail.counterText (Mail.nextCounter p.post t.address m.dest) m.data

/-- `Send` takes the message: the mailbox is one of the post office, and the text fits
    with its counter. -/
def Takes (m : Message) : Prop :=
  (0 ≤ m.mailHdr.toBox ∧ m.mailHdr.toBox < Mail.numBoxes) ∧
    (p.wireText t m).length + 1 < MaxMailSize

instance (m : Message) : Decidable (p.Takes t m) := inferInstanceAs (Decidable (_ ∧ _))

end Office

/-- `processMessage` with its messages sent. -/
def serve (c : Call) (p : Office) (msgData : Text) (localNetThreadInfo : List NetThread)
    (g : Globals) : Except Fault Result :=
  p.carry c.t (processMessage c msgData localNetThreadInfo g)

namespace Office

variable {p : Office} {t : NetThread} {m : Message} {g : Globals} {success : Bool}

theorem length_data_le_wireText : m.data.length ≤ (p.wireText t m).length := by
  rw [wireText]
  split_ifs
  · exact le_rfl
  · rw [Mail.counterText, List.length_append, List.length_cons]
    omega

/-- `Send` on the first message of a call, with its mailbox there. -/
theorem send_eq (hbox : 0 ≤ m.mailHdr.toBox ∧ m.mailHdr.toBox < Mail.numBoxes)
    (hdata : m.data.length + 1 ≤ MaxMailSize) : ∃ s,
    Mail.send p.post t.address m.pktHdr.toMachine m.mailHdr (p.clock 0) m.data true none =
      if (p.wireText t m).length + 1 < MaxMailSize then .ok s else .error .assertion := by
  rw [Mail.send, if_pos ⟨hdata, hbox⟩, wireText]
  change ∃ s, (if p.looksResent t m = true then _ else _) = _
  cases p.looksResent t m <;> exact ⟨_, rfl⟩

theorem send_of_takes (h : p.Takes t m) : ∃ s,
    Mail.send p.post t.address m.pktHdr.toMachine m.mailHdr (p.clock 0) m.data true none = .ok s := by
  have hdata : m.data.length + 1 ≤ MaxMailSize := by
    have := length_data_le_wireText (p := p) (t := t) (m := m)
    have := h.2
    omega
  obtain ⟨s, hs⟩ := send_eq (p := p) (t := t) h.1 hdata
  exact ⟨s, hs.trans (if_pos h.2)⟩

/-- Whatever is wrong with the message, an assertion fails. -/
theorem send_of_not_takes (h : ¬ p.Takes t m) :
    Mail.send p.post t.address m.pktHdr.toMachine m.mailHdr (p.clock 0) m.data true none =
      .error .assertion := by
  by_cases hroom : m.data.length + 1 ≤ MaxMailSize ∧ 0 ≤ m.mailHdr.toBox ∧ m.mailHdr.toBox < Mail.numBoxes
  · obtain ⟨s, hs⟩ := send_eq (p := p) (t := t) hroom.2 hroom.1
    exact hs.trans (if_neg fun hfits => h ⟨hroom.2, hfits⟩)
  · rw [Mail.send, if_neg hroom]

/-! ## Calls -/

@[simp] theorem carry_error {f : Fault} : p.carry t (.error f) = .error f := rfl

/-- A call without messages. -/
@[simp] theorem carry_silent : p.carry t (.ok ⟨g, [], success⟩) = .ok ⟨g, [], success⟩ := rfl

/-- **A call with one message** returns if and only if `Send` takes it. -/
theorem carry_single : p.carry t (.ok ⟨g, [m], success⟩) =
    if p.Takes t m then .ok ⟨g, [m], success⟩ else .error .assertion := by
  rw [carry, ok_bind, sendAll]
  split_ifs with h
  · obtain ⟨s, hs⟩ := send_of_takes h
    rw [hs]
    rfl
  · rw [send_of_not_takes h]
    rfl

/-- What a call that is served does is what `processMessage` does. -/
theorem carry_eq_ok {call : Except Fault Result} {r : Result} (h : p.carry t call = .ok r) :
    call = .ok r := by
  cases call with
  | error f => cases h
  | ok r' =>
    rw [carry, ok_bind, bind_eq_ok] at h
    obtain ⟨s, -, h⟩ := h
    cases h
    rfl

/-- A text with which `Send` takes the message fits into its buffer. -/
theorem Takes.sprintf (h : p.Takes t m) : sprintf MaxMailSize m.data = .ok m.data := by
  refine sprintf_eq ?_
  have := length_data_le_wireText (p := p) (t := t) (m := m)
  have := h.2
  omega

/-! ## Room for the counter -/

/-- A text of at most 18 characters fits behind every counter. -/
theorem takes_of_short (h : m.data.length ≤ 18) :
    p.Takes t m ↔ 0 ≤ m.mailHdr.toBox ∧ m.mailHdr.toBox < Mail.numBoxes := by
  refine and_iff_left ?_
  have hcounter := (p.ints t.address m.dest).length_le
  rw [wireText]
  split_ifs
  · show _ < 32
    omega
  · rw [Mail.counterText, List.length_append, List.length_cons]
    show _ < 32
    omega

end Office

/-- The network thread of a client has a mailbox. -/
theorem clientBox_bounds {clientNum : ℤ} (h : 0 ≤ clientNum) :
    0 ≤ clientBox clientNum ∧ clientBox clientNum < Mail.numBoxes := by
  rw [clientBox_of_nonneg h]
  constructor
  · omega
  · show _ < (100 : ℤ)
    omega

/-- The number of a slot is short. -/
theorem length_slot_le {slot : ℕ} (h : slot < 100) : (fmtInt (slot : ℤ)).length ≤ 18 := by
  have := length_fmtInt_le_of_nonneg (n := (slot : ℤ)) (k := 2) (by norm_num) (by omega)
    (by norm_num; omega)
  omega

/-- So is what a server sends to another about a client, with up to 11 characters of
    numbers. -/
theorem length_clientText_le {type : RequestType} {clientNum : ℤ} {data : Text} (h0 : 0 ≤ clientNum)
    (h1 : clientNum < MAX_CLIENTS) (hdata : data.length ≤ 11) :
    (clientText type clientNum data).length ≤ 18 := by
  have htype : (fmtInt type.code).length ≤ 2 :=
    length_fmtInt_le_of_nonneg (by norm_num) type.code_bounds.1
      (by have := type.code_bounds.2; norm_num; omega)
  have hlength : (fmtInt clientNum).length ≤ 3 :=
    length_fmtInt_le_of_nonneg (by norm_num) h0 (by norm_num; exact h1)
  simp only [clientText, requestText, List.length_append, List.length_cons]
  omega

/-! ## Forwarding -/

namespace Call

variable (c : Call) (type : RequestType) (machine box clientNum : ℤ) (arguments : Text)

/-- The message of a forwarding branch. -/
def forwarded : Message :=
  outgoing c.t { c.e.outPktHdr with toMachine := machine } { toBox := box, fromBox := c.inMailHdr.fromBox }
    (forwardText type clientNum arguments)

variable {c type machine box clientNum arguments} {p : Office} {g : Globals}

/-- A request that `Send` takes is forwarded. -/
theorem carry_forward (h : p.Takes c.t (c.forwarded type machine box clientNum arguments)) :
    p.carry c.t (c.forward type machine box clientNum arguments g) =
      .ok ⟨g, [c.forwarded type machine box clientNum arguments], true⟩ := by
  have hbuffer : sprintf MaxMailSize (forwardText type clientNum arguments) = .ok _ := h.sprintf
  rw [forward, hbuffer, ok_bind]
  exact Office.carry_single.trans (if_pos h)

/-- Any other stops the server: in the buffer, or in `Send`. -/
theorem carry_forward_fault (h : ¬ p.Takes c.t (c.forwarded type machine box clientNum arguments)) :
    ∃ f, p.carry c.t (c.forward type machine box clientNum arguments g) = .error f := by
  rw [forward]
  cases hbuffer : sprintf MaxMailSize (forwardText type clientNum arguments) with
  | error f => exact ⟨f, rfl⟩
  | ok buffer =>
    rw [sprintf] at hbuffer
    split_ifs at hbuffer
    cases hbuffer
    exact ⟨.assertion, Office.carry_single.trans (if_neg h)⟩

end Call

end Nachos.Network
