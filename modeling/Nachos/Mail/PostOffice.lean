import Nachos.Network.Text

/-!
# The post office

`PostOffice::Send` and `PostOffice::Receive` (`network/post.cc`, lines 280-510), the
thread that resends messages which have not been acknowledged
(`MsgResendInterruptHandler`, `threads/system.cc`) and the removal of
acknowledged ones (`processAck` and `Ack`, `network/netcall.cc`).

The network keeps every packet that has been transmitted, and a packet arrives by
being chosen among them. So a packet may be lost, delayed, overtaken or delivered
again, but never changed. Left out: `lastTimeSent`, which only delays a resend, and
the locks, which make `Send` atomic.
-/

namespace Nachos.Mail

open Nachos.Lib Nachos.Network

/-- A machine and a mailbox; the thread that reads the mailbox. -/
abbrev Address := ℤ × ℤ

/-- The number of mailboxes (`system.cc`: `new PostOffice(netname, rely, 100)`). -/
abbrev numBoxes : ℕ := 100

/-- A packet on the wire, and an entry of `unAckedMessages`. The text begins with the
    counter. `origin` is no part of the packet: it is the thread that has sent the
    message and the number that `Send` gave it, if any. -/
structure Packet where
  pktHdr : PacketHeader
  mailHdr : MailHeader
  timeStamp : Timeval
  text : Text
  origin : Option (Address × ℤ)
  deriving DecidableEq, Repr

namespace Packet

variable (p : Packet)

/-- The mailbox that the packet is for. -/
def dest : Address := (p.pktHdr.toMachine, p.mailHdr.toBox)

/-- The sender that the headers name. -/
def label : Address := (p.pktHdr.fromMachine, p.mailHdr.fromBox)

/-- What an entry of `unAckedMessages` is found by. -/
def key : PacketHeader × MailHeader × Timeval := (p.pktHdr, p.mailHdr, p.timeStamp)

end Packet

/-- The post offices of all machines and the network between them. The vectors of
    `ThreadCounterEntry` are maps from peers to counters; `returned` are the packets
    that `Receive` has returned. -/
structure PostState where
  unAckedMessages : ℤ → List Packet
  sendCounters : Address → Address → Option ℤ
  receiveCounters : Address → Address → Option ℤ
  transmitted : List Packet
  returned : Address → List Packet

/-- No thread has sent anything. -/
def PostState.init : PostState where
  unAckedMessages _ := []
  sendCounters _ _ := none
  receiveCounters _ _ := none
  transmitted := []
  returned _ := []

/-! ## Send -/

/-- `"%d_%s"`: the counter in front of the data. -/
def counterText (counter : ℤ) (data : Text) : Text := fmtInt counter ++ '_' :: data

/-- The counter of the next message from `thread` to `peer`: 0 for the first one. -/
def nextCounter (s : PostState) (thread peer : Address) : ℤ :=
  match s.sendCounters thread peer with
  | none => 0
  | some counter => counter + 1

/-- Replace the counter of `thread` for `peer`. -/
def setCounter (counters : Address → Address → Option ℤ) (thread peer : Address)
    (counter : Option ℤ) : Address → Address → Option ℤ :=
  Function.update counters thread (Function.update (counters thread) peer counter)

theorem setCounter_apply {counters : Address → Address → Option ℤ} {thread peer thread' peer' : Address}
    {counter : Option ℤ} : setCounter counters thread peer counter thread' peer' =
      if thread' = thread ∧ peer' = peer then counter else counters thread' peer' := by
  rw [setCounter, Function.update_apply]
  split_ifs with hthread hboth hboth
  · rw [hboth.2, Function.update_self]
  · rw [Function.update_of_ne fun hpeer => hboth ⟨hthread, hpeer⟩, hthread]
  · exact absurd hboth.1 hthread
  · rfl

/-- `PostOffice::Send` (post.cc:288), called by `thread`. A message that is found in
    `unAckedMessages` by its headers and time stamp is taken for a resend: its data
    goes out as it is, and `resent` says what message that is. -/
def send (s : PostState) (thread : Address) (toMachine : ℤ) (mailHdr : MailHeader)
    (timeStamp : Timeval) (data : Text) (doAck : Bool) (resent : Option (Address × ℤ)) :
    Except Fault PostState :=
  let pktHdr : PacketHeader := { toMachine, fromMachine := thread.1 }
  let unAcked := s.unAckedMessages thread.1
  if data.length + 1 ≤ MaxMailSize ∧ 0 ≤ mailHdr.toBox ∧ mailHdr.toBox < numBoxes then
    if unAcked.any (·.key = (pktHdr, mailHdr, timeStamp)) then
      if data.length + 1 < MaxMailSize then
        .ok { s with transmitted := s.transmitted ++ [⟨pktHdr, mailHdr, timeStamp, data, resent⟩] }
      else .error .assertion
    else
      let peer : Address := (toMachine, mailHdr.toBox)
      let counter := if doAck then nextCounter s thread peer else -1
      let packet : Packet := ⟨pktHdr, mailHdr, timeStamp, counterText counter data,
        if doAck then some (thread, counter) else none⟩
      if packet.text.length + 1 < MaxMailSize then
        if doAck then
          .ok { s with
            unAckedMessages := Function.update s.unAckedMessages thread.1 (unAcked ++ [packet])
            sendCounters := setCounter s.sendCounters thread peer (some counter)
            transmitted := s.transmitted ++ [packet] }
        else .ok { s with transmitted := s.transmitted ++ [packet] }
      else .error .assertion
  else .error .assertion

/-- The resending thread (system.cc:103) sends an entry again. -/
def resend (s : PostState) (machine : ℤ) (i : ℕ) : Except Fault PostState :=
  match (s.unAckedMessages machine)[i]? with
  | none => .ok s
  | some p => send s (machine, p.mailHdr.fromBox) p.pktHdr.toMachine p.mailHdr p.timeStamp p.text true
      p.origin

/-- `processAck` and the local branch of `Ack` (netcall.cc:81, 117) erase the first
    entry with the headers and the time stamp of an acknowledged message. -/
def acknowledge (s : PostState) (machine : ℤ) (key : PacketHeader × MailHeader × Timeval) : PostState :=
  let unAcked := (s.unAckedMessages machine).eraseP (·.key = key)
  { s with unAckedMessages := Function.update s.unAckedMessages machine unAcked }

/-! ## Receive -/

/-- What the loop of `Receive` does with the counter of a packet from a peer whose
    counter is `entry`: whether it returns, and the counter afterwards. A packet from a
    known peer is returned whatever its counter is. -/
def accept (entry : Option ℤ) (counter : ℤ) : Bool × Option ℤ :=
  match entry with
  | some c =>
    if 0 ≤ counter then (true, some (if c + 1 = counter then c + 1 else c))
    else (true, some c)
  | none =>
    if counter = 0 then (true, some 0)
    else (counter < 0, none)

/-- Without a counter for the peer the first message is returned, besides
    acknowledgements. -/
theorem accept_success {entry : Option ℤ} {counter : ℤ} (h : (accept entry counter).1) :
    counter ≤ 0 ∨ ∃ c, entry = some c := by
  cases entry with
  | none =>
    rw [accept] at h
    split_ifs at h with hzero
    · exact Or.inl hzero.le
    · exact Or.inl (by simpa using h : counter < 0).le
  | some c => exact Or.inr ⟨c, rfl⟩

/-- The counter for the peer stays, or becomes that of a packet that is returned and
    has the next number. -/
theorem accept_entry {entry : Option ℤ} {counter c : ℤ} (h : c ∈ (accept entry counter).2) :
    c ∈ entry ∨ (accept entry counter).1 ∧ c = counter ∧
      (entry = none ∧ counter = 0 ∨ ∃ c' ∈ entry, counter = c' + 1) := by
  cases entry with
  | none =>
    rw [accept] at h ⊢
    split_ifs at h ⊢ with hzero
    · cases h
      exact Or.inr ⟨rfl, hzero.symm, Or.inl ⟨rfl, hzero⟩⟩
    · cases h
  | some c' =>
    rw [accept] at h ⊢
    split_ifs at h ⊢ with hcounter hnext
    · cases h
      exact Or.inr ⟨rfl, hnext, Or.inr ⟨c', rfl, hnext.symm⟩⟩
    · exact Or.inl h
    · exact Or.inl h

/-- One iteration of `PostOffice::Receive` (post.cc:431) on a packet, by the thread
    whose mailbox it is for. -/
def receive (s : PostState) (p : Packet) : Except Fault PostState := do
  let (counter, _) ← parseValue 0 (bytes p.text)
  let (success, entry) := accept (s.receiveCounters p.dest p.label) counter
  let receiveCounters := setCounter s.receiveCounters p.dest p.label entry
  let returned :=
    if success then Function.update s.returned p.dest (s.returned p.dest ++ [p]) else s.returned
  return { s with receiveCounters, returned }

/-! ## Runs -/

/-- What happens at a post office. -/
inductive MailEvent
  | send (thread : Address) (toMachine : ℤ) (mailHdr : MailHeader) (timeStamp : Timeval) (data : Text)
    (doAck : Bool)
  | resend (machine : ℤ) (i : ℕ)
  | acknowledge (machine : ℤ) (key : PacketHeader × MailHeader × Timeval)
  | receive (n : ℕ)

/-- A thread sends, a message is sent again or erased, or the `n`-th packet that has
    been transmitted is received. -/
def mailStep (s : PostState) : MailEvent → Except Fault PostState
  | .send thread toMachine mailHdr timeStamp data doAck =>
    send s thread toMachine mailHdr timeStamp data doAck none
  | .resend machine i => resend s machine i
  | .acknowledge machine key => .ok (acknowledge s machine key)
  | .receive n =>
    match s.transmitted[n]? with
    | none => .ok s
    | some p => receive s p

end Nachos.Mail
