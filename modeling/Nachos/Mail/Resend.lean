import Nachos.Mail.PostOffice
import Nachos.Threads.Synch

/-!
# The resending thread

One machine's list `unAckedMessages` and the threads that use it: callers of
`PostOffice::Send` (`network/post.cc`, lines 287-413), of `processAck` and of `Ack`
(`network/netcall.cc`, lines 84-180), and the thread that runs
`MsgResendInterruptHandler` (`threads/system.cc`, lines 103-136).

A context switch is possible at every operation on `unAckedMessagesLock` and at
the network, so what a thread does between two of these is one step. The
acknowledgements come from the network, which may delay and repeat them at will: any
thread may handle one at any time.

The machine keeps a record of what happens to messages, and of the places at which the
resending thread reads the list.
-/

namespace Nachos.Mail

open Nachos.Lib Nachos.Network Nachos.Threads

/-! ## The machine -/

/-- The thread that resends, and the other threads of the machine. -/
inductive KernelThread
  | resend
  | other (n : ℕ)
  deriving DecidableEq, Repr

/-- What an entry of `unAckedMessages` is found by. -/
abbrev Key := PacketHeader × MailHeader × Timeval

/-- `class UnAckedMessage` (network/unackedmessage.h). -/
structure UnAckedMessage where
  lastTimeSent : Timeval
  timeStamp : Timeval
  pktHdr : PacketHeader
  mailHdr : MailHeader
  data : Text
  deriving DecidableEq, Repr

/-- The five header fields and the time stamp. -/
def UnAckedMessage.key (u : UnAckedMessage) : Key := (u.pktHdr, u.mailHdr, u.timeStamp)

/-- The arguments of `Send`, which sets `pktHdr.from` itself. -/
structure Outgoing where
  toMachine : ℤ
  mailHdr : MailHeader
  timeStamp : Timeval
  data : Text
  doAck : Bool
  deriving DecidableEq, Repr

/-- The key of a message that the machine `netAddr` sends. -/
def Outgoing.key (netAddr : ℤ) (m : Outgoing) : Key := (⟨m.toMachine, netAddr⟩, m.mailHdr, m.timeStamp)

/-- Where a thread is that uses the list. In `send` and `erase` it has called
    `unAckedMessagesLock->Acquire()`, in `transmit` it is behind the `Release()` of
    `Send`. -/
inductive Task
  | send (m : Outgoing)
  | erase (key : Key)
  | transmit (m : Outgoing) (text : Text)
  deriving DecidableEq, Repr

/-- Where the resending thread is. In `call` it has evaluated the arguments of `Send`, in
    `send` it has called `Acquire()` a second time, and in `print` the `Send` has
    returned. -/
inductive ResendPhase
  | outside
  | acquire
  | test (i : ℕ) (currentTime : ℤ)
  | call (i : ℕ) (currentTime : ℤ) (m : Outgoing)
  | send (i : ℕ) (currentTime : ℤ) (m : Outgoing)
  | transmit (i : ℕ) (currentTime : ℤ) (m : Outgoing) (text : Text)
  | print (i : ℕ) (currentTime : ℤ)
  deriving DecidableEq, Repr

/-- What happens to a message that is to be acknowledged: it is sent for the first time
    or put into the list again, goes to the network, or an acknowledgement of it is
    handled. -/
inductive Happening
  | sent (key : Key)
  | transmitted (key : Key)
  | acked (key : Key)
  deriving DecidableEq, Repr

/-- A read of `unAckedMessages[index]` by the resending thread. -/
structure Read where
  held : Bool
  index : ℕ
  size : ℕ
  deriving DecidableEq, Repr

/-- A machine. `used` are the keys of all messages that have been passed to `Send` to
    be acknowledged. -/
structure Machine where
  unAckedMessagesLock : Lock KernelThread
  unAckedMessages : List UnAckedMessage
  sendCounters : KernelThread → Address → Option ℤ
  tasks : List (ℕ × Task)
  resend : ResendPhase
  used : List Key
  history : List Happening
  reads : List Read

/-- Nothing has been sent. -/
def Machine.init : Machine where
  unAckedMessagesLock := Lock.new
  unAckedMessages := []
  sendCounters _ _ := none
  tasks := []
  resend := .outside
  used := []
  history := []
  reads := []

/-- The thread `n` gets to another place. -/
def moved (tasks : List (ℕ × Task)) (n : ℕ) (task : Option Task) : List (ℕ × Task) :=
  (task.map (n, ·)).toList ++ tasks.filter (·.1 ≠ n)

namespace Machine

variable (s : Machine)

/-- A thread asks for the lock. -/
def acquire (t : KernelThread) : Machine :=
  { s with unAckedMessagesLock := s.unAckedMessagesLock.acquire t }

/-- A thread releases the lock. -/
def release (t : KernelThread) : Machine :=
  { s with unAckedMessagesLock := s.unAckedMessagesLock.release t }

/-- Where the thread `n` is, unless it does something else. -/
def task (n : ℕ) : Option Task := s.tasks.lookup n

/-- Move the thread `n`. -/
def setTask (n : ℕ) (task : Option Task) : Machine := { s with tasks := moved s.tasks n task }

/-- Record what happens to a message, if it is to be acknowledged. -/
def note (doAck : Bool) (happening : Happening) : Machine :=
  if doAck then { s with history := s.history ++ [happening] } else s

/-- The resending thread reads an entry. -/
def read (i : ℕ) : Machine :=
  { s with reads := s.reads ++
      [⟨s.unAckedMessagesLock.HeldBy .resend, i, s.unAckedMessages.length⟩] }

end Machine

/-! ## Send and acknowledgements -/

/-- The assertions at the start of `Send`. -/
def Outgoing.Legal (m : Outgoing) : Prop :=
  m.data.length + 1 ≤ MaxMailSize ∧ 0 ≤ m.mailHdr.toBox ∧ m.mailHdr.toBox < numBoxes

instance (m : Outgoing) : Decidable m.Legal := inferInstanceAs (Decidable (_ ∧ _ ∧ _))

/-- The counter of the thread's next message: 0 for the first one to a peer, -1 for an
    acknowledgement. -/
def counterOf (s : Machine) (t : KernelThread) (m : Outgoing) : ℤ :=
  if m.doAck then
    match s.sendCounters t (m.toMachine, m.mailHdr.toBox) with
    | none => 0
    | some counter => counter + 1
  else -1

/-- A message that is not in the list is put there, if it is to be acknowledged. -/
def Machine.append (netAddr : ℤ) (s : Machine) (t : KernelThread) (m : Outgoing) (text : Text) :
    Machine :=
  if m.doAck then
    { s with
      sendCounters := Function.update s.sendCounters t (Function.update (s.sendCounters t)
        (m.toMachine, m.mailHdr.toBox) (some (counterOf s t m)))
      unAckedMessages := s.unAckedMessages ++
        [⟨m.timeStamp, m.timeStamp, ⟨m.toMachine, netAddr⟩, m.mailHdr, text⟩] }
  else s

/-- The part of `Send` between `Acquire` and `Release` (post.cc:324-390), and the text
    that goes to the network. A message that is found in the list is taken for a
    resend. -/
def sendLocked (netAddr : ℤ) (s : Machine) (t : KernelThread) (m : Outgoing) (now : Timeval) :
    Except Fault (Machine × Text) :=
  match s.unAckedMessages.findIdx? (·.key = m.key netAddr) with
  | some i =>
    if m.data.length + 1 < MaxMailSize then
      .ok ({ s with
        unAckedMessages := s.unAckedMessages.modify i fun u => { u with lastTimeSent := now } }, m.data)
    else .error .assertion
  | none =>
    let text := counterText (counterOf s t m) m.data
    if text.length + 1 < MaxMailSize then
      .ok (s.append netAddr t m text, text)
    else .error .assertion

/-- `processAck` and the local branch of `Ack` between `Acquire` and `Release`. -/
def eraseLocked (s : Machine) (key : Key) : Machine :=
  { s with unAckedMessages := s.unAckedMessages.eraseP (·.key = key) }

/-- What threads call. -/
inductive Call
  | send (m : Outgoing)
  | processAck (inPktHdr : PacketHeader) (inMailHdr : MailHeader) (timeStamp : Timeval)
  | localAck (inPktHdr : PacketHeader) (inMailHdr : MailHeader) (timeStamp : Timeval)
  deriving DecidableEq, Repr

/-- `processAck` looks for the acknowledged message with `to` and `from` swapped, the
    local branch of `Ack` for the received message itself. -/
def Call.task : Call → Task
  | .send m => .send m
  | .processAck inPktHdr inMailHdr timeStamp =>
    .erase (⟨inPktHdr.fromMachine, inPktHdr.toMachine⟩, ⟨inMailHdr.fromBox, inMailHdr.toBox⟩, timeStamp)
  | .localAck inPktHdr inMailHdr timeStamp => .erase (inPktHdr, inMailHdr, timeStamp)

/-- A thread that is not in the midst of another call gets to the `Acquire()`. -/
def call (netAddr : ℤ) (s : Machine) (n : ℕ) (c : Call) : Except Fault Machine :=
  match s.task n, c with
  | some _, _ => .ok s
  | none, .send m =>
    if m.Legal then
      let used := if m.doAck then s.used ++ [m.key netAddr] else s.used
      .ok (({ s with used := used }.acquire (.other n)).setTask n (some (.send m)))
    else .error .assertion
  | none, c => .ok ((s.acquire (.other n)).setTask n (some c.task))

/-- The thread `n` goes on to its next context switch. As long as another thread has the
    lock it sleeps. -/
def run (netAddr : ℤ) (s : Machine) (n : ℕ) (now : Timeval) : Except Fault Machine :=
  match s.task n with
  | none => .ok s
  | some (.send m) =>
    if s.unAckedMessagesLock.HeldBy (.other n) then do
      let (s, text) ← sendLocked netAddr s (.other n) m now
      return ((s.note m.doAck (.sent (m.key netAddr))).release (.other n)).setTask n
        (some (.transmit m text))
    else .ok s
  | some (.erase key) =>
    if s.unAckedMessagesLock.HeldBy (.other n) then
      .ok ((((eraseLocked s key).note true (.acked key)).release (.other n)).setTask n none)
    else .ok s
  | some (.transmit m _) => .ok ((s.note m.doAck (.transmitted (m.key netAddr))).setTask n none)

/-! ## The resending thread -/

/-- `ResendTimeout` (system.cc:105), in seconds. -/
abbrev ResendTimeout : ℤ := 2

/-- The entry has not been sent for too long. -/
def UnAckedMessage.Due (u : UnAckedMessage) (currentTime : ℤ) : Prop :=
  currentTime - u.lastTimeSent.sec > ResendTimeout

instance (u : UnAckedMessage) (currentTime : ℤ) : Decidable (u.Due currentTime) :=
  inferInstanceAs (Decidable (_ > _))

/-- The arguments with which an entry is sent again. -/
def UnAckedMessage.again (u : UnAckedMessage) : Outgoing :=
  ⟨u.pktHdr.toMachine, u.mailHdr, u.timeStamp, u.data, true⟩

/-- The resending thread (system.cc:103) goes on to its next context switch. The
    `printf` behind `Send` reads the entry again, without a test of the index. -/
def resendStep (netAddr : ℤ) (s : Machine) (now : Timeval) : Except Fault Machine :=
  match s.resend with
  | .outside => .ok { s.acquire .resend with resend := .acquire }
  | .acquire =>
    if s.unAckedMessagesLock.HeldBy .resend then .ok { s with resend := .test 0 now.sec } else .ok s
  | .test i currentTime =>
    match s.unAckedMessages[i]? with
    | none => .ok { s.release .resend with resend := .outside }
    | some u =>
      if u.Due currentTime then
        if u.again.Legal then .ok { s.read i with resend := .call i currentTime u.again }
        else .error .assertion
      else .ok { s.read i with resend := .test (i + 1) currentTime }
  | .call i currentTime m => .ok { s.acquire .resend with resend := .send i currentTime m }
  | .send i currentTime m =>
    if s.unAckedMessagesLock.HeldBy .resend then do
      let putBack := m.doAck ∧ m.key netAddr ∉ s.unAckedMessages.map (·.key)
      let (s, text) ← sendLocked netAddr s .resend m now
      return { (s.note putBack (.sent (m.key netAddr))).release .resend with
        resend := .transmit i currentTime m text }
    else .ok s
  | .transmit i currentTime m _ =>
    .ok { s.note m.doAck (.transmitted (m.key netAddr)) with resend := .print i currentTime }
  | .print i currentTime => .ok { s.read i with resend := .test (i + 1) currentTime }

/-! ## Runs -/

/-- A thread calls one of the functions, or some thread goes on; `now` is the time that
    it finds. -/
inductive ResendEvent
  | call (n : ℕ) (c : Call)
  | run (n : ℕ) (now : Timeval)
  | resend (now : Timeval)
  deriving DecidableEq, Repr

/-- A step of the machine. -/
def machineStep (netAddr : ℤ) (s : Machine) : ResendEvent → Except Fault Machine
  | .call n c => call netAddr s n c
  | .run n now => run netAddr s n now
  | .resend now => resendStep netAddr s now

end Nachos.Mail
