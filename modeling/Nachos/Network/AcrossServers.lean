import Nachos.Network.ConditionVariables
import Nachos.Network.Grants
import Nachos.Network.Sending
import Nachos.Network.Syscalls

/-!
# A lock and a condition variable of two servers

`WAIT`, `SIGNAL` and `BROADCAST` with the lock at one server and the condition variable at
another one: the request, the message that it causes between the two, and the response
(`network/netcall.cc`, lines 1560-1686, 1742-1870, 1922-2076, 2708-2742 and 2851-2992). A fault of a
server that processes or sends one of them ends the exchange.

* `across_like_local_iff`: the three messages do what the local operation does exactly where it
  would wake nobody and no server stops; `WAIT` never does.
* `signal_returns_iff`: the exact condition under which every server returns from a `SIGNAL`.
* `wait_across`: a `WAIT` whose response stops a server.
-/

namespace Nachos.Network

open Nachos.Lib

/-! ## Several servers -/

/-- The globals of each machine's process, which its network threads share. -/
abbrev World := ℕ → Globals

namespace World

variable (w : World) (group : List NetThread) (t : NetThread) (e : Ambient) (x : Office)

/-- A network thread processes a message, and what the call sends is sent. -/
def process (m : Message) : Except Fault (World × List Message) := do
  let r ← serve ⟨t, e, m.pktHdr, m.mailHdr⟩ x m.data group (w t.machineID)
  return (Function.update w t.machineID r.state, r.out)

/-- The messages for network threads are processed, one after the other: what they cause. No
    network thread reads the others. -/
def deliver (w : World) : List Message → Except Fault (World × List Message)
  | [] => .ok (w, [])
  | m :: ms =>
    match group.find? (·.address = m.dest) with
    | none => deliver w ms
    | some t => do
      let (w, out) ← w.process group t e x m
      let (w, out') ← deliver w ms
      return (w, out ++ out')

end World

/-- A request at `t`, the messages that it causes, and those that they cause. -/
def exchange (group : List NetThread) (e : ℕ → Ambient) (x : ℕ → Office) (t : NetThread) (m : Message)
    (w : World) : Except Fault World := do
  let (w, ms) ← w.process group t (e 0) (x 0) m
  let (w, ms) ← w.deliver group (e 1) (x 1) ms
  let (w, _) ← w.deliver group (e 2) (x 2) ms
  return w

/-! ## The property -/

/-- The operations on a lock and a condition variable. -/
inductive MonitorOp
  | wait | signal | broadcast
  deriving DecidableEq, Repr

/-- The request type. -/
def MonitorOp.type : MonitorOp → RequestType
  | wait => .wait
  | signal => .signal
  | broadcast => .broadcast

/-- A lock in a slot at server `a`, and a condition variable in a slot at server `b`. -/
structure Pair where
  a : NetThread
  lockSlot : ℕ
  b : NetThread
  cvSlot : ℕ

namespace Pair

variable (p : Pair)

/-- The id of the lock. -/
def lockId : ℤ := p.a.globalId MAX_DLOCK p.lockSlot

/-- The id of the condition variable. -/
def cvId : ℤ := p.b.globalId MAX_DCV p.cvSlot

/-- The server at which an operation starts. -/
def start : MonitorOp → NetThread
  | .wait => p.a
  | .signal | .broadcast => p.b

/-- The request of a client, as it arrives at that server. -/
def request (op : MonitorOp) (o : Origin) : Message :=
  let c := o.call (p.start op) (.clear ⟨0, 0⟩)
  ⟨c.inPktHdr, c.inMailHdr, o.text op.type (pairText p.cvId p.lockId)⟩

end Pair

/-- The clients that wait for the condition variable in a slot. -/
def waitersOf (g : Globals) (slot : ℕ) : List ℤ :=
  match g.cvs slot with
  | some cv => cv.waitQueue.map Message.client
  | none => []

/-- **Exactly the first clients are woken**: nobody else is taken off a condition variable. -/
def Wakes (p : Pair) (n : ℕ) (w w' : World) : Prop :=
  ∀ machine slot, waitersOf (w' machine) slot =
    if machine = p.b.machineID ∧ slot = p.cvSlot then (waitersOf (w machine) slot).drop n
    else waitersOf (w machine) slot

/-- **As with a local lock and a local condition variable**: every server returns, `WAIT` queues the
    client, releases the lock once and records its id, and the other two wake the clients that wait
    with that lock. -/
def LikeLocal (p : Pair) (op : MonitorOp) (client : ℤ) (w : World) (result : Except Fault World) : Prop :=
  ∃ lock cv, (w p.a.machineID).dlocks p.lockSlot = some lock ∧
    (w p.b.machineID).cvs p.cvSlot = some cv ∧ Gives result fun w' =>
    match op with
    | .wait => ∃ lock' cv', (w' p.a.machineID).dlocks p.lockSlot = some lock' ∧
        (w' p.b.machineID).cvs p.cvSlot = some cv' ∧
        lock'.toMutex = lock.toMutex.release ∧
        cv'.waitQueue.map Message.client = cv.waitQueue.map Message.client ++ [client] ∧
        cv'.firstLock = if cv.waitQueue = [] then p.lockId else cv.firstLock
    | .signal => Wakes p (if cv.firstLock = p.lockId then 1 else 0) w w'
    | .broadcast => Wakes p (if cv.firstLock = p.lockId then cv.waitQueue.length else 0) w w'

/-! ## Where a `SIGNAL` ends -/

section

variable (group : List NetThread) (w : World) (p : Pair) (mailHdr : MailHeader) (c : ℕ)

/-- The `SIGNALLOCK` for the request of client `c`, which came from the mailbox in `mailHdr`. -/
def Pair.signalLock (e : Ambient) : Message :=
  outgoing p.b { e.outPktHdr with toMachine := p.a.uniqueGlobalID }
    { toBox := p.a.uniqueGlobalID, fromBox := mailHdr.fromBox }
    (clientText .signalLock c (fmtInt (p.lockId + p.b.uniqueGlobalID * MAX_DLOCK)))

/-- The client for whom it is processed: without a prefix its headers decide. -/
def Pair.sender : ℤ := 100 * p.b.machineID + mailHdr.fromBox - 1

/-- The thread `t` returns from the `SIGNALRESPONSE` of the thread whose machine and mailbox have the
    number of the lock's server: the client that its headers give is in the range of the array, and
    what is pending for it is the slot of a condition variable. -/
def ResponseEnds (t : NetThread) : Prop :=
  let client := 101 * p.a.uniqueGlobalID - 1
  let pending := if t.machineID = p.b.machineID ∧ client = c then p.cvId
    else (w t.machineID).waitingForSignalCvs client.toNat
  (0 ≤ client ∧ client < MAX_CLIENTS) ∧ (0 ≤ pending ∧ pending < MAX_DCV) ∧
    (w t.machineID).cvs pending.toNat ≠ none

/-- **Every server returns** from a `SIGNAL` that has been forwarded: an id is refused; or the
    `SIGNALLOCK` has a mailbox, and it finds no network thread, or its answer has a mailbox and finds
    no network thread, or one that returns. -/
def SignalEnds : Prop :=
  p.a.uniqueGlobalID < MAX_NUM_GLOBAL_IDS → p.b.uniqueGlobalID < MAX_NUM_GLOBAL_IDS →
    p.a.uniqueGlobalID < Mail.numBoxes ∧
      ∀ t ∈ group.find? (·.address = (p.a.uniqueGlobalID, p.a.uniqueGlobalID)),
        0 ≤ clientBox (p.sender mailHdr) ∧
          ∀ t' ∈ group.find? (·.address = clientAddress (p.sender mailHdr)), ResponseEnds w p c t'

end

/-! ## What stays -/

section

variable {w w' : World} {group : List NetThread} {t : NetThread} {e : Ambient} {x : Office} {m : Message}
  {ms out : List Message}

/-- A message that is processed without a fault. -/
theorem World.process_eq_ok (h : w.process group t e x m = .ok (w', out)) :
    ∃ r, processMessage ⟨t, e, m.pktHdr, m.mailHdr⟩ m.data group (w t.machineID) = .ok r ∧
      w' = Function.update w t.machineID r.state ∧ out = r.out := by
  obtain ⟨r, hr, h⟩ := bind_eq_ok.mp h
  cases h
  exact ⟨r, Office.carry_eq_ok hr, rfl, rfl⟩

/-- Something of the globals that the processing of one message keeps. -/
theorem World.process_keeps {α : Type*} {f : Globals → α} (hp : w.process group t e x m = .ok (w', out))
    (h : ∀ r, processMessage ⟨t, e, m.pktHdr, m.mailHdr⟩ m.data group (w t.machineID) = .ok r →
      f r.state = f (w t.machineID)) (machine : ℕ) : f (w' machine) = f (w machine) := by
  obtain ⟨r, hr, rfl, -⟩ := process_eq_ok hp
  rw [Function.update_apply]
  split_ifs with hmachine
  · rw [h r hr, hmachine]
  · rfl

/-- At most one message is delivered: nobody reads it, or one thread processes it. -/
theorem World.deliver_cases {Q : Message → Prop} (hms : ms = [] ∨ ∃ m, ms = [m] ∧ Q m)
    (hd : w.deliver group e x ms = .ok (w', out)) :
    w' = w ∧ out = [] ∨ ∃ m t, Q m ∧ w.process group t e x m = .ok (w', out) := by
  obtain rfl | ⟨m, rfl, hm⟩ := hms
  · cases hd
    exact Or.inl ⟨rfl, rfl⟩
  · rw [deliver] at hd
    split at hd
    · cases hd
      exact Or.inl ⟨rfl, rfl⟩
    · next t _ =>
      obtain ⟨⟨w₁, out₁⟩, hprocess, hd⟩ := bind_eq_ok.mp hd
      cases hd
      exact Or.inr ⟨m, t, hm, by rw [hprocess, List.append_nil]⟩

/-- Something that the processing of such a message keeps. -/
theorem World.deliver_keeps {α : Type*} {f : Globals → α} {Q : Message → Prop}
    (hms : ms = [] ∨ ∃ m, ms = [m] ∧ Q m) (hd : w.deliver group e x ms = .ok (w', out))
    (h : ∀ t m r, Q m →
      processMessage ⟨t, e, m.pktHdr, m.mailHdr⟩ m.data group (w t.machineID) = .ok r →
        f r.state = f (w t.machineID)) (machine : ℕ) : f (w' machine) = f (w machine) := by
  obtain ⟨rfl, -⟩ | ⟨m, t, hm, hp⟩ := deliver_cases hms hd
  · rfl
  · exact process_keeps hp (fun r hr => h t m r hm hr) machine

/-- What it causes. -/
theorem World.deliver_out {Q Q' : Message → Prop} (hms : ms = [] ∨ ∃ m, ms = [m] ∧ Q m)
    (hd : w.deliver group e x ms = .ok (w', out))
    (h : ∀ t m r, Q m →
      processMessage ⟨t, e, m.pktHdr, m.mailHdr⟩ m.data group (w t.machineID) = .ok r →
        r.out = [] ∨ ∃ m', r.out = [m'] ∧ Q' m') : out = [] ∨ ∃ m', out = [m'] ∧ Q' m' := by
  obtain ⟨-, rfl⟩ | ⟨m, t, hm, hp⟩ := deliver_cases hms hd
  · exact Or.inl rfl
  · obtain ⟨r, hr, -, rfl⟩ := process_eq_ok hp
    exact h t m r hm hr

/-- An exchange that ends, message by message. -/
theorem exchange_eq_ok {e : ℕ → Ambient} {x : ℕ → Office} (h : exchange group e x t m w = .ok w') :
    ∃ w₁ ms₁ w₂ ms₂ out, w.process group t (e 0) (x 0) m = .ok (w₁, ms₁) ∧
      w₁.deliver group (e 1) (x 1) ms₁ = .ok (w₂, ms₂) ∧
      w₂.deliver group (e 2) (x 2) ms₂ = .ok (w', out) := by
  obtain ⟨⟨w₁, ms₁⟩, h₁, h⟩ := bind_eq_ok.mp h
  obtain ⟨⟨w₂, ms₂⟩, h₂, h⟩ := bind_eq_ok.mp h
  obtain ⟨⟨w₃, out⟩, h₃, h⟩ := bind_eq_ok.mp h
  cases h
  exact ⟨w₁, ms₁, w₂, ms₂, out, h₁, h₂, h₃⟩

end

/-! ## The messages of a `WAIT` -/

section

variable {t : NetThread} {e : Ambient} {group : List NetThread} {g : Globals} {r : Result}

/-- The type of a message, and the text behind it. -/
def Message.Reads (type : RequestType) (P : Text → Prop) (m : Message) : Prop :=
  ∃ s, m.data = requestText type s ∧ P s

/-- A request with two ids that is processed is handled for its client. -/
theorem request_eq_ok {p : Pair} {op : MonitorOp} {o : Origin}
    (h : processMessage ⟨t, e, (p.request op o).pktHdr, (p.request op o).mailHdr⟩
      (p.request op o).data group g = .ok r) (ht : t = p.start op) :
    dispatch (o.call t e) group op.type (o.body (pairText p.cvId p.lockId)) g = .ok r := by
  have hcount := serverCount_of_processMessage h
  subst ht
  have hcall : (⟨p.start op, e, (p.request op o).pktHdr, (p.request op o).mailHdr⟩ : Call) =
      o.call (p.start op) e := by
    cases o <;> rfl
  rw [hcall] at h
  rwa [Pair.request, Origin.text, processMessage_requestText _ _ _ hcount] at h

/-- A request with two ids is processed as the syscall of its client. -/
theorem Pair.processMessage_request (p : Pair) (op : MonitorOp) {o : Origin} {s : Syscall}
    (htype : s.type = op.type) (hargs : s.arguments = pairText p.cvId p.lockId)
    (ho : o.client < MAX_CLIENTS) (hlegal : s.Legal) (hcreate : ∀ k name, s ≠ .create k name)
    (hsignal : s.type = .signal → o.Forwarded) (hcount : g.serverCount = group.length) :
    processMessage ⟨p.start op, e, (p.request op o).pktHdr, (p.request op o).mailHdr⟩
        (p.request op o).data group g =
      s.perform (o.call (p.start op) e) (o.readClient e s) group g := by
  have hcall : (⟨p.start op, e, (p.request op o).pktHdr, (p.request op o).mailHdr⟩ : Call) =
      o.call (p.start op) e := by
    cases o <;> rfl
  rw [hcall, Pair.request, Origin.text, processMessage_requestText _ _ _ hcount, ← htype, ← hargs]
  exact dispatch_origin ho hlegal hcreate hsignal

/-- Whom a request is handled for. -/
theorem twoArguments_eq_ok {o : Origin} {type : RequestType} {machine : ℤ → ℤ → ℤ} {box : ℤ → ℤ}
    {handle : ℤ → ℤ → ℤ → Globals → Except Fault Result} {a b : ℤ}
    (h : (do
      let args ← readTwo 5 [] (o.call t e).client (o.body (pairText a b))
      (o.call t e).twoArguments type machine box handle args g) = .ok r)
    (hown : machine a b = t.uniqueGlobalID) : handle a b o.client g = .ok r := by
  obtain ⟨args, hread, h⟩ := bind_eq_ok.mp h
  obtain rfl := o.readTwo_eq_ok hread
  simp only [Call.twoArguments, atoi_fmtInt, Origin.call_t, hown, ne_eq, not_true_eq_false,
    if_false] at h
  exact h

end

section

variable {e : Ambient} {group : List NetThread} {g : Globals} {r : Result} {p : Pair} {o : Origin}
  (hlockSlot : p.lockSlot < MAX_DLOCK) (hcvSlot : p.cvSlot < MAX_DCV)
  (hne : p.a.uniqueGlobalID ≠ p.b.uniqueGlobalID)

include hlockSlot hcvSlot hne

/-- **`WAIT`** leaves the locks alone, and sends a `WAITCV` if anything. -/
theorem wait_sends
    (h : processMessage ⟨p.a, e, (p.request .wait o).pktHdr, (p.request .wait o).mailHdr⟩
      (p.request .wait o).data group g = .ok r) :
    r.state.dlocks = g.dlocks ∧
      (r.out = [] ∨ ∃ m, r.out = [m] ∧ m.Reads .waitCv fun _ => True) := by
  have hdispatch := request_eq_ok h rfl
  have hlock : p.lockId.tdiv MAX_DLOCK = p.a.uniqueGlobalID := p.a.globalId_tdiv hlockSlot
  have hcv : p.cvId.tdiv MAX_DCV = p.b.uniqueGlobalID := p.b.globalId_tdiv hcvSlot
  have hwait := twoArguments_eq_ok hdispatch hlock
  simp only [Origin.call_t] at hwait
  rw [wait, if_neg (c := _ ∧ _) (by rw [hcv]; exact fun h => hne h.2.symm)] at hwait
  split_ifs at hwait
  · cases hwait
    exact ⟨rfl, Or.inl rfl⟩
  · cases hwait
    exact ⟨rfl, Or.inl rfl⟩
  · simp only at hwait
    split at hwait
    · cases hwait
      exact ⟨rfl, Or.inl rfl⟩
    · split_ifs at hwait
      · cases hwait
        exact ⟨rfl, Or.inl rfl⟩
      · obtain ⟨i, -, hwait⟩ := bind_eq_ok.mp hwait
        cases hwait
        exact ⟨rfl, Or.inr ⟨_, rfl, _, rfl, trivial⟩⟩

end

section

variable {t : NetThread} {e : Ambient} {group : List NetThread} {g : Globals} {r : Result}
  {m : Message}

/-- What a message that is processed is dispatched to. -/
theorem Message.Reads.dispatch {type : RequestType} {P : Text → Prop} (hm : m.Reads type P)
    (h : processMessage ⟨t, e, m.pktHdr, m.mailHdr⟩ m.data group g = .ok r) :
    ∃ s, P s ∧ Network.dispatch ⟨t, e, m.pktHdr, m.mailHdr⟩ group type s g = .ok r := by
  have hcount := serverCount_of_processMessage h
  obtain ⟨s, hdata, hs⟩ := hm
  rw [hdata, processMessage_requestText _ _ _ hcount] at h
  exact ⟨s, hs, h⟩

/-- **`WAITCV`** leaves the locks alone, and is answered without a prefix. -/
theorem waitCV_sends (hm : m.Reads .waitCv fun _ => True)
    (h : processMessage ⟨t, e, m.pktHdr, m.mailHdr⟩ m.data group g = .ok r) :
    r.state.dlocks = g.dlocks ∧
      (r.out = [] ∨ ∃ m, r.out = [m] ∧ m.Reads .waitResponse fun s => s.head? ≠ some '_') := by
  obtain ⟨s, -, h⟩ := hm.dispatch h
  simp only [dispatch, Call.waitCV] at h
  obtain ⟨args, -, h⟩ := bind_eq_ok.mp h
  obtain ⟨slot, -, h⟩ := bind_eq_ok.mp h
  split at h
  · cases h
    exact ⟨rfl, Or.inr ⟨_, rfl, _, rfl, pairText_head? _ _⟩⟩
  · obtain ⟨ack, -, h⟩ := bind_eq_ok.mp h
    cases h
    exact ⟨rfl, Or.inr ⟨_, rfl, _, rfl, pairText_head? _ _⟩⟩

/-- **`WAITRESPONSE`** without a prefix stops the server. -/
theorem waitResponse_stops (hm : m.Reads .waitResponse fun s => s.head? ≠ some '_') :
    processMessage ⟨t, e, m.pktHdr, m.mailHdr⟩ m.data group g ≠ .ok r := by
  intro h
  obtain ⟨s, hs, h⟩ := hm.dispatch h
  simp only [dispatch, Call.waitResponse, if_pos hs] at h
  cases h

/-! ## The messages of a `SIGNAL` and a `BROADCAST` -/

/-- **`SIGNALLOCK`** changes nothing, and is answered with the address of an array. -/
theorem signalLock_sends (hm : m.Reads .signalLock fun _ => True)
    (h : processMessage ⟨t, e, m.pktHdr, m.mailHdr⟩ m.data group g = .ok r) :
    r.state = g ∧ (r.out = [] ∨ ∃ m, r.out = [m] ∧
      m.Reads .signalResponse fun s => ∃ id, s = pairText e.client id) := by
  obtain ⟨s, -, h⟩ := hm.dispatch h
  simp only [dispatch, Call.signalLock] at h
  obtain ⟨args, -, h⟩ := bind_eq_ok.mp h
  obtain ⟨slot, -, h⟩ := bind_eq_ok.mp h
  split at h
  · cases h
    exact ⟨rfl, Or.inr ⟨_, rfl, _, rfl, _, rfl⟩⟩
  · cases h
    exact ⟨rfl, Or.inr ⟨_, rfl, _, rfl, _, rfl⟩⟩

/-- Only the recorded lock of a condition variable changes. -/
theorem waitersOf_setCv {slot : ℕ} {cv cv' : DistributedCV} (hcv : g.cvs slot = some cv)
    (hqueue : cv'.waitQueue = cv.waitQueue) :
    waitersOf (g.setCv slot (some cv')) = waitersOf g := by
  funext slot'
  rw [waitersOf, waitersOf, Globals.setCv_cvs, Function.update_apply]
  split_ifs with hslot
  · subst hslot
    rw [hcv]
    simp only [hqueue]
  · rfl

/-- **`SIGNALRESPONSE`** wakes nobody where the address is not taken for the recorded lock. -/
theorem signalResponse_wakes_nobody {pointer : ℤ}
    (hpointer : ∀ slot cv, g.cvs slot = some cv → cv.firstLock ≠ pointer)
    (hm : m.Reads .signalResponse fun s => ∃ id, s = pairText pointer id)
    (h : processMessage ⟨t, e, m.pktHdr, m.mailHdr⟩ m.data group g = .ok r) :
    waitersOf r.state = waitersOf g := by
  obtain ⟨s, ⟨id, rfl⟩, h⟩ := hm.dispatch h
  simp only [dispatch, Call.signalResponse] at h
  obtain ⟨⟨clientNum, buf⟩, hread, h⟩ := bind_eq_ok.mp h
  have hne : pairText pointer id ≠ [] := List.append_ne_nil_of_left_ne_nil (fmtInt_ne_nil pointer) _
  rw [readOne_direct_eq _ hne (pairText_head? _ _)] at hread
  split_ifs at hread
  cases hread
  have hatoi : atoi (pairText pointer id) = pointer := atoi_fmtInt_append pointer (by simp)
  simp only [hatoi] at h
  split_ifs at h
  · cases h
    rfl
  · obtain ⟨i, -, h⟩ := bind_eq_ok.mp h
    obtain ⟨ack, -, h⟩ := bind_eq_ok.mp h
    obtain ⟨slot, -, h⟩ := bind_eq_ok.mp h
    split at h
    · cases h
    · next cv hcv =>
      split at h
      · cases h
        exact waitersOf_setCv hcv rfl
      · rw [if_pos (hpointer slot cv hcv)] at h
        cases h
        rfl

end

section

variable {e : Ambient} {group : List NetThread} {g : Globals} {r : Result} {p : Pair} {o : Origin}
  (hlockSlot : p.lockSlot < MAX_DLOCK) (hcvSlot : p.cvSlot < MAX_DCV)
  (hne : p.a.uniqueGlobalID ≠ p.b.uniqueGlobalID)

include hlockSlot hcvSlot hne

/-- **`SIGNAL`** leaves the condition variables alone, and sends a `SIGNALLOCK` if anything. -/
theorem signal_sends
    (h : processMessage ⟨p.b, e, (p.request .signal o).pktHdr, (p.request .signal o).mailHdr⟩
      (p.request .signal o).data group g = .ok r) :
    r.state.cvs = g.cvs ∧ (r.out = [] ∨ ∃ m, r.out = [m] ∧ m.Reads .signalLock fun _ => True) := by
  have hdispatch := request_eq_ok h rfl
  have hlock : p.lockId.tdiv MAX_DLOCK = p.a.uniqueGlobalID := p.a.globalId_tdiv hlockSlot
  have hcv : p.cvId.tdiv MAX_DCV = p.b.uniqueGlobalID := p.b.globalId_tdiv hcvSlot
  simp only [MonitorOp.type, dispatch, Call.signal] at hdispatch
  split_ifs at hdispatch with hprefix
  have hreader : readTwo 5 [] (-1) (o.body (pairText p.cvId p.lockId)) =
      readTwo 5 [] (o.call p.b e).client (o.body (pairText p.cvId p.lockId)) := by
    cases o with
    | user machine box => exact absurd (not_not.mp hprefix) (pairText_head? _ _)
    | forwarded pktHdr mailHdr client => rfl
  simp only [hreader] at hdispatch
  have hsignal := twoArguments_eq_ok hdispatch hcv
  simp only [Origin.call_t] at hsignal
  rw [signal, if_neg (c := _ ∧ _) (by rw [hlock]; exact fun h => hne h.1)] at hsignal
  split_ifs at hsignal
  · cases hsignal
    exact ⟨rfl, Or.inl rfl⟩
  · cases hsignal
    exact ⟨rfl, Or.inl rfl⟩
  · obtain ⟨i, -, hsignal⟩ := bind_eq_ok.mp hsignal
    cases hsignal
    exact ⟨rfl, Or.inr ⟨_, rfl, _, rfl, trivial⟩⟩

omit hlockSlot hcvSlot in
/-- `BROADCAST` refuses such a pair: one of the ids is not below 100. -/
theorem broadcast_other (e : Ambient) (outPktHdr inPktHdr : PacketHeader) (inMailHdr : MailHeader)
    (clientNum : ℤ) (g : Globals) :
    broadcast p.b e p.cvId p.lockId outPktHdr inPktHdr inMailHdr clientNum g = .ok (.failed g) := by
  have ha := p.a.uniqueGlobalID_nonneg
  have hb := p.b.uniqueGlobalID_nonneg
  have hlockId : p.lockId = p.a.uniqueGlobalID * 100 + p.lockSlot := rfl
  have hcvId : p.cvId = p.b.uniqueGlobalID * 100 + p.cvSlot := rfl
  have hlockMax : (MAX_DLOCK : ℤ) - 1 = 99 := rfl
  have hcvMax : (MAX_DCV : ℤ) - 1 = 99 := rfl
  rw [broadcast]
  by_cases hlock : p.lockId < 0 ∨ p.lockId > MAX_DLOCK - 1
  · rw [if_pos hlock]
  · rw [if_neg hlock, if_pos (by omega)]

omit hlockSlot in
/-- **`BROADCAST`** is refused. -/
theorem broadcast_refused (hints : IsInt p.cvId ∧ IsInt p.lockId) (ho : o.client < MAX_CLIENTS)
    (hcount : g.serverCount = group.length) :
    processMessage ⟨p.b, e, (p.request .broadcast o).pktHdr, (p.request .broadcast o).mailHdr⟩
      (p.request .broadcast o).data group g = .ok (.failed g) := by
  have hcv : p.cvId.tdiv MAX_DCV = p.b.uniqueGlobalID := p.b.globalId_tdiv hcvSlot
  refine (p.processMessage_request .broadcast (s := .broadcast p.cvId p.lockId) rfl rfl ho hints
    (fun k name h => by cases h) (fun h => by cases h) hcount).trans ?_
  simp only [Syscall.perform, Call.atOwner, Origin.call_t, Pair.start, hcv, ne_eq, not_true_eq_false,
    if_false]
  exact broadcast_other hne _ _ _ _ _ g

end

/-! ## The exchanges -/

/-- A mutex that is held changes when it is released. -/
theorem release_ne_self {m : Mutex ℤ} {c : ℤ} (h : m.holder = some c) : m.release ≠ m := by
  intro heq
  have hholder := congrArg Mutex.holder heq
  have hqueue := congrArg (fun m => m.queue.length) heq
  simp only [Mutex.release, List.length_tail] at hholder hqueue
  have hempty : m.queue = [] := List.length_eq_zero_iff.mp (by omega)
  rw [h, hempty] at hholder
  cases hholder

section

variable {w w' : World} {e : ℕ → Ambient} {x : ℕ → Office} {group : List NetThread} {p : Pair}
  {o : Origin} {lock : DistributedLock} {cv : DistributedCV}
  (hlockSlot : p.lockSlot < MAX_DLOCK) (hcvSlot : p.cvSlot < MAX_DCV)
  (hne : p.a.uniqueGlobalID ≠ p.b.uniqueGlobalID)

include hlockSlot hcvSlot hne

/-- **A `WAIT` releases no lock.** -/
theorem wait_keeps_locks (h : exchange group e x p.a (p.request .wait o) w = .ok w') (machine : ℕ) :
    (w' machine).dlocks = (w machine).dlocks := by
  obtain ⟨w₁, ms₁, w₂, ms₂, out, h₁, h₂, h₃⟩ := exchange_eq_ok h
  have hout : ms₁ = [] ∨ ∃ m, ms₁ = [m] ∧ m.Reads .waitCv fun _ => True := by
    obtain ⟨r, hr, -, rfl⟩ := World.process_eq_ok h₁
    exact (wait_sends hlockSlot hcvSlot hne hr).2
  have hout' := World.deliver_out hout h₂ fun t m r hm hr => (waitCV_sends hm hr).2
  calc (w' machine).dlocks
      = (w₂ machine).dlocks := World.deliver_keeps (f := Globals.dlocks) hout' h₃
        (fun t m r hm hr => absurd hr (waitResponse_stops hm)) machine
    _ = (w₁ machine).dlocks := World.deliver_keeps (f := Globals.dlocks) hout h₂
        (fun t m r hm hr => (waitCV_sends hm hr).1) machine
    _ = (w machine).dlocks := World.process_keeps (f := Globals.dlocks) h₁
        (fun r hr => (wait_sends hlockSlot hcvSlot hne hr).1) machine

/-- **A `SIGNAL` wakes nobody.** -/
theorem signal_keeps_waiters (h : exchange group e x p.b (p.request .signal o) w = .ok w')
    (hpointer : ∀ n machine slot cv, (w machine).cvs slot = some cv → cv.firstLock ≠ (e n).client)
    (machine : ℕ) : waitersOf (w' machine) = waitersOf (w machine) := by
  obtain ⟨w₁, ms₁, w₂, ms₂, out, h₁, h₂, h₃⟩ := exchange_eq_ok h
  have hcvs {g g' : Globals} (h : g'.cvs = g.cvs) : waitersOf g' = waitersOf g := by
    funext slot
    rw [waitersOf, waitersOf, h]
  have hout : ms₁ = [] ∨ ∃ m, ms₁ = [m] ∧ m.Reads .signalLock fun _ => True := by
    obtain ⟨r, hr, -, rfl⟩ := World.process_eq_ok h₁
    exact (signal_sends hlockSlot hcvSlot hne hr).2
  have hout' := World.deliver_out hout h₂ fun t m r hm hr => (signalLock_sends hm hr).2
  have hkeeps (machine : ℕ) : (w₂ machine).cvs = (w machine).cvs := by
    rw [World.deliver_keeps (f := Globals.cvs) hout h₂ (fun t m r hm hr => by
      rw [(signalLock_sends hm hr).1]) machine]
    exact World.process_keeps (f := Globals.cvs) h₁
      (fun r hr => (signal_sends hlockSlot hcvSlot hne hr).1) machine
  calc waitersOf (w' machine)
      = waitersOf (w₂ machine) := World.deliver_keeps (f := waitersOf) hout' h₃
        (fun t m r hm hr => signalResponse_wakes_nobody
          (fun slot cv hcv => hpointer 1 t.machineID slot cv (by rw [← hkeeps, hcv])) hm hr) machine
    _ = waitersOf (w machine) := hcvs (hkeeps machine)

omit hlockSlot in
/-- **A `BROADCAST`** ends, and changes nothing. -/
theorem broadcast_unchanged (hints : IsInt p.cvId ∧ IsInt p.lockId) (ho : o.client < MAX_CLIENTS)
    (hcount : (w p.b.machineID).serverCount = group.length) :
    exchange group e x p.b (p.request .broadcast o) w = .ok w := by
  have hprocess : w.process group p.b (e 0) (x 0) (p.request .broadcast o) = .ok (w, []) := by
    rw [World.process, serve, broadcast_refused hcvSlot hne hints ho hcount]
    exact congrArg (fun w => Except.ok (w, [])) (Function.update_eq_self p.b.machineID w)
  rw [exchange, hprocess]
  rfl

omit hlockSlot hcvSlot hne in
/-- Where nobody is taken off a condition variable, nobody was to be woken. -/
theorem wakes_iff (hcv : (w p.b.machineID).cvs p.cvSlot = some cv)
    (hsame : ∀ machine, waitersOf (w' machine) = waitersOf (w machine)) (n : ℕ) :
    Wakes p n w w' ↔ cv.waitQueue = [] ∨ n = 0 := by
  have hwaiters : waitersOf (w p.b.machineID) p.cvSlot = cv.waitQueue.map Message.client := by
    rw [waitersOf, hcv]
  constructor
  · intro h
    have hdrop := h p.b.machineID p.cvSlot
    rw [if_pos ⟨rfl, rfl⟩, hsame, hwaiters] at hdrop
    have hlength := congrArg List.length hdrop
    rw [List.length_drop, List.length_map] at hlength
    by_cases hn : n = 0
    · exact Or.inr hn
    · exact Or.inl (List.length_eq_zero_iff.mp (by omega))
  · intro h machine slot
    rw [hsame]
    split_ifs with hslot
    · obtain ⟨rfl, rfl⟩ := hslot
      rw [hwaiters]
      obtain hempty | rfl := h
      · rw [hempty, List.map_nil, List.drop_nil]
      · rw [List.drop_zero]
    · rfl

end

/-! ## Which servers return -/

/-- A `SIGNALLOCK` for a lock that the range check admits needs a mailbox. -/
theorem signalLock_taken_iff {t : NetThread} {x : Office} (outPktHdr : PacketHeader) (box : ℤ)
    {lockId clientNum : ℤ} (hc0 : 0 ≤ clientNum) (hc : clientNum < MAX_CLIENTS) (h0 : 0 ≤ lockId)
    (hlock : lockId < 100000) (ht : t.uniqueGlobalID < MAX_NUM_GLOBAL_IDS) :
    x.Takes t (outgoing t { outPktHdr with toMachine := lockId.tdiv MAX_DLOCK }
      { toBox := lockId.tdiv MAX_DLOCK, fromBox := box }
      (clientText .signalLock clientNum (fmtInt (lockId + t.uniqueGlobalID * MAX_DLOCK)))) ↔
      lockId.tdiv MAX_DLOCK < Mail.numBoxes := by
  have hnat := t.uniqueGlobalID_nonneg
  have ht : t.uniqueGlobalID < 1000 := ht
  have hdata : (fmtInt (lockId + t.uniqueGlobalID * MAX_DLOCK)).length ≤ 6 :=
    length_fmtInt_le_of_nonneg (by norm_num) (by norm_num; omega) (by norm_num; omega)
  rw [Office.takes_of_short (length_clientText_le hc0 hc (by omega))]
  exact and_iff_right (Int.tdiv_nonneg h0 (by norm_num))

section

variable {w : World} {e e' : Ambient} {x : Office} {group : List NetThread} {g : Globals} {p : Pair}
  {pktHdr : PacketHeader} {mailHdr : MailHeader} {c : ℕ} {t t' : NetThread} {m : Message}

theorem World.deliver_single : w.deliver group e x [m] =
    match group.find? (·.address = m.dest) with
    | none => .ok (w, [])
    | some t => w.process group t e x m := by
  rw [deliver]
  cases group.find? (·.address = m.dest) with
  | none => rfl
  | some t =>
    simp only [deliver]
    cases w.process group t e x m with
    | error f => rfl
    | ok r => simp only [ok_bind, pure_eq_ok, List.append_nil]

/-- `SIGNAL` at the owner of the condition variable, for a lock elsewhere. -/
theorem signal_other (hlockSlot : p.lockSlot < MAX_DLOCK) (hcvSlot : p.cvSlot < MAX_DCV)
    (hne : p.a.uniqueGlobalID ≠ p.b.uniqueGlobalID) (hc : c < MAX_CLIENTS) :
    signal p.b e p.cvId p.lockId e.outPktHdr mailHdr c g =
      if p.a.uniqueGlobalID < MAX_NUM_GLOBAL_IDS ∧ p.b.uniqueGlobalID < MAX_NUM_GLOBAL_IDS then
        .ok ⟨{ g with waitingForSignalCvs := Function.update g.waitingForSignalCvs c p.cvId },
          [p.signalLock mailHdr c e], true⟩
      else .ok (.failed g) := by
  have hlock : p.lockId.tdiv MAX_DLOCK = p.a.uniqueGlobalID := p.a.globalId_tdiv hlockSlot
  have hcv : p.cvId.tdiv MAX_DCV = p.b.uniqueGlobalID := p.b.globalId_tdiv hcvSlot
  have hlockRange : (p.lockId < 0 ∨ p.lockId > MAX_NUM_GLOBAL_IDS * MAX_DLOCK - 1) ↔ _ :=
    p.a.globalId_refused_iff hlockSlot
  have hcvRange : (p.cvId < 0 ∨ p.cvId > MAX_NUM_GLOBAL_IDS * MAX_DCV - 1) ↔ _ :=
    p.b.globalId_refused_iff hcvSlot
  rcases lt_or_ge p.a.uniqueGlobalID MAX_NUM_GLOBAL_IDS with ha | ha
  · rcases lt_or_ge p.b.uniqueGlobalID MAX_NUM_GLOBAL_IDS with hb | hb
    · rw [if_pos ⟨ha, hb⟩, signal, if_neg (mt hlockRange.mp (not_le.mpr ha)),
        if_neg (mt hcvRange.mp (not_le.mpr hb)), hlock, hcv, if_neg fun h => hne h.1, if_pos rfl,
        index_natCast hc, ok_bind]
      simp only [Pair.signalLock, pure_eq_ok]
    · rw [if_neg fun h => absurd h.2 (not_lt.mpr hb), signal, if_neg (mt hlockRange.mp (not_le.mpr ha)),
        if_pos (hcvRange.mpr hb)]
  · rw [if_neg fun h => absurd h.1 (not_lt.mpr ha), signal, if_pos (hlockRange.mpr ha)]

/-- The request of a client that has been forwarded. -/
theorem signal_processed (e : Ambient) (pktHdr : PacketHeader) (mailHdr : MailHeader)
    (hlockSlot : p.lockSlot < MAX_DLOCK) (hcvSlot : p.cvSlot < MAX_DCV)
    (hne : p.a.uniqueGlobalID ≠ p.b.uniqueGlobalID) (hints : IsInt p.cvId ∧ IsInt p.lockId)
    (hc : c < MAX_CLIENTS) (hcount : g.serverCount = group.length) :
    let m := p.request .signal (.forwarded pktHdr mailHdr c)
    processMessage ⟨p.b, e, m.pktHdr, m.mailHdr⟩ m.data group g =
      if p.a.uniqueGlobalID < MAX_NUM_GLOBAL_IDS ∧ p.b.uniqueGlobalID < MAX_NUM_GLOBAL_IDS then
        .ok ⟨{ g with waitingForSignalCvs := Function.update g.waitingForSignalCvs c p.cvId },
          [p.signalLock mailHdr c e], true⟩
      else .ok (.failed g) := by
  have hcv : p.cvId.tdiv MAX_DCV = p.b.uniqueGlobalID := p.b.globalId_tdiv hcvSlot
  refine (p.processMessage_request .signal (o := .forwarded pktHdr mailHdr c)
    (s := .signal p.cvId p.lockId) rfl rfl hc hints (fun k name h => by cases h) (fun _ => trivial)
    hcount).trans ?_
  rw [Syscall.perform, Call.atOwner]
  exact (if_neg (not_not.mpr hcv)).trans (signal_other hlockSlot hcvSlot hne hc)

/-- Its `SIGNALLOCK` needs a mailbox. -/
theorem Pair.signalLock_taken_iff (p : Pair) (hlockSlot : p.lockSlot < MAX_DLOCK)
    (ha : p.a.uniqueGlobalID < MAX_NUM_GLOBAL_IDS) (hb : p.b.uniqueGlobalID < MAX_NUM_GLOBAL_IDS)
    (hc : c < MAX_CLIENTS) :
    x.Takes p.b (p.signalLock mailHdr c e) ↔ p.a.uniqueGlobalID < Mail.numBoxes := by
  have hrange := (p.a.globalId_refused_iff hlockSlot).not.mpr (not_le.mpr ha)
  rw [not_or, not_lt, not_lt] at hrange
  have htaken := Network.signalLock_taken_iff (x := x) e.outPktHdr mailHdr.fromBox
    (Int.natCast_nonneg c) (by exact_mod_cast hc) hrange.1 (hrange.2.trans_lt (by norm_num)) hb
  rwa [p.a.globalId_tdiv hlockSlot] at htaken

/-- That of the client itself stops the server. -/
theorem signal_user_stops (machine box : ℕ) : ∃ f,
    let m := p.request .signal (.user machine box)
    processMessage ⟨p.b, e, m.pktHdr, m.mailHdr⟩ m.data group g = .error f := by
  dsimp only
  by_cases hcount : g.serverCount = group.length
  · rw [Pair.request, Origin.text, processMessage_requestText _ _ _ hcount]
    exact ⟨.assertion, if_pos (pairText_head? _ _)⟩
  · rw [processMessage, if_pos hcount]
    exact ⟨_, rfl⟩

/-- The message that answers a `SIGNALLOCK`, with the address of the array `client` for the number of
    the client. -/
def signalAnswer (t : NetThread) (e : Ambient) (clientNum id : ℤ) : Message :=
  outgoing t { e.outPktHdr with toMachine := clientMachine clientNum }
    { toBox := clientBox clientNum, fromBox := t.machineID }
    (clientText .signalResponse e.client (fmtInt id))

/-- **`SIGNALLOCK`** is answered for the sender, with the client's number read as the lock. -/
theorem signalLock_processed (mailHdr : MailHeader) (e e' : Ambient) (hlockSlot : p.lockSlot < MAX_DLOCK)
    (ha : p.a.uniqueGlobalID < MAX_NUM_GLOBAL_IDS) (hb : p.b.uniqueGlobalID < MAX_NUM_GLOBAL_IDS)
    (hc : c < MAX_CLIENTS) (hcount : g.serverCount = group.length) :
    let m := p.signalLock mailHdr c e
    ∃ id : ℤ, -1 ≤ id ∧ id < MAX_CLIENTS ∧ processMessage ⟨t, e', m.pktHdr, m.mailHdr⟩ m.data group g =
      .ok ⟨g, [signalAnswer t e' (p.sender mailHdr) id], true⟩ := by
  have hc : c < 1000 := hc
  have hclient : IsInt c := ⟨by omega, by omega⟩
  have hnumber : IsInt (p.lockId + p.b.uniqueGlobalID * MAX_DLOCK) := by
    have hlockId : p.lockId = p.a.uniqueGlobalID * 100 + p.lockSlot := rfl
    have hslot : p.lockSlot < 100 := hlockSlot
    have ha0 := p.a.uniqueGlobalID_nonneg
    have hb0 := p.b.uniqueGlobalID_nonneg
    have ha : p.a.uniqueGlobalID < 1000 := ha
    have hb : p.b.uniqueGlobalID < 1000 := hb
    constructor <;> (norm_num; omega)
  obtain ⟨hread, hatoi⟩ := readOne_pairText (p.sender mailHdr) (a := c) hclient hnumber
  have hindex : index MAX_DLOCK ((c : ℤ).tmod MAX_DLOCK) = .ok ((c : ℤ).tmod MAX_DLOCK).toNat :=
    index_eq_ok (Int.tmod_nonneg _ (Int.natCast_nonneg c)) (Int.tmod_lt_of_pos _ (by norm_num))
  dsimp only
  have hdata : (p.signalLock mailHdr c e).data = requestText .signalLock
      (pairText c (p.lockId + p.b.uniqueGlobalID * MAX_DLOCK)) := rfl
  rw [hdata, processMessage_requestText _ _ _ hcount, dispatch, Call.signalLock,
    show Call.client _ = p.sender mailHdr from rfl, hread]
  simp only [ok_bind, hatoi, hindex]
  cases g.dlocks ((c : ℤ).tmod MAX_DLOCK).toNat with
  | none => exact ⟨-1, le_rfl, by norm_num, rfl⟩
  | some lock => exact ⟨c, by omega, by exact_mod_cast hc, rfl⟩

/-- The answer needs a mailbox; its numbers are short. -/
theorem signalAnswer_taken_iff {clientNum id : ℤ} (hpointer : IsInt e.client) (h0 : -1 ≤ id)
    (h1 : id < MAX_CLIENTS) : x.Takes t (signalAnswer t e clientNum id) ↔ 0 ≤ clientBox clientNum := by
  have htype : (fmtInt RequestType.signalResponse.code).length = 2 := by decide
  have hclient := hpointer.length_le
  have hid : (fmtInt id).length ≤ 3 := by
    rcases h0.eq_or_lt with rfl | h0
    · decide
    · exact length_fmtInt_le_of_nonneg (by norm_num) (by omega) (by norm_num; exact h1)
  have hdata : (signalAnswer t e clientNum id).data.length ≤ 18 := by
    simp only [signalAnswer, outgoing, clientText, requestText, List.length_append, List.length_cons]
    omega
  rw [Office.takes_of_short hdata]
  exact and_iff_left (Int.tmod_lt_of_pos _ (by norm_num))

/-- **`SIGNALRESPONSE`** for an address that is recorded as no lock: where the thread returns. -/
theorem signalResponse_returns_iff {clientNum id : ℤ} (hpointer : IsInt e'.client) (hid : IsInt id)
    (hne : e'.client ≠ -1) (hrecorded : ∀ slot cv, g.cvs slot = some cv → cv.firstLock ≠ e'.client)
    (hcount : g.serverCount = group.length) :
    let m := signalAnswer t' e' clientNum id
    let client := 101 * (t'.machineID : ℤ) - 1
    let pending := g.waitingForSignalCvs client.toNat
    (∃ r, x.carry t (processMessage ⟨t, e, m.pktHdr, m.mailHdr⟩ m.data group g) = .ok r) ↔
      (0 ≤ client ∧ client < MAX_CLIENTS) ∧ (0 ≤ pending ∧ pending < MAX_DCV) ∧
        g.cvs pending.toNat ≠ none := by
  intro m client pending
  obtain ⟨hread, hatoi⟩ := readOne_pairText client hpointer hid
  have hclientOf : Call.client ⟨t, e, m.pktHdr, m.mailHdr⟩ = client := by
    show 100 * (t'.machineID : ℤ) + t'.machineID - 1 = 101 * t'.machineID - 1
    ring
  have hdata : m.data = requestText .signalResponse (pairText e'.client id) := rfl
  rw [hdata, processMessage_requestText _ _ _ hcount, dispatch, Call.signalResponse, hclientOf, hread]
  simp only [ok_bind, hatoi, if_neg hne]
  by_cases hclient : 0 ≤ client ∧ client < MAX_CLIENTS
  swap
  · rw [index, if_neg hclient]
    refine iff_of_false ?_ fun h => hclient h.1
    rintro ⟨r, hr⟩
    cases hr
  rw [index_eq_ok hclient.1 hclient.2, and_iff_right hclient]
  simp only [ok_bind]
  by_cases hpending : 0 ≤ pending ∧ pending < MAX_DCV
  swap
  · refine iff_of_false ?_ fun h => hpending h.1
    rintro ⟨r, hr⟩
    obtain ⟨ack, -, hr⟩ := bind_eq_ok.mp (Office.carry_eq_ok hr)
    rw [index, if_neg hpending] at hr
    cases hr
  obtain ⟨slot, hslot⟩ : ∃ slot : ℕ, g.waitingForSignalCvs client.toNat = slot :=
    ⟨pending.toNat, (Int.toNat_of_nonneg hpending.1).symm⟩
  have hlt : slot < MAX_DCV := Int.ofNat_lt.mp (hslot.symm.trans_lt hpending.2)
  rw [and_iff_right hpending, show pending.toNat = slot by omega]
  simp only [hslot, Call.acknowledge, itoa_slot hlt, index_natCast hlt, ok_bind, pure_eq_ok]
  -- the acknowledgement is all that is sent
  have hack (success : Bool) (g : Globals) : ∃ r, x.carry t (.ok ⟨g, [outgoing t
      { e.outPktHdr with toMachine := clientMachine client }
      { toBox := clientBox client, fromBox := t.machineID } (fmtInt (slot : ℤ))], success⟩) = .ok r :=
    ⟨_, Office.carry_single.trans
      (if_pos ((Office.takes_of_short (length_slot_le hlt)).mpr (clientBox_bounds hclient.1)))⟩
  cases hcv : g.cvs slot with
  | none =>
    refine iff_of_false ?_ fun h => h rfl
    rintro ⟨r, hr⟩
    cases hr
  | some cv =>
    refine iff_of_true ?_ (Option.some_ne_none cv)
    cases hqueue : cv.waitQueue with
    | nil => simpa only [hqueue] using hack true _
    | cons reply queue => simpa only [hqueue, if_pos (hrecorded slot cv hcv)] using hack false g

end

/-! ## The three messages of a `SIGNAL` -/

section

variable {w : World} {e e' : Ambient} {x : Office} {group : List NetThread} {p : Pair}
  {mailHdr : MailHeader} {c : ℕ} {t t' : NetThread} {m : Message} {r : Result}
  (hcount : ∀ machine, (w machine).serverCount = group.length)

theorem World.process_of_serve (h : serve ⟨t, e, m.pktHdr, m.mailHdr⟩ x m.data group (w t.machineID) = .ok r) :
    w.process group t e x m = .ok (Function.update w t.machineID r.state, r.out) := by
  rw [process, h]
  rfl

/-- A message returns from the call that processes it, or stops the thread. -/
theorem World.process_returns_iff : (∃ r, w.process group t e x m = .ok r) ↔
    ∃ r, serve ⟨t, e, m.pktHdr, m.mailHdr⟩ x m.data group (w t.machineID) = .ok r := by
  rw [process]
  cases serve ⟨t, e, m.pktHdr, m.mailHdr⟩ x m.data group (w t.machineID) with
  | error f =>
    constructor
    · rintro ⟨r, hr⟩
      cases hr
    · rintro ⟨r, hr⟩
      cases hr
  | ok r => exact iff_of_true ⟨_, rfl⟩ ⟨_, rfl⟩

include hcount

/-- The `SIGNALLOCK` arrives: nobody reads it, or it is answered if the sender has a mailbox. -/
theorem World.deliver_signalLock (mailHdr : MailHeader) (e' : Ambient) (hlockSlot : p.lockSlot < MAX_DLOCK)
    (ha : p.a.uniqueGlobalID < MAX_NUM_GLOBAL_IDS) (hb : p.b.uniqueGlobalID < MAX_NUM_GLOBAL_IDS)
    (hc : c < MAX_CLIENTS) (hpointer : IsInt e.client) : ∃ id : ℤ, IsInt id ∧
      w.deliver group e x [p.signalLock mailHdr c e'] =
        match group.find? (·.address = (p.a.uniqueGlobalID, p.a.uniqueGlobalID)) with
        | none => .ok (w, [])
        | some t =>
          if 0 ≤ clientBox (p.sender mailHdr) then .ok (w, [signalAnswer t e (p.sender mailHdr) id])
          else .error .assertion := by
  rw [deliver_single, show (p.signalLock mailHdr c e').dest =
    (p.a.uniqueGlobalID, p.a.uniqueGlobalID) from rfl]
  cases group.find? (·.address = (p.a.uniqueGlobalID, p.a.uniqueGlobalID)) with
  | none => exact ⟨0, by norm_num [IsInt], rfl⟩
  | some t =>
    obtain ⟨id, h0, h1, hprocessed⟩ := signalLock_processed (t := t) mailHdr e' e hlockSlot ha hb hc
      (hcount t.machineID)
    have h1 : id < 1000 := h1
    refine ⟨id, ⟨by omega, by omega⟩, ?_⟩
    have hserve := congrArg (x.carry t) hprocessed
    rw [Office.carry_single] at hserve
    simp only [signalAnswer_taken_iff hpointer h0 h1] at hserve
    show w.process group t e x (p.signalLock mailHdr c e') = _
    split_ifs at hserve ⊢ with hbox
    · rw [process_of_serve hserve, Function.update_eq_self]
    · rw [process, serve, hserve]
      rfl

/-- The answer arrives: nobody reads it, or the thread returns under that condition. -/
theorem World.deliver_signalAnswer {clientNum id : ℤ} (hid : IsInt id) (hpointer : IsInt e'.client)
    (hminus : e'.client ≠ -1)
    (hrecorded : ∀ machine slot cv, (w machine).cvs slot = some cv → cv.firstLock ≠ e'.client) :
    let client := 101 * (t'.machineID : ℤ) - 1
    (∃ r, w.deliver group e x [signalAnswer t' e' clientNum id] = .ok r) ↔
      ∀ t ∈ group.find? (·.address = clientAddress clientNum),
        let pending := (w t.machineID).waitingForSignalCvs client.toNat
        (0 ≤ client ∧ client < MAX_CLIENTS) ∧ (0 ≤ pending ∧ pending < MAX_DCV) ∧
          (w t.machineID).cvs pending.toNat ≠ none := by
  intro client
  rw [deliver_single, show (signalAnswer t' e' clientNum id).dest = clientAddress clientNum from rfl]
  cases group.find? (·.address = clientAddress clientNum) with
  | none =>
    refine iff_of_true ⟨_, rfl⟩ fun t ht => ?_
    cases ht
  | some t =>
    simp only [Option.mem_some_iff, forall_eq']
    exact process_returns_iff.trans (signalResponse_returns_iff hpointer hid hminus
      (hrecorded t.machineID) (hcount t.machineID))

end

section

variable {w : World} {e : ℕ → Ambient} {x : ℕ → Office} {group : List NetThread} {p : Pair}
  (hlockSlot : p.lockSlot < MAX_DLOCK) (hcvSlot : p.cvSlot < MAX_DCV)
  (hne : p.a.uniqueGlobalID ≠ p.b.uniqueGlobalID) (hints : IsInt p.cvId ∧ IsInt p.lockId)
  (hcount : ∀ machine, (w machine).serverCount = group.length)

/-- An exchange whose first message is processed. -/
theorem exchange_returns_iff {t : NetThread} {m : Message} {w₁ : World} {ms : List Message}
    (h : w.process group t (e 0) (x 0) m = .ok (w₁, ms)) :
    (∃ w', exchange group e x t m w = .ok w') ↔
      ∃ w₂ ms₂, w₁.deliver group (e 1) (x 1) ms = .ok (w₂, ms₂) ∧
        ∃ r, w₂.deliver group (e 2) (x 2) ms₂ = .ok r := by
  rw [exchange, h, ok_bind]
  constructor
  · rintro ⟨w', h⟩
    obtain ⟨⟨w₂, ms₂⟩, h₂, h⟩ := bind_eq_ok.mp h
    obtain ⟨r, h₃, -⟩ := bind_eq_ok.mp h
    exact ⟨w₂, ms₂, h₂, r, h₃⟩
  · rintro ⟨w₂, ms₂, h₂, r, h₃⟩
    exact ⟨r.1, bind_eq_ok.mpr ⟨_, h₂, bind_eq_ok.mpr ⟨_, h₃, rfl⟩⟩⟩

include hlockSlot hcvSlot hne hints hcount

/-- **Every server returns** from a `SIGNAL` that has been forwarded exactly under that condition. -/
theorem signal_returns_iff {pktHdr : PacketHeader} {mailHdr : MailHeader} {c : ℕ} (hc : c < MAX_CLIENTS)
    (hpointer : IsInt (e 1).client ∧ (e 1).client ≠ -1 ∧
      ∀ machine slot cv, (w machine).cvs slot = some cv → cv.firstLock ≠ (e 1).client) :
    (∃ w', exchange group e x p.b (p.request .signal (.forwarded pktHdr mailHdr c)) w = .ok w') ↔
      SignalEnds group w p mailHdr c := by
  have hserve := congrArg ((x 0).carry p.b) (signal_processed (e 0) pktHdr mailHdr hlockSlot hcvSlot
    hne hints hc (hcount p.b.machineID))
  rw [SignalEnds]
  by_cases hrange : p.a.uniqueGlobalID < MAX_NUM_GLOBAL_IDS ∧ p.b.uniqueGlobalID < MAX_NUM_GLOBAL_IDS
  swap
  · -- an id is refused
    rw [if_neg hrange] at hserve
    refine iff_of_true ?_ fun ha hb => absurd ⟨ha, hb⟩ hrange
    exact (exchange_returns_iff (World.process_of_serve hserve)).mpr ⟨_, _, rfl, _, rfl⟩
  obtain ⟨ha, hb⟩ := hrange
  rw [if_pos ⟨ha, hb⟩, Office.carry_single] at hserve
  simp only [ha, hb, true_imp_iff]
  simp only [p.signalLock_taken_iff hlockSlot ha hb hc] at hserve
  by_cases hbox : p.a.uniqueGlobalID < Mail.numBoxes
  swap
  · -- the `SIGNALLOCK` has no mailbox
    rw [if_neg hbox] at hserve
    refine iff_of_false ?_ fun h => hbox h.1
    rintro ⟨w', h⟩
    rw [exchange, World.process, serve, hserve] at h
    cases h
  rw [if_pos hbox] at hserve
  rw [exchange_returns_iff (World.process_of_serve hserve), and_iff_right hbox]
  -- only what is pending for the client has changed
  set w₁ := Function.update w p.b.machineID _ with hw₁
  have hcount₁ (machine : ℕ) : (w₁ machine).serverCount = group.length := by
    rw [hw₁, Function.update_apply]
    split_ifs
    exacts [hcount p.b.machineID, hcount machine]
  have hcvs (machine : ℕ) : (w₁ machine).cvs = (w machine).cvs := by
    rw [hw₁, Function.update_apply]
    split_ifs with h
    · rw [h]
    · rfl
  obtain ⟨id, hid, hdeliver⟩ := World.deliver_signalLock (x := x 1) hcount₁ mailHdr (e 0) hlockSlot ha hb hc hpointer.1
  simp only [hdeliver]
  cases hfind : group.find? (·.address = (p.a.uniqueGlobalID, p.a.uniqueGlobalID)) with
  | none =>
    refine iff_of_true ⟨_, _, rfl, _, rfl⟩ fun t ht => ?_
    cases ht
  | some t =>
    simp only [Option.mem_some_iff, forall_eq']
    by_cases hsender : 0 ≤ clientBox (p.sender mailHdr)
    swap
    · simp [hsender]
    have haddress : t.address = (p.a.uniqueGlobalID, p.a.uniqueGlobalID) := by
      simpa using List.find?_some hfind
    have hmachine : (t.machineID : ℤ) = p.a.uniqueGlobalID := (Prod.mk.inj haddress).1
    simp only [if_pos hsender, Except.ok.injEq, Prod.mk.injEq, and_assoc, exists_and_left,
      exists_eq_left', and_iff_right hsender]
    refine (World.deliver_signalAnswer hcount₁ hid hpointer.1 hpointer.2.1
      (fun machine slot cv hcv => hpointer.2.2 machine slot cv (by rw [← hcvs, hcv]))).trans ?_
    refine forall₂_congr fun t' _ => ?_
    rw [ResponseEnds, hmachine, hcvs]
    refine and_congr_right fun hclient => ?_
    have hpending : (w₁ t'.machineID).waitingForSignalCvs (101 * p.a.uniqueGlobalID - 1).toNat =
        if t'.machineID = p.b.machineID ∧ 101 * p.a.uniqueGlobalID - 1 = c then p.cvId
        else (w t'.machineID).waitingForSignalCvs (101 * p.a.uniqueGlobalID - 1).toNat := by
      rw [hw₁, Function.update_apply]
      by_cases hb : t'.machineID = p.b.machineID
      · rw [if_pos hb, hb]
        simp only [Function.update_apply, true_and]
        exact if_congr (by omega) rfl rfl
      · rw [if_neg hb, if_neg fun h => hb h.1]
    rw [hpending]

end

section

variable {w : World} {e : ℕ → Ambient} {x : ℕ → Office} {group : List NetThread} {p : Pair}
  {o : Origin} {lock : DistributedLock} {cv : DistributedCV}
  (hlockSlot : p.lockSlot < MAX_DLOCK) (hcvSlot : p.cvSlot < MAX_DCV)
  (hne : p.a.uniqueGlobalID ≠ p.b.uniqueGlobalID)

include hlockSlot hcvSlot hne

/-- **The three messages do what the local operation does** exactly if the operation is `SIGNAL` or
    `BROADCAST`, there is nobody to wake, and no server stops at the `SIGNAL`: for any two servers, ids,
    clients and post offices, where the address of the array that is printed for a client is recorded as
    no lock. -/
theorem across_like_local_iff (hlock : (w p.a.machineID).dlocks p.lockSlot = some lock)
    (hcv : (w p.b.machineID).cvs p.cvSlot = some cv)
    (hholder : lock.toMutex.holder = some (o.client : ℤ))
    (hints : IsInt p.cvId ∧ IsInt p.lockId) (ho : o.client < MAX_CLIENTS)
    (hcount : ∀ machine, (w machine).serverCount = group.length)
    (hpointer : ∀ n, IsInt (e n).client ∧ (e n).client ≠ -1 ∧
      ∀ machine slot cv, (w machine).cvs slot = some cv → cv.firstLock ≠ (e n).client)
    (op : MonitorOp) :
    LikeLocal p op o.client w (exchange group e x (p.start op) (p.request op o) w) ↔
      op ≠ .wait ∧ (cv.waitQueue = [] ∨ cv.firstLock ≠ p.lockId) ∧
        (op = .signal → ∃ pktHdr mailHdr c, o = .forwarded pktHdr mailHdr c ∧
          SignalEnds group w p mailHdr c) := by
  have helim {P : DistributedLock → DistributedCV → Prop} :
      (∃ lock cv, (w p.a.machineID).dlocks p.lockSlot = some lock ∧
        (w p.b.machineID).cvs p.cvSlot = some cv ∧ P lock cv) ↔ P lock cv := by
    simp only [hlock, hcv, Option.some.injEq, exists_and_left, exists_eq_left']
  rw [LikeLocal, helim]
  cases op with
  | wait =>
    refine iff_of_false ?_ (fun h => h.1 rfl)
    rintro ⟨w', hw', lock', cv', hlock', -, hmutex, -⟩
    rw [wait_keeps_locks hlockSlot hcvSlot hne hw', hlock, Option.some.injEq] at hlock'
    subst hlock'
    exact release_ne_self hholder hmutex.symm
  | signal =>
    have hends : (∃ w', exchange group e x p.b (p.request .signal o) w = .ok w') ↔
        ∃ pktHdr mailHdr c, o = .forwarded pktHdr mailHdr c ∧ SignalEnds group w p mailHdr c := by
      cases o with
      | user machine box =>
        constructor
        · rintro ⟨w', hw'⟩
          obtain ⟨w₁, ms, _, _, _, h₁, -⟩ := exchange_eq_ok hw'
          obtain ⟨r, hr, -⟩ := World.process_eq_ok h₁
          obtain ⟨f, hf⟩ := signal_user_stops machine box
          rw [hf] at hr
          cases hr
        · rintro ⟨pktHdr, mailHdr, c, ho, -⟩
          cases ho
      | forwarded pktHdr mailHdr c =>
        refine (signal_returns_iff hlockSlot hcvSlot hne hints hcount ho (hpointer 1)).trans ?_
        simp only [Origin.forwarded.injEq, and_assoc, exists_and_left, exists_eq_left']
        exact Iff.rfl
    have hsame {w' : World} (hw' : exchange group e x p.b (p.request .signal o) w = .ok w') :
        Wakes p (if cv.firstLock = p.lockId then 1 else 0) w w' ↔
          cv.waitQueue = [] ∨ cv.firstLock ≠ p.lockId := by
      rw [wakes_iff hcv (signal_keeps_waiters hlockSlot hcvSlot hne hw' fun n => (hpointer n).2.2)]
      by_cases hfirst : cv.firstLock = p.lockId <;> simp [hfirst]
    constructor
    · rintro ⟨w', hw', hwakes⟩
      exact ⟨by decide, (hsame hw').mp hwakes, fun _ => hends.mp ⟨w', hw'⟩⟩
    · rintro ⟨-, hnobody, hreturns⟩
      obtain ⟨w', hw'⟩ := hends.mpr (hreturns rfl)
      exact ⟨w', hw', (hsame hw').mpr hnobody⟩
  | broadcast =>
    have hsame : Wakes p (if cv.firstLock = p.lockId then cv.waitQueue.length else 0) w w ↔
        cv.waitQueue = [] ∨ cv.firstLock ≠ p.lockId := by
      rw [wakes_iff hcv fun _ => rfl]
      by_cases hfirst : cv.firstLock = p.lockId <;> simp [hfirst]
    rw [Pair.start, broadcast_unchanged hcvSlot hne hints ho (hcount p.b.machineID), Gives]
    simp only [Except.ok.injEq, exists_eq_left', hsame, ne_eq, reduceCtorEq, not_false_eq_true, true_and,
      false_imp_iff, and_true]

end

/-! ## Two exchanges -/

/-- Two servers with such a pair, and somebody who holds the lock. -/
def lockAndCondition (p : Pair) (owner : ℤ × ℤ) : World := fun machine =>
  let g := if machine = p.a.machineID then
      (Globals.init 2).setLock p.lockSlot (some ((DistributedLock.new ['l'] p.lockId).give owner))
    else .init 2
  if machine = p.b.machineID then g.setCv p.cvSlot (some (.new ['c'] p.cvId)) else g

/-- A `SIGNAL` of the client of server (0, 2), which has the lock, to server (0, 0), while nobody
    waits: no server has mailbox 2 of machine 2, to which the `SIGNALLOCK` goes. -/
theorem across_like_local_nobody :
    let p : Pair := ⟨⟨0, 2⟩, 0, ⟨0, 0⟩, 0⟩
    let o : Origin := .forwarded ⟨0, 0⟩ ⟨1, 3⟩ 2
    let e : ℕ → Ambient := fun _ => { Ambient.clear ⟨0, 0⟩ with client := 3216 }
    let w := lockAndCondition p (0, 2)
    LikeLocal p .signal 2 w
      (exchange [⟨0, 0⟩, ⟨0, 2⟩] e (fun _ => .quiet) p.b (p.request .signal o) w) := by
  intro p o e w
  have hlock : (w p.a.machineID).dlocks p.lockSlot =
      some ((DistributedLock.new ['l'] p.lockId).give (0, 2)) := by decide
  have hcv : (w p.b.machineID).cvs p.cvSlot = some (.new ['c'] p.cvId) := by decide
  have hcount (machine : ℕ) : (w machine).serverCount = [(⟨0, 0⟩ : NetThread), ⟨0, 2⟩].length := by
    simp only [w, lockAndCondition]
    split_ifs <;> rfl
  have hnever (machine slot : ℕ) (cv : DistributedCV) (hcv : (w machine).cvs slot = some cv) :
      cv.firstLock ≠ 3216 := by
    have hnew : (w machine).cvs slot = none ∨ (w machine).cvs slot = some (.new ['c'] p.cvId) := by
      simp only [w, lockAndCondition]
      split_ifs <;> simp [Globals.setCv_cvs, Function.update_apply, Globals.init]
      omega
    rw [hcv] at hnew
    obtain h | h := hnew
    · cases h
    · cases h
      decide
  have hends : SignalEnds [⟨0, 0⟩, ⟨0, 2⟩] w p ⟨1, 3⟩ 2 := by
    refine fun _ _ => ⟨by decide, fun t ht => ?_⟩
    cases ht
  exact (across_like_local_iff (o := o) (by decide) (by decide) (by decide) hlock hcv (by decide)
    (by decide) (by decide) hcount (fun n => ⟨by decide, by decide, hnever⟩) .signal).mpr
    ⟨by decide, Or.inl rfl, fun _ => ⟨_, _, _, rfl, hends⟩⟩

/-- **A `WAIT` across servers**: the `WAITCV` goes to server (0, 0) itself, the client is not queued
    at server (1, 0), and the response stops the server. -/
theorem wait_across :
    let p : Pair := ⟨⟨0, 0⟩, 0, ⟨1, 0⟩, 0⟩
    let o : Origin := .user 0 0
    let e : ℕ → Ambient := fun _ => { Ambient.clear ⟨0, 0⟩ with client := 3216 }
    let w := lockAndCondition p (0, 0)
    let result := exchange [⟨0, 0⟩, ⟨1, 0⟩] e (fun _ => .quiet) p.a (p.request .wait o) w
    ((w 0).dlocks 0).map (·.toMutex.holder) = some (some 0) ∧
      result.map (fun _ => ()) = .error .assertion ∧ ¬ LikeLocal p .wait 0 w result := by
  intro p o e w result
  have hstops : result.map (fun _ => ()) = .error .assertion := by decide +kernel
  refine ⟨by decide, hstops, ?_⟩
  rintro ⟨lock, cv, -, -, w', hw', -⟩
  rw [hw'] at hstops
  cases hstops

end Nachos.Network
