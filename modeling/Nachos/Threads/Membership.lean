import Nachos.Mail.PostOffice
import Nachos.Threads.NetworkThread

/-!
# The members of the group

The registration server (`RegServer`, `threads/system.cc`, lines 171-337) and the network
threads that register with it, over a network that loses, delays and repeats packets. The
list of the members is cut into messages of eight, and a thread that registers waits for as
many messages as there are parts.

* `group_agrees`: a thread that leaves the registration has the list of the server, if the
  group has at most eight members, or the parts are received once and in their order.
* `group_disagrees`: a part that is received twice stands for the next one.

Left out: `receivedMessages` of the server, which nothing there looks up, and messages that
`Send` takes for a resend because they have the time stamp of another one.
-/

namespace Nachos.Threads

open Nachos.Lib Nachos.Network Nachos.Mail

/-! ## The registration server -/

/-- `ThreadsPerMessage` (system.cc:185). -/
abbrev ThreadsPerMessage : ℕ := 8

/-- `divRoundUp` (utility.h:42). -/
def divRoundUp (n s : ℕ) : ℕ := n / s + if 0 < n % s then 1 else 0

/-- The address of the registration server (system.cc:65). -/
def registrationServer : NetThread := ⟨0, 0⟩

/-- `"%02d"`. -/
def twoDigits (n : ℤ) : Text := if (fmtInt n).length < 2 then '0' :: fmtInt n else fmtInt n

/-- `"%1d%02d"`: a member in a `GROUPINFO`. -/
def memberText (member : ℤ × ℤ) : Text := fmtInt member.1 ++ twoDigits member.2

/-- The members of a part. -/
def groupPart (members : List (ℤ × ℤ)) (part : ℕ) : List (ℤ × ℤ) :=
  (members.drop (ThreadsPerMessage * part)).take ThreadsPerMessage

/-- The text of a `GROUPINFO`. -/
def groupInfoText (members : List (ℤ × ℤ)) (part : ℕ) : Text :=
  requestText .groupInfo ((groupPart members part).flatMap memberText)

/-- The registration loop of `RegServer` on a message: what is sent, and the list of those
    that have registered. -/
def regServer (totalNumNetworkThreads : ℕ) (serverNetThreadInfo : List (ℤ × ℤ)) (m : Mail) :
    Except Fault (List Message × List (ℤ × ℤ)) := do
  let (requestType, i) ← parseValue 0 (bytes m.data)
  if requestType = RequestType.ack.code then return ([], serverNetThreadInfo)
  else if requestType ≠ RequestType.regNetThread.code then
    return (ack registrationServer m, serverNetThreadInfo)
  else
    let (machineID, i) ← parseValue i (bytes m.data)
    let (mailID, _) ← parseValue i (bytes m.data)
    let response := outgoing registrationServer { toMachine := m.pktHdr.fromMachine, fromMachine := 0 }
      { toBox := m.mailHdr.fromBox, fromBox := 0 }
      (requestText .regNetThreadResponse (fmtInt (divRoundUp totalNumNetworkThreads ThreadsPerMessage)))
    return (ack registrationServer m ++ [response],
      if (machineID, mailID) ∈ serverNetThreadInfo then serverNetThreadInfo
      else serverNetThreadInfo ++ [(machineID, mailID)])

/-- Where `RegServer` is: in the registration loop, before the `Send` of a part to a member,
    or in the loops behind, which acknowledge what arrives. -/
inductive ServerPhase
  | registering
  | sending (part member : ℕ)
  | waiting
  deriving DecidableEq

/-! ## The network -/

/-- A packet. The counter stands in front of the text on the wire. `part` is no part of the
    packet: it is the number of the `GROUPINFO` message. -/
structure Posted where
  mail : Mail
  counter : ℤ
  part : Option ℕ

/-- The server and the threads of the group. The counters are those of a thread, where `none`
    is the server. -/
structure Group where
  server : ServerPhase
  serverNetThreadInfo : List (ℤ × ℤ)
  threads : NetThread → ServerState
  sendCounters : Option NetThread → Address → Option ℤ
  receiveCounters : Option NetThread → Address → Option ℤ
  transmitted : List Posted

/-- All have just started. -/
def Group.init : Group where
  server := .registering
  serverNetThreadInfo := []
  threads _ := .init
  sendCounters _ _ := none
  receiveCounters _ _ := none
  transmitted := []

namespace Group

variable (s : Group)

/-! What `Send` asserts of a message makes it a `Mail`. -/

theorem stamped_of_send {message : Message} {timeStamp : Timeval} {counter : ℤ}
    (h : 0 < timeStamp.sec ∧ (counterText counter message.data).length + 1 < MaxMailSize ∧
      0 ≤ message.mailHdr.toBox ∧ message.mailHdr.toBox < numBoxes) : 0 < timeStamp.sec :=
  h.1

theorem fits_of_send {message : Message} {timeStamp : Timeval} {counter : ℤ}
    (h : 0 < timeStamp.sec ∧ (counterText counter message.data).length + 1 < MaxMailSize ∧
      0 ≤ message.mailHdr.toBox ∧ message.mailHdr.toBox < numBoxes) :
    message.data.length < MaxMailSize := by
  have hlength := h.2.1
  simp only [counterText, List.length_append, List.length_cons] at hlength
  omega

/-- `Send`, by the server or a thread. An acknowledgement has no number. -/
def transmit (sender : Option NetThread) (message : Message) (timeStamp : Timeval) (part : Option ℕ) :
    Except Fault Group :=
  let counter :=
    if message.data = requestText .ack [] then -1
    else match s.sendCounters sender message.dest with
      | none => 0
      | some counter => counter + 1
  if h : 0 < timeStamp.sec ∧ (counterText counter message.data).length + 1 < MaxMailSize ∧
      0 ≤ message.mailHdr.toBox ∧ message.mailHdr.toBox < numBoxes then
    .ok { s with
      sendCounters :=
        if message.data = requestText .ack [] then s.sendCounters
        else Function.update s.sendCounters sender
          (Function.update (s.sendCounters sender) message.dest (some counter))
      transmitted := s.transmitted ++
        [⟨{ message with
            timeStamp := timeStamp
            stamped := stamped_of_send h
            fits := fits_of_send h },
          counter, part⟩] }
  else .error .assertion

/-- What is sent upon the message `m`: an acknowledgement has the time stamp of `m`. -/
def transmitAll (s : Group) (sender : Option NetThread) (m : Mail) (now : Timeval) :
    List Message → Except Fault Group
  | [] => .ok s
  | message :: rest => do
    let timeStamp := if message.data = requestText .ack [] then m.timeStamp else now
    let s ← s.transmit sender message timeStamp none
    s.transmitAll sender m now rest

/-- `Receive` looks at the counter of a packet, and returns or waits for the next one. -/
def receive (reader : Option NetThread) (p : Posted) : Bool × Group :=
  let (success, entry) := accept (s.receiveCounters reader p.mail.sender) p.counter
  let receiveCounters := Function.update s.receiveCounters reader
    (Function.update (s.receiveCounters reader) p.mail.sender entry)
  (success, { s with receiveCounters })

/-- The server on a message that `Receive` has returned. When all have registered it goes on to
    the first part. -/
def serve (totalNumNetworkThreads : ℕ) (m : Mail) (now : Timeval) : Except Fault Group := do
  let (out, serverNetThreadInfo) ← regServer totalNumNetworkThreads s.serverNetThreadInfo m
  if s.server = .registering then
    let s ← s.transmitAll none m now out
    return { s with
      serverNetThreadInfo
      server := if serverNetThreadInfo.length < totalNumNetworkThreads then .registering else .sending 0 0 }
  else if m.HasType .ack then return s
  else s.transmitAll none m now (ack registrationServer m)

/-- The next `Send` of a part, or the step to the next part. -/
def sendGroupInfo (now : Timeval) : Except Fault Group :=
  match s.server with
  | .sending part member =>
    match s.serverNetThreadInfo[member]? with
    | some address => do
      let message := outgoing registrationServer { toMachine := address.1, fromMachine := 0 }
        { toBox := address.2, fromBox := 0 } (groupInfoText s.serverNetThreadInfo part)
      let s ← s.transmit none message now (some part)
      return { s with server := .sending part (member + 1) }
    | none =>
      .ok { s with server :=
        if ThreadsPerMessage * (part + 1) < s.serverNetThreadInfo.length then .sending (part + 1) 0
        else .waiting }
  | _ => .ok s

/-- A thread on a message that `Receive` has returned, in one of the receive loops of
    `RegisterNetworkThread`. -/
def advance (t : NetThread) (m : Mail) (now : Timeval) (memory : ℕ → Timeval) : Except Fault Group := do
  let o := receiveLoop t memory (s.threads t) m
  let next ← o.next
  let s ← s.transmitAll (some t) m now o.out
  return { s with threads := Function.update s.threads t next }

end Group

/-! ## Runs -/

/-- What happens: the server or a thread receives the `n`-th packet that has been transmitted, the
    server sends a part, or another thread sends a message. `now` is what `gettimeofday` gives. -/
inductive GroupEvent
  | server (n : ℕ) (now : Timeval)
  | send (now : Timeval)
  | thread (t : NetThread) (n : ℕ) (now : Timeval) (memory : ℕ → Timeval)
  | other (mail : Mail) (counter : ℤ)

/-- The messages of the registration, which only the server and the threads of the group send. -/
def OfRegistration (m : Mail) : Prop :=
  m.HasType .regNetThread ∨ m.HasType .regNetThreadResponse ∨ m.HasType .groupInfo

instance (m : Mail) : Decidable (OfRegistration m) := inferInstanceAs (Decidable (_ ∨ _))

/-- A step of the threads `group` and the server. It ends for a thread in the main loop. -/
def groupStep (group : List NetThread) (s : Group) : GroupEvent → Except Fault Group
  | .server n now =>
    match s.transmitted[n]? with
    | none => .ok s
    | some p =>
      if p.mail.dest = registrationServer.address ∧ (s.server = .registering ∨ s.server = .waiting) then
        let (success, s) := s.receive none p
        if success then s.serve group.length p.mail now else .ok s
      else .ok s
  | .send now => s.sendGroupInfo now
  | .thread t n now memory =>
    match s.transmitted[n]? with
    | none => .ok s
    | some p =>
      if t ∈ group ∧ p.mail.dest = t.address ∧ (s.threads t).phase ≠ .main then
        let (success, s) := s.receive (some t) p
        if success then s.advance t p.mail now memory else .ok s
      else .ok s
  | .other mail counter =>
    .ok (if OfRegistration mail then s else { s with transmitted := s.transmitted ++ [⟨mail, counter, none⟩] })

/-- **The group agrees**: a thread that has left the registration has the list of the server, in
    which each member stands once. -/
def GroupAgrees (group : List NetThread) (s : Group) : Prop :=
  ∀ t ∈ group, (s.threads t).phase = .main →
    (s.threads t).thread.localNetThreadInfo.map NetThreadInfoEntry.address = s.serverNetThreadInfo ∧
      s.serverNetThreadInfo.Nodup ∧ s.serverNetThreadInfo.Perm (group.map NetThread.address)

instance (group : List NetThread) (s : Group) : Decidable (GroupAgrees group s) :=
  inferInstanceAs (Decidable (∀ _ ∈ _, _))

/-- Where a thread waits for a `GROUPINFO`, the part is the next one. -/
def NextPart (group : List NetThread) (part : ℕ) : Phase → Prop
  | .groupInfo remaining => part + remaining = divRoundUp group.length ThreadsPerMessage
  | _ => True

instance (group : List NetThread) (part : ℕ) (phase : Phase) : Decidable (NextPart group part phase) := by
  cases phase <;> unfold NextPart <;> infer_instance

/-- What keeps the lists alike, in a group of more than eight: a `GROUPINFO` that reaches a thread
    which waits for one is the next part. -/
def GroupOk (group : List NetThread) (s : Group) : GroupEvent → Prop
  | .thread t n _ _ => ThreadsPerMessage < group.length → ∀ p ∈ s.transmitted[n]?, p.mail.dest = t.address →
      ∀ part ∈ p.part, NextPart group part (s.threads t).phase
  | _ => True

instance (group : List NetThread) (s : Group) (e : GroupEvent) : Decidable (GroupOk group s e) := by
  cases e <;> unfold GroupOk <;> infer_instance

/-! ## Texts -/

theorem hasType_of_parse {m : Mail} {v : ℤ} {i : ℕ} (h : parseValue 0 (bytes m.data) = .ok (v, i))
    (r : RequestType) : m.HasType r ↔ v = r.code := by
  have hread : m.read = .ok (v, if i ≤ m.data.length then some (m.data.drop i) else none) := by
    rw [Mail.read, readType, h]
  exact Mail.hasType_iff hread r

theorem code_injective : Function.Injective RequestType.code := by
  intro r r' h
  simpa using congrArg RequestType.ofCode h

theorem hasType_requestText {m : Mail} {r : RequestType} {data : Text} (h : m.data = requestText r data)
    (r' : RequestType) : m.HasType r' ↔ r = r' := by
  have hread : m.read = .ok (r.code, some data) := by rw [Mail.read, h, readType_requestText]
  rw [Mail.hasType_iff hread, code_injective.eq_iff]

/-- Three characters for a member, which are read as they have been printed. -/
theorem memberText_digits {machineID mailID : ℕ} (hmachine : machineID ≤ 9) (hmail : mailID ≤ 99) :
    ∃ c d d', memberText (machineID, mailID) = [c, d, d'] ∧ atoi [c] = machineID ∧
      atoi [d, d'] = mailID := by
  have hall : ∀ machineID < 10, ∀ mailID < 100,
      (memberText ((machineID : ℕ), (mailID : ℕ))).length = 3 ∧
        atoi ((memberText (machineID, mailID)).take 1) = machineID ∧
        atoi ((memberText (machineID, mailID)).drop 1) = mailID := by decide +kernel
  obtain ⟨hlength, hfirst, hrest⟩ := hall machineID (by omega) mailID (by omega)
  obtain ⟨c, d, d', htext⟩ := List.length_eq_three.mp hlength
  rw [htext] at hfirst hrest
  exact ⟨c, d, d', htext, hfirst, hrest⟩

/-- A member of the group has an address of one digit and two. -/
def Printable (t : NetThread) : Prop := t.machineID ≤ 9 ∧ t.mailID ≤ 99

/-- **The members of a part** are read back. -/
theorem parseGroupInfo_flatMap (memory : ℕ → Timeval) {members : List (ℤ × ℤ)}
    (h : ∀ a ∈ members, ∃ t : NetThread, Printable t ∧ a = t.address) (k : ℕ) :
    ∃ entries, parseGroupInfo memory k (members.flatMap memberText) = .ok entries ∧
      entries.map NetThreadInfoEntry.address = members := by
  induction members generalizing k with
  | nil => exact ⟨[], rfl, rfl⟩
  | cons a members ih =>
    obtain ⟨t, ht, rfl⟩ := h a List.mem_cons_self
    obtain ⟨c, d, d', htext, hmachine, hmail⟩ := memberText_digits ht.1 ht.2
    obtain ⟨entries, hentries, hmap⟩ := ih (fun a ha => h a (List.mem_cons_of_mem _ ha)) (k + 1)
    refine ⟨⟨atoi [c], atoi [d, d'], memory k⟩ :: entries, ?_, ?_⟩
    · rw [List.flatMap_cons, NetThread.address, htext]
      simp only [List.cons_append, List.nil_append, parseGroupInfo, hentries, ok_bind, pure_eq_ok]
    · rw [List.map_cons, hmap, NetThreadInfoEntry.address, hmachine, hmail, NetThread.address]

/-- The two numbers of a `REGNETTHREAD` are read back. -/
theorem parse_regNetThread {a b : ℤ} (hfits : (requestText .regNetThread (pairText a b)).length < MaxMailSize) :
    ∃ i i' i'', parseValue 0 (bytes (requestText .regNetThread (pairText a b))) =
        .ok (RequestType.regNetThread.code, i) ∧
      parseValue i (bytes (requestText .regNetThread (pairText a b))) = .ok (a, i') ∧
      parseValue i' (bytes (requestText .regNetThread (pairText a b))) = .ok (b, i'') := by
  set data := requestText .regNetThread (pairText a b) with hdata
  have hlength : data.length = (fmtInt RequestType.regNetThread.code).length + (fmtInt a).length +
      (fmtInt b).length + 2 := by
    simp only [hdata, requestText, pairText, List.length_append, List.length_cons]
    omega
  have htext : HasText (bytes data) 0 (fmtInt RequestType.regNetThread.code ++ '_' :: pairText a b) :=
    hasText_bytes [] _
  obtain ⟨htype, hsep, hpair⟩ := HasText.append.mp htext
  obtain ⟨ha, hsep', hb⟩ := HasText.append.mp hpair
  have hend : bytes data data.length = nul := by simp [bytes]
  have hlast : bytes data (0 + (fmtInt RequestType.regNetThread.code).length + 1 + (fmtInt a).length + 1 +
      (fmtInt b).length) = nul := by
    rw [← hend]
    congr 1
    omega
  exact ⟨_, _, _, parseValue_number htype (Or.inl hsep) (by omega),
    parseValue_number ha (Or.inl hsep') (by omega), parseValue_number hb (Or.inr hlast) (by omega)⟩

/-! ## What the steps do -/

/-- What the server and the threads of the group send in the registration, except `GROUPINFO`
    messages. -/
def PlainText (group : List NetThread) (data : Text) : Prop :=
  data = requestText .ack [] ∨ data = requestText .startUserProgram [] ∨
    data = requestText .regNetThreadResponse (fmtInt (divRoundUp group.length ThreadsPerMessage)) ∨
    ∃ t ∈ group, data = requestText .regNetThread (pairText t.machineID t.mailID)

section

variable {group : List NetThread} {s s' : Group} {m : Mail} {t : NetThread}

theorem mem_ack {message : Message} (h : message ∈ ack t m) : message.data = requestText .ack [] := by
  unfold ack at h
  split_ifs at h
  · cases h
  · rw [List.mem_singleton.mp h]
    rfl

theorem transmit_eq_ok {sender : Option NetThread} {message : Message} {timeStamp : Timeval}
    {part : Option ℕ} (h : s.transmit sender message timeStamp part = .ok s') :
    ∃ sendCounters p, s' = { s with sendCounters := sendCounters, transmitted := s.transmitted ++ [p] } ∧
      p.mail.data = message.data ∧ p.part = part := by
  unfold Group.transmit at h
  simp only at h
  split_ifs at h <;> (cases h; exact ⟨_, _, rfl, rfl, rfl⟩)

theorem transmitAll_eq_ok {sender : Option NetThread} {now : Timeval} {messages : List Message}
    (h : s.transmitAll sender m now messages = .ok s') :
    ∃ sendCounters posted,
      s' = { s with sendCounters := sendCounters, transmitted := s.transmitted ++ posted } ∧
        ∀ p ∈ posted, ∃ message ∈ messages, p.mail.data = message.data := by
  induction messages generalizing s with
  | nil =>
    cases h
    exact ⟨s'.sendCounters, [], by rw [List.append_nil], nofun⟩
  | cons message messages ih =>
    rw [Group.transmitAll] at h
    obtain ⟨s₁, hs₁, h⟩ := bind_eq_ok.mp h
    obtain ⟨sendCounters₁, p, rfl, hdata, -⟩ := transmit_eq_ok hs₁
    obtain ⟨sendCounters, posted, rfl, hposted⟩ := ih h
    refine ⟨sendCounters, p :: posted, by simp, fun p' hp' => ?_⟩
    rcases List.mem_cons.mp hp' with rfl | hp'
    · exact ⟨message, List.mem_cons_self, hdata⟩
    · obtain ⟨message', hmem, hdata'⟩ := hposted p' hp'
      exact ⟨message', List.mem_cons_of_mem _ hmem, hdata'⟩

/-- **The server on a message**: the list stays, or the member that a `REGNETTHREAD` names is
    appended. -/
theorem regServer_eq_ok {serverNetThreadInfo serverNetThreadInfo' : List (ℤ × ℤ)} {out : List Message}
    (h : regServer group.length serverNetThreadInfo m = .ok (out, serverNetThreadInfo')) :
    (∀ message ∈ out, PlainText group message.data) ∧
      (serverNetThreadInfo' = serverNetThreadInfo ∨ m.HasType .regNetThread ∧
        ∀ a b, m.data = requestText .regNetThread (pairText a b) →
          serverNetThreadInfo' = if (a, b) ∈ serverNetThreadInfo then serverNetThreadInfo
            else serverNetThreadInfo ++ [(a, b)]) := by
  unfold regServer at h
  obtain ⟨⟨requestType, i⟩, htype, h⟩ := bind_eq_ok.mp h
  simp only at h
  split_ifs at h with hack hreg
  · cases h
    exact ⟨nofun, Or.inl rfl⟩
  · cases h
    exact ⟨fun message hmem => Or.inl (mem_ack hmem), Or.inl rfl⟩
  · obtain ⟨⟨machineID, i'⟩, hmachine, h⟩ := bind_eq_ok.mp h
    obtain ⟨⟨mailID, i''⟩, hmail, h⟩ := bind_eq_ok.mp h
    cases h
    refine ⟨fun message hmem => ?_, Or.inr ⟨(hasType_of_parse htype _).mpr (not_not.mp hreg), ?_⟩⟩
    · rcases List.mem_append.mp hmem with hmem | hmem
      · exact Or.inl (mem_ack hmem)
      · rw [List.mem_singleton.mp hmem]
        exact Or.inr (Or.inr (Or.inl rfl))
    · intro a b hdata
      obtain ⟨j, j', j'', h1, h2, h3⟩ := parse_regNetThread (hdata ▸ m.fits)
      rw [← hdata] at h1 h2 h3
      cases htype.symm.trans h1
      cases hmachine.symm.trans h2
      cases hmail.symm.trans h3
      rfl

/-- What a receive loop of the registration can do with a message. -/
inductive Progress (t : NetThread) (memory : ℕ → Timeval) (m : Mail) (s : ServerState) : ServerState → Prop
  | stay (receivedMessages : List Mail) :
      Progress t memory m s { s with thread := { s.thread with receivedMessages := receivedMessages } }
  | start (receivedMessages : List Mail) (hphase : s.phase = .start) :
      Progress t memory m s ⟨.response, { s.thread with receivedMessages := receivedMessages }⟩
  | response (receivedMessages : List Mail) (hphase : s.phase = .response)
      (htype : m.HasType .regNetThreadResponse) (data : Text)
      (hread : m.read = .ok (RequestType.regNetThreadResponse.code, some data)) :
      Progress t memory m s
        ⟨(awaitGroupInfo t (atoi data).toNat).1, { s.thread with receivedMessages := receivedMessages }⟩
  | groupInfo (receivedMessages : List Mail) (remaining : ℕ) (hphase : s.phase = .groupInfo remaining)
      (htype : m.HasType .groupInfo) (data : Text)
      (hread : m.read = .ok (RequestType.groupInfo.code, some data)) (entries : List NetThreadInfoEntry)
      (hentries : parseGroupInfo memory 0 data = .ok entries) :
      Progress t memory m s ⟨(awaitGroupInfo t (remaining - 1)).1,
        { s.thread with
          localNetThreadInfo := s.thread.localNetThreadInfo ++ entries
          receivedMessages := receivedMessages }⟩

theorem plainText_awaitGroupInfo {remaining : ℕ} {message : Message}
    (h : message ∈ (awaitGroupInfo t remaining).2) : PlainText group message.data := by
  unfold awaitGroupInfo at h
  split_ifs at h
  · rw [List.mem_singleton.mp h]
    exact Or.inr (Or.inl rfl)
  · cases h

/-- **A thread on a message** in a receive loop. -/
theorem receiveLoop_progress {memory : ℕ → Timeval} {server server' : ServerState} (ht : t ∈ group)
    (h : (receiveLoop t memory server m).next = .ok server') :
    Progress t memory m server server' ∧
      ∀ message ∈ (receiveLoop t memory server m).out, PlainText group message.data := by
  obtain ⟨⟨requestType, rest⟩, hread⟩ := m.read_ok
  unfold receiveLoop at h ⊢
  simp only [hread] at h ⊢
  split_ifs at h ⊢ with hack hawaited
  · cases h
    exact ⟨.stay _, nofun⟩
  · have hacks : ∀ message ∈ ack t m, PlainText group message.data := fun message hmem =>
      Or.inl (mem_ack hmem)
    have hall {out : List Message} (hout : ∀ message ∈ out, PlainText group message.data) :
        ∀ message ∈ ack t m ++ out, PlainText group message.data := fun message hmem =>
      (List.mem_append.mp hmem).elim (hacks message) (hout message)
    cases hphase : server.phase with
    | start =>
      simp only [hphase, register] at h ⊢
      cases h
      refine ⟨.start _ hphase, hall fun message hmem => ?_⟩
      rw [List.mem_singleton.mp hmem]
      exact Or.inr (Or.inr (Or.inr ⟨t, ht, rfl⟩))
    | response =>
      have htype : requestType = RequestType.regNetThreadResponse.code := by
        simpa [hphase, Phase.awaited, eq_comm] using hawaited
      rw [htype] at hread
      cases rest with
      | none =>
        simp only [hphase, register] at h
        cases h
      | some data =>
        simp only [hphase, register] at h ⊢
        cases h
        exact ⟨.response _ hphase ((Mail.hasType_iff hread _).mpr rfl) data hread,
          hall fun message hmem => plainText_awaitGroupInfo hmem⟩
    | groupInfo remaining =>
      have htype : requestType = RequestType.groupInfo.code := by
        simpa [hphase, Phase.awaited, eq_comm] using hawaited
      rw [htype] at hread
      cases rest with
      | none =>
        simp only [hphase, register] at h
        cases h
      | some data =>
        cases hentries : parseGroupInfo memory 0 data with
        | error fault =>
          simp only [hphase, register, hentries, error_bind] at h
          cases h
        | ok entries =>
          simp only [hphase, register, hentries, ok_bind, pure_eq_ok] at h ⊢
          cases h
          exact ⟨.groupInfo _ remaining hphase ((Mail.hasType_iff hread _).mpr rfl) data hread entries hentries,
            hall fun message hmem => plainText_awaitGroupInfo hmem⟩
    | main =>
      simp [hphase, Phase.awaited] at hawaited
  · cases h
    exact ⟨.stay _, fun message hmem => Or.inl (mem_ack hmem)⟩

end

/-! ## The invariant -/

/-- The number of `GROUPINFO` messages to a thread. -/
abbrev numMessages (group : List NetThread) : ℕ := divRoundUp group.length ThreadsPerMessage

theorem length_le_numMessages (group : List NetThread) :
    group.length ≤ ThreadsPerMessage * numMessages group := by
  show group.length ≤ 8 * (group.length / 8 + if 0 < group.length % 8 then 1 else 0)
  split_ifs <;> omega

theorem lt_numMessages_iff {group : List NetThread} {part : ℕ} :
    part < numMessages group ↔ ThreadsPerMessage * part < group.length := by
  show part < group.length / 8 + (if 0 < group.length % 8 then 1 else 0) ↔ 8 * part < group.length
  split_ifs <;> omega

/-- The table has the first `n` parts of the list, which is complete if there are any. -/
def HasParts (s : Group) (table : List NetThreadInfoEntry) (n : ℕ) : Prop :=
  table.map NetThreadInfoEntry.address = s.serverNetThreadInfo.take (ThreadsPerMessage * n) ∧
    (0 < n → s.server ≠ .registering)

/-- What a thread has of the list. -/
def ThreadOk (group : List NetThread) (s : Group) (server : ServerState) : Prop :=
  match server.phase with
  | .start | .response => server.thread.localNetThreadInfo = []
  | .groupInfo remaining => 0 < remaining ∧ remaining ≤ numMessages group ∧
      HasParts s server.thread.localNetThreadInfo (numMessages group - remaining)
  | .main => HasParts s server.thread.localNetThreadInfo (numMessages group)

theorem ThreadOk.mono {group : List NetThread} {s s' : Group} {server : ServerState}
    (h : ThreadOk group s server) (hparts : ∀ table n, HasParts s table n → HasParts s' table n) :
    ThreadOk group s' server := by
  obtain ⟨phase, thread⟩ := server
  cases phase with
  | start | response => exact h
  | groupInfo remaining => exact ⟨h.1, h.2.1, hparts _ _ h.2.2⟩
  | main => exact hparts _ _ h

/-- The texts of the packets. -/
structure PostedOk (group : List NetThread) (s : Group) (p : Posted) : Prop where
  registration : p.mail.HasType .regNetThread →
    ∃ t ∈ group, p.mail.data = requestText .regNetThread (pairText t.machineID t.mailID)
  response : p.mail.HasType .regNetThreadResponse →
    p.mail.data = requestText .regNetThreadResponse (fmtInt (numMessages group))
  info : p.mail.HasType .groupInfo → s.server ≠ .registering ∧ ∃ part ∈ p.part,
    ThreadsPerMessage * part < group.length ∧ p.mail.data = groupInfoText s.serverNetThreadInfo part

/-- The server's list has members of the group, each once, and all of them when the parts are
    sent. -/
structure GroupInv (group : List NetThread) (s : Group) : Prop where
  members : ∀ a ∈ s.serverNetThreadInfo, a ∈ group.map NetThread.address
  nodup : s.serverNetThreadInfo.Nodup
  complete : s.server ≠ .registering → s.serverNetThreadInfo.length = group.length
  sending : ∀ part member, s.server = .sending part member → ThreadsPerMessage * part < group.length
  posted : ∀ p ∈ s.transmitted, PostedOk group s p
  threads : ∀ t ∈ group, ThreadOk group s (s.threads t)

theorem GroupInv.init (group : List NetThread) : GroupInv group .init where
  members := nofun
  nodup := List.nodup_nil
  complete h := absurd rfl h
  sending := nofun
  posted := nofun
  threads _ _ := rfl

section

variable {group : List NetThread} {s s' : Group} {m : Mail} {t : NetThread}

theorem length_le_of_members {members : List (ℤ × ℤ)} (hnodup : members.Nodup)
    (hmembers : ∀ a ∈ members, a ∈ group.map NetThread.address) : members.length ≤ group.length := by
  simpa using (List.subperm_of_subset hnodup hmembers).length_le

/-- **A thread that has left** has the whole list. -/
theorem GroupInv.groupAgrees (h : GroupInv group s) (hsize : 0 < group.length) : GroupAgrees group s := by
  intro t ht hphase
  have hthread := h.threads t ht
  simp only [ThreadOk, hphase] at hthread
  obtain ⟨hmap, hserver⟩ := hthread
  have hlength := h.complete (hserver (lt_numMessages_iff.mpr hsize))
  refine ⟨?_, h.nodup, ?_⟩
  · rw [hmap]
    exact List.take_of_length_le (hlength.trans_le (length_le_numMessages group))
  · exact (List.subperm_of_subset h.nodup h.members).perm_of_length_le (by simp [hlength])

/-- Texts of no `GROUPINFO` message. -/
theorem PostedOk.of_plain {p : Posted} (h : PlainText group p.mail.data) : PostedOk group s p := by
  obtain h | h | h | ⟨t, ht, h⟩ := h
  all_goals
    have htype := hasType_requestText h
    constructor
  all_goals intro hr; first
    | exact absurd ((htype _).mp hr) (by decide)
    | skip
  · exact h
  · exact ⟨t, ht, h⟩

/-- **Packets are transmitted** and counters change. -/
theorem GroupInv.post (h : GroupInv group s) {posted : List Posted}
    (hposted : ∀ p ∈ posted, PostedOk group s p)
    (sendCounters receiveCounters : Option NetThread → Address → Option ℤ) :
    GroupInv group { s with
      sendCounters := sendCounters
      receiveCounters := receiveCounters
      transmitted := s.transmitted ++ posted } where
  members := h.members
  nodup := h.nodup
  complete := h.complete
  sending := h.sending
  posted p hp := by
    obtain ⟨h1, h2, h3⟩ := (List.mem_append.mp hp).elim (h.posted p) (hposted p)
    exact ⟨h1, h2, h3⟩
  threads := h.threads

theorem GroupInv.transmitAll (h : GroupInv group s) {sender : Option NetThread} {now : Timeval}
    {messages : List Message} (hmessages : ∀ message ∈ messages, PlainText group message.data)
    (hs' : s.transmitAll sender m now messages = .ok s') :
    GroupInv group s' ∧ s'.server = s.server ∧ s'.serverNetThreadInfo = s.serverNetThreadInfo ∧
      s'.threads = s.threads := by
  obtain ⟨sendCounters, posted, rfl, hposted⟩ := transmitAll_eq_ok hs'
  refine ⟨h.post (fun p hp => ?_) sendCounters s.receiveCounters, rfl, rfl, rfl⟩
  obtain ⟨message, hmem, hdata⟩ := hposted p hp
  exact .of_plain (hdata ▸ hmessages message hmem)

/-- As long as threads register, no thread has a part. -/
theorem GroupInv.register (h : GroupInv group s) (hserver : s.server = .registering)
    {members : List (ℤ × ℤ)} (hmembers : ∀ a ∈ members, a ∈ group.map NetThread.address)
    (hnodup : members.Nodup) (hsize : 0 < group.length) :
    GroupInv group { s with
      serverNetThreadInfo := members
      server := if members.length < group.length then .registering else .sending 0 0 } where
  members := hmembers
  nodup := hnodup
  complete hne := by
    have hle := length_le_of_members hnodup hmembers
    by_contra hlength
    exact hne (if_pos (by simp only at hlength; omega))
  sending part member heq := by
    simp only at heq
    split_ifs at heq
    cases heq
    exact hsize
  posted p hp := by
    obtain ⟨h1, h2, h3⟩ := h.posted p hp
    exact ⟨h1, h2, fun htype => absurd hserver (h3 htype).1⟩
  threads t ht := by
    refine (h.threads t ht).mono fun table n ⟨hmap, hpos⟩ => ?_
    obtain rfl : n = 0 := by
      by_contra hn
      exact hpos (Nat.pos_of_ne_zero hn) hserver
    exact ⟨by simpa using hmap, nofun⟩

/-- **The server serves** a message. -/
theorem GroupInv.serve (h : GroupInv group s) (hsize : 0 < group.length)
    {p : Posted} (hp : PostedOk group s p) {now : Timeval}
    (hs' : s.serve group.length p.mail now = .ok s') : GroupInv group s' := by
  unfold Group.serve at hs'
  obtain ⟨⟨out, members⟩, hserve, hs'⟩ := bind_eq_ok.mp hs'
  obtain ⟨hout, hmembers⟩ := regServer_eq_ok hserve
  simp only at hs'
  by_cases hserver : s.server = .registering
  · rw [if_pos hserver] at hs'
    obtain ⟨s₁, hs₁, hs'⟩ := bind_eq_ok.mp hs'
    cases hs'
    obtain ⟨hinv, hserver', -, -⟩ := h.transmitAll hout hs₁
    have hnew : (∀ a ∈ members, a ∈ group.map NetThread.address) ∧ members.Nodup := by
      rcases hmembers with rfl | ⟨htype, hmembers⟩
      · exact ⟨h.members, h.nodup⟩
      · obtain ⟨t, ht, hdata⟩ := hp.registration htype
        rw [hmembers _ _ hdata]
        split_ifs with hmem
        · exact ⟨h.members, h.nodup⟩
        · refine ⟨fun a ha => ?_, h.nodup.append (List.nodup_singleton _) (by simpa using hmem)⟩
          rcases List.mem_append.mp ha with ha | ha
          · exact h.members a ha
          · rw [List.mem_singleton.mp ha]
            exact List.mem_map_of_mem ht
    exact hinv.register (hserver'.trans hserver) hnew.1 hnew.2 hsize
  · rw [if_neg hserver] at hs'
    split_ifs at hs' with hack
    · cases hs'
      exact h
    · exact (h.transmitAll (fun message hmem => Or.inl (mem_ack hmem)) hs').1

/-- **The server sends** a part, or goes on to the next one. -/
theorem GroupInv.sendGroupInfo (h : GroupInv group s) {now : Timeval}
    (hs' : s.sendGroupInfo now = .ok s') : GroupInv group s' := by
  unfold Group.sendGroupInfo at hs'
  cases hserver : s.server with
  | registering | waiting =>
    simp only [hserver] at hs'
    cases hs'
    exact h
  | sending part member =>
    have hne : s.server ≠ .registering := by rw [hserver]; nofun
    have hpart := h.sending part member hserver
    -- the list stays, and the server does not go back to the registration
    have hkeep (server : ServerPhase) (hserver' : server ≠ .registering)
        (hsending : ∀ part member, server = .sending part member → ThreadsPerMessage * part < group.length)
        {s : Group} (h : GroupInv group s) (hne : s.server ≠ .registering) :
        GroupInv group { s with server := server } :=
      { members := h.members
        nodup := h.nodup
        complete := fun _ => h.complete hne
        sending := hsending
        posted := fun p hp =>
          { registration := (h.posted p hp).registration
            response := (h.posted p hp).response
            info := fun htype => ⟨hserver', ((h.posted p hp).info htype).2⟩ }
        threads := fun t ht => (h.threads t ht).mono fun table n hparts => ⟨hparts.1, fun _ => hserver'⟩ }
    simp only [hserver] at hs'
    cases hmember : s.serverNetThreadInfo[member]? with
    | some address =>
      simp only [hmember] at hs'
      obtain ⟨s₁, hs₁, hs'⟩ := bind_eq_ok.mp hs'
      cases hs'
      obtain ⟨sendCounters, p, rfl, hdata, hp⟩ := transmit_eq_ok hs₁
      have htype := hasType_requestText hdata
      have hposted : PostedOk group s p :=
        { registration := fun hr => absurd ((htype _).mp hr) (by decide)
          response := fun hr => absurd ((htype _).mp hr) (by decide)
          info := fun _ => ⟨hne, part, hp, hpart, hdata⟩ }
      have hone : ∀ p' ∈ [p], PostedOk group s p' := by simpa using hposted
      have hinv := h.post hone sendCounters s.receiveCounters
      refine hkeep (.sending part (member + 1)) nofun (fun _ _ heq => ?_) hinv hne
      cases heq
      exact hpart
    | none =>
      simp only [hmember] at hs'
      cases hs'
      refine hkeep _ ?_ (fun _ _ heq => ?_) h hne
      · split_ifs <;> nofun
      · split_ifs at heq with hnext
        cases heq
        rwa [h.complete hne] at hnext

/-- A thread with `n` parts of the list waits for the next ones, or has all. -/
theorem threadOk_awaitGroupInfo {thread : ThreadState} {n : ℕ}
    (h : HasParts s thread.localNetThreadInfo n) (hn : n ≤ numMessages group) :
    ThreadOk group s ⟨(awaitGroupInfo t (numMessages group - n)).1, thread⟩ := by
  unfold awaitGroupInfo
  split_ifs with hzero
  · obtain rfl : n = numMessages group := by omega
    exact h
  · refine ⟨Nat.pos_of_ne_zero hzero, Nat.sub_le _ _, ?_⟩
    show HasParts s thread.localNetThreadInfo (numMessages group - (numMessages group - n))
    rwa [Nat.sub_sub_self hn]

/-- **A thread goes on**, where a `GROUPINFO` is the next part. -/
theorem ThreadOk.progress {memory : ℕ → Timeval} {server server' : ServerState} (hinv : GroupInv group s)
    (hgroup : ∀ t ∈ group, Printable t) {p : Posted} (hp : PostedOk group s p)
    (hnext : ∀ part ∈ p.part, ThreadsPerMessage * part < group.length → NextPart group part server.phase)
    (h : ThreadOk group s server)
    (hprogress : Progress t memory p.mail server server') : ThreadOk group s server' := by
  obtain ⟨phase, thread⟩ := server
  cases hprogress with
  | stay receivedMessages => cases phase <;> exact h
  | start receivedMessages hphase =>
    cases hphase
    exact h
  | response receivedMessages hphase htype data hread =>
    cases hphase
    have hdata := hp.response htype
    rw [Mail.read, hdata, readType_requestText] at hread
    cases hread
    rw [atoi_fmtInt, Int.toNat_natCast, ← Nat.sub_zero (numMessages group)]
    refine threadOk_awaitGroupInfo ⟨?_, by simp⟩ (Nat.zero_le _)
    rw [Nat.mul_zero, List.take_zero, List.map_eq_nil_iff]
    exact h
  | groupInfo receivedMessages remaining hphase htype data hread entries hentries =>
    cases hphase
    obtain ⟨hpos, hle, hmap, -⟩ := h
    obtain ⟨hserver, part, hpart, hlt, hdata⟩ := hp.info htype
    have hnext : part + remaining = numMessages group := hnext part hpart hlt
    rw [Mail.read, hdata, groupInfoText, readType_requestText] at hread
    cases hread
    have hmembers : ∀ a ∈ groupPart s.serverNetThreadInfo part, ∃ t : NetThread, Printable t ∧
        a = t.address := by
      intro a ha
      obtain ⟨t, ht, rfl⟩ := List.mem_map.mp
        (hinv.members a (List.mem_of_mem_drop (List.mem_of_mem_take ha)))
      exact ⟨t, hgroup t ht, rfl⟩
    obtain ⟨entries', hentries', haddress⟩ := parseGroupInfo_flatMap memory hmembers 0
    cases hentries.symm.trans hentries'
    rw [show remaining - 1 = numMessages group - (part + 1) by omega]
    refine threadOk_awaitGroupInfo ⟨?_, fun _ => hserver⟩ (by omega)
    rw [show numMessages group - remaining = part by omega] at hmap
    rw [List.map_append, hmap, haddress, groupPart, Nat.mul_add, List.take_add, Nat.mul_one]

/-- The only part of a group of at most eight is the next one. -/
theorem ThreadOk.nextPart {server : ServerState} (h : ThreadOk group s server)
    (hsmall : group.length ≤ ThreadsPerMessage) {part : ℕ}
    (hpart : ThreadsPerMessage * part < group.length) : NextPart group part server.phase := by
  obtain ⟨phase, thread⟩ := server
  cases phase with
  | groupInfo remaining =>
    obtain ⟨hpos, hle, -⟩ := h
    have hone : ¬ 1 < numMessages group := fun hlt => by
      have := lt_numMessages_iff.mp hlt
      omega
    have hzero := lt_numMessages_iff.mpr hpart
    show part + remaining = numMessages group
    omega
  | start | response | main => trivial

/-- A thread receives a packet in a receive loop. -/
theorem GroupInv.advance (h : GroupInv group s) (hgroup : ∀ t ∈ group, Printable t) (ht : t ∈ group)
    {p : Posted} (hp : PostedOk group s p)
    (hnext : ∀ part ∈ p.part, ThreadsPerMessage * part < group.length →
      NextPart group part (s.threads t).phase)
    {now : Timeval} {memory : ℕ → Timeval} (hs' : s.advance t p.mail now memory = .ok s') :
    GroupInv group s' := by
  unfold Group.advance at hs'
  obtain ⟨server, hserver, hs'⟩ := bind_eq_ok.mp hs'
  obtain ⟨s₁, hs₁, hs'⟩ := bind_eq_ok.mp hs'
  cases hs'
  obtain ⟨hprogress, hout⟩ := receiveLoop_progress ht hserver
  have hthread := ThreadOk.progress h hgroup hp hnext (h.threads t ht) hprogress
  obtain ⟨hinv, hphase, hlist, hthreads⟩ := h.transmitAll hout hs₁
  have hparts (table : List NetThreadInfoEntry) (n : ℕ) (hparts : HasParts s table n) :
      HasParts { s₁ with threads := Function.update s₁.threads t server } table n := by
    simpa only [HasParts, hphase, hlist] using hparts
  refine
    { members := hinv.members
      nodup := hinv.nodup
      complete := hinv.complete
      sending := hinv.sending
      posted := fun p hp => ⟨(hinv.posted p hp).1, (hinv.posted p hp).2, (hinv.posted p hp).3⟩
      threads := fun t' ht' => ?_ }
  show ThreadOk group _ (Function.update s₁.threads t server t')
  rw [Function.update_apply]
  split_ifs
  · exact hthread.mono hparts
  · rw [hthreads]
    exact (h.threads t' ht').mono hparts

theorem GroupInv.receive (h : GroupInv group s) (reader : Option NetThread) (p : Posted) :
    GroupInv group (s.receive reader p).2 where
  members := h.members
  nodup := h.nodup
  complete := h.complete
  sending := h.sending
  posted p hp := ⟨(h.posted p hp).1, (h.posted p hp).2, (h.posted p hp).3⟩
  threads t ht := (h.threads t ht).mono fun _ _ hparts => hparts

/-- **Step lemma.** -/
theorem groupStep_inv {e : GroupEvent} (hgroup : ∀ t ∈ group, Printable t) (hsize : 0 < group.length)
    (h : GroupInv group s) (hok : GroupOk group s e) (hs' : groupStep group s e = .ok s') :
    GroupInv group s' := by
  cases e with
  | server n now =>
    simp only [groupStep] at hs'
    cases hn : s.transmitted[n]? with
    | none =>
      simp only [hn] at hs'
      cases hs'
      exact h
    | some p =>
      have hp := h.posted p (List.mem_of_getElem? hn)
      have hinv := h.receive none p
      simp only [hn] at hs'
      split_ifs at hs'
      · exact hinv.serve hsize ⟨hp.1, hp.2, hp.3⟩ hs'
      · cases hs'
        exact hinv
      · cases hs'
        exact h
  | send now => exact h.sendGroupInfo hs'
  | thread t n now memory =>
    simp only [groupStep] at hs'
    cases hn : s.transmitted[n]? with
    | none =>
      simp only [hn] at hs'
      cases hs'
      exact h
    | some p =>
      have hp := h.posted p (List.mem_of_getElem? hn)
      have hinv := h.receive (some t) p
      simp only [hn] at hs'
      split_ifs at hs' with hmine
      · refine hinv.advance hgroup hmine.1 ⟨hp.1, hp.2, hp.3⟩ (fun part hpart hlt => ?_) hs'
        rcases le_or_gt group.length ThreadsPerMessage with hsmall | hlarge
        · exact (h.threads t hmine.1).nextPart hsmall hlt
        · exact hok hlarge p hn hmine.2.1 part hpart
      · cases hs'
        exact hinv
      · cases hs'
        exact h
  | other mail counter =>
    cases hs'
    split_ifs with htype
    · exact h
    · have hposted : ∀ p ∈ [(⟨mail, counter, none⟩ : Posted)], PostedOk group s p := by
        intro p hp
        rw [List.mem_singleton.mp hp]
        exact ⟨fun hr => absurd (Or.inl hr) htype, fun hr => absurd (Or.inr (Or.inl hr)) htype,
          fun hr => absurd (Or.inr (Or.inr hr)) htype⟩
      exact h.post hposted s.sendCounters s.receiveCounters

end

/-- **The group agrees** in every state that a run reaches, whatever packets are lost, delayed,
    overtaken and received again: all threads that have left the registration have the same list, of all
    members, if the group has at most eight, or a thread that waits for a `GROUPINFO` receives no
    other part than the next one. -/
theorem group_agrees {group : List NetThread} (hsize : 0 < group.length)
    (hgroup : ∀ t ∈ group, t.machineID ≤ 9 ∧ t.mailID ≤ 99) {events : List GroupEvent} {s : Group}
    (hok : Guarded (groupStep group) (GroupOk group) .init events)
    (hrun : exec (groupStep group) .init events = .ok s) : GroupAgrees group s :=
  (exec_inv (fun _ _ _ => groupStep_inv hgroup hsize) (GroupInv.init group) hok hrun).groupAgrees hsize

/-! ## Two runs -/

/-- Nine threads on nine machines. -/
def nineThreads : List NetThread := (List.range 9).map fun i => ⟨i + 1, 0⟩

/-- The nine threads are started one after the other, and register: each time four packets are
    transmitted. Then the two parts are sent to all. -/
def nineRegister : List GroupEvent :=
  ((List.range 9).flatMap fun i =>
    [.other (startMessage ⟨i + 1, 0⟩) 0, .thread ⟨i + 1, 0⟩ (4 * i) ⟨20, i⟩ fun _ => ⟨0, 0⟩,
      .server (4 * i + 1) ⟨30, i⟩]) ++
    (List.range 20).map fun i => .send ⟨40, i⟩

/-- A thread receives the `n`-th packet. -/
def receives (t : NetThread) (n : ℕ) : GroupEvent := .thread t n ⟨50, 0⟩ fun _ => ⟨0, 0⟩

/-- Two threads receive both parts. -/
theorem group_agrees_nine : ∃ s,
    exec (groupStep nineThreads) .init (nineRegister ++ [receives ⟨1, 0⟩ 3, receives ⟨1, 0⟩ 36,
      receives ⟨1, 0⟩ 45, receives ⟨3, 0⟩ 11, receives ⟨3, 0⟩ 38, receives ⟨3, 0⟩ 47]) = .ok s ∧
      (s.threads ⟨1, 0⟩).phase = .main ∧ (s.threads ⟨3, 0⟩).phase = .main ∧
      GroupAgrees nineThreads s := by
  obtain ⟨s, hrun, hs⟩ : Ends (groupStep nineThreads) .init
      (nineRegister ++ [receives ⟨1, 0⟩ 3, receives ⟨1, 0⟩ 36, receives ⟨1, 0⟩ 45,
        receives ⟨3, 0⟩ 11, receives ⟨3, 0⟩ 38, receives ⟨3, 0⟩ 47])
      fun s => (s.threads ⟨1, 0⟩).phase = .main ∧ (s.threads ⟨3, 0⟩).phase = .main := by
    decide +kernel
  exact ⟨s, hrun, hs.1, hs.2, group_agrees (by decide) (by decide) (by decide +kernel) hrun⟩

/-- **The lists differ**: the acknowledgement of the first part is lost, and the thread takes the
    packet that is sent again for the second part. -/
theorem group_disagrees :
    Ends (groupStep nineThreads) .init
      (nineRegister ++ [receives ⟨1, 0⟩ 3, receives ⟨1, 0⟩ 36, receives ⟨1, 0⟩ 36])
      fun s => (s.threads ⟨1, 0⟩).phase = .main ∧ ¬ GroupAgrees nineThreads s := by
  decide +kernel

end Nachos.Threads
