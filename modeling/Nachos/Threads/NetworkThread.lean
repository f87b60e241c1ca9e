import Nachos.Lib.HoldBack
import Nachos.Network.Globals

/-!
# The network thread

The main loop of `NetworkThread` and the receive loops of `RegisterNetworkThread`
(`threads/system.cc`, lines 340-725): acknowledgement, the test for redundant
messages, the group's table of last time stamps, and the queue by which requests
of other threads are put into a total order.

A message that the loop hands to `processMessage` is an output here; what that
function does is the subject of `Nachos.Network.Process`. Left out: the list
`unAckedMessages`, which belongs to the post office, and the printing.
-/

namespace Nachos.Threads

open Nachos.Lib Nachos.Network

/-! ## Mail -/

/-- `class Mail` (network/post.h): a message as `PostOffice::Receive` returns it, the
    counter in front of its text removed. `gettimeofday` counts from 1970, and
    `PostOffice::Send` asserts that a text fits. -/
structure Mail extends Message where
  timeStamp : Timeval
  stamped : 0 < timeStamp.sec
  fits : data.length < MaxMailSize
  deriving DecidableEq

namespace Mail

variable (m : Mail)

/-- The address of the sender. -/
def sender : ℤ × ℤ := (m.pktHdr.fromMachine, m.mailHdr.fromBox)

/-- What `messageIsRedundant` compares. -/
def key : PacketHeader × MailHeader × Timeval := (m.pktHdr, m.mailHdr, m.timeStamp)

/-- The request type, with the text behind it. -/
def read : Except Fault (ℤ × Option Text) := readType m.data

/-- The number in front of the text is that of a request type. -/
def HasType (r : RequestType) : Prop := m.read.toOption.map Prod.fst = some r.code

instance (r : RequestType) : Decidable (m.HasType r) := inferInstanceAs (Decidable (_ = _))

theorem hasType_iff {m : Mail} {r : ℤ × Option Text} (h : m.read = .ok r) (type : RequestType) :
    m.HasType type ↔ r.1 = type.code := by
  simp [HasType, h, Except.toOption]

/-- A text that fits into the buffer has a NUL there. -/
theorem read_ok : ∃ r, m.read = .ok r := by
  have hscan : ∃ r, scanField (bytes m.data) MaxMailSize 0 = some r := by
    have hfits := m.fits
    exact Option.isSome_iff_exists.mp (scanField_isSome (by omega) (Nat.zero_le _))
  obtain ⟨r, hr⟩ := hscan
  exact ⟨_, by rw [read, readType, parseValue, hr]⟩

end Mail

/-- `messageIsRedundant` (system.cc:139). -/
def messageIsRedundant (receivedMessages : List Mail) (m : Mail) : Bool :=
  receivedMessages.any (·.key = m.key)

/-- The receive loops of the registration record what is not redundant. -/
def record (receivedMessages : List Mail) (m : Mail) : List Mail :=
  if messageIsRedundant receivedMessages m then receivedMessages else receivedMessages ++ [m]

/-- `class NetThreadInfoEntry` (system.h:83). -/
structure NetThreadInfoEntry where
  machineID : ℤ
  mailID : ℤ
  timeStamp : Timeval
  deriving DecidableEq, Repr

/-- The address of a member. -/
def NetThreadInfoEntry.address (entry : NetThreadInfoEntry) : ℤ × ℤ := (entry.machineID, entry.mailID)

/-- The local variables of a network thread. -/
structure ThreadState where
  localNetThreadInfo : List NetThreadInfoEntry
  receivedMessages : List Mail
  msgQueue : List Mail

/-! ## Sending -/

/-- `Ack` (netcall.cc:117): a message `29_` to the sender, unless that is the thread
    itself or has a neighbouring mailbox on the same machine. -/
def ack (t : NetThread) (m : Mail) : List Message :=
  if m.pktHdr.fromMachine = t.machineID ∧ (m.mailHdr.fromBox = t.mailID ∨
      m.mailHdr.fromBox = t.mailID + 1 ∨ m.mailHdr.fromBox = t.mailID - 1) then []
  else [outgoing t { toMachine := m.pktHdr.fromMachine, fromMachine := t.machineID }
    { toBox := m.mailHdr.fromBox, fromBox := t.mailID } (requestText .ack [])]

/-- `sendTimeStampMessage` (system.cc:533). -/
def sendTimeStampMessage (t : NetThread) (localNetThreadInfo : List NetThreadInfoEntry) :
    List Message :=
  localNetThreadInfo.map fun entry =>
    outgoing t { toMachine := entry.machineID, fromMachine := t.machineID }
      { toBox := entry.mailID, fromBox := t.mailID } (requestText .timestamp [])

/-- A message that is no `TIMESTAMP` is followed by one to every member. -/
def announce (t : NetThread) (localNetThreadInfo : List NetThreadInfoEntry) (isTimeStamp : Bool) :
    List Message :=
  if isTimeStamp then [] else sendTimeStampMessage t localNetThreadInfo

/-! ## Total ordering -/

/-- Step 2: the time stamp of the first entry with the sender's address. -/
def updateTable (m : Mail) : List NetThreadInfoEntry → List NetThreadInfoEntry
  | [] => []
  | entry :: rest =>
    if m.sender = entry.address then { entry with timeStamp := m.timeStamp } :: rest
    else entry :: updateTable m rest

/-- Step 3: a message that is no `TIMESTAMP` goes into the queue before the first later
    one. -/
def insertMessage (isTimeStamp : Bool) (m : Mail) (msgQueue : List Mail) : List Mail :=
  if isTimeStamp then msgQueue else insertBefore (·.timeStamp) m msgQueue

/-- A time stamp whose seconds are not positive is taken for unwritten. -/
def Valid (entry : NetThreadInfoEntry) : Prop := 0 < entry.timeStamp.sec

instance (entry : NetThreadInfoEntry) : Decidable (Valid entry) :=
  inferInstanceAs (Decidable (_ < _))

/-- Step 4: the earliest time stamp in the table. Entries that are not valid are
    ignored, the first one excepted; `at(0)` throws on an empty table. -/
def earliestTimeStamp : List NetThreadInfoEntry → Except Fault Timeval
  | [] => .error .outOfBounds
  | entry :: rest => .ok <| rest.foldl (fun earliest entry =>
      if Valid entry ∧ entry.timeStamp < earliest then entry.timeStamp else earliest) entry.timeStamp

/-- Step 5, the loop from queue index `i` on: the messages that are handed on, and the
    queue that is left. The test reads the table at the index of the queue, and `at`
    throws beyond its end. -/
def drain (table : List NetThreadInfoEntry) (earliest : Timeval) :
    ℕ → List Mail → List Mail × Except Fault (List Mail)
  | _, [] => ([], .ok [])
  | i, m :: queue =>
    match table[i]? with
    | none => ([], .error .outOfBounds)
    | some entry =>
      if Valid entry ∧ m.timeStamp ≤ earliest then
        let (handed, left) := drain table earliest i queue
        (m :: handed, left)
      else
        let (handed, left) := drain table earliest (i + 1) queue
        (handed, left.map (m :: ·))

/-- What an arrival leads to: whether it is acknowledged, the messages that are sent
    and handed to `processMessage`, at once or out of the queue, and the state
    afterwards. -/
structure Outcome (σ : Type) where
  acked : Bool
  out : List Message
  direct : List Mail
  ordered : List Mail
  next : Except Fault σ

/-- Steps 2 to 5 for a message of another thread. -/
def totalOrder (s : ThreadState) (isTimeStamp : Bool) (m : Mail) :
    List Mail × Except Fault ThreadState :=
  let table := updateTable m s.localNetThreadInfo
  let queue := insertMessage isTimeStamp m s.msgQueue
  match earliestTimeStamp table with
  | .error fault => ([], .error fault)
  | .ok earliest =>
    let (handed, left) := drain table earliest 0 queue
    (handed, left.map fun queue => { s with localNetThreadInfo := table, msgQueue := queue })

/-- The message comes from the thread's own user thread. -/
def FromUser (t : NetThread) (m : Mail) : Prop := m.sender = t.userAddress

instance (t : NetThread) (m : Mail) : Decidable (FromUser t m) :=
  inferInstanceAs (Decidable (_ = _))

/-- A message that the main loop puts into the total order: no `ACK`, not redundant,
    and from another thread than the user thread. -/
def IsOrdered (t : NetThread) (s : ThreadState) (m : Mail) : Prop :=
  ¬ m.HasType .ack ∧ ¬ messageIsRedundant s.receivedMessages m ∧
    ¬ FromUser t m

instance (t : NetThread) (s : ThreadState) (m : Mail) : Decidable (IsOrdered t s m) :=
  inferInstanceAs (Decidable (_ ∧ _ ∧ _))

/-- The body of the main loop (system.cc:595). -/
def mainLoop (t : NetThread) (s : ThreadState) (m : Mail) : Outcome ThreadState :=
  match m.read with
  | .error fault => ⟨false, [], [], [], .error fault⟩
  | .ok (requestType, _) =>
    if requestType = RequestType.ack.code then ⟨false, [], [], [], .ok s⟩
    else if messageIsRedundant s.receivedMessages m then ⟨true, ack t m, [], [], .ok s⟩
    else
      let isTimeStamp : Bool := requestType = RequestType.timestamp.code
      let out := ack t m ++ announce t s.localNetThreadInfo isTimeStamp
      let s := { s with receivedMessages := s.receivedMessages ++ [m] }
      if FromUser t m then ⟨true, out, [m], [], .ok s⟩
      else
        let (handed, next) := totalOrder s isTimeStamp m
        ⟨true, out, [], handed, next⟩

/-! ## Registration -/

/-- Where a network thread is: in one of the receive loops of `RegisterNetworkThread`,
    each of which waits for one type of message, or in the main loop. -/
inductive Phase
  | start
  | response
  | groupInfo (remaining : ℕ)
  | main
  deriving DecidableEq, Repr

/-- The type that a receive loop waits for. -/
def Phase.awaited : Phase → Option RequestType
  | start => some .startUserProgram
  | response => some .regNetThreadResponse
  | groupInfo _ => some .groupInfo
  | main => none

/-- A network thread: its phase and its local variables. -/
structure ServerState where
  phase : Phase
  thread : ThreadState

/-- A thread that has just started. -/
def ServerState.init : ServerState := ⟨.start, ⟨[], [], []⟩⟩

/-- The loop that parses a machine of one digit and a mailbox of two (system.cc:455).
    The constructor of an entry leaves its time stamp as the memory has it. -/
def parseGroupInfo (memory : ℕ → Timeval) : ℕ → Text → Except Fault (List NetThreadInfoEntry)
  | _, [] => .ok []
  | k, machine :: d :: d' :: rest => do
    let entries ← parseGroupInfo memory (k + 1) rest
    return ⟨atoi [machine], atoi [d, d'], memory k⟩ :: entries
  | _, _ => .error .uninitialised

/-- The loop over `remaining` messages `GROUPINFO`; behind it the user thread is told
    to proceed. -/
def awaitGroupInfo (t : NetThread) (remaining : ℕ) : Phase × List Message :=
  if remaining = 0 then (.main, [outgoing t { toMachine := t.machineID, fromMachine := t.machineID }
    { toBox := t.mailID + 1, fromBox := t.mailID } (requestText .startUserProgram [])])
  else (.groupInfo remaining, [])

/-- What follows the message that a receive loop waits for, whose text behind the type
    is `s`. -/
def register (t : NetThread) (memory : ℕ → Timeval) (phase : Phase) (s : Option Text)
    (table : List NetThreadInfoEntry) : Except Fault (Phase × List Message × List NetThreadInfoEntry) :=
  match phase, s with
  | .start, _ => .ok (.response, [outgoing t { toMachine := 0, fromMachine := t.machineID }
      { toBox := 0, fromBox := t.mailID }
      (requestText .regNetThread (pairText t.machineID t.mailID))], table)
  | .response, some s =>
    let (phase, out) := awaitGroupInfo t (atoi s).toNat
    .ok (phase, out, table)
  | .groupInfo remaining, some s => do
    let entries ← parseGroupInfo memory 0 s
    let (phase, out) := awaitGroupInfo t (remaining - 1)
    return (phase, out, table ++ entries)
  | _, _ => .error .uninitialised

/-- A receive loop of `RegisterNetworkThread`. Whatever arrives is acknowledged and
    recorded; what is not awaited is not looked at again. -/
def receiveLoop (t : NetThread) (memory : ℕ → Timeval) (s : ServerState) (m : Mail) :
    Outcome ServerState :=
  match m.read with
  | .error fault => ⟨false, [], [], [], .error fault⟩
  | .ok (requestType, rest) =>
    if requestType = RequestType.ack.code then ⟨false, [], [], [], .ok s⟩
    else
      let thread := { s.thread with receivedMessages := record s.thread.receivedMessages m }
      if s.phase.awaited.map RequestType.code = some requestType then
        match register t memory s.phase rest s.thread.localNetThreadInfo with
        | .error fault => ⟨true, ack t m, [], [], .error fault⟩
        | .ok (phase, out, table) =>
          ⟨true, ack t m ++ out, [], [], .ok ⟨phase, { thread with localNetThreadInfo := table }⟩⟩
      else ⟨true, ack t m, [], [], .ok { s with thread := thread }⟩

/-- The network thread receives a message. -/
def networkThread (t : NetThread) (memory : ℕ → Timeval) (s : ServerState) (m : Mail) :
    Outcome ServerState :=
  if s.phase = .main then
    let o := mainLoop t s.thread m
    ⟨o.acked, o.out, o.direct, o.ordered, o.next.map fun thread => { s with thread := thread }⟩
  else receiveLoop t memory s m

/-! ## The table -/

section

variable {m : Mail} {table : List NetThreadInfoEntry} {entry : NetThreadInfoEntry}
  {earliest : Timeval}

/-- An entry of the updated table is an old one or has the time stamp of the message. -/
theorem mem_updateTable (h : entry ∈ updateTable m table) :
    entry ∈ table ∨ entry.address = m.sender ∧ entry.timeStamp = m.timeStamp := by
  induction table with
  | nil => exact Or.inl h
  | cons first rest ih =>
    rw [updateTable] at h
    split_ifs at h with hsender
    · rcases List.mem_cons.mp h with rfl | h
      · exact Or.inr ⟨hsender.symm, rfl⟩
      · exact Or.inl (List.mem_cons_of_mem _ h)
    · rcases List.mem_cons.mp h with rfl | h
      · exact Or.inl List.mem_cons_self
      · exact (ih h).imp_left (List.mem_cons_of_mem _)

@[simp] theorem length_updateTable : (updateTable m table).length = table.length := by
  induction table with
  | nil => rfl
  | cons first rest ih =>
    rw [updateTable]
    split_ifs <;> simp [ih]

/-- The fold of step 4 stays below the value it starts from and every valid entry. -/
theorem foldl_earliest_le (table : List NetThreadInfoEntry) (first : Timeval) :
    let earliest := table.foldl (fun earliest entry =>
      if Valid entry ∧ entry.timeStamp < earliest then entry.timeStamp else earliest) first
    earliest ≤ first ∧ ∀ entry ∈ table, Valid entry → earliest ≤ entry.timeStamp := by
  induction table generalizing first with
  | nil => exact ⟨le_rfl, nofun⟩
  | cons entry rest ih =>
    obtain ⟨hfirst, hrest⟩ := ih
      (if Valid entry ∧ entry.timeStamp < first then entry.timeStamp else first)
    refine ⟨hfirst.trans ?_, fun entry' hmem hvalid => ?_⟩
    · split_ifs with h
      · exact h.2.le
      · exact le_rfl
    · rcases List.mem_cons.mp hmem with rfl | hmem
      · refine hfirst.trans ?_
        split_ifs with h
        · exact le_rfl
        · exact not_lt.mp fun hlt => h ⟨hvalid, hlt⟩
      · exact hrest entry' hmem hvalid

/-- **The earliest time stamp** is a lower bound of the table. -/
theorem earliestTimeStamp_le (h : earliestTimeStamp table = .ok earliest) (hentry : entry ∈ table)
    (hvalid : Valid entry) : earliest ≤ entry.timeStamp := by
  match table, h with
  | first :: rest, h =>
    cases h
    obtain ⟨hfirst, hrest⟩ := foldl_earliest_le rest first.timeStamp
    rcases List.mem_cons.mp hentry with rfl | hmem
    · exact hfirst
    · exact hrest entry hmem hvalid

/-- As long as the first entry is not valid, no message is old enough. -/
theorem earliest_lt_of_not_valid (h : earliestTimeStamp table = .ok earliest)
    (hentry : table[0]? = some entry) (hvalid : ¬ Valid entry) (m : Mail) :
    earliest < m.timeStamp := by
  match table, h, hentry with
  | first :: rest, h, hentry =>
    cases h
    cases hentry
    have hle := (foldl_earliest_le rest entry.timeStamp).1
    have hm := m.stamped
    simp only [Valid, not_lt] at hvalid
    rw [Timeval.le_def] at hle
    rw [Timeval.lt_def]
    omega

theorem earliestTimeStamp_ok (h : table ≠ []) : ∃ earliest, earliestTimeStamp table = .ok earliest := by
  match table, h with
  | _ :: _, _ => exact ⟨_, rfl⟩

end

/-! ## The queue -/

section

variable {table : List NetThreadInfoEntry} {earliest : Timeval} {queue : List Mail}

/-- Later messages stay in the queue, if the table is long enough to be read. -/
theorem drain_later {i : ℕ} (h : ∀ m ∈ queue, earliest < m.timeStamp) (hi : i ≤ table.length) :
    drain table earliest i queue =
      ([], if i + queue.length ≤ table.length then .ok queue else .error .outOfBounds) := by
  induction queue generalizing i with
  | nil => rw [drain, if_pos (by simpa using hi)]
  | cons m queue ih =>
    have hm := h m List.mem_cons_self
    rcases Nat.lt_or_eq_of_le hi with hlt | rfl
    · rw [drain, List.getElem?_eq_getElem hlt]
      simp only [if_neg (not_and_of_not_right _ hm.not_ge)]
      rw [ih (fun m' hm' => h m' (List.mem_cons_of_mem _ hm')) hlt, List.length_cons,
        show i + 1 + queue.length = i + (queue.length + 1) by omega]
      split_ifs <;> rfl
    · rw [drain, List.getElem?_eq_none_iff.mpr le_rfl, if_neg (by simp)]

/-- **What the drain hands on**: the messages up to the earliest time stamp. -/
theorem drain_eq (hqueue : Ordered (·.timeStamp) queue)
    (hearliest : earliestTimeStamp table = .ok earliest) :
    drain table earliest 0 queue = (queue.takeWhile (·.timeStamp ≤ earliest),
      if (queue.dropWhile (·.timeStamp ≤ earliest)).length ≤ table.length then
        .ok (queue.dropWhile (·.timeStamp ≤ earliest))
      else .error .outOfBounds) := by
  induction queue with
  | nil => rfl
  | cons m queue ih =>
    obtain ⟨entry, hentry⟩ : ∃ entry, table[0]? = some entry := by
      match table, hearliest with
      | entry :: _, _ => exact ⟨entry, rfl⟩
    by_cases hold : m.timeStamp ≤ earliest
    · have hvalid : Valid entry := by
        by_contra hvalid
        exact (earliest_lt_of_not_valid hearliest hentry hvalid m).not_ge hold
      rw [drain, hentry]
      simp only [if_pos (And.intro hvalid hold), ih hqueue.of_cons, List.takeWhile_cons,
        List.dropWhile_cons, decide_eq_true hold, if_true]
    · have hlater : ∀ m' ∈ m :: queue, earliest < m'.timeStamp := by
        intro m' hm'
        rcases List.mem_cons.mp hm' with rfl | hm'
        · exact not_le.mp hold
        · exact (not_le.mp hold).trans_le (List.rel_of_pairwise_cons hqueue hm')
      rw [drain_later hlater (Nat.zero_le _)]
      simp [hold]

end

/-! ## Arrivals -/

section

variable {t : NetThread} {s : ThreadState} {m : Mail}

theorem mainLoop_ordered (h : IsOrdered t s m) {r : ℤ × Option Text} (hread : m.read = .ok r) :
    let r := totalOrder { s with receivedMessages := s.receivedMessages ++ [m] }
      (r.1 = RequestType.timestamp.code) m
    (mainLoop t s m).ordered = r.1 ∧ (mainLoop t s m).next = r.2 := by
  have hack : r.1 ≠ RequestType.ack.code := mt (Mail.hasType_iff hread _).mpr h.1
  simp only [mainLoop, hread, if_neg hack, if_neg h.2.1, if_neg h.2.2, and_self]

theorem insertMessage_ordered (h : Ordered (·.timeStamp) s.msgQueue) (isTimeStamp : Bool) :
    Ordered (·.timeStamp) (insertMessage isTimeStamp m s.msgQueue) := by
  rw [insertMessage]
  split_ifs
  · exact h
  · exact insertBefore_ordered h

/-- **Steps 2 to 5** on a queue in order. -/
theorem totalOrder_eq (h : Ordered (·.timeStamp) s.msgQueue) (isTimeStamp : Bool) {earliest : Timeval}
    (hearliest : earliestTimeStamp (updateTable m s.localNetThreadInfo) = .ok earliest) :
    let queue := insertMessage isTimeStamp m s.msgQueue
    totalOrder s isTimeStamp m = (queue.takeWhile (·.timeStamp ≤ earliest),
      if (queue.dropWhile (·.timeStamp ≤ earliest)).length ≤ s.localNetThreadInfo.length then
        .ok { s with
          localNetThreadInfo := updateTable m s.localNetThreadInfo
          msgQueue := queue.dropWhile (·.timeStamp ≤ earliest) }
      else .error .outOfBounds) := by
  have hdrain := drain_eq (insertMessage_ordered (m := m) h isTimeStamp) hearliest
  rw [length_updateTable] at hdrain
  unfold totalOrder
  simp only [hearliest, hdrain]
  split_ifs <;> rfl

theorem totalOrder_error {isTimeStamp : Bool} {fault : Fault}
    (h : earliestTimeStamp (updateTable m s.localNetThreadInfo) = .error fault) :
    totalOrder s isTimeStamp m = ([], .error fault) := by
  unfold totalOrder
  simp only [h]

end

/-- The message with which a user thread starts its network thread. -/
def startMessage (t : NetThread) : Mail where
  pktHdr := ⟨t.machineID, t.machineID⟩
  mailHdr := ⟨t.mailID, t.mailID + 1⟩
  data := "25_".toList
  timeStamp := ⟨10, 0⟩
  stamped := by decide
  fits := by decide

end Nachos.Threads
