import Nachos.Lib.Mutex
import Nachos.Network.Globals

/-!
# The operations on distributed objects

The functions that `processMessage` calls once it has parsed a request:
`Acquire`, `CreateVerify`, `Release`, `DestroyLock`, `SetMV`, `GetMV`,
`DestroyMV`, `Wait`, `Signal`, `Broadcast` and `SendReply` of
`network/netcall.cc` (lines 2207-3011), in the order of the file.

Each takes the thread `t` that runs it, the parsed arguments, the headers that
the source passes by value, and the globals, and lists the messages that it
passes to `Send`. A `Send` that returns `false`, because the destination socket
does not exist, is left out; one that fails an assertion is modelled by `serve`.
-/

namespace Nachos.Network

open Nachos.Lib

/-- The branch of `Acquire` for a lock in a slot here: a busy lock queues the reply
    that will be sent later. -/
def acquireOwn (t : NetThread) (heapTail : Text) (outPktHdr : PacketHeader) (clientNum : ℤ)
    (slot : ℕ) (lock : DistributedLock) (g : Globals) : Except Fault Result := do
  let ack ← itoa 5 lock.globalId heapTail
  let outPktHdr := { outPktHdr with toMachine := clientMachine clientNum }
  if lock.lockState = BUSY then
    let outMailHdr := { toBox := clientBox clientNum, fromBox := t.machineID }
    return ⟨g.setLock slot (some (lock.queueReply ⟨outPktHdr, outMailHdr, ack⟩)), [], true⟩
  else
    let outMailHdr := { toBox := clientBox clientNum + 1, fromBox := t.mailID }
    return ⟨g.setLock slot (some (lock.give (clientAddress clientNum))),
      [outgoing t outPktHdr outMailHdr ack], true⟩

/-- `Acquire` (netcall.cc:2207). A client number of `-2` means the sender in the
    headers. -/
def acquire (t : NetThread) (heapTail : Text) (lockIndex : ℤ) (outPktHdr inPktHdr : PacketHeader)
    (inMailHdr : MailHeader) (clientNum : ℤ) (g : Globals) : Except Fault Result :=
  let clientNum := if clientNum = -2 then clientOf inPktHdr inMailHdr else clientNum
  if lockIndex < 0 ∨ lockIndex > MAX_NUM_GLOBAL_IDS * MAX_DLOCK - 1 then .ok (.failed g)
  else if lockIndex.tdiv MAX_DLOCK = t.uniqueGlobalID then
    let slot := (lockIndex.tmod MAX_DLOCK).toNat
    match g.dlocks slot with
    | none => .ok (.failed g)
    | some lock => acquireOwn t heapTail outPktHdr clientNum slot lock g
  else
    let target := lockIndex.tdiv MAX_DLOCK
    .ok ⟨g, [outgoing t { outPktHdr with toMachine := target }
      { toBox := target, fromBox := inMailHdr.fromBox }
      (forwardText .acquire clientNum (fmtInt lockIndex))], true⟩

/-- `CreateVerify` (netcall.cc:2286): the message to every other network thread
    of the group; afterwards no response of the client has been received. -/
def createVerify (t : NetThread) (data : Text) (requestType : RequestType) (client : ℤ)
    (localNetThreadInfo : List NetThread) (g : Globals) : Except Fault (Globals × List Message) := do
  let request ← sprintf MaxMailSize (clientText requestType client data)
  let out := (localNetThreadInfo.filter (· ≠ t)).map fun entry =>
    outgoing t { toMachine := entry.machineID, fromMachine := t.machineID }
      { toBox := entry.mailID, fromBox := t.mailID } request
  let i ← index MAX_CLIENTS client
  return ({ g with verifyResponses := Function.update g.verifyResponses i 0 }, out)

/-- Hand a lock that has just been freed to the first client in its queue, and
    the queued reply with it. -/
def handOff (t : NetThread) (lock : DistributedLock) : DistributedLock × List Message :=
  match lock.waitQueue with
  | [] => (lock, [])
  | reply :: queue =>
    ({ lock with waitQueue := queue }.give reply.dest, [outgoing t reply.pktHdr reply.mailHdr reply.data])

/-- The branch of `Release` for a lock in a slot here. The owner is not compared with
    the client. -/
def releaseOwn (t : NetThread) (e : Ambient) (outPktHdr : PacketHeader) (clientNum : ℤ) (slot : ℕ)
    (lock : DistributedLock) (g : Globals) : Except Fault Result := do
  let ack ← itoa 5 lock.globalId (e.heapTail 0)
  let reply := outgoing t { outPktHdr with toMachine := clientMachine clientNum }
    { toBox := clientBox clientNum + 1, fromBox := t.mailID } ack
  let (lock, granted) := handOff t lock.free
  return ⟨g.setLock slot (some lock), reply :: granted, true⟩

/-- `Release` (netcall.cc:2322). -/
def release (t : NetThread) (e : Ambient) (lockIndex : ℤ) (outPktHdr : PacketHeader)
    (clientNum : ℤ) (g : Globals) : Except Fault Result :=
  if lockIndex < 0 ∨ lockIndex > MAX_NUM_GLOBAL_IDS * MAX_DLOCK - 1 then .ok (.failed g)
  else if lockIndex.tdiv MAX_DLOCK = t.uniqueGlobalID then
    let slot := (lockIndex.tmod MAX_DLOCK).toNat
    match g.dlocks slot with
    | none => .ok (.failed g)
    | some lock => releaseOwn t e outPktHdr clientNum slot lock g
  else .ok (.failed g)

/-- `DestroyLock` (netcall.cc:2391). The create index goes down whichever slot
    becomes empty. -/
def destroyLock (t : NetThread) (e : Ambient) (lockIndex : ℤ) (outPktHdr : PacketHeader)
    (clientNum : ℤ) (g : Globals) : Except Fault Result :=
  if lockIndex < 0 ∨ lockIndex > MAX_NUM_GLOBAL_IDS * MAX_DLOCK - 1 then .ok (.failed g)
  else if lockIndex.tdiv MAX_DLOCK = t.uniqueGlobalID then
    let slot := (lockIndex.tmod MAX_DLOCK).toNat
    match g.dlocks slot with
    | none => .ok (.failed g)
    | some lock => do
      let ack ← itoa 5 lock.globalId (e.heapTail 0)
      return ⟨{ g.setLock slot none with createDLockIndex := g.createDLockIndex - 1 },
        [outgoing t { outPktHdr with toMachine := clientMachine clientNum }
          { toBox := clientBox clientNum + 1, fromBox := t.mailID } ack], true⟩
  else .ok (.failed g)

/-- `"SetMV[%d] = %d"`. -/
def setMvText (id value : ℤ) : Text :=
  ['S', 'e', 't', 'M', 'V', '['] ++ fmtInt id ++ [']', ' ', '=', ' '] ++ fmtInt value

/-- `SetMV` (netcall.cc:2452). The reply is printed into a block of 24 bytes. -/
def setMV (t : NetThread) (mvIndex value : ℤ) (outPktHdr : PacketHeader) (clientNum : ℤ)
    (g : Globals) : Except Fault Result :=
  if mvIndex < 0 ∨ mvIndex > MAX_NUM_GLOBAL_IDS * MAX_DMV - 1 then .ok (.failed g)
  else if mvIndex.tdiv MAX_DMV = t.uniqueGlobalID then
    let slot := (mvIndex.tmod MAX_DMV).toNat
    match g.mvs slot with
    | none => .ok (.failed g)
    | some mv =>
      let ack := setMvText mv.globalId value
      if ack.length < 24 then
        .ok ⟨g.setMv slot (some { mv with value := value }),
          [outgoing t { outPktHdr with toMachine := clientMachine clientNum }
            { toBox := clientBox clientNum + 1, fromBox := t.machineID } ack], true⟩
      else .error .outOfBounds
  else .ok (.failed g)

/-- `SendReply` (netcall.cc:2994): the message to the sender of the request. -/
def sendReply (t : NetThread) (outPktHdr inPktHdr : PacketHeader) (inMailHdr : MailHeader)
    (data : Text) : Message :=
  outgoing t { outPktHdr with toMachine := inPktHdr.fromMachine }
    { toBox := inMailHdr.fromBox, fromBox := t.machineID } data

/-- `GetMV` (netcall.cc:2513). The value is printed into a block of 4 bytes, and
    999 stands for an error. -/
def getMV (t : NetThread) (e : Ambient) (mvIndex : ℤ) (outPktHdr inPktHdr : PacketHeader)
    (inMailHdr : MailHeader) (g : Globals) : Except Fault Result :=
  if mvIndex < 0 ∨ mvIndex > MAX_NUM_GLOBAL_IDS * MAX_DMV - 1 then do
    let ack ← itoa 4 999 (e.heapTail 0)
    return ⟨g, [sendReply t outPktHdr inPktHdr inMailHdr ack], true⟩
  else if mvIndex.tdiv MAX_DMV = t.uniqueGlobalID then
    match g.mvs (mvIndex.tmod MAX_DMV).toNat with
    | none => do
      let ack ← itoa 4 999 (e.heapTail 0)
      return ⟨g, [sendReply t outPktHdr inPktHdr inMailHdr ack], true⟩
    | some mv => do
      let ack ← itoa 4 mv.value (e.heapTail 0)
      return ⟨g, [sendReply t outPktHdr inPktHdr inMailHdr ack], true⟩
  else .ok (.failed g)

/-- `DestroyMV` (netcall.cc:2553). The reply goes to the mailbox of the client's
    network thread. -/
def destroyMV (t : NetThread) (e : Ambient) (mvIndex : ℤ) (outPktHdr : PacketHeader)
    (clientNum : ℤ) (g : Globals) : Except Fault Result :=
  if mvIndex < 0 ∨ mvIndex > MAX_NUM_GLOBAL_IDS * MAX_DMV - 1 then .ok (.failed g)
  else if mvIndex.tdiv MAX_DMV = t.uniqueGlobalID then
    let slot := (mvIndex.tmod MAX_DMV).toNat
    match g.mvs slot with
    | none => .ok (.failed g)
    | some mv => do
      let ack ← itoa 5 mv.globalId (e.heapTail 0)
      return ⟨{ g.setMv slot none with createDMVIndex := g.createDMVIndex - 1 },
        [outgoing t { outPktHdr with toMachine := clientMachine clientNum }
          { toBox := clientBox clientNum, fromBox := t.machineID } ack], true⟩
  else .ok (.failed g)

/-- The branch of `Wait` with both objects here: the lock is released and the client
    is queued on the condition variable. -/
def waitOwn (t : NetThread) (e : Ambient) (outPktHdr : PacketHeader) (clientNum : ℤ)
    (lockSlot cvSlot : ℕ) (lock : DistributedLock) (cv : DistributedCV) (g : Globals) :
    Except Fault Result := do
  let firstLock := if cv.waitQueue = [] then t.globalId MAX_DLOCK lockSlot else cv.firstLock
  let (lock, granted) := handOff t lock.free
  let ack ← itoa 5 (t.globalId MAX_DCV cvSlot) (e.heapTail 0)
  let reply : Message := ⟨{ outPktHdr with toMachine := clientMachine clientNum },
    { toBox := clientBox clientNum, fromBox := t.machineID }, ack⟩
  return ⟨(g.setLock lockSlot (some lock)).setCv cvSlot
    (some { cv with firstLock := firstLock, waitQueue := cv.waitQueue ++ [reply] }), granted, true⟩

/-- `Wait` (netcall.cc:2614). With the condition variable elsewhere a `WAITCV` goes
    out, addressed with the reduced index. -/
def wait (t : NetThread) (e : Ambient) (cvIndex lockIndex : ℤ) (outPktHdr : PacketHeader)
    (inMailHdr : MailHeader) (clientNum : ℤ) (g : Globals) : Except Fault Result :=
  if lockIndex < 0 ∨ lockIndex > MAX_NUM_GLOBAL_IDS * (MAX_DLOCK - 1) then .ok (.failed g)
  else if cvIndex < 0 ∨ cvIndex > MAX_NUM_GLOBAL_IDS * (MAX_DCV - 1) then .ok (.failed g)
  else if lockIndex.tdiv MAX_DLOCK = t.uniqueGlobalID ∧ cvIndex.tdiv MAX_DCV = t.uniqueGlobalID then
    let lockSlot := (lockIndex.tmod MAX_DLOCK).toNat
    let cvSlot := (cvIndex.tmod MAX_DCV).toNat
    match g.dlocks lockSlot with
    | none => .ok (.failed g)
    | some lock =>
      if lock.ownerMailID = -1 then .ok (.failed g)
      else
        match g.cvs cvSlot with
        | none => .ok (.failed g)
        | some cv => waitOwn t e outPktHdr clientNum lockSlot cvSlot lock cv g
  else if lockIndex.tdiv MAX_DLOCK = t.uniqueGlobalID then
    let lockSlot := (lockIndex.tmod MAX_DLOCK).toNat
    let cvIndex := cvIndex.tmod MAX_DCV
    match g.dlocks lockSlot with
    | none => .ok (.failed g)
    | some lock =>
      if lock.ownerMailID = -1 then .ok (.failed g)
      else do
        let i ← index MAX_CLIENTS clientNum
        let target := cvIndex.tdiv MAX_DCV
        return ⟨{ g with waitingForWaitLocks := Function.update g.waitingForWaitLocks i lockSlot },
          [outgoing t { outPktHdr with toMachine := target }
            { toBox := target, fromBox := inMailHdr.fromBox }
            (clientText .waitCv clientNum (pairText (cvIndex + t.uniqueGlobalID * MAX_DLOCK)
              (lockSlot + t.uniqueGlobalID * MAX_DLOCK)))], true⟩
  else .error .uninitialised

/-- The headers with which a client that is taken off a condition variable is
    passed to `Acquire`: the `to` fields of its queued reply as `from` fields. -/
def Message.asSender (reply : Message) : PacketHeader × MailHeader :=
  ({ reply.pktHdr with fromMachine := reply.pktHdr.toMachine },
    { reply.mailHdr with fromBox := reply.mailHdr.toBox })

/-- `Acquire(lock, outPktHdr, reply->pktHdr, outMailHdr, reply->mailHdr, -2)` for a
    client taken off a condition variable; Nachos halts if it fails. -/
def acquireFor (t : NetThread) (heapTail : Text) (lockIndex : ℤ) (outPktHdr : PacketHeader)
    (reply : Message) (g : Globals) : Except Fault Result := do
  let (pktHdr, mailHdr) := reply.asSender
  let r ← acquire t heapTail lockIndex outPktHdr pktHdr mailHdr (-2) g
  if r.success then return r else .error .halt

/-- The branch of `Signal` with both objects here. -/
def signalOwn (t : NetThread) (e : Ambient) (outPktHdr : PacketHeader) (clientNum : ℤ)
    (lockSlot cvSlot : ℕ) (cv : DistributedCV) (g : Globals) : Except Fault Result := do
  let ack ← itoa 5 cvSlot (e.heapTail 0)
  let outPktHdr := { outPktHdr with toMachine := clientMachine clientNum }
  let outMailHdr := { toBox := clientBox clientNum, fromBox := t.machineID }
  let ackMsg := outgoing t outPktHdr outMailHdr ack
  match cv.waitQueue with
  | [] => return ⟨g.setCv cvSlot (some { cv with firstLock := -1 }), [ackMsg], true⟩
  | reply :: queue =>
    let lockId := t.globalId MAX_DLOCK lockSlot
    if cv.firstLock ≠ lockId then return ⟨g, [ackMsg], false⟩
    else
      let firstLock := if queue = [] then -1 else cv.firstLock
      let g := g.setCv cvSlot (some { cv with waitQueue := queue, firstLock := firstLock })
      let r ← acquireFor t (e.heapTail 1) lockId outPktHdr reply g
      return ⟨r.state, ackMsg :: r.out, true⟩

/-- `Signal` (netcall.cc:2744). -/
def signal (t : NetThread) (e : Ambient) (cvIndex lockIndex : ℤ) (outPktHdr : PacketHeader)
    (inMailHdr : MailHeader) (clientNum : ℤ) (g : Globals) : Except Fault Result :=
  if lockIndex < 0 ∨ lockIndex > MAX_NUM_GLOBAL_IDS * MAX_DLOCK - 1 then .ok (.failed g)
  else if cvIndex < 0 ∨ cvIndex > MAX_NUM_GLOBAL_IDS * MAX_DCV - 1 then .ok (.failed g)
  else if lockIndex.tdiv MAX_DLOCK = t.uniqueGlobalID ∧ cvIndex.tdiv MAX_DCV = t.uniqueGlobalID then
    let lockSlot := (lockIndex.tmod MAX_DLOCK).toNat
    let cvSlot := (cvIndex.tmod MAX_DCV).toNat
    match g.dlocks lockSlot with
    | none => .ok (.failed g)
    | some lock =>
      if lock.ownerMailID = -1 then .ok (.failed g)
      else
        match g.cvs cvSlot with
        | none => .ok (.failed g)
        | some cv => signalOwn t e outPktHdr clientNum lockSlot cvSlot cv g
  else if cvIndex.tdiv MAX_DCV = t.uniqueGlobalID then do
    let i ← index MAX_CLIENTS clientNum
    let target := lockIndex.tdiv MAX_DLOCK
    return ⟨{ g with waitingForSignalCvs := Function.update g.waitingForSignalCvs i cvIndex },
      [outgoing t { outPktHdr with toMachine := target }
        { toBox := target, fromBox := inMailHdr.fromBox }
        (clientText .signalLock clientNum (fmtInt (lockIndex + t.uniqueGlobalID * MAX_DLOCK)))], true⟩
  else .ok (.failed g)

/-- The loop of `Broadcast` that takes every waiting client off the condition
    variable and passes it to `Acquire`. -/
def wakeAll (t : NetThread) (heapTail : ℕ → Text) (lockId : ℤ) (outPktHdr : PacketHeader) :
    List Message → ℕ → Globals → Except Fault Result
  | [], _, g => .ok ⟨g, [], true⟩
  | reply :: queue, k, g => do
    let r ← acquireFor t (heapTail k) lockId outPktHdr reply g
    let r' ← wakeAll t heapTail lockId outPktHdr queue (k + 1) r.state
    return ⟨r'.state, r.out ++ r'.out, true⟩

/-- The branch of `Broadcast` with both objects here. -/
def broadcastOwn (t : NetThread) (e : Ambient) (outPktHdr inPktHdr : PacketHeader)
    (inMailHdr : MailHeader) (lockSlot cvSlot : ℕ) (cv : DistributedCV) (g : Globals) :
    Except Fault Result := do
  let ack ← itoa 5 cvSlot (e.heapTail 0)
  let outPktHdr := { outPktHdr with toMachine := inPktHdr.fromMachine }
  let outMailHdr := { toBox := inMailHdr.fromBox, fromBox := t.machineID }
  let ackMsg := outgoing t outPktHdr outMailHdr ack
  let lockId := t.globalId MAX_DLOCK lockSlot
  if cv.waitQueue ≠ [] ∧ cv.firstLock ≠ lockId then return ⟨g, [ackMsg], false⟩
  else
    let g := g.setCv cvSlot (some { cv with waitQueue := [], firstLock := -1 })
    let r ← wakeAll t e.heapTail lockId outPktHdr cv.waitQueue 1 g
    return ⟨r.state, ackMsg :: r.out, true⟩

/-- `Broadcast` (netcall.cc:2865). The range checks admit the global ids of the
    network thread with id 0 only. -/
def broadcast (t : NetThread) (e : Ambient) (cvIndex lockIndex : ℤ) (outPktHdr inPktHdr : PacketHeader)
    (inMailHdr : MailHeader) (clientNum : ℤ) (g : Globals) : Except Fault Result :=
  if lockIndex < 0 ∨ lockIndex > MAX_DLOCK - 1 then .ok (.failed g)
  else if cvIndex < 0 ∨ cvIndex > MAX_DCV - 1 then .ok (.failed g)
  else if lockIndex.tdiv MAX_DLOCK = t.uniqueGlobalID ∧ cvIndex.tdiv MAX_DCV = t.uniqueGlobalID then
    let lockSlot := (lockIndex.tmod MAX_DLOCK).toNat
    let cvSlot := (cvIndex.tmod MAX_DCV).toNat
    match g.dlocks lockSlot with
    | none => .ok (.failed g)
    | some lock =>
      if lock.ownerMailID = -1 then .ok (.failed g)
      else
        match g.cvs cvSlot with
        | none => .ok (.failed g)
        | some cv => broadcastOwn t e outPktHdr inPktHdr inMailHdr lockSlot cvSlot cv g
  else do
    let i ← index MAX_CLIENTS clientNum
    let target := lockIndex.tdiv MAX_DLOCK
    return ⟨{ g with waitingForBroadcastCvs := Function.update g.waitingForBroadcastCvs i cvIndex },
      [outgoing t { outPktHdr with toMachine := target }
        { toBox := target, fromBox := inMailHdr.fromBox }
        (clientText .broadcastLock clientNum (fmtInt (lockIndex + t.uniqueGlobalID * MAX_DLOCK)))],
      true⟩

/-! ## Requests for an object here -/

section

variable (t : NetThread) (e : Ambient) (heapTail : Text) (outPktHdr inPktHdr : PacketHeader)
  (inMailHdr : MailHeader) (clientNum : ℤ) (g : Globals) {slot cvSlot : ℕ}

/-- A global id of a thread that is too large for the tables is refused. -/
theorem acquire_refused (hslot : slot < MAX_DLOCK) (ht : (MAX_NUM_GLOBAL_IDS : ℤ) ≤ t.uniqueGlobalID) :
    acquire t heapTail (t.globalId MAX_DLOCK slot) outPktHdr inPktHdr inMailHdr clientNum g =
      .ok (.failed g) := by
  rw [acquire, if_pos ((t.globalId_refused_iff hslot).mpr ht)]

theorem acquire_own (hslot : slot < MAX_DLOCK) (ht : t.uniqueGlobalID < (MAX_NUM_GLOBAL_IDS : ℤ)) :
    acquire t heapTail (t.globalId MAX_DLOCK slot) outPktHdr inPktHdr inMailHdr clientNum g =
      match g.dlocks slot with
      | none => .ok (.failed g)
      | some lock => acquireOwn t heapTail outPktHdr
          (if clientNum = -2 then clientOf inPktHdr inMailHdr else clientNum) slot lock g := by
  rw [acquire, if_neg (mt (t.globalId_refused_iff hslot).mp (by omega)),
    if_pos (t.globalId_tdiv hslot), t.globalId_tmod hslot, Int.toNat_natCast]

theorem release_refused (hslot : slot < MAX_DLOCK) (ht : (MAX_NUM_GLOBAL_IDS : ℤ) ≤ t.uniqueGlobalID) :
    release t e (t.globalId MAX_DLOCK slot) outPktHdr clientNum g = .ok (.failed g) := by
  rw [release, if_pos ((t.globalId_refused_iff hslot).mpr ht)]

theorem release_own (hslot : slot < MAX_DLOCK) (ht : t.uniqueGlobalID < (MAX_NUM_GLOBAL_IDS : ℤ)) :
    release t e (t.globalId MAX_DLOCK slot) outPktHdr clientNum g =
      match g.dlocks slot with
      | none => .ok (.failed g)
      | some lock => releaseOwn t e outPktHdr clientNum slot lock g := by
  rw [release, if_neg (mt (t.globalId_refused_iff hslot).mp (by omega)),
    if_pos (t.globalId_tdiv hslot), t.globalId_tmod hslot, Int.toNat_natCast]

theorem destroyLock_own (hslot : slot < MAX_DLOCK) (ht : t.uniqueGlobalID < (MAX_NUM_GLOBAL_IDS : ℤ))
    {lock : DistributedLock} (hlock : g.dlocks slot = some lock) :
    destroyLock t e (t.globalId MAX_DLOCK slot) outPktHdr clientNum g = (do
      let ack ← itoa 5 lock.globalId (e.heapTail 0)
      return ⟨{ g.setLock slot none with createDLockIndex := g.createDLockIndex - 1 },
        [outgoing t { outPktHdr with toMachine := clientMachine clientNum }
          { toBox := clientBox clientNum + 1, fromBox := t.mailID } ack], true⟩) := by
  rw [destroyLock, if_neg (mt (t.globalId_refused_iff hslot).mp (by omega)),
    if_pos (t.globalId_tdiv hslot), t.globalId_tmod hslot, Int.toNat_natCast]
  simp only [hlock]

theorem destroyMV_own (hslot : slot < MAX_DMV) (ht : t.uniqueGlobalID < (MAX_NUM_GLOBAL_IDS : ℤ))
    {mv : DistributedMV} (hmv : g.mvs slot = some mv) :
    destroyMV t e (t.globalId MAX_DMV slot) outPktHdr clientNum g = (do
      let ack ← itoa 5 mv.globalId (e.heapTail 0)
      return ⟨{ g.setMv slot none with createDMVIndex := g.createDMVIndex - 1 },
        [outgoing t { outPktHdr with toMachine := clientMachine clientNum }
          { toBox := clientBox clientNum, fromBox := t.machineID } ack], true⟩) := by
  rw [destroyMV, if_neg (mt (t.globalId_refused_iff hslot).mp (by omega)),
    if_pos (t.globalId_tdiv hslot), t.globalId_tmod hslot, Int.toNat_natCast]
  simp only [hmv]

end

/-! ## The lock behind the table entry -/

/-- The client that a queued reply is for. -/
def Message.client (reply : Message) : ℤ := addressClient reply.dest

namespace DistributedLock

variable (l : DistributedLock)

/-- The mutex that a distributed lock implements, over client numbers. -/
def toMutex : Mutex ℤ where
  holder := if l.lockState = FREE then none else some (addressClient l.owner)
  queue := l.waitQueue.map Message.client

@[simp] theorem toMutex_new (name : Text) (id : ℤ) : (new name id).toMutex = .free := rfl

theorem toMutex_give (c : ℤ × ℤ) :
    (l.give c).toMutex = { l.toMutex with holder := some (addressClient c) } := rfl

theorem toMutex_queueReply (reply : Message) :
    (l.queueReply reply).toMutex = { l.toMutex with queue := l.toMutex.queue ++ [reply.client] } := by
  rw [toMutex, queueReply, List.map_append]
  rfl

theorem holder_eq_none (h : l.lockState = FREE) : l.toMutex.holder = none := if_pos h

theorem holder_of_busy (h : l.lockState = BUSY) :
    l.toMutex.holder = some (addressClient l.owner) :=
  if_neg (by rw [h]; decide)

end DistributedLock

/-- Handing a lock off after it has been freed is releasing the mutex. -/
theorem toMutex_handOff (t : NetThread) (l : DistributedLock) :
    (handOff t l.free).1.toMutex = l.toMutex.release := by
  unfold handOff
  cases hq : l.waitQueue with
  | nil => simp [DistributedLock.free, hq, DistributedLock.toMutex, Mutex.release]
  | cons reply queue =>
    simp [DistributedLock.free, hq, DistributedLock.toMutex, Mutex.release, DistributedLock.give,
      DistributedLock.owner, Message.client, Message.dest]

/-- The message that goes out is for the client that gets the lock. -/
theorem client_handOff (t : NetThread) (l : DistributedLock) :
    (handOff t l.free).2.map Message.client = l.toMutex.release.holder.toList := by
  unfold handOff
  cases hq : l.waitQueue with
  | nil => simp [DistributedLock.free, hq, DistributedLock.toMutex, Mutex.release]
  | cons reply queue =>
    simp [DistributedLock.free, hq, DistributedLock.toMutex, Mutex.release, Message.client]
    rfl

/-- **`Acquire` acquires the mutex**, for a client number that its address stands
    for, and sends a grant if the mutex was free. -/
theorem acquireOwn_eq_ok {t : NetThread} {heapTail : Text} {outPktHdr : PacketHeader}
    {clientNum : ℤ} {slot : ℕ} {lock : DistributedLock} {g : Globals} {r : Result}
    (h : acquireOwn t heapTail outPktHdr clientNum slot lock g = .ok r) :
    ∃ lock', r.state = g.setLock slot (some lock') ∧ r.success = true ∧
      lock'.toMutex = lock.toMutex.acquire (addressClient (clientAddress clientNum)) ∧
      (lock.toMutex.holder = none → ∃ ack, r.out = [outgoing t
        { outPktHdr with toMachine := clientMachine clientNum }
        { toBox := clientBox clientNum + 1, fromBox := t.mailID } ack]) ∧
      (lock.toMutex.holder ≠ none → r.out = []) := by
  rw [acquireOwn, bind_eq_ok] at h
  obtain ⟨ack, -, h⟩ := h
  split_ifs at h with hbusy
  · cases h
    have hheld := lock.holder_of_busy hbusy
    refine ⟨_, rfl, rfl, ?_, fun hnone => absurd (hnone.symm.trans hheld) nofun, fun _ => rfl⟩
    rw [DistributedLock.toMutex_queueReply, Mutex.acquire_of_held _ _ hheld]
    rfl
  · cases h
    have hfree := lock.holder_eq_none (by simpa using hbusy)
    refine ⟨_, rfl, rfl, ?_, fun _ => ⟨ack, rfl⟩, fun hsome => absurd hfree hsome⟩
    rw [DistributedLock.toMutex_give, Mutex.acquire_of_free _ _ hfree]

/-- **`Release` releases the mutex**, whoever asks for it: the acknowledgement goes
    to the client of the request, a grant to the first in the queue. -/
theorem releaseOwn_eq_ok {t : NetThread} {e : Ambient} {outPktHdr : PacketHeader} {clientNum : ℤ}
    {slot : ℕ} {lock : DistributedLock} {g : Globals} {r : Result}
    (h : releaseOwn t e outPktHdr clientNum slot lock g = .ok r) :
    ∃ lock' ack granted, r.state = g.setLock slot (some lock') ∧ r.success = true ∧
      lock'.toMutex = lock.toMutex.release ∧
      r.out = outgoing t { outPktHdr with toMachine := clientMachine clientNum }
        { toBox := clientBox clientNum + 1, fromBox := t.mailID } ack :: granted ∧
      granted.map Message.client = lock.toMutex.release.holder.toList := by
  rw [releaseOwn, bind_eq_ok] at h
  obtain ⟨ack, -, h⟩ := h
  cases h
  exact ⟨_, ack, _, rfl, rfl, toMutex_handOff t lock, rfl, client_handOff t lock⟩

end Nachos.Network
