import Nachos.Network.Create

/-!
# `processMessage`

The switch of `processMessage` (`network/netcall.cc`, lines 264-2205) over all
request types. A request for an object of another network thread is forwarded:
the ten forwarding branches differ in the box they address and in the type they
print, which are arguments of `oneArgument` and `twoArguments`.
-/

namespace Nachos.Network

open Nachos.Lib

/-! ## Requests and their forwarding -/

/-- What a call works on besides the text: the thread, its surroundings, and the
    headers of the message. -/
structure Call where
  t : NetThread
  e : Ambient
  inPktHdr : PacketHeader
  inMailHdr : MailHeader

namespace Call

/-- The client number that the headers give. -/
def client (c : Call) : ℤ := clientOf c.inPktHdr c.inMailHdr

/-- `sprintf(buffer, "%d__%d_%s", …)` and the `Send` of a forwarding branch. The
    sender's box is copied from the request. -/
def forward (c : Call) (type : RequestType) (machine box clientNum : ℤ) (arguments : Text)
    (g : Globals) : Except Fault Result := do
  let buffer ← sprintf MaxMailSize (forwardText type clientNum arguments)
  return ⟨g, [outgoing c.t { c.e.outPktHdr with toMachine := machine }
    { toBox := box, fromBox := c.inMailHdr.fromBox } buffer], true⟩

/-- A request for the object with the id in its one argument: the owner `handle`s
    it, any other thread forwards it to machine `id / max`. -/
def oneArgument (c : Call) (type : RequestType) (max : ℕ) (box : ℤ → ℤ)
    (handle : ℤ → ℤ → Globals → Except Fault Result) (s : Text) (g : Globals) :
    Except Fault Result := do
  let (clientNum, buf) ← readOne c.client s
  let id := atoi buf
  let machine := id.tdiv max
  if machine ≠ c.t.uniqueGlobalID then c.forward type machine (box machine) clientNum buf g
  else handle id clientNum g

/-- The same for a request with two arguments, one of which decides whose it is. -/
def twoArguments (c : Call) (type : RequestType) (machine : ℤ → ℤ → ℤ) (box : ℤ → ℤ)
    (handle : ℤ → ℤ → ℤ → Globals → Except Fault Result) (args : ℤ × Text × Text) (g : Globals) :
    Except Fault Result :=
  let (clientNum, buf, buf') := args
  let machine := machine (atoi buf) (atoi buf')
  if machine ≠ c.t.uniqueGlobalID then
    c.forward type machine (box machine) clientNum (buf ++ '_' :: buf') g
  else handle (atoi buf) (atoi buf') clientNum g

/-- `outMailHdr.to + 1`, where nothing has been stored before. -/
def unsetBox (c : Call) (_machine : ℤ) : ℤ := c.e.outMailHdr.toBox + 1

/-- `ACQUIRE`. -/
def acquire (c : Call) : Text → Globals → Except Fault Result :=
  c.oneArgument .acquire MAX_DLOCK (fun _ => c.inMailHdr.toBox + 1) fun id clientNum =>
    Network.acquire c.t (c.e.heapTail 0) id c.e.outPktHdr c.inPktHdr c.inMailHdr clientNum

/-- `RELEASE`. -/
def release (c : Call) : Text → Globals → Except Fault Result :=
  c.oneArgument .release MAX_DLOCK c.unsetBox (Network.release c.t c.e · c.e.outPktHdr ·)

/-- `DESTROYLOCK`. -/
def destroyLock (c : Call) : Text → Globals → Except Fault Result :=
  c.oneArgument .destroyLock MAX_DLOCK id (Network.destroyLock c.t c.e · c.e.outPktHdr ·)

/-- `SETMV`, the one case that leaves the client's digits without a NUL. -/
def setMV (c : Call) (s : Text) (g : Globals) : Except Fault Result := do
  let args ← readTwo 6 c.e.clientTail c.client s
  c.twoArguments .setMv (fun mv _ => mv.tdiv MAX_DMV) c.unsetBox
    (Network.setMV c.t · · c.e.outPktHdr ·) args g

/-- `GETMV`. -/
def getMV (c : Call) : Text → Globals → Except Fault Result :=
  c.oneArgument .getMv MAX_DMV c.unsetBox fun id _ =>
    Network.getMV c.t c.e id c.e.outPktHdr c.inPktHdr c.inMailHdr

/-- `DESTROYMV`. -/
def destroyMV (c : Call) : Text → Globals → Except Fault Result :=
  c.oneArgument .destroyMv MAX_DMV c.unsetBox (Network.destroyMV c.t c.e · c.e.outPktHdr ·)

/-- `WAIT`, which is forwarded as a `SIGNAL`. -/
def wait (c : Call) (s : Text) (g : Globals) : Except Fault Result := do
  let args ← readTwo 5 [] c.client s
  c.twoArguments .signal (fun _ lock => lock.tdiv MAX_DLOCK) id
    (Network.wait c.t c.e · · c.e.outPktHdr c.inMailHdr ·) args g

/-- `SIGNAL`, which demands the prefix of a forwarded request. -/
def signal (c : Call) (s : Text) (g : Globals) : Except Fault Result := do
  if s.head? ≠ some '_' then .error .assertion
  else
    let args ← readTwo 5 [] (-1) s
    c.twoArguments .signal (fun cv _ => cv.tdiv MAX_DCV) c.unsetBox
      (Network.signal c.t c.e · · c.e.outPktHdr c.inMailHdr ·) args g

/-- `BROADCAST`. -/
def broadcast (c : Call) (s : Text) (g : Globals) : Except Fault Result := do
  let args ← readTwo 5 [] c.client s
  c.twoArguments .broadcast (fun cv _ => cv.tdiv MAX_DCV) id
    (Network.broadcast c.t c.e · · c.e.outPktHdr c.inPktHdr c.inMailHdr ·) args g

/-- The branch of `DESTROYCV` that deletes the condition variable. The reply names
    the slot and goes to the mailbox of the client's network thread. -/
def deleteCV (c : Call) (cvIndex clientNum : ℤ) (g : Globals) : Except Fault Result :=
  if cvIndex < 0 ∨ cvIndex > MAX_NUM_GLOBAL_IDS * MAX_DCV - 1 then .ok (.failed g)
  else
    let slot := (cvIndex.tmod MAX_DCV).toNat
    match g.cvs slot with
    | none => .ok (.failed g)
    | some _ => do
      let ack ← itoa 4 slot (c.e.heapTail 0)
      return ⟨{ g.setCv slot none with createDCVIndex := g.createDCVIndex - 1 },
        [outgoing c.t { c.e.outPktHdr with toMachine := clientMachine clientNum }
          { toBox := clientBox clientNum, fromBox := c.t.machineID } ack], true⟩

/-- `DESTROYCV`. -/
def destroyCV (c : Call) : Text → Globals → Except Fault Result :=
  c.oneArgument .destroyCv MAX_DCV id c.deleteCV

/-! ## Between the owners of a lock and a condition variable -/

/-- The reply to the client's network thread with type, client and id. Where the
    number of the client is meant, the address of its digits is printed. -/
def respond (c : Call) (type : RequestType) (clientNum id : ℤ) (g : Globals) : Result :=
  ⟨g, [outgoing c.t { c.e.outPktHdr with toMachine := clientMachine clientNum }
    { toBox := clientBox clientNum, fromBox := c.t.machineID }
    (clientText type c.e.client (fmtInt id))], true⟩

/-- `WAITCV`: the client is queued on the condition variable. -/
def waitCV (c : Call) (s : Text) (g : Globals) : Except Fault Result := do
  let (clientNum, cvNum, lockNum) ← readTwo 5 [] c.client s
  let cvIndex := atoi cvNum
  let slot ← index MAX_DCV (cvIndex.tmod MAX_DCV)
  match g.cvs slot with
  | none => return c.respond .waitResponse clientNum (-1) g
  | some cv =>
    let firstLock := if cv.waitQueue = [] then atoi lockNum else cv.firstLock
    let ack ← itoa 5 cvIndex (c.e.heapTail 0)
    let reply : Message := ⟨{ c.e.outPktHdr with toMachine := clientMachine clientNum },
      { toBox := clientBox clientNum, fromBox := c.t.machineID }, ack⟩
    return c.respond .waitResponse clientNum cvIndex
      (g.setCv slot (some { cv with firstLock := firstLock, waitQueue := cv.waitQueue ++ [reply] }))

/-- `WAITRESPONSE`: the lock is released. -/
def waitResponse (c : Call) (s : Text) (g : Globals) : Except Fault Result := do
  if s.head? ≠ some '_' then .error .assertion
  else
    let (clientNum, cvNum) ← readOne (-1) s
    if atoi cvNum = -1 then return .failed g
    else
      let i ← index MAX_CLIENTS clientNum
      let slot ← index MAX_DLOCK (g.waitingForWaitLocks i)
      match g.dlocks slot with
      | none => .error .nullPointer
      | some lock =>
        let (lock', granted) := handOff c.t lock.free
        return ⟨g.setLock slot (some lock'), granted, decide (lock.waitQueue ≠ [])⟩

/-- `SIGNALLOCK`: whether the lock exists. -/
def signalLock (c : Call) (s : Text) (g : Globals) : Except Fault Result := do
  let (clientNum, lockIndexBuf) ← readOne c.client s
  let lockIndex := atoi lockIndexBuf
  let slot ← index MAX_DLOCK (lockIndex.tmod MAX_DLOCK)
  match g.dlocks slot with
  | none => return c.respond .signalResponse clientNum (-1) g
  | some _ => return c.respond .signalResponse clientNum lockIndex g

/-- The reply of a signal or a broadcast to the client's network thread. -/
def acknowledge (c : Call) (clientNum cvIndex : ℤ) : Except Fault Message := do
  let ack ← itoa 5 cvIndex (c.e.heapTail 0)
  return outgoing c.t { c.e.outPktHdr with toMachine := clientMachine clientNum }
    { toBox := clientBox clientNum, fromBox := c.t.machineID } ack

/-- `SIGNALRESPONSE`: the first waiting client is passed to `Acquire`. The table is
    indexed with the global id of the condition variable. -/
def signalResponse (c : Call) (s : Text) (g : Globals) : Except Fault Result := do
  let (clientNum, lockIndexBuf) ← readOne c.client s
  let lockIndex := atoi lockIndexBuf
  if lockIndex = -1 then return .failed g
  else
    let i ← index MAX_CLIENTS clientNum
    let ack ← c.acknowledge clientNum (g.waitingForSignalCvs i)
    let slot ← index MAX_DCV (g.waitingForSignalCvs i)
    match g.cvs slot with
    | none => .error .nullPointer
    | some cv =>
      match cv.waitQueue with
      | [] => return ⟨g.setCv slot (some { cv with firstLock := -1 }), [ack], true⟩
      | reply :: queue =>
        if cv.firstLock ≠ lockIndex then return ⟨g, [ack], false⟩
        else
          let firstLock := if queue = [] then -1 else cv.firstLock
          let g := g.setCv slot (some { cv with waitQueue := queue, firstLock := firstLock })
          let r ← acquireFor c.t (c.e.heapTail 1) lockIndex c.e.outPktHdr reply g
          return ⟨r.state, ack :: r.out, true⟩

/-- `BROADCASTLOCK`: whether the lock exists and is held. The owner is looked up with
    the unreduced id. -/
def broadcastLock (c : Call) (s : Text) (g : Globals) : Except Fault Result := do
  let (clientNum, lockIndexBuf) ← readOne c.client s
  let lockIndex := atoi lockIndexBuf
  let slot ← index MAX_DLOCK (lockIndex.tmod MAX_DLOCK)
  match g.dlocks slot with
  | none => return c.respond .broadcastResponse clientNum (-1) g
  | some _ =>
    let slot ← index MAX_DLOCK lockIndex
    match g.dlocks slot with
    | none => .error .nullPointer
    | some lock =>
      if lock.ownerMailID = -1 then return c.respond .broadcastResponse clientNum (-1) g
      else return c.respond .broadcastResponse clientNum lockIndex g

/-- `BROADCASTRESPONSE`: all waiting clients are passed to `Acquire`, with the
    reduced index of the lock. -/
def broadcastResponse (c : Call) (s : Text) (g : Globals) : Except Fault Result := do
  let (clientNum, lockIndexBuf) ← readOne c.client s
  if atoi lockIndexBuf = -1 then return .failed g
  else
    let lockIndex := (atoi lockIndexBuf).tmod MAX_DLOCK
    let i ← index MAX_CLIENTS clientNum
    let ack ← c.acknowledge clientNum (g.waitingForBroadcastCvs i)
    let slot ← index MAX_DCV (g.waitingForBroadcastCvs i)
    match g.cvs slot with
    | none => .error .nullPointer
    | some cv =>
      if cv.waitQueue ≠ [] ∧ cv.firstLock ≠ lockIndex then return ⟨g, [ack], false⟩
      else
        let g := g.setCv slot (some { cv with waitQueue := [], firstLock := -1 })
        let r ← wakeAll c.t c.e.heapTail lockIndex c.e.outPktHdr cv.waitQueue 1 g
        return ⟨r.state, ack :: r.out, true⟩

end Call

/-! ## The switch -/

/-- The case of a request type, on the text behind it. -/
def dispatch (c : Call) (localNetThreadInfo : List NetThread) (r : RequestType) (s : Text)
    (g : Globals) : Except Fault Result :=
  match r with
  | .createLock => create .lock c.t c.e c.inPktHdr c.inMailHdr s localNetThreadInfo g
  | .createLockAnswer => lockAnswer c.t c.e s localNetThreadInfo g
  | .createLockVerify => lockVerify c.t c.e c.inPktHdr c.inMailHdr s g
  | .createCv => create .cv c.t c.e c.inPktHdr c.inMailHdr s localNetThreadInfo g
  | .createCvAnswer => objectAnswer .cv c.t c.e s g
  | .createCvVerify => objectVerify .cv c.t c.e c.inPktHdr c.inMailHdr s g
  | .createMv => create .mv c.t c.e c.inPktHdr c.inMailHdr s localNetThreadInfo g
  | .createMvAnswer => objectAnswer .mv c.t c.e s g
  | .createMvVerify => objectVerify .mv c.t c.e c.inPktHdr c.inMailHdr s g
  | .acquire => c.acquire s g
  | .release => c.release s g
  | .destroyLock => c.destroyLock s g
  | .setMv => c.setMV s g
  | .getMv => c.getMV s g
  | .destroyMv => c.destroyMV s g
  | .wait => c.wait s g
  | .waitCv => c.waitCV s g
  | .waitResponse => c.waitResponse s g
  | .signal => c.signal s g
  | .signalLock => c.signalLock s g
  | .signalResponse => c.signalResponse s g
  | .broadcast => c.broadcast s g
  | .broadcastLock => c.broadcastLock s g
  | .broadcastResponse => c.broadcastResponse s g
  | .destroyCv => c.destroyCV s g
  | .timestamp => .ok (.failed g)
  | .startUserProgram | .regNetThread | .regNetThreadResponse | .groupInfo | .ack | .invalidType =>
    .error .assertion

/-- `processMessage` (netcall.cc:264). A number that is no request type selects no
    case. -/
def processMessage (c : Call) (msgData : Text) (localNetThreadInfo : List NetThread)
    (g : Globals) : Except Fault Result := do
  if g.serverCount ≠ localNetThreadInfo.length then .error .assertion
  else
    let (requestType, rest) ← readType msgData
    match RequestType.ofCode requestType, rest with
    | none, _ => return .failed g
    | some _, none => .error .outOfBounds
    | some r, some s => dispatch c localNetThreadInfo r s g

/-- A message of one of the formats reaches its case. -/
theorem processMessage_requestText (c : Call) (r : RequestType) (data : Text)
    {localNetThreadInfo : List NetThread} {g : Globals}
    (h : g.serverCount = localNetThreadInfo.length) :
    processMessage c (requestText r data) localNetThreadInfo g =
      dispatch c localNetThreadInfo r data g := by
  rw [processMessage, if_neg (not_not.mpr h), readType_requestText]
  simp only [ok_bind, RequestType.ofCode_code]

/-- A message that arrives at a network thread, and the surroundings in which it is
    processed. -/
structure Delivery where
  e : Ambient
  inPktHdr : PacketHeader
  inMailHdr : MailHeader
  data : Text

/-- The globals after a message that `t` processes. -/
def deliver (t : NetThread) (localNetThreadInfo : List NetThread) (g : Globals) (d : Delivery) :
    Except Fault Globals := do
  let r ← processMessage ⟨t, d.e, d.inPktHdr, d.inMailHdr⟩ d.data localNetThreadInfo g
  return r.state

/-! ## Requests as they arrive -/

/-- Where a request comes from: the user thread of a network thread, or a network
    thread that forwards it and prints the number of the client. -/
inductive Origin
  | user (machine box : ℕ)
  | forwarded (pktHdr : PacketHeader) (mailHdr : MailHeader) (client : ℕ)

namespace Origin

/-- The number of the client. A user thread has the mailbox behind that of its
    network thread. -/
def client : Origin → ℕ
  | user machine box => 100 * machine + box
  | forwarded _ _ client => client

/-- The call of `processMessage` at thread `t` with the headers of the request. -/
def call (o : Origin) (t : NetThread) (e : Ambient) : Call :=
  match o with
  | user machine box => ⟨t, e, ⟨t.machineID, machine⟩, ⟨t.mailID, box + 1⟩⟩
  | forwarded pktHdr mailHdr _ => ⟨t, e, pktHdr, mailHdr⟩

/-- The text behind the request type. -/
def body (o : Origin) (arguments : Text) : Text :=
  match o with
  | user _ _ => arguments
  | forwarded _ _ client => '_' :: fmtInt client ++ '_' :: arguments

/-- The text of the request. -/
def text (o : Origin) (r : RequestType) (arguments : Text) : Text :=
  requestText r (o.body arguments)

@[simp] theorem call_t (o : Origin) (t : NetThread) (e : Ambient) : (o.call t e).t = t := by
  cases o <;> rfl

@[simp] theorem call_e (o : Origin) (t : NetThread) (e : Ambient) : (o.call t e).e = e := by
  cases o <;> rfl

theorem call_client_user (t : NetThread) (e : Ambient) (machine box : ℕ) :
    ((user machine box).call t e).client = 100 * machine + box := by
  simp only [Call.client, call, clientOf]
  omega

/-- Whatever the origin, a request that is read at all is read as the client's. -/
theorem readOne_eq_ok {o : Origin} {t : NetThread} {e : Ambient} {args : Text} {r : ℤ × Text}
    (hne : args ≠ []) (hhead : args.head? ≠ some '_')
    (h : readOne (o.call t e).client (o.body args) = .ok r) : r = (↑o.client, args) := by
  cases o with
  | user machine box =>
    rw [call_client_user, body, readOne_direct_eq _ hne hhead] at h
    split_ifs at h
    cases h; rfl
  | forwarded pktHdr mailHdr client =>
    by_cases hc : (fmtInt (client : ℤ)).length < 5
    · by_cases hs : args.length < MaxMailSize
      · rw [body, readOne_forwarded _ hc hs] at h
        cases h; rfl
      · simp [body, readOne, readField, field_append, hc, readRestAfter, if_neg hs] at h
    · simp [body, readOne, readField, field_append, if_neg hc] at h

/-- The same with two arguments. -/
theorem readTwo_eq_ok {o : Origin} {t : NetThread} {e : Ambient} {size : ℕ} {a b : ℤ}
    {r : ℤ × Text × Text}
    (h : readTwo size [] (o.call t e).client (o.body (pairText a b)) = .ok r) :
    r = (↑o.client, fmtInt a, fmtInt b) := by
  cases o with
  | user machine box =>
    rw [call_client_user, body, readTwo_direct, readPair_pairText] at h
    split_ifs at h
    cases h; rfl
  | forwarded pktHdr mailHdr client =>
    by_cases hc : (fmtInt (client : ℤ)).length < size
    · rw [body, readTwo_forwarded hc, readPair_pairText] at h
      split_ifs at h
      cases h; rfl
    · simp [body, readTwo, readField, field_append, if_neg hc] at h

end Origin

/-- A request with one argument for an object of the thread is handled for its
    client. -/
theorem Call.oneArgument_eq_ok {o : Origin} {t : NetThread} {e : Ambient} {type : RequestType}
    {max slot : ℕ} {box : ℤ → ℤ} {handle : ℤ → ℤ → Globals → Except Fault Result} {g : Globals}
    {r : Result} (hslot : slot < max)
    (h : (o.call t e).oneArgument type max box handle (o.body (fmtInt (t.globalId max slot))) g = .ok r) :
    handle (t.globalId max slot) o.client g = .ok r := by
  rw [oneArgument, bind_eq_ok] at h
  obtain ⟨args, hread, h⟩ := h
  cases o.readOne_eq_ok (fmtInt_ne_nil _) (fmtInt_head? _) hread
  simp only [atoi_fmtInt, t.globalId_tdiv hslot, Origin.call_t, ne_eq, not_true_eq_false,
    if_false] at h
  exact h

/-- `DESTROYCV` for a condition variable of the thread. -/
theorem Call.deleteCV_own {c : Call} {slot : ℕ} {clientNum : ℤ} {g : Globals} {cv : DistributedCV}
    (hslot : slot < MAX_DCV) (ht : c.t.uniqueGlobalID < (MAX_NUM_GLOBAL_IDS : ℤ))
    (hcv : g.cvs slot = some cv) :
    c.deleteCV (c.t.globalId MAX_DCV slot) clientNum g = .ok
      ⟨{ g.setCv slot none with createDCVIndex := g.createDCVIndex - 1 },
        [outgoing c.t { c.e.outPktHdr with toMachine := clientMachine clientNum }
          { toBox := clientBox clientNum, fromBox := c.t.machineID } (fmtInt slot)], true⟩ := by
  have hsmall : slot < 100 := hslot
  rw [deleteCV, if_neg (mt (c.t.globalId_refused_iff hslot).mp (by omega)), c.t.globalId_tmod hslot,
    Int.toNat_natCast]
  simp only [hcv, itoa_fits (show 1 < 4 by norm_num) (by norm_num) (show (0 : ℤ) ≤ slot by omega)
    (by norm_num; omega), ok_bind, pure_eq_ok]

end Nachos.Network
