import Nachos.Network.Handlers

/-!
# The create protocols

The cases `CREATELOCK`, `CREATECV`, `CREATEMV` of `processMessage` and the
messages between network threads they cause (`network/netcall.cc`, lines
317-1263). The three protocols share their scratch arrays, which are indexed by
the number of the client; a lock is created by an election with time stamps, a
condition variable or a monitor variable when every other network thread has
answered `-1`.

Each case is a function of the text behind the request type.
-/

namespace Nachos.Network

open Nachos.Lib

/-! ## The three tables -/

/-- The kinds of distributed objects. -/
inductive Kind
  | lock | cv | mv
  deriving DecidableEq, Repr

/-- An object in one of the tables. -/
inductive Object
  | lock (l : DistributedLock)
  | cv (c : DistributedCV)
  | mv (v : DistributedMV)
  deriving DecidableEq, Repr

/-- `getName()`. -/
def Object.name : Object → Text
  | lock l => l.name
  | cv c => c.name
  | mv v => v.name

/-- `GetGlobalId()`. -/
def Object.globalId : Object → ℤ
  | lock l => l.globalId
  | cv c => c.globalId
  | mv v => v.globalId

namespace Kind

/-- The number of slots of the table. -/
def max : Kind → ℕ
  | lock => MAX_DLOCK
  | cv => MAX_DCV
  | mv => MAX_DMV

/-- The object in a slot. -/
def object (k : Kind) (g : Globals) (slot : ℕ) : Option Object :=
  match k with
  | lock => (g.dlocks slot).map .lock
  | cv => (g.cvs slot).map .cv
  | mv => (g.mvs slot).map .mv

/-- `createDLockIndex`, `createDCVIndex`, `createDMVIndex`. -/
def createIndex (k : Kind) (g : Globals) : ℤ :=
  match k with
  | lock => g.createDLockIndex
  | cv => g.createDCVIndex
  | mv => g.createDMVIndex

/-- Store a new object with a name and a global id into a slot. -/
def store (k : Kind) (e : Ambient) (slot : ℕ) (name : Text) (id : ℤ) (g : Globals) : Globals :=
  match k with
  | lock => g.setLock slot (some (.new name id))
  | cv => g.setCv slot (some (.new name id))
  | mv => g.setMv slot (some (.new name id e.mvValue))

/-- The object that `store` stores. -/
def new (k : Kind) (e : Ambient) (name : Text) (id : ℤ) : Object :=
  match k with
  | lock => .lock (.new name id)
  | cv => .cv (.new name id)
  | mv => .mv (.new name id e.mvValue)

/-- `createDLockIndex++` and the like. -/
def increment (k : Kind) (g : Globals) : Globals :=
  match k with
  | lock => { g with createDLockIndex := g.createDLockIndex + 1 }
  | cv => { g with createDCVIndex := g.createDCVIndex + 1 }
  | mv => { g with createDMVIndex := g.createDMVIndex + 1 }

/-- The request a client sends. -/
def request : Kind → RequestType
  | lock => .createLock
  | cv => .createCv
  | mv => .createMv

/-- The question to the other network threads. -/
def verify : Kind → RequestType
  | lock => .createLockVerify
  | cv => .createCvVerify
  | mv => .createMvVerify

/-- Their answer. -/
def answer : Kind → RequestType
  | lock => .createLockAnswer
  | cv => .createCvAnswer
  | mv => .createMvAnswer

end Kind

/-! ## Searching a table -/

/-- The loop without `break`: the last of the first `n` slots with the name, or
    `-1`. An empty slot is a null pointer. -/
def searchLast (objects : ℕ → Option Object) (name : Text) : ℕ → Except Fault ℤ
  | 0 => .ok (-1)
  | n + 1 => do
    let found ← searchLast objects name n
    match objects n with
    | none => .error .nullPointer
    | some object => return if object.name = name then (n : ℤ) else found

/-- The loop with `break`: the first of the slots `i … i + n - 1` with the name,
    or `-1`. -/
def searchFirst (objects : ℕ → Option Object) (name : Text) : ℕ → ℕ → Except Fault ℤ
  | 0, _ => .ok (-1)
  | n + 1, i =>
    match objects i with
    | none => .error .nullPointer
    | some object => if object.name = name then .ok i else searchFirst objects name n (i + 1)

/-- The search of a create request; that of a monitor variable breaks. -/
def Kind.find (k : Kind) (g : Globals) (name : Text) : Except Fault ℤ :=
  match k with
  | lock | cv => searchLast (k.object g) name (k.createIndex g).toNat
  | mv => searchFirst (k.object g) name (k.createIndex g).toNat 0

/-- `objects[i]->GetGlobalId()`. -/
def Kind.globalId (k : Kind) (g : Globals) (i : ℤ) : Except Fault ℤ := do
  let slot ← index k.max i
  match k.object g slot with
  | none => .error .nullPointer
  | some object => return object.globalId

/-! ## Scratch arrays -/

/-- Store a name into `lockName[clientNum]`, an array of 32 bytes. -/
def setName (i : ℕ) (name : Text) (g : Globals) : Except Fault Globals :=
  if name.length < 32 then .ok { g with lockName := Function.update g.lockName i name }
  else .error .outOfBounds

/-- The loop that copies `lockName[clientNum]` to `localLockName`: for the empty
    name it stores nothing. -/
def copyName (e : Ambient) (g : Globals) (i : ℕ) : Text :=
  if g.lockName i = [] then e.localLockName else g.lockName i

/-- `verifyResponses[clientNum] = 0; localLockIndex[clientNum] = -1;`. -/
def resetClient (i : ℕ) (g : Globals) : Globals :=
  { g with
    verifyResponses := Function.update g.verifyResponses i 0
    localLockIndex := Function.update g.localLockIndex i (-1) }

/-- `verifyBuffer[i][row]` as an offset into the block. -/
def rowOffset (i : ℕ) (row : ℤ) : Except Fault ℕ := index (20 * MAX_CLIENTS) (20 * i + 5 * row)

/-- Store a text and its NUL from an offset on. -/
def writeText (s : Text) (offset : ℕ) (memory : ℕ → Char) : ℕ → Char := fun n =>
  if offset ≤ n ∧ n ≤ offset + s.length then bytes s (n - offset) else memory n

/-- Store an answer into `verifyBuffer[i][row]`; a longer one runs on into the
    next rows. -/
def setRow (i : ℕ) (row : ℤ) (s : Text) (g : Globals) : Except Fault Globals := do
  let offset ← rowOffset i row
  if offset + s.length < 20 * MAX_CLIENTS then
    return { g with verifyBuffer := writeText s offset g.verifyBuffer }
  else .error .outOfBounds

/-- The memory from `verifyBuffer[i][row]` on. -/
def getRow (i : ℕ) (row : ℤ) (g : Globals) : Except Fault (ℕ → Char) := do
  let offset ← rowOffset i row
  return fun n => g.verifyBuffer (offset + n)

/-! ## Creation -/

/-- A new object named after the client's request, in the slot of the create
    index: its global id. -/
def createObject (k : Kind) (t : NetThread) (e : Ambient) (i : ℕ) (g : Globals) :
    Except Fault (ℤ × Globals) := do
  let slot ← index k.max (k.createIndex g)
  let id := t.uniqueGlobalID * k.max + k.createIndex g
  return (id, k.increment (k.store e slot (copyName e g i) id g))

/-- The message to the user thread of the network thread itself. -/
def replyToUser (t : NetThread) (e : Ambient) (id : ℤ) : Message :=
  outgoing t { e.outPktHdr with toMachine := t.machineID }
    { toBox := t.mailID + 1, fromBox := t.mailID } (fmtInt id)

/-- The reply to a create request that is answered at once. Only that of a
    condition variable misses the `+1` of the user thread. -/
def createReply (k : Kind) (t : NetThread) (e : Ambient) (client id : ℤ) : Message :=
  match k with
  | .lock => outgoing t { e.outPktHdr with toMachine := clientMachine client }
      { toBox := clientBox client + 1, fromBox := t.mailID } (fmtInt id)
  | .cv => outgoing t { e.outPktHdr with toMachine := clientMachine client }
      { toBox := clientBox client, fromBox := t.machineID } (fmtInt id)
  | .mv => replyToUser t e id

/-- What is recorded before the question goes out: for a lock the time and the
    state `MAYBE`. -/
def beginCreate (k : Kind) (e : Ambient) (i : ℕ) (g : Globals) : Globals :=
  match k with
  | .lock => { g with
      lockCreationTimeStamps := Function.update g.lockCreationTimeStamps i e.now
      verifyResponses := Function.update g.verifyResponses i 0
      lockCreationStates := Function.update g.lockCreationStates i .maybe }
  | .cv | .mv => g

/-- The object a request is answered with when no other network thread has to be
    asked: a new one, or the one that the search has found. -/
def createOrFind (k : Kind) (t : NetThread) (e : Ambient) (i : ℕ) (found : ℤ) (g : Globals) :
    Except Fault (ℤ × Globals) :=
  if found = -1 then createObject k t e i g
  else do
    let id ← k.globalId g found
    return (id, g)

/-- The cases `CREATELOCK`, `CREATECV` and `CREATEMV`. -/
def create (k : Kind) (t : NetThread) (e : Ambient) (inPktHdr : PacketHeader)
    (inMailHdr : MailHeader) (name : Text) (localNetThreadInfo : List NetThread) (g : Globals) :
    Except Fault Result :=
  let client := clientOf inPktHdr inMailHdr
  if 0 ≤ k.createIndex g ∧ k.createIndex g < k.max - 1 then do
    let i ← index MAX_CLIENTS client
    let g ← setName i name g
    let found ← k.find g name
    let g := { g with localLockIndex := Function.update g.localLockIndex i found }
    if g.serverCount > 1 ∧ found = -1 then
      let (g, out) ← createVerify t name k.verify client localNetThreadInfo (beginCreate k e i g)
      return ⟨g, out, false⟩
    else
      let (id, g) ← createOrFind k t e i found g
      return ⟨resetClient i g, [createReply k t e client id], true⟩
  else .ok (.failed g)

/-! ## Answers to the question -/

/-- The client number and the name, or the client number and the answer, behind
    the request type. -/
def readClient (s : Text) : Except Fault (ℤ × Text) := do
  let (client, rest) ← readField 5 s
  return (atoi client, rest)

/-- The reply to the sender of a question or an answer. -/
def answerTo (t : NetThread) (e : Ambient) (inPktHdr : PacketHeader) (inMailHdr : MailHeader)
    (fromBox : ℤ) (data : Text) : Message :=
  outgoing t { e.outPktHdr with toMachine := inPktHdr.fromMachine }
    { toBox := inMailHdr.fromBox, fromBox := fromBox } data

/-- What `CREATELOCKVERIFY` answers. A `MAYBE` carries the time of this thread's own
    request, whatever lock that was for; a `NO` carries none. -/
def lockResponse (t : NetThread) (i : ℕ) (found : ℤ) (g : Globals) : Except Fault Text :=
  if g.lockCreationStates i = .maybe then do
    let own ← index MAX_CLIENTS t.uniqueGlobalID
    let stamp := g.lockCreationTimeStamps own
    return fmtInt CreationState.maybe.code ++ '_' :: pairText stamp.sec stamp.usec
  else if found = -1 then .ok (fmtInt CreationState.no.code)
  else do
    let id ← Kind.lock.globalId g found
    return pairText CreationState.yes.code id

/-- The case `CREATELOCKVERIFY`. -/
def lockVerify (t : NetThread) (e : Ambient) (inPktHdr : PacketHeader) (inMailHdr : MailHeader)
    (s : Text) (g : Globals) : Except Fault Result := do
  let (client, name) ← readClient s
  if name.length < 32 then
    let found ← searchFirst (Kind.lock.object g) name g.createDLockIndex.toNat 0
    let i ← index MAX_CLIENTS client
    let data ← lockResponse t i found g
    let request ← sprintf MaxMailSize (clientText .createLockAnswer client data)
    return ⟨g, [answerTo t e inPktHdr inMailHdr t.mailID request], true⟩
  else .error .outOfBounds

/-- What they answer about the other kinds: a global id or `-1`. -/
def objectResponse (k : Kind) (found : ℤ) (g : Globals) : Except Fault ℤ :=
  if found = -1 then .ok (-1) else k.globalId g found

/-- The cases `CREATECVVERIFY` and `CREATEMVVERIFY`. The index `a` of the name is
    never initialised there. -/
def objectVerify (k : Kind) (t : NetThread) (e : Ambient) (inPktHdr : PacketHeader)
    (inMailHdr : MailHeader) (s : Text) (g : Globals) : Except Fault Result := do
  let (client, name) ← readClient s
  if e.a ≠ 0 then .error .uninitialised
  else if name.length < 32 then
    let found ← k.find g name
    let id ← objectResponse k found g
    let request ← sprintf MaxMailSize (clientText k.answer client (fmtInt id))
    return ⟨g, [answerTo t e inPktHdr inMailHdr t.machineID request], true⟩
  else .error .outOfBounds

/-! ## Collecting the answers -/

/-- The end of a lock's election: the lock is created, the others are told, and
    the user thread gets the global id. -/
def electLock (t : NetThread) (e : Ambient) (client : ℤ) (i : ℕ)
    (localNetThreadInfo : List NetThread) (g : Globals) : Except Fault Result := do
  let g := { g with lockCreationStates := Function.update g.lockCreationStates i .yes }
  let (id, g) ← createObject .lock t e i g
  let (g, out) ← createVerify t (fmtInt CreationState.yes.code ++ '_' :: fmtInt id ++ ['_'])
    .createLockAnswer client localNetThreadInfo g
  return ⟨{ g with localLockIndex := Function.update g.localLockIndex i (-1) },
    out ++ [replyToUser t e id], true⟩

/-- An answer `YES`: a lock of the client's name with the answered id goes into
    the slot of the create index, which stays where it is. -/
def adoptLock (t : NetThread) (e : Ambient) (i : ℕ) (id : ℤ) (g : Globals) :
    Except Fault Result := do
  let slot ← index MAX_DLOCK g.createDLockIndex
  let g := Kind.lock.store e slot (copyName e g i) id g
  return ⟨{ g with
      lockCreationStates := Function.update g.lockCreationStates i .yes
      verifyResponses := Function.update g.verifyResponses i (g.verifyResponses i + 1) },
    [replyToUser t e id], true⟩

/-- The case `CREATELOCKANSWER`. The answer is stored in the row that counts the
    responses of this thread's own client and read in the row that counts those
    of the client it names. -/
def lockAnswer (t : NetThread) (e : Ambient) (s : Text) (localNetThreadInfo : List NetThread)
    (g : Globals) : Except Fault Result := do
  let (client, response) ← readClient s
  let i ← index MAX_CLIENTS client
  let own ← index MAX_CLIENTS t.uniqueGlobalID
  let g ← setRow i (g.verifyResponses own) response g
  if g.localLockIndex i = -1 then
    let row ← getRow i (g.verifyResponses i) g
    let (verifyResponse, next) ← parseValue 0 row
    if verifyResponse = CreationState.yes.code then
      let (lockIndex, _) ← parseValue next row
      adoptLock t e i lockIndex g
    else if verifyResponse = CreationState.no.code ∨ verifyResponse = CreationState.maybe.code then
      let (sec, next) ← parseValue next row
      let (usec, _) ← parseValue next row
      if g.lockCreationTimeStamps i < ⟨sec, usec⟩ then
        let count := g.verifyResponses i + 1
        let g := { g with verifyResponses := Function.update g.verifyResponses i count }
        if count = g.serverCount - 1 then electLock t e client i localNetThreadInfo g
        else return .failed g
      else return .failed g
    else return .failed g
  else return .failed g

/-- `verifyBuffer[i][row]` starts with `-1`. -/
def saysNone (row : ℕ → Char) : Bool := row 0 = '-' ∧ row 1 = '1'

/-- The loop over the collected answers, for `n` rows from `row` on: the number in
    the first that is not `-1`. -/
def otherServer (g : Globals) (i : ℕ) : ℕ → ℤ → Except Fault ℤ
  | 0, _ => .ok (-1)
  | n + 1, row => do
    let buf ← getRow i row g
    if saysNone buf then otherServer g i n (row + 1)
    else return atoi (readString buf (20 * MAX_CLIENTS) 0)

/-- The object a request is answered with when all have answered. If it was found
    here and elsewhere the reply is `-1`. -/
def settle (k : Kind) (t : NetThread) (e : Ambient) (i : ℕ) (other : ℤ) (g : Globals) :
    Except Fault (ℤ × Globals) :=
  if g.localLockIndex i = -1 then
    if other = -1 then createObject k t e i g else .ok (other, g)
  else if other = -1 then do
    let id ← k.globalId g (g.localLockIndex i)
    return (id, g)
  else .ok (-1, g)

/-- The cases `CREATECVANSWER` and `CREATEMVANSWER`. -/
def objectAnswer (k : Kind) (t : NetThread) (e : Ambient) (s : Text) (g : Globals) :
    Except Fault Result := do
  let (client, response) ← readClient s
  let i ← index MAX_CLIENTS client
  if e.a ≠ 0 then .error .uninitialised
  else
    let g ← setRow i (g.verifyResponses i) response g
    let count := g.verifyResponses i + 1
    let g := { g with verifyResponses := Function.update g.verifyResponses i count }
    if count = g.serverCount - 1 then
      let other ← otherServer g i count.toNat 0
      let (id, g) ← settle k t e i other g
      return ⟨resetClient i g, [replyToUser t e id], true⟩
    else return .failed g

/-! ## Tables -/

namespace Kind

variable (k : Kind) (e : Ambient) (slot : ℕ) (name : Text) (id : ℤ) (g : Globals)

@[simp] theorem new_name : (k.new e name id).name = name := by cases k <;> rfl

@[simp] theorem new_globalId : (k.new e name id).globalId = id := by cases k <;> rfl

theorem object_store (k' : Kind) : k'.object (k.store e slot name id g) =
    if k' = k then Function.update (k.object g) slot (some (k.new e name id)) else k'.object g := by
  funext i
  cases k <;> cases k' <;> simp only [reduceCtorEq, if_true, if_false] <;> try rfl
  all_goals
    simp only [object, store, new, Globals.setLock_dlocks, Globals.setCv_cvs, Globals.setMv_mvs,
      Function.update_apply]
    split_ifs <;> rfl

@[simp] theorem object_increment (k' : Kind) : k'.object (k.increment g) = k'.object g := by
  cases k <;> cases k' <;> rfl

@[simp] theorem createIndex_store (k' : Kind) :
    k'.createIndex (k.store e slot name id g) = k'.createIndex g := by
  cases k <;> cases k' <;> rfl

theorem createIndex_increment (k' : Kind) :
    k'.createIndex (k.increment g) = if k' = k then k.createIndex g + 1 else k'.createIndex g := by
  cases k <;> cases k' <;> rfl

@[simp] theorem object_resetClient (i : ℕ) : k.object (resetClient i g) = k.object g := by
  cases k <;> rfl

@[simp] theorem createIndex_resetClient (i : ℕ) : k.createIndex (resetClient i g) = k.createIndex g := by
  cases k <;> rfl

end Kind

section

variable {objects : ℕ → Option Object} {name : Text}

/-- No slot is found, if none has the name. -/
theorem searchLast_absent {n : ℕ} (h : ∀ i < n, ∃ o, objects i = some o ∧ o.name ≠ name) :
    searchLast objects name n = .ok (-1) := by
  induction n with
  | zero => rfl
  | succ n ih =>
    obtain ⟨o, ho, hne⟩ := h n (by omega)
    rw [searchLast, ih fun i hi => h i (by omega), ok_bind, ho]
    simp only [if_neg hne, pure_eq_ok]

/-- The one slot with the name is found. -/
theorem searchLast_unique {n i : ℕ} (hi : i < n)
    (h : ∀ j < n, ∃ o, objects j = some o ∧ (o.name = name ↔ j = i)) :
    searchLast objects name n = .ok i := by
  induction n with
  | zero => omega
  | succ n ih =>
    obtain ⟨o, ho, hname⟩ := h n (by omega)
    rcases Nat.lt_succ_iff_lt_or_eq.mp hi with hlt | rfl
    · rw [searchLast, ih hlt fun j hj => h j (by omega), ok_bind, ho]
      simp only [if_neg (mt hname.mp (by omega)), pure_eq_ok]
    · have habsent : searchLast objects name i = .ok (-1) := searchLast_absent fun j hj => by
        obtain ⟨o', ho', hname'⟩ := h j (by omega)
        exact ⟨o', ho', mt hname'.mp (by omega)⟩
      rw [searchLast, habsent, ok_bind, ho]
      simp only [if_pos (hname.mpr rfl), pure_eq_ok]

theorem searchFirst_absent {n s : ℕ}
    (h : ∀ i, s ≤ i → i < s + n → ∃ o, objects i = some o ∧ o.name ≠ name) :
    searchFirst objects name n s = .ok (-1) := by
  induction n generalizing s with
  | zero => rfl
  | succ n ih =>
    obtain ⟨o, ho, hne⟩ := h s le_rfl (by omega)
    rw [searchFirst, ho]
    simp only [if_neg hne]
    exact ih fun i hi hlt => h i (by omega) (by omega)

theorem searchFirst_unique {n s i : ℕ} (hs : s ≤ i) (hi : i < s + n)
    (h : ∀ j, s ≤ j → j < s + n → ∃ o, objects j = some o ∧ (o.name = name ↔ j = i)) :
    searchFirst objects name n s = .ok i := by
  induction n generalizing s with
  | zero => omega
  | succ n ih =>
    obtain ⟨o, ho, hname⟩ := h s le_rfl (by omega)
    rw [searchFirst, ho]
    rcases Nat.lt_or_eq_of_le hs with hlt | rfl
    · simp only [if_neg (mt hname.mp (by omega))]
      exact ih (by omega) (by omega) fun j hj hj' => h j (by omega) (by omega)
    · simp only [if_pos (hname.mpr rfl)]

variable {k : Kind} {g : Globals} {n : ℕ}

/-- **The search of a table without holes**: whether it breaks makes no difference. -/
theorem Kind.find_absent (hn : k.createIndex g = n)
    (h : ∀ i < n, ∃ o, k.object g i = some o ∧ o.name ≠ name) : k.find g name = .ok (-1) := by
  cases k with
  | lock | cv =>
    rw [find, hn]
    exact searchLast_absent h
  | mv =>
    rw [find, hn]
    exact searchFirst_absent fun i _ hi => h i (by simpa using hi)

theorem Kind.find_unique (hn : k.createIndex g = n) {i : ℕ} (hi : i < n)
    (h : ∀ j < n, ∃ o, k.object g j = some o ∧ (o.name = name ↔ j = i)) :
    k.find g name = .ok i := by
  cases k with
  | lock | cv =>
    rw [find, hn]
    exact searchLast_unique hi h
  | mv =>
    rw [find, hn]
    exact searchFirst_unique (Nat.zero_le i) (by simpa using hi) fun j _ hj => h j (by simpa using hj)

end

end Nachos.Network
