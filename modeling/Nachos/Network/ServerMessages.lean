import Nachos.Network.Election

/-!
# Messages between servers

The messages that one network thread formats for another (`network/netcall.cc`, lines 454-681,
812-1030, 1560-1686, 1742-1870 and 1922-2076), and what the branch for their type reads from
them. Each branch has a parsing loop of its own.

* `serverMessage_read_iff`: the exact condition under which a branch reads the fields that were
  written, with every index inside its array, whatever the buffer for the answers holds.
* `dispatch_reads`, `lockAnswer_reads_yes`, `otherServer_reads`: what is read is what the branches
  of `processMessage` go on with.
* `answer_not_read`, `response_not_read`: two messages that are misread.
-/

namespace Nachos.Network

open Nachos.Lib

/-! ## Writing -/

/-- What a `CREATELOCKANSWER` says: the answers to `CREATELOCKVERIFY`, and the `YES` of the thread
    that has been elected, which ends with a `_`. -/
inductive LockResponse
  | no
  | maybe (stamp : Timeval)
  | yes (id : ℤ)
  | elected (id : ℤ)
  deriving DecidableEq, Repr

namespace LockResponse

/-- The text behind the client. -/
def text : LockResponse → Text
  | no => fmtInt CreationState.no.code
  | maybe stamp => fmtInt CreationState.maybe.code ++ '_' :: pairText stamp.sec stamp.usec
  | yes id => pairText CreationState.yes.code id
  | elected id => fmtInt CreationState.yes.code ++ '_' :: fmtInt id ++ ['_']

/-- The numbers that it consists of. -/
def fields : LockResponse → List ℤ
  | no => [CreationState.no.code]
  | maybe stamp => [CreationState.maybe.code, stamp.sec, stamp.usec]
  | yes id | elected id => [CreationState.yes.code, id]

end LockResponse

/-- A message of one network thread to another, with the fields that it is about. -/
inductive ServerMessage
  | verify (k : Kind) (client : ℤ) (name : Text)
  | lockAnswer (client : ℤ) (response : LockResponse)
  | cvAnswer (client id : ℤ)
  | mvAnswer (client id : ℤ)
  | waitCv (client cv lock : ℤ)
  | waitResponse (client cv : ℤ)
  | signalLock (client lock : ℤ)
  | signalResponse (client lock : ℤ)
  | broadcastLock (client lock : ℤ)
  | broadcastResponse (client lock : ℤ)
  deriving DecidableEq, Repr

/-- What a branch reads: the client, and a name or numbers. -/
inductive Received
  | name (client : ℤ) (name : Text)
  | numbers (client : ℤ) (fields : List ℤ)
  deriving DecidableEq, Repr

namespace ServerMessage

/-- The request type. -/
def type : ServerMessage → RequestType
  | verify k _ _ => k.verify
  | lockAnswer _ _ => .createLockAnswer
  | cvAnswer _ _ => .createCvAnswer
  | mvAnswer _ _ => .createMvAnswer
  | waitCv _ _ _ => .waitCv
  | waitResponse _ _ => .waitResponse
  | signalLock _ _ => .signalLock
  | signalResponse _ _ => .signalResponse
  | broadcastLock _ _ => .broadcastLock
  | broadcastResponse _ _ => .broadcastResponse

/-- The client. -/
def client : ServerMessage → ℤ
  | verify _ client _ | lockAnswer client _ | cvAnswer client _ | mvAnswer client _
  | waitCv client _ _ | waitResponse client _ | signalLock client _ | signalResponse client _
  | broadcastLock client _ | broadcastResponse client _ => client

/-- The text behind the request type. The writers of the three responses print the address
    `pointer` of their array `client` for the number in it. -/
def body (pointer : ℤ) : ServerMessage → Text
  | verify _ client name => fmtInt client ++ '_' :: name
  | lockAnswer client response => fmtInt client ++ '_' :: response.text
  | cvAnswer client id | mvAnswer client id => pairText client id
  | waitCv client cv lock => fmtInt client ++ '_' :: pairText cv lock
  | signalLock client lock | broadcastLock client lock => pairText client lock
  | waitResponse _ id | signalResponse _ id | broadcastResponse _ id => pairText pointer id

/-- The message text. -/
def text (pointer : ℤ) (m : ServerMessage) : Text := requestText m.type (m.body pointer)

/-- The fields. -/
def fields : ServerMessage → Received
  | verify _ client name => .name client name
  | lockAnswer client response => .numbers client response.fields
  | cvAnswer client id | mvAnswer client id | waitResponse client id | signalLock client id
  | signalResponse client id | broadcastLock client id | broadcastResponse client id =>
    .numbers client [id]
  | waitCv client cv lock => .numbers client [cv, lock]

/-- The client is one of the 1000, a name fits a message, an id is a non-negative `int` or -1,
    and a time stamp consists of `int`s. -/
def Legal (m : ServerMessage) : Prop :=
  (0 ≤ m.client ∧ m.client < MAX_CLIENTS) ∧
    match m with
    | verify _ _ name => name.length < 32
    | lockAnswer _ .no => True
    | lockAnswer _ (.maybe stamp) => IsInt stamp.sec ∧ IsInt stamp.usec
    | lockAnswer _ (.yes id) | lockAnswer _ (.elected id) | cvAnswer _ id | mvAnswer _ id
    | waitResponse _ id | signalLock _ id | signalResponse _ id | broadcastLock _ id
    | broadcastResponse _ id => -1 ≤ id ∧ IsInt id
    | waitCv _ cv lock => (-1 ≤ cv ∧ IsInt cv) ∧ -1 ≤ lock ∧ IsInt lock

instance (m : ServerMessage) : Decidable m.Legal := by
  unfold Legal
  split <;> infer_instance

end ServerMessage

/-! ## The writers -/

/-- The questions of `CreateVerify`. -/
theorem createVerify_text {t : NetThread} {k : Kind} {name : Text} {client : ℤ}
    {localNetThreadInfo : List NetThread} {g g' : Globals} {out : List Message} (pointer : ℤ)
    (h : createVerify t name k.verify client localNetThreadInfo g = .ok (g', out)) :
    ∀ msg ∈ out, msg.data = (ServerMessage.verify k client name).text pointer := by
  rw [createVerify, bind_eq_ok] at h
  obtain ⟨request, hrequest, h⟩ := h
  obtain ⟨i, -, h⟩ := bind_eq_ok.mp h
  cases h
  intro msg hmsg
  obtain ⟨entry, -, rfl⟩ := List.mem_map.mp hmsg
  exact (sprintf_eq_ok hrequest).2.symm

/-- The `YES` of a thread that has been elected. -/
theorem elected_text {t : NetThread} {client id : ℤ} {localNetThreadInfo : List NetThread}
    {g g' : Globals} {out : List Message} (pointer : ℤ)
    (h : createVerify t (fmtInt CreationState.yes.code ++ '_' :: fmtInt id ++ ['_'])
      .createLockAnswer client localNetThreadInfo g = .ok (g', out)) :
    ∀ msg ∈ out, msg.data = (ServerMessage.lockAnswer client (.elected id)).text pointer := by
  rw [createVerify, bind_eq_ok] at h
  obtain ⟨request, hrequest, h⟩ := h
  obtain ⟨i, -, h⟩ := bind_eq_ok.mp h
  cases h
  intro msg hmsg
  obtain ⟨entry, -, rfl⟩ := List.mem_map.mp hmsg
  exact (sprintf_eq_ok hrequest).2.symm

/-- The answer to a question about a lock. -/
theorem lockVerify_text {t : NetThread} {e : Ambient} {inPktHdr : PacketHeader}
    {inMailHdr : MailHeader} {s : Text} {g : Globals} {r : Result} (pointer : ℤ)
    (h : lockVerify t e inPktHdr inMailHdr s g = .ok r) :
    ∃ client response, r.out.map Message.data =
      [(ServerMessage.lockAnswer client response).text pointer] := by
  rw [lockVerify, bind_eq_ok] at h
  obtain ⟨⟨client, name⟩, -, h⟩ := h
  simp only at h
  split_ifs at h
  obtain ⟨found, -, h⟩ := bind_eq_ok.mp h
  obtain ⟨i, -, h⟩ := bind_eq_ok.mp h
  obtain ⟨data, hdata, h⟩ := bind_eq_ok.mp h
  obtain ⟨request, hrequest, h⟩ := bind_eq_ok.mp h
  obtain ⟨-, rfl⟩ := sprintf_eq_ok hrequest
  cases h
  obtain ⟨response, rfl⟩ : ∃ response : LockResponse, data = response.text := by
    rw [lockResponse] at hdata
    split_ifs at hdata
    · obtain ⟨own, -, hdata⟩ := bind_eq_ok.mp hdata
      cases hdata
      exact ⟨.maybe _, rfl⟩
    · cases hdata
      exact ⟨.no, rfl⟩
    · obtain ⟨id, -, hdata⟩ := bind_eq_ok.mp hdata
      cases hdata
      exact ⟨.yes id, rfl⟩
  exact ⟨client, response, rfl⟩

/-- The answer to a question about a condition variable or a monitor variable. -/
theorem objectVerify_text {k : Kind} (hk : k ≠ .lock) {t : NetThread} {e : Ambient}
    {inPktHdr : PacketHeader} {inMailHdr : MailHeader} {s : Text} {g : Globals} {r : Result}
    (pointer : ℤ)
    (h : objectVerify k t e inPktHdr inMailHdr s g = .ok r) :
    ∃ client id, r.out.map Message.data =
      [(if k = .cv then ServerMessage.cvAnswer client id
        else .mvAnswer client id).text pointer] := by
  rw [objectVerify, bind_eq_ok] at h
  obtain ⟨⟨client, name⟩, -, h⟩ := h
  simp only at h
  split_ifs at h
  obtain ⟨found, -, h⟩ := bind_eq_ok.mp h
  obtain ⟨id, -, h⟩ := bind_eq_ok.mp h
  obtain ⟨request, hrequest, h⟩ := bind_eq_ok.mp h
  obtain ⟨-, rfl⟩ := sprintf_eq_ok hrequest
  cases h
  refine ⟨client, id, ?_⟩
  cases k with
  | lock => exact absurd rfl hk
  | cv | mv => rfl

/-- `Wait` on a condition variable of another server. -/
theorem wait_text {t : NetThread} {e : Ambient} {cvIndex lockIndex clientNum : ℤ}
    {outPktHdr : PacketHeader} {inMailHdr : MailHeader} {g : Globals} {r : Result} (pointer : ℤ)
    (hcv : cvIndex.tdiv MAX_DCV ≠ t.uniqueGlobalID)
    (h : wait t e cvIndex lockIndex outPktHdr inMailHdr clientNum g = .ok r) :
    ∃ cv lock, ∀ msg ∈ r.out, msg.data = (ServerMessage.waitCv clientNum cv lock).text pointer := by
  rw [wait, if_neg (c := _ ∧ _) (fun h => hcv h.2)] at h
  split_ifs at h
  · cases h
    exact ⟨0, 0, by rintro _ ⟨⟩⟩
  · cases h
    exact ⟨0, 0, by rintro _ ⟨⟩⟩
  · simp only at h
    split at h
    · cases h
      exact ⟨0, 0, by rintro _ ⟨⟩⟩
    · split_ifs at h
      · cases h
        exact ⟨0, 0, by rintro _ ⟨⟩⟩
      · obtain ⟨i, -, h⟩ := bind_eq_ok.mp h
        cases h
        exact ⟨_, _, fun msg hmsg => by rw [List.mem_singleton.mp hmsg]; rfl⟩

/-- `Signal` and `Broadcast` with a lock of another server. -/
theorem signal_text {t : NetThread} {e : Ambient} {cvIndex lockIndex clientNum : ℤ}
    {outPktHdr : PacketHeader} {inMailHdr : MailHeader} {g : Globals} {r : Result} (pointer : ℤ)
    (hlock : lockIndex.tdiv MAX_DLOCK ≠ t.uniqueGlobalID)
    (h : signal t e cvIndex lockIndex outPktHdr inMailHdr clientNum g = .ok r) :
    ∃ lock, ∀ msg ∈ r.out, msg.data = (ServerMessage.signalLock clientNum lock).text pointer := by
  rw [signal, if_neg (c := _ ∧ _) (fun h => hlock h.1)] at h
  split_ifs at h
  · cases h
    exact ⟨0, by rintro _ ⟨⟩⟩
  · cases h
    exact ⟨0, by rintro _ ⟨⟩⟩
  · obtain ⟨i, -, h⟩ := bind_eq_ok.mp h
    cases h
    exact ⟨_, fun msg hmsg => by rw [List.mem_singleton.mp hmsg]; rfl⟩
  · cases h
    exact ⟨0, by rintro _ ⟨⟩⟩

theorem broadcast_text {t : NetThread} {e : Ambient} {cvIndex lockIndex clientNum : ℤ}
    {outPktHdr inPktHdr : PacketHeader} {inMailHdr : MailHeader} {g : Globals} {r : Result}
    (pointer : ℤ) (hlock : lockIndex.tdiv MAX_DLOCK ≠ t.uniqueGlobalID)
    (h : broadcast t e cvIndex lockIndex outPktHdr inPktHdr inMailHdr clientNum g = .ok r) :
    ∃ lock, ∀ msg ∈ r.out,
      msg.data = (ServerMessage.broadcastLock clientNum lock).text pointer := by
  rw [broadcast, if_neg (c := _ ∧ _) (fun h => hlock h.1)] at h
  split_ifs at h
  · cases h
    exact ⟨0, by rintro _ ⟨⟩⟩
  · cases h
    exact ⟨0, by rintro _ ⟨⟩⟩
  · obtain ⟨i, -, h⟩ := bind_eq_ok.mp h
    cases h
    exact ⟨_, fun msg hmsg => by rw [List.mem_singleton.mp hmsg]; rfl⟩

/-- The three responses of the owner of a condition variable or a lock. -/
theorem respond_text (c : Call) (clientNum id : ℤ) (g : Globals) :
    (c.respond .waitResponse clientNum id g).out.map Message.data =
        [(ServerMessage.waitResponse clientNum id).text c.e.client] ∧
      (c.respond .signalResponse clientNum id g).out.map Message.data =
        [(ServerMessage.signalResponse clientNum id).text c.e.client] ∧
      (c.respond .broadcastResponse clientNum id g).out.map Message.data =
        [(ServerMessage.broadcastResponse clientNum id).text c.e.client] :=
  ⟨rfl, rfl, rfl⟩

/-! ## Reading -/

/-- The rows of `verifyBuffer[i]`. -/
def InRows (row : ℤ) : Prop := 0 ≤ row ∧ row < 4

instance (row : ℤ) : Decidable (InRows row) := inferInstanceAs (Decidable (_ ∧ _))

/-- Store an answer inside of its row. -/
def storeInRow (i : ℕ) (row : ℤ) (s : Text) (g : Globals) : Except Fault Globals :=
  if InRows row ∧ s.length < 5 then setRow i row s g else .error .outOfBounds

/-- A row. -/
def readRow (i : ℕ) (row : ℤ) (g : Globals) : Except Fault (ℕ → Char) :=
  if InRows row then getRow i row g else .error .outOfBounds

/-- The numbers that `CREATELOCKANSWER` reads in a row: two more behind a `NO` or a `MAYBE`. -/
def readResponse (row : ℕ → Char) : Except Fault (List ℤ) := do
  let (verifyResponse, next) ← parseValue 0 row
  if verifyResponse = CreationState.yes.code then
    let (lockIndex, _) ← parseValue next row
    return [verifyResponse, lockIndex]
  else if verifyResponse = CreationState.no.code ∨ verifyResponse = CreationState.maybe.code then
    let (sec, next) ← parseValue next row
    let (usec, _) ← parseValue next row
    return [verifyResponse, sec, usec]
  else return [verifyResponse]

/-- The number that `CREATECVANSWER` and `CREATEMVANSWER` read in a row. -/
def readId (row : ℕ → Char) : ℤ :=
  if saysNone row then -1 else atoi (readString row (20 * MAX_CLIENTS) 0)

/-- What the branch for a type reads from the text behind it. An index outside of a row is a
    fault here, also where it is inside of the block. -/
@[simp] def Call.read (c : Call) (type : RequestType) (s : Text) (g : Globals) : Except Fault Received :=
  match type with
  | .createLockVerify => do
    let (client, name) ← readClient s
    if name.length < 32 then return .name client name else .error .outOfBounds
  | .createCvVerify | .createMvVerify => do
    let (client, name) ← readClient s
    if c.e.a ≠ 0 then .error .uninitialised
    else if name.length < 32 then return .name client name
    else .error .outOfBounds
  | .createLockAnswer => do
    let (client, response) ← readClient s
    let i ← index MAX_CLIENTS client
    let own ← index MAX_CLIENTS c.t.uniqueGlobalID
    let g ← storeInRow i (g.verifyResponses own) response g
    let row ← readRow i (g.verifyResponses i) g
    return .numbers client (← readResponse row)
  | .createCvAnswer | .createMvAnswer => do
    let (client, response) ← readClient s
    let i ← index MAX_CLIENTS client
    if c.e.a ≠ 0 then .error .uninitialised
    else
      let g ← storeInRow i (g.verifyResponses i) response g
      let row ← readRow i (g.verifyResponses i) g
      return .numbers client [readId row]
  | .waitCv => do
    let (client, cvNum, lockNum) ← readTwo 5 [] c.client s
    return .numbers client [atoi cvNum, atoi lockNum]
  | .waitResponse => do
    if s.head? ≠ some '_' then .error .assertion
    else
      let (client, cvNum) ← readOne (-1) s
      return .numbers client [atoi cvNum]
  | .signalLock | .signalResponse | .broadcastLock | .broadcastResponse => do
    let (client, lockIndexBuf) ← readOne c.client s
    return .numbers client [atoi lockIndexBuf]
  | _ => .error .assertion

/-- A `YES` that fits its row. -/
def LockResponse.Short : LockResponse → Prop
  | no => False
  | response => response.text.length < 5

instance (response : LockResponse) : Decidable response.Short := by
  unfold LockResponse.Short
  split <;> infer_instance

/-- **A message that is read as it was written**: no question about a condition variable or a
    monitor variable where `a` is not 0, no answer that is longer than its row or gets another
    one, and only such messages between the owners whose fields are the same number. -/
def ServerMessage.Readable (c : Call) (responses : ℕ → ℤ) (pointer : ℤ) : ServerMessage → Prop
  | verify k _ _ => k = .lock ∨ c.e.a = 0
  | lockAnswer client response => response.Short ∧ InRows (responses client.toNat) ∧
      responses c.t.uniqueGlobalID.toNat = responses client.toNat
  | cvAnswer client id | mvAnswer client id =>
    c.e.a = 0 ∧ (fmtInt id).length < 5 ∧ InRows (responses client.toNat)
  | waitCv client cv lock => c.client = client ∧ client = cv ∧ cv = lock
  | waitResponse _ _ => False
  | signalLock client lock | broadcastLock client lock => c.client = client ∧ client = lock
  | signalResponse client id | broadcastResponse client id => c.client = client ∧ pointer = id

instance (c : Call) (responses : ℕ → ℤ) (pointer : ℤ) (m : ServerMessage) :
    Decidable (m.Readable c responses pointer) := by
  unfold ServerMessage.Readable
  split <;> infer_instance

/-! ## Rows -/

section

variable {i : ℕ} {row row' : ℤ} {s : Text} {g g' : Globals} {memory : ℕ → Char}

theorem readString_eq {buf : ℕ → Char} {i fuel : ℕ} (hs : HasText buf i s)
    (hend : buf (i + s.length) = nul) (hchar : ∀ c ∈ s, c ≠ nul) (hlen : s.length < fuel) :
    readString buf fuel i = s := by
  induction s generalizing i fuel with
  | nil =>
    obtain ⟨fuel, rfl⟩ : ∃ f, fuel = f + 1 := ⟨fuel - 1, by simp at hlen; omega⟩
    rw [readString, if_pos (by simpa using hend)]
  | cons c s ih =>
    obtain ⟨fuel, rfl⟩ : ∃ f, fuel = f + 1 := ⟨fuel - 1, by simp at hlen; omega⟩
    obtain ⟨hc, hs⟩ := hs
    have hidx : i + (c :: s).length = i + 1 + s.length := by simp; omega
    rw [hidx] at hend
    rw [readString, hc, if_neg (hchar c (by simp)),
      ih hs hend (fun d hd => hchar d (by simp [hd])) (by simp at hlen; omega)]

/-- An id is read as it was printed. -/
theorem readId_eq {id : ℤ} (hid : -1 ≤ id ∧ IsInt id) (htext : HasText memory 0 (fmtInt id))
    (hend : memory (fmtInt id).length = nul) : readId memory = id := by
  have hlength := hid.2.length_le
  have hstring : readString memory (20 * MAX_CLIENTS) 0 = fmtInt id :=
    readString_eq htext (by rwa [Nat.zero_add]) (fun c hc => (fmtInt_no_delimiter id c hc).2)
      (by show _ < 20 * 1000; omega)
  rw [readId, hstring, atoi_fmtInt]
  split_ifs with hnone
  · rw [saysNone, decide_eq_true_eq] at hnone
    by_contra hne
    have hdigits := fmtInt_of_nonneg (n := id) (by omega)
    obtain ⟨c, rest, hcons, hdigit⟩ := toDigits_cons id.natAbs
    rw [hdigits, hcons] at htext
    rw [htext.1] at hnone
    rw [hnone.1] at hdigit
    exact absurd hdigit (by decide)
  · rfl

/-- A `YES` is read as it was printed. -/
theorem readResponse_yes {id : ℤ} (hid : IsInt id) {rest : Text} (hrest : rest = [] ∨ rest = ['_'])
    (htext : HasText memory 0 (pairText CreationState.yes.code id ++ rest))
    (hend : memory (pairText CreationState.yes.code id ++ rest).length = nul) :
    readResponse memory = .ok [CreationState.yes.code, id] := by
  have hlength := hid.length_le
  obtain ⟨hpair, hrest'⟩ := HasText.append.mp htext
  obtain ⟨hcode, hsep, hnumber⟩ := HasText.append.mp hpair
  have hone : (fmtInt CreationState.yes.code).length = 1 := by decide
  have hpairLength : (pairText CreationState.yes.code id).length = 2 + (fmtInt id).length := by
    rw [pairText, List.length_append, List.length_cons, hone]
    omega
  have hdelimiter : memory (0 + 1 + 1 + (fmtInt id).length) = '_' ∨
      memory (0 + 1 + 1 + (fmtInt id).length) = nul := by
    rw [show 0 + 1 + 1 + (fmtInt id).length = (pairText CreationState.yes.code id).length by omega]
    obtain rfl | rfl := hrest
    · right
      rwa [List.append_nil] at hend
    · left
      rw [Nat.zero_add] at hrest'
      exact hrest'.1
  rw [hone] at hsep hnumber
  have hparse := parseValue_number hcode (Or.inl (by rwa [hone])) (by decide)
  have hparse' := parseValue_number hnumber hdelimiter (by show _ < 32; omega)
  rw [hone] at hparse
  rw [readResponse, hparse]
  simp only [ok_bind, hparse', if_true, pure_eq_ok]

/-- Whatever else is in a row, three numbers are read or one that is neither of the states. -/
theorem readResponse_ne_yes {v : ℤ} {next : ℕ} (hv : v ≠ CreationState.yes.code)
    (hparse : parseValue 0 memory = .ok (v, next)) (id : ℤ) :
    readResponse memory ≠ .ok [CreationState.yes.code, id] ∧
      readResponse memory ≠ .ok [CreationState.no.code] := by
  rw [readResponse, hparse, ok_bind]
  simp only [if_neg hv]
  split_ifs with hno
  · cases parseValue next memory with
    | error fault => exact ⟨nofun, nofun⟩
    | ok sec =>
      rw [ok_bind]
      cases parseValue sec.2 memory <;> exact ⟨nofun, nofun⟩
  · refine ⟨nofun, fun h => hno (Or.inl ?_)⟩
    simpa using h

end

section

variable {i : ℕ} {row row' : ℤ} {s : Text} {g : Globals}

/-- An answer that fits is read back from its row. -/
theorem storeInRow_eq (hi : i < MAX_CLIENTS) (hrow : InRows row) (hs : s.length < 5) :
    ∃ g' memory, storeInRow i row s g = .ok g' ∧ g'.verifyResponses = g.verifyResponses ∧
      readRow i row g' = .ok memory ∧ HasText memory 0 s ∧ memory s.length = nul := by
  have hi' : i < 1000 := hi
  obtain ⟨h0, h4⟩ := hrow
  have hoffset : rowOffset i row = .ok (20 * i + 5 * row).toNat :=
    index_eq_ok (by omega) (by push_cast; omega)
  have hroom : (20 * (i : ℤ) + 5 * row).toNat + s.length < 20 * MAX_CLIENTS := by
    show _ < 20 * 1000
    omega
  obtain ⟨g', hset, hresponses⟩ : ∃ g', setRow i row s g = .ok g' ∧
      g'.verifyResponses = g.verifyResponses := by
    rw [setRow, hoffset, ok_bind, if_pos hroom]
    exact ⟨_, rfl, rfl⟩
  obtain ⟨memory, hmemory, htext, hend⟩ := getRow_setRow hset
  refine ⟨g', memory, ?_, hresponses, ?_, htext, hend⟩
  · rw [storeInRow, if_pos ⟨⟨h0, h4⟩, hs⟩, hset]
  · rw [readRow, if_pos ⟨h0, h4⟩, hmemory]

/-- In a clear buffer the other rows stay clear. -/
theorem readRow_other (hi : i < MAX_CLIENTS) (hrow' : InRows row') (hne : row' ≠ row)
    (hclear : ∀ n, g.verifyBuffer n = nul) {g' : Globals} (h : storeInRow i row s g = .ok g') :
    ∃ memory, readRow i row' g' = .ok memory ∧ memory 0 = nul := by
  have hi' : i < 1000 := hi
  rw [storeInRow] at h
  split_ifs at h with hfits
  obtain ⟨⟨h0, h4⟩, hs⟩ := hfits
  obtain ⟨h0', h4'⟩ := hrow'
  rw [setRow, bind_eq_ok] at h
  obtain ⟨offset, hoffset, h⟩ := h
  split_ifs at h
  cases h
  rw [rowOffset, index_eq_ok (by omega) (by push_cast; omega), Except.ok.injEq] at hoffset
  have hoffset' : rowOffset i row' = .ok (20 * i + 5 * row').toNat :=
    index_eq_ok (by omega) (by push_cast; omega)
  refine ⟨_, by rw [readRow, if_pos ⟨h0', h4'⟩, getRow, hoffset']; rfl, ?_⟩
  show writeText s offset g.verifyBuffer ((20 * i + 5 * row').toNat + 0) = nul
  rw [writeText, if_neg (by omega)]
  exact hclear _

end

/-! ## The condition -/

section

variable {c : Call} {client : ℤ}

theorem readClient_fmtInt (h0 : 0 ≤ client) (h : client < MAX_CLIENTS) (s : Text) :
    readClient (fmtInt client ++ '_' :: s) = .ok (client, s) := by
  have hdigits := (client_fits h0 h).2
  rw [readClient, readField_append (underscore_not_mem_fmtInt _) (by omega)]
  simp only [ok_bind, pure_eq_ok, atoi_fmtInt]

/-- No `MAYBE` fits a row. -/
theorem LockResponse.length_maybe (stamp : Timeval) : 5 ≤ (maybe stamp).text.length := by
  have hcode : (fmtInt CreationState.maybe.code).length = 1 := by decide
  have hsec := List.length_pos_of_ne_nil (fmtInt_ne_nil stamp.sec)
  have husec := List.length_pos_of_ne_nil (fmtInt_ne_nil stamp.usec)
  rw [LockResponse.text, pairText, List.length_append, List.length_cons, List.length_append,
    List.length_cons]
  omega

/-- **The questions.** -/
theorem verify_read_iff {k : Kind} {name : Text} (h0 : 0 ≤ client) (hclient : client < MAX_CLIENTS)
    (hname : name.length < 32) (g : Globals) :
    c.read k.verify (fmtInt client ++ '_' :: name) g = .ok (.name client name) ↔
      k = .lock ∨ c.e.a = 0 := by
  cases k with
  | lock =>
    refine iff_of_true ?_ (Or.inl rfl)
    rw [Kind.verify, Call.read, readClient_fmtInt h0 hclient]
    simp only [ok_bind, if_pos hname, pure_eq_ok]
  | cv | mv =>
    rw [Kind.verify, Call.read, readClient_fmtInt h0 hclient]
    simp only [ok_bind, if_pos hname, pure_eq_ok, reduceCtorEq, false_or]
    split_ifs with ha
    · exact iff_of_false nofun ha
    · exact iff_of_true rfl (not_not.mp ha)

/-- A `YES` is the one response that is read as it was written. -/
theorem readResponse_eq_iff {response : LockResponse} (hshort : response.text.length < 5)
    (hlegal : (ServerMessage.lockAnswer client response).Legal) {memory : ℕ → Char}
    (htext : HasText memory 0 response.text) (hend : memory response.text.length = nul) :
    readResponse memory = .ok response.fields ↔ response.Short := by
  cases response with
  | no =>
    have hone : (fmtInt CreationState.no.code).length = 1 := by decide
    have hparse := parseValue_number htext (Or.inr (by rw [Nat.zero_add]; exact hend)) (by decide)
    exact iff_of_false (readResponse_ne_yes (by decide) hparse 0).2 not_false
  | maybe stamp => exact absurd hshort (not_lt.mpr (LockResponse.length_maybe stamp))
  | yes id =>
    refine iff_of_true (readResponse_yes hlegal.2.2 (Or.inl rfl) ?_ ?_) hshort
    · rw [List.append_nil]
      exact htext
    · rw [List.append_nil]
      exact hend
  | elected id =>
    have hsplit : (LockResponse.elected id).text = pairText CreationState.yes.code id ++ ['_'] := by
      rw [LockResponse.text, pairText, List.append_assoc]
    rw [hsplit] at htext hend
    exact iff_of_true (readResponse_yes hlegal.2.2 (Or.inr rfl) htext hend) hshort

theorem LockResponse.Short.length_lt {response : LockResponse} (h : response.Short) :
    response.text.length < 5 := by
  cases response with
  | no => exact h.elim
  | maybe stamp | yes id | elected id => exact h

/-- **The answer to a question about a lock.** -/
theorem lockAnswer_read_iff {response : LockResponse} (ht : c.t.uniqueGlobalID < MAX_CLIENTS)
    (hlegal : (ServerMessage.lockAnswer client response).Legal) (responses : ℕ → ℤ) :
    (∀ g : Globals, g.verifyResponses = responses →
        c.read .createLockAnswer (fmtInt client ++ '_' :: response.text) g =
          .ok (.numbers client response.fields)) ↔
      response.Short ∧ InRows (responses client.toNat) ∧
        responses c.t.uniqueGlobalID.toNat = responses client.toNat := by
  obtain ⟨h0, hclient⟩ : 0 ≤ client ∧ client < MAX_CLIENTS := hlegal.1
  have hi : client.toNat < MAX_CLIENTS := by
    show _ < 1000
    have : client < 1000 := hclient
    omega
  have hread (g : Globals) :
      c.read .createLockAnswer (fmtInt client ++ '_' :: response.text) g = (do
      let g ← storeInRow client.toNat (g.verifyResponses c.t.uniqueGlobalID.toNat) response.text g
      let row ← readRow client.toNat (g.verifyResponses client.toNat) g
      return .numbers client (← readResponse row)) := by
    rw [Call.read, readClient_fmtInt h0 hclient]
    simp only [ok_bind, (client_fits h0 hclient).1, (uniqueGlobalID_fits ht).1]
  constructor
  · intro h
    obtain ⟨g, hg, hclear⟩ : ∃ g : Globals, g.verifyResponses = responses ∧
        ∀ n, g.verifyBuffer n = nul :=
      ⟨{ Globals.init 0 with verifyResponses := responses }, rfl, fun _ => rfl⟩
    have hok := h g hg
    rw [hread, hg, bind_eq_ok] at hok
    obtain ⟨g₁, hstore, hok⟩ := hok
    obtain ⟨memory, hrow, hok⟩ := bind_eq_ok.mp hok
    obtain ⟨fields, hresponse, hok⟩ := bind_eq_ok.mp hok
    cases hok
    have hfits : InRows (responses c.t.uniqueGlobalID.toNat) ∧ response.text.length < 5 := by
      by_contra hnot
      rw [storeInRow, if_neg hnot] at hstore
      cases hstore
    obtain ⟨g₂, memory', hstore', hresponses, hrow', htext, hend⟩ :=
      storeInRow_eq (g := g) hi hfits.1 hfits.2
    rw [hstore, Except.ok.injEq] at hstore'
    subst hstore'
    rw [hresponses, hg] at hrow
    have hin : InRows (responses client.toNat) := by
      by_contra hnot
      rw [readRow, if_neg hnot] at hrow
      cases hrow
    by_cases hsame : responses c.t.uniqueGlobalID.toNat = responses client.toNat
    · rw [hsame, hrow, Except.ok.injEq] at hrow'
      subst hrow'
      exact ⟨(readResponse_eq_iff hfits.2 hlegal htext hend).mp hresponse, hin, hsame⟩
    · -- the row that is read is clear
      obtain ⟨other, hother, hnul⟩ := readRow_other hi hin (Ne.symm hsame) hclear hstore
      rw [hrow, Except.ok.injEq] at hother
      subst hother
      cases response with
      | no => exact absurd hresponse (readResponse_ne_yes (by decide) (parseValue_nul hnul) 0).2
      | maybe stamp => exact absurd hfits.2 (not_lt.mpr (LockResponse.length_maybe stamp))
      | yes id | elected id =>
        exact absurd hresponse (readResponse_ne_yes (by decide) (parseValue_nul hnul) id).1
  · rintro ⟨hshort, hin, hsame⟩ g rfl
    obtain ⟨g', memory, hstore, hresponses, hrow, htext, hend⟩ :=
      storeInRow_eq (g := g) hi hin hshort.length_lt
    rw [hread, hsame, hstore, ok_bind, hresponses, hrow, ok_bind,
      (readResponse_eq_iff hshort.length_lt hlegal htext hend).mpr hshort]
    rfl

/-- **The answers about the other objects.** -/
theorem objectAnswer_read_iff {type : RequestType}
    (htype : type = .createCvAnswer ∨ type = .createMvAnswer) (h0 : 0 ≤ client)
    (hclient : client < MAX_CLIENTS) {id : ℤ} (hid : -1 ≤ id ∧ IsInt id) (responses : ℕ → ℤ) :
    (∀ g : Globals, g.verifyResponses = responses →
        c.read type (pairText client id) g = .ok (.numbers client [id])) ↔
      c.e.a = 0 ∧ (fmtInt id).length < 5 ∧ InRows (responses client.toNat) := by
  have hi : client.toNat < MAX_CLIENTS := by
    show _ < 1000
    have : client < 1000 := hclient
    omega
  have hread (g : Globals) : c.read type (pairText client id) g =
      if c.e.a ≠ 0 then .error .uninitialised
      else do
        let g ← storeInRow client.toNat (g.verifyResponses client.toNat) (fmtInt id) g
        let row ← readRow client.toNat (g.verifyResponses client.toNat) g
        return .numbers client [readId row] := by
    obtain rfl | rfl := htype <;>
    · rw [Call.read, pairText, readClient_fmtInt h0 hclient]
      simp only [ok_bind, (client_fits h0 hclient).1]
  constructor
  · intro h
    have hok := h { Globals.init 0 with verifyResponses := responses } rfl
    rw [hread] at hok
    split_ifs at hok with ha
    obtain ⟨g', hstore, -⟩ := bind_eq_ok.mp hok
    rw [storeInRow] at hstore
    split_ifs at hstore with hfits
    exact ⟨not_not.mp ha, hfits.2, hfits.1⟩
  · rintro ⟨ha, hlength, hin⟩ g rfl
    obtain ⟨g', memory, hstore, hresponses, hrow, htext, hend⟩ :=
      storeInRow_eq (g := g) hi hin hlength
    rw [hread, if_neg (not_not.mpr ha), hstore, ok_bind, hresponses, hrow, ok_bind,
      readId_eq hid htext hend]
    rfl

/-- Two numbers are read as one. -/
theorem pair_read_iff {type : RequestType} {a b : ℤ} (ha : IsInt a) (hb : IsInt b)
    (htype : type = .signalLock ∨ type = .signalResponse ∨ type = .broadcastLock ∨
      type = .broadcastResponse) (g : Globals) :
    c.read type (pairText a b) g = .ok (.numbers client [b]) ↔ c.client = client ∧ a = b := by
  obtain ⟨hread, hfirst⟩ := readOne_pairText c.client ha hb
  have hresult : c.read type (pairText a b) g = .ok (.numbers c.client [a]) := by
    obtain rfl | rfl | rfl | rfl := htype <;>
    · rw [Call.read, hread]
      simp only [ok_bind, hfirst, pure_eq_ok]
  rw [hresult]
  simp

/-- And of three numbers the first two are read. -/
theorem waitCv_read_iff {cv lock : ℤ} (hclient : IsInt client) (hcv : IsInt cv) (hlock : IsInt lock)
    (g : Globals) :
    c.read .waitCv (fmtInt client ++ '_' :: pairText cv lock) g = .ok (.numbers client [cv, lock]) ↔
      c.client = client ∧ client = cv ∧ cv = lock := by
  have hfits : (fmtInt client).length < MaxMailSize ∧ (pairText cv lock).length < MaxMailSize := by
    have := hclient.length_le
    have := hcv.length_le
    have := hlock.length_le
    rw [pairText, List.length_append, List.length_cons]
    constructor <;> (show _ < 32; omega)
  have hhead : (fmtInt client ++ '_' :: pairText cv lock).head? ≠ some '_' := by
    rw [List.head?_append_of_ne_nil _ (fmtInt_ne_nil client)]
    exact fmtInt_head? client
  have hread : readTwo 5 [] c.client (fmtInt client ++ '_' :: pairText cv lock) =
      .ok (c.client, fmtInt client, pairText cv lock) := by
    unfold readTwo
    split
    · next heq => exact absurd (by rw [heq]; rfl) hhead
    · rw [readPair, readField_append (underscore_not_mem_fmtInt _) hfits.1]
      simp only [ok_bind, readRestAfter_eq hfits.2, pure_eq_ok]
  have hfirst : atoi (pairText cv lock) = cv := (readOne_pairText c.client hcv hlock).2
  rw [Call.read, hread]
  simp only [ok_bind, pure_eq_ok, atoi_fmtInt, hfirst, Except.ok.injEq, Received.numbers.injEq,
    List.cons.injEq, and_true]

/-- **A message of one server to another is read as it was written** exactly if it is one of the
    readable ones: whatever the buffer for the answers holds, with each index inside of its row. -/
theorem serverMessage_read_iff (ht : c.t.uniqueGlobalID < MAX_CLIENTS) (responses : ℕ → ℤ)
    {pointer : ℤ} (hpointer : IsInt pointer) (m : ServerMessage) (hlegal : m.Legal) :
    (∀ g : Globals, g.verifyResponses = responses →
        c.read m.type (m.body pointer) g = .ok m.fields) ↔ m.Readable c responses pointer := by
  have hrun {s : Text} {type : RequestType} {p : Received} {P : Prop}
      (h : ∀ g, c.read type s g = .ok p ↔ P) :
      (∀ g : Globals, g.verifyResponses = responses → c.read type s g = .ok p) ↔ P :=
    ⟨fun hall => (h { Globals.init 0 with verifyResponses := responses }).mp (hall _ rfl),
      fun hP g _ => (h g).mpr hP⟩
  obtain ⟨⟨h0, hclient⟩, hfields⟩ := hlegal
  have hint : IsInt m.client := by
    have : m.client < 1000 := hclient
    constructor <;> norm_num <;> omega
  cases m with
  | verify k client name => exact hrun (verify_read_iff h0 hclient hfields)
  | lockAnswer client response => exact lockAnswer_read_iff ht ⟨⟨h0, hclient⟩, hfields⟩ responses
  | cvAnswer client id => exact objectAnswer_read_iff (Or.inl rfl) h0 hclient hfields responses
  | mvAnswer client id => exact objectAnswer_read_iff (Or.inr rfl) h0 hclient hfields responses
  | waitCv client cv lock => exact hrun (waitCv_read_iff hint hfields.1.2 hfields.2.2)
  | waitResponse client id =>
    refine hrun fun g => iff_of_false ?_ not_false
    rw [ServerMessage.type, ServerMessage.body, Call.read, if_pos (pairText_head? pointer id)]
    exact nofun
  | signalLock client lock =>
    exact hrun (pair_read_iff hint hfields.2 (by simp [ServerMessage.type]))
  | broadcastLock client lock =>
    exact hrun (pair_read_iff hint hfields.2 (by simp [ServerMessage.type]))
  | signalResponse client id =>
    exact hrun (pair_read_iff hpointer hfields.2 (by simp [ServerMessage.type]))
  | broadcastResponse client id =>
    exact hrun (pair_read_iff hpointer hfields.2 (by simp [ServerMessage.type]))

end

/-! ## What is read is used -/

section

variable {c : Call} {group : List NetThread} {s s' : Text} {g : Globals}

/-- **All that a branch knows of a message is what it reads**: the questions, and the messages
    between the owners of a lock and a condition variable. -/
theorem dispatch_reads {type : RequestType}
    (htype : type ∈ [RequestType.createLockVerify, .createCvVerify, .createMvVerify, .waitCv,
      .waitResponse, .signalLock, .signalResponse, .broadcastLock, .broadcastResponse])
    (h : c.read type s g = c.read type s' g) :
    dispatch c group type s g = dispatch c group type s' g := by
  simp only [List.mem_cons, List.not_mem_nil, or_false] at htype
  obtain rfl | rfl | rfl | rfl | rfl | rfl | rfl | rfl | rfl := htype <;> simp only [Call.read] at h
  · simp only [dispatch, lockVerify]
    cases hs : readClient s <;> cases hs' : readClient s' <;> rw [hs, hs'] at h <;>
      simp only [ok_bind, error_bind, pure_eq_ok] at h ⊢ <;> grind
  · simp only [dispatch, objectVerify]
    cases hs : readClient s <;> cases hs' : readClient s' <;> rw [hs, hs'] at h <;>
      simp only [ok_bind, error_bind, pure_eq_ok] at h ⊢ <;> grind
  · simp only [dispatch, objectVerify]
    cases hs : readClient s <;> cases hs' : readClient s' <;> rw [hs, hs'] at h <;>
      simp only [ok_bind, error_bind, pure_eq_ok] at h ⊢ <;> grind
  · simp only [dispatch, Call.waitCV]
    cases hs : readTwo 5 [] c.client s <;> cases hs' : readTwo 5 [] c.client s' <;>
      rw [hs, hs'] at h <;> simp only [ok_bind, error_bind, pure_eq_ok] at h ⊢ <;> grind
  · simp only [dispatch, Call.waitResponse]
    cases hs : readOne (-1) s <;> cases hs' : readOne (-1) s' <;> rw [hs, hs'] at h <;>
      simp only [ok_bind, error_bind, pure_eq_ok] at h ⊢ <;> grind
  all_goals
    simp only [dispatch, Call.signalLock, Call.signalResponse, Call.broadcastLock,
      Call.broadcastResponse]
    cases hs : readOne c.client s <;> cases hs' : readOne c.client s' <;> rw [hs, hs'] at h <;>
      simp only [ok_bind, error_bind, pure_eq_ok, Except.ok.injEq, Except.error.injEq, reduceCtorEq,
        Received.numbers.injEq, List.cons.injEq, and_true] at h ⊢
    · exact h
    · simp only [h.1, h.2]

theorem storeInRow_eq_ok {i : ℕ} {row : ℤ} {g' : Globals} (h : storeInRow i row s g = .ok g') :
    setRow i row s g = .ok g' := by
  rw [storeInRow] at h
  split_ifs at h
  exact h

theorem readRow_eq_ok {i : ℕ} {row : ℤ} {memory : ℕ → Char} (h : readRow i row g = .ok memory) :
    getRow i row g = .ok memory := by
  rw [readRow] at h
  split_ifs at h
  exact h

/-- **An answer about a lock** that is read as a `YES` makes the thread adopt the id. -/
theorem lockAnswer_reads_yes {client id : ℤ}
    (h : c.read .createLockAnswer s g = .ok (.numbers client [CreationState.yes.code, id]))
    (hlocal : g.localLockIndex client.toNat = -1) :
    ∃ buffer, lockAnswer c.t c.e s group g =
      adoptLock c.t c.e client.toNat id { g with verifyBuffer := buffer } := by
  simp only [Call.read] at h
  obtain ⟨⟨client', response⟩, hclient, h⟩ := bind_eq_ok.mp h
  obtain ⟨i, hi, h⟩ := bind_eq_ok.mp h
  obtain ⟨own, hown, h⟩ := bind_eq_ok.mp h
  obtain ⟨g', hstore, h⟩ := bind_eq_ok.mp h
  obtain ⟨row, hrow, h⟩ := bind_eq_ok.mp h
  obtain ⟨fields, hfields, h⟩ := bind_eq_ok.mp h
  cases h
  have hset := storeInRow_eq_ok hstore
  obtain ⟨buffer, rfl⟩ := setRow_eq_ok hset
  obtain rfl : i = client'.toNat := by
    rw [index] at hi
    split_ifs at hi
    exact (Except.ok.inj hi).symm
  rw [readResponse] at hfields
  obtain ⟨⟨v, next⟩, hv, hfields⟩ := bind_eq_ok.mp hfields
  refine ⟨buffer, ?_⟩
  rw [lockAnswer, hclient]
  simp only [ok_bind, hi, hown, hset, hlocal, if_true, readRow_eq_ok hrow, hv]
  by_cases hyes : v = CreationState.yes.code
  · simp only [if_pos hyes] at hfields ⊢
    obtain ⟨⟨lockIndex, next'⟩, hid, hfields⟩ := bind_eq_ok.mp hfields
    cases hfields
    rw [hid, ok_bind]
  · simp only [if_neg hyes] at hfields
    split_ifs at hfields
    · obtain ⟨sec, -, hfields⟩ := bind_eq_ok.mp hfields
      obtain ⟨usec, -, hfields⟩ := bind_eq_ok.mp hfields
      cases hfields
    · cases hfields

/-- **The answers about the other objects** are read in the end, as one number each. -/
theorem otherServer_reads {i : ℕ} {row : ℤ} {memory : ℕ → Char} (n : ℕ)
    (h : getRow i row g = .ok memory) :
    otherServer g i (n + 1) row =
      if saysNone memory then otherServer g i n (row + 1) else .ok (readId memory) := by
  rw [otherServer, h, ok_bind, readId]
  split_ifs <;> rfl

end

/-! ## Four messages -/

/-- The question of server (0, 2) about a monitor variable `A`, and the `YES` with the id 7, at
    server (1, 0), whose own client is the 100. -/
theorem serverMessage_read_answer :
    let c : Call := ⟨⟨1, 0⟩, .clear ⟨0, 0⟩, ⟨1, 0⟩, ⟨0, 2⟩⟩
    let question : ServerMessage := .verify .mv 2 ['A']
    let answer : ServerMessage := .lockAnswer 100 (.yes 7)
    (question.Legal ∧ answer.Legal) ∧
      question.text 0 = "15_2_A".toList ∧ answer.text 0 = "16_100_2_7".toList ∧
      (∀ g : Globals, g.verifyResponses = (fun _ => 0) →
        c.read question.type (question.body 0) g = .ok question.fields) ∧
      ∀ g : Globals, g.verifyResponses = (fun _ => 0) →
        c.read answer.type (answer.body 0) g = .ok answer.fields := by
  intro c question answer
  have hlegal : question.Legal ∧ answer.Legal := by decide
  exact ⟨hlegal, by decide +kernel, by decide +kernel,
    (serverMessage_read_iff (c := c) (by decide) _ (by decide) question hlegal.1).mpr (by decide),
    (serverMessage_read_iff (c := c) (by decide) _ (by decide) answer hlegal.2).mpr (by decide)⟩

/-- **A response is not read**: the owner of condition variable 100 answers, and the branch for
    `WAITRESPONSE` fails its assertion. -/
theorem response_not_read :
    let c : Call := ⟨⟨0, 0⟩, .clear ⟨0, 0⟩, ⟨0, 1⟩, ⟨0, 0⟩⟩
    let m : ServerMessage := .waitResponse 0 100
    m.Legal ∧ m.text 3216 = "24_3216_100".toList ∧
      c.read m.type (m.body 3216) (.init 2) = .error .assertion ∧
      processMessage c (m.text 3216) [⟨0, 0⟩, ⟨1, 0⟩] (.init 2) = .error .assertion := by
  intro c m
  have hhead : (m.body 3216).head? ≠ some '_' := pairText_head? 3216 100
  refine ⟨by decide, by decide +kernel, ?_, ?_⟩
  · show c.read .waitResponse _ _ = _
    rw [Call.read, if_pos hhead]
  · rw [ServerMessage.text, processMessage_requestText _ _ _ rfl]
    show c.waitResponse _ _ = _
    rw [Call.waitResponse, if_pos hhead]

/-- **An answer is not read** where its id has five digits: condition variable 10000 is that of
    server (1, 0), and its answer runs over the end of its row. -/
theorem answer_not_read :
    let c : Call := ⟨⟨0, 0⟩, .clear ⟨0, 0⟩, ⟨0, 1⟩, ⟨0, 1⟩⟩
    let m : ServerMessage := .cvAnswer 0 10000
    m.Legal ∧ m.text 0 = "17_0_10000".toList ∧
      (c.read m.type (m.body 0) (.init 3)).toOption = none := by
  decide +kernel

end Nachos.Network
