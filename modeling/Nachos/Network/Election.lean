import Nachos.Network.Forwarding

/-!
# The election for a lock

A `CREATELOCK` at a network thread, the questions to the other servers, and the answers of
those that do not have the lock (`network/netcall.cc`, lines 317-362 and 454-681). A `NO`
carries no time stamp, but an answer counts only if it reads with a later one than that of the
request.

* `election_completes_iff`: the last answer creates the lock and sends one reply if and only if
  each answer counts, there is room in the table, and a lock without a name gets none.
* `not_counts_no`: a `NO` in a clear row does not count.
* `election_stalls`: one `NO`, and nothing is created.
-/

namespace Nachos.Network

open Nachos.Lib

/-! ## Runs -/

/-- An answer as it arrives: its headers, what stands behind the number of the client, and the
    surroundings in which it is processed. -/
structure Answer where
  e : Ambient
  inPktHdr : PacketHeader
  inMailHdr : MailHeader
  response : Text

/-- The globals of the thread that has asked, and what it has sent since the request. -/
structure Election where
  globals : Globals
  out : List Message

/-- The thread `t` processes an answer to its question about an object of a kind. -/
def answerStep (k : Kind) (t : NetThread) (group : List NetThread) (s : Election) (a : Answer) :
    Except Fault Election := do
  let r ← processMessage ⟨t, a.e, a.inPktHdr, a.inMailHdr⟩
    (clientText k.answer t.uniqueGlobalID a.response) group s.globals
  return ⟨r.state, s.out ++ r.out⟩

/-- The answer to the question `m` of a server that does not find the lock. -/
def RepliesTo (t : NetThread) (name : Text) (m : Message) (a : Answer) : Prop :=
  ∃ (server : NetThread) (e : Ambient) (group : List NetThread) (g : Globals) (r : Result),
    m.dest = server.address ∧
      searchFirst (Kind.lock.object g) name g.createDLockIndex.toNat 0 = .ok (-1) ∧
      processMessage ⟨server, e, m.pktHdr, m.mailHdr⟩ m.data group g = .ok r ∧
      ∃ reply ∈ r.out, reply.pktHdr = a.inPktHdr ∧ reply.mailHdr = a.inMailHdr ∧
        reply.data = clientText .createLockAnswer t.uniqueGlobalID a.response

/-! ## The property -/

/-- What has been sent to the user thread. -/
def replies (t : NetThread) (out : List Message) : List Message :=
  out.filter (·.dest = t.userAddress)

/-- **The lock has been created** in the slot of the old index, and nothing else; its id has been
    sent once to the user thread. -/
structure Elected (t : NetThread) (name : Text) (g : Globals) (s : Election) : Prop where
  dlocks : s.globals.dlocks = Function.update g.dlocks g.createDLockIndex.toNat
    (some (.new name (t.globalId MAX_DLOCK g.createDLockIndex.toNat)))
  createDLockIndex : s.globals.createDLockIndex = g.createDLockIndex + 1
  reply : ∃ reply, replies t s.out = [reply] ∧
    reply.data = fmtInt (t.globalId MAX_DLOCK g.createDLockIndex.toNat)

/-- Nothing has been created, and the user thread waits. -/
structure Waiting (t : NetThread) (g : Globals) (s : Election) : Prop where
  dlocks : s.globals.dlocks = g.dlocks
  createDLockIndex : s.globals.createDLockIndex = g.createDLockIndex
  reply : replies t s.out = []

/-- The last answer creates the lock, and none before does. -/
def Completes (t : NetThread) (group : List NetThread) (name : Text) (g : Globals) (s : Election)
    (answers : List Answer) : Prop :=
  (∃ s', exec (answerStep .lock t group) s answers = .ok s' ∧ Elected t name g s') ∧
    ∀ k < answers.length, ∀ s', exec (answerStep .lock t group) s (answers.take k) = .ok s' → Waiting t g s'

/-! ## The condition -/

/-- The time stamp that the code reads behind the response in its row. -/
def readTime (i : ℕ) (g : Globals) : Except Fault Timeval := do
  let row ← getRow i (g.verifyResponses i) g
  let (_, next) ← parseValue 0 row
  let (sec, next) ← parseValue next row
  let (usec, _) ← parseValue next row
  return ⟨sec, usec⟩

/-- An answer counts if it has its place in the buffer, where it reads with a later time stamp
    than that of the request. -/
def Counts (t : NetThread) (s : Election) (a : Answer) : Prop :=
  let i := t.uniqueGlobalID.toNat
  ∃ g ∈ (setRow i (s.globals.verifyResponses i) a.response s.globals).toOption,
    ∃ time ∈ (readTime i g).toOption, s.globals.lockCreationTimeStamps i < time

instance (t : NetThread) (s : Election) (a : Answer) : Decidable (Counts t s a) :=
  inferInstanceAs (Decidable (∃ _ ∈ Except.toOption _, ∃ _ ∈ Except.toOption _, _))

/-- There is room for the lock, each answer counts, and the memory from which a lock without a name
    takes it is clear. -/
def ElectionOk (t : NetThread) (group : List NetThread) (name : Text) (g : Globals) (s : Election)
    (answers : List Answer) : Prop :=
  (0 ≤ g.createDLockIndex ∧ g.createDLockIndex < MAX_DLOCK - 1) ∧
    Guarded (answerStep .lock t group) (Counts t) s answers ∧
    ∀ a ∈ answers.getLast?, name = [] → a.e.localLockName = []

instance (t : NetThread) (group : List NetThread) (name : Text) (g : Globals) (s : Election)
    (answers : List Answer) : Decidable (ElectionOk t group name g s answers) :=
  inferInstanceAs (Decidable (_ ∧ _ ∧ ∀ _ ∈ _, _))

section

variable {t : NetThread}

@[simp] theorem replies_append (out out' : List Message) :
    replies t (out ++ out') = replies t out ++ replies t out' := List.filter_append _ _

@[simp] theorem replies_replyToUser (e : Ambient) (id : ℤ) :
    replies t [replyToUser t e id] = [replyToUser t e id] := by
  have hdest : (replyToUser t e id).dest = t.userAddress := rfl
  rw [replies, List.filter_singleton, hdest, decide_eq_true rfl, cond_true]

/-- Messages between the network threads are no replies. -/
theorem replies_group {group : List NetThread} {out : List Message}
    (hbox : ∀ m ∈ group, m.address ≠ t.userAddress)
    (hout : ∀ m ∈ out, ∃ entry ∈ group, m.dest = entry.address) : replies t out = [] := by
  rw [replies, List.filter_eq_nil_iff]
  intro m hm
  obtain ⟨entry, hentry, hdest⟩ := hout m hm
  rw [hdest, decide_eq_true_eq]
  exact hbox entry hentry

end

/-! ## The answers -/

/-- What a server answers that does not have the lock: `NO`, or `MAYBE` with a time stamp. -/
inductive Refusal : Text → Prop
  | no : Refusal (fmtInt CreationState.no.code)
  | maybe (stamp : Timeval) :
      Refusal (fmtInt CreationState.maybe.code ++ '_' :: pairText stamp.sec stamp.usec)

theorem clientText_injective {r r' : RequestType} {client client' : ℤ} {data data' : Text}
    (h : clientText r client data = clientText r' client' data') :
    r = r' ∧ client = client' ∧ data = data' := by
  have hfield {n n' : ℤ} {rest rest' : Text} (h : fmtInt n ++ '_' :: rest = fmtInt n' ++ '_' :: rest') :
      n = n' ∧ rest = rest' := by
    have hn := field_append (underscore_not_mem_fmtInt n) rest
    have hn' := field_append (underscore_not_mem_fmtInt n') rest'
    rw [h, hn', Prod.mk.injEq, Option.some_inj] at hn
    exact ⟨fmtInt_injective hn.1.symm, hn.2.symm⟩
  obtain ⟨hcode, hrest⟩ := hfield h
  obtain ⟨hclient, hdata⟩ := hfield hrest
  exact ⟨by simpa using congrArg RequestType.ofCode hcode, hclient, hdata⟩

theorem lockResponse_refusal {server : NetThread} {i : ℕ} {g : Globals} {data : Text}
    (h : lockResponse server i (-1) g = .ok data) : Refusal data := by
  rw [lockResponse, if_pos rfl] at h
  split_ifs at h
  · obtain ⟨own, -, h⟩ := bind_eq_ok.mp h
    cases h
    exact .maybe _
  · cases h
    exact .no

theorem readClient_eq_ok {client : ℤ} {rest : Text} {p : ℤ × Text}
    (h : readClient (fmtInt client ++ '_' :: rest) = .ok p) : p = (client, rest) := by
  rw [readClient, bind_eq_ok] at h
  obtain ⟨⟨digits, rest'⟩, hfield, h⟩ := h
  rw [readField, field_append (underscore_not_mem_fmtInt _)] at hfield
  simp only at hfield
  split_ifs at hfield
  cases hfield
  cases h
  rw [atoi_fmtInt]

/-- **A server answers** the question about a lock. -/
theorem lockVerify_eq_ok {server : NetThread} {e : Ambient} {inPktHdr : PacketHeader}
    {inMailHdr : MailHeader} {client : ℤ} {name : Text} {g : Globals} {r : Result}
    (h : lockVerify server e inPktHdr inMailHdr (fmtInt client ++ '_' :: name) g = .ok r) :
    ∃ found i response, searchFirst (Kind.lock.object g) name g.createDLockIndex.toNat 0 = .ok found ∧
      lockResponse server i found g = .ok response ∧
      (clientText .createLockAnswer client response).length < MaxMailSize ∧
      r.out = [answerTo server e inPktHdr inMailHdr server.mailID
        (clientText .createLockAnswer client response)] := by
  rw [lockVerify] at h
  obtain ⟨p, hread, h⟩ := bind_eq_ok.mp h
  rw [readClient_eq_ok hread] at h
  simp only at h
  split_ifs at h
  obtain ⟨found, hfind, h⟩ := bind_eq_ok.mp h
  obtain ⟨i, -, h⟩ := bind_eq_ok.mp h
  obtain ⟨response, hresponse, h⟩ := bind_eq_ok.mp h
  obtain ⟨request, hprint, h⟩ := bind_eq_ok.mp h
  obtain ⟨hlength, rfl⟩ := sprintf_eq_ok hprint
  rw [pure_eq_ok, Except.ok.injEq] at h
  exact ⟨found, i, response, hfind, hresponse, hlength, by rw [← h]⟩

/-- **The other servers** answer `NO` or `MAYBE`. -/
theorem RepliesTo.refusal {t : NetThread} {name : Text} {m : Message} {a : Answer}
    (hm : m.data = clientText .createLockVerify t.uniqueGlobalID name) (h : RepliesTo t name m a) :
    Refusal a.response := by
  obtain ⟨server, e, group, g, r, -, habsent, hprocess, reply, hreply, -, -, hdata⟩ := h
  have hcount : g.serverCount = group.length := by
    by_contra hne
    rw [processMessage, if_pos hne] at hprocess
    cases hprocess
  rw [hm, clientText, processMessage_requestText _ _ _ hcount, dispatch] at hprocess
  obtain ⟨found, i, response, hfind, hresponse, -, hout⟩ := lockVerify_eq_ok hprocess
  rw [habsent, Except.ok.injEq] at hfind
  subst hfind
  rw [hout, List.mem_singleton] at hreply
  rw [hreply] at hdata
  obtain ⟨-, -, hsame⟩ := clientText_injective hdata
  rw [← hsame]
  exact lockResponse_refusal hresponse

/-! ## The rows of the buffer -/

section

variable {g g' : Globals} {i : ℕ} {row : ℤ} {s : Text}

theorem hasText_of_forall {buf : ℕ → Char} {n : ℕ} (h : ∀ k < s.length, buf (n + k) = bytes s k) :
    HasText buf n s := by
  induction s generalizing n with
  | nil => trivial
  | cons c s ih =>
    refine ⟨h 0 (Nat.zero_lt_succ _), ih fun k hk => ?_⟩
    have := h (k + 1) (Nat.succ_lt_succ hk)
    rw [show n + 1 + k = n + (k + 1) by omega, this]
    rfl

/-- A response is read back from its row, with its NUL. -/
theorem getRow_setRow (h : setRow i row s g = .ok g') :
    ∃ memory, getRow i row g' = .ok memory ∧ HasText memory 0 s ∧ memory s.length = nul := by
  rw [setRow, bind_eq_ok] at h
  obtain ⟨offset, hoffset, h⟩ := h
  split_ifs at h
  cases h
  have hread (k : ℕ) (hk : k ≤ s.length) : writeText s offset g.verifyBuffer (offset + k) = bytes s k := by
    rw [writeText, if_pos ⟨Nat.le_add_right _ _, by omega⟩, Nat.add_sub_cancel_left]
  refine ⟨_, by rw [getRow, hoffset]; rfl, hasText_of_forall fun k hk => ?_, ?_⟩
  · rw [Nat.zero_add]
    exact hread k hk.le
  · simp only [hread s.length le_rfl, bytes, List.getD_eq_default _ _ le_rfl]

/-- The first number of a refusal is `NO` or `MAYBE`. -/
theorem Refusal.parse {response : Text} (h : Refusal response) {memory : ℕ → Char}
    (htext : HasText memory 0 response) (hend : memory response.length = nul) :
    ∃ v next, parseValue 0 memory = .ok (v, next) ∧ v ≠ CreationState.yes.code ∧
      (v = CreationState.no.code ∨ v = CreationState.maybe.code) := by
  cases h with
  | no =>
    refine ⟨_, _, parseValue_number htext (Or.inr ?_) (by decide), by decide, Or.inl rfl⟩
    rw [Nat.zero_add]
    exact hend
  | maybe stamp =>
    obtain ⟨hcode, hsep, -⟩ := HasText.append.mp htext
    exact ⟨_, _, parseValue_number hcode (Or.inl hsep) (by decide), by decide, Or.inr rfl⟩

/-- Storing an answer changes nothing but the buffer. -/
theorem setRow_eq_ok (h : setRow i row s g = .ok g') :
    ∃ buffer, g' = { g with verifyBuffer := buffer } := by
  rw [setRow, bind_eq_ok] at h
  obtain ⟨offset, -, h⟩ := h
  split_ifs at h
  cases h
  exact ⟨_, rfl⟩

end

/-! ## The steps -/

section

variable {t : NetThread} {group : List NetThread} {name : Text} {g : Globals} {s s' : Election} {a : Answer}

/-- The thread waits for answers, of which `c` have been counted. -/
structure Pending (t : NetThread) (group : List NetThread) (name : Text) (g : Globals) (s : Election)
    (c : ℤ) : Prop where
  waiting : Waiting t g s
  lockName : s.globals.lockName t.uniqueGlobalID.toNat = name
  localLockIndex : s.globals.localLockIndex t.uniqueGlobalID.toNat = -1
  verifyResponses : s.globals.verifyResponses t.uniqueGlobalID.toNat = c
  serverCount : s.globals.serverCount = group.length

/-- The number of a client is an index and has few digits. -/
theorem client_fits {client : ℤ} (h0 : 0 ≤ client) (h : client < MAX_CLIENTS) :
    index MAX_CLIENTS client = .ok client.toNat ∧ (fmtInt client).length ≤ 3 :=
  ⟨index_eq_ok h0 h, length_fmtInt_le_of_nonneg (by norm_num) h0 (by
    have : (MAX_CLIENTS : ℤ) = 1000 := rfl
    omega)⟩

/-- So is that of the thread's own client. -/
theorem uniqueGlobalID_fits (ht : t.uniqueGlobalID < MAX_CLIENTS) :
    index MAX_CLIENTS t.uniqueGlobalID = .ok t.uniqueGlobalID.toNat ∧
      (fmtInt t.uniqueGlobalID).length ≤ 3 :=
  client_fits t.uniqueGlobalID_nonneg ht

/-- **An answer that refuses**: it is stored in its row, and counts if a later time stamp is read
    there. -/
theorem lockAnswer_refusal (ht : t.uniqueGlobalID < MAX_CLIENTS) (hrefusal : Refusal a.response)
    (hlocal : g.localLockIndex t.uniqueGlobalID.toNat = -1) :
    lockAnswer t a.e (fmtInt t.uniqueGlobalID ++ '_' :: a.response) group g = (do
      let i := t.uniqueGlobalID.toNat
      let g ← setRow i (g.verifyResponses i) a.response g
      let time ← readTime i g
      if g.lockCreationTimeStamps i < time then
        let count := g.verifyResponses i + 1
        let g := { g with verifyResponses := Function.update g.verifyResponses i count }
        if count = g.serverCount - 1 then electLock t a.e t.uniqueGlobalID i group g
        else return .failed g
      else return .failed g) := by
  obtain ⟨hindex, hdigits⟩ := uniqueGlobalID_fits ht
  have hread : readClient (fmtInt t.uniqueGlobalID ++ '_' :: a.response) =
      .ok (t.uniqueGlobalID, a.response) := by
    rw [readClient, readField_append (underscore_not_mem_fmtInt _) (by omega)]
    simp only [ok_bind, pure_eq_ok, atoi_fmtInt]
  rw [lockAnswer, hread]
  simp only [ok_bind, hindex]
  cases hset : setRow t.uniqueGlobalID.toNat (g.verifyResponses t.uniqueGlobalID.toNat) a.response g with
  | error fault => rfl
  | ok g' =>
    obtain ⟨buffer, rfl⟩ := setRow_eq_ok hset
    obtain ⟨memory, hrow, htext, hend⟩ := getRow_setRow hset
    obtain ⟨v, next, hparse, hyes, hno⟩ := hrefusal.parse htext hend
    simp only [ok_bind, hlocal, if_true, hrow, hparse, if_neg hyes, if_pos hno, readTime]
    cases hsec : parseValue next memory with
    | error fault => rfl
    | ok sec =>
      simp only [ok_bind]
      cases parseValue sec.2 memory <;> rfl

/-- An empty field is read as 0. -/
theorem parseValue_nul {memory : ℕ → Char} {i : ℕ} (h : memory i = nul) :
    parseValue i memory = .ok (0, i + 1) := by
  rw [parseValue, scanField, if_pos (Or.inr h)]
  rfl

/-- **A `NO` does not count** where the row behind it is clear: its time stamp is read as 0. -/
theorem not_counts_no {offset : ℕ}
    (hoffset : rowOffset t.uniqueGlobalID.toNat
      (s.globals.verifyResponses t.uniqueGlobalID.toNat) = .ok offset)
    (hclear : ∀ n ∈ [2, 3], s.globals.verifyBuffer (offset + n) = nul)
    (hstamp : ⟨0, 0⟩ ≤ s.globals.lockCreationTimeStamps t.uniqueGlobalID.toNat)
    (ha : a.response = fmtInt CreationState.no.code) : ¬ Counts t s a := by
  rintro ⟨g', hset, time, htime, hlt⟩
  rw [mem_toOption, ha] at hset
  rw [mem_toOption, readTime] at htime
  obtain ⟨memory, hrow, htext, hend⟩ := getRow_setRow hset
  have hmemory (n : ℕ) (hn : n ∈ [2, 3]) : memory n = nul := by
    have hno : (fmtInt CreationState.no.code).length = 1 := by decide
    have hbehind : 2 ≤ n := by revert n; decide
    rw [setRow, hoffset, ok_bind] at hset
    split_ifs at hset
    rw [pure_eq_ok, Except.ok.injEq] at hset
    subst hset
    rw [getRow, hoffset, ok_bind, pure_eq_ok, Except.ok.injEq] at hrow
    rw [← hrow]
    simp only [writeText, hno]
    rw [if_neg (by omega)]
    exact hclear n hn
  have hvalue : parseValue 0 memory = .ok (0, 2) :=
    parseValue_number htext (Or.inr (by rwa [Nat.zero_add])) (by decide)
  obtain ⟨buffer, rfl⟩ := setRow_eq_ok hset
  simp only [hrow, hvalue, ok_bind, parseValue_nul (hmemory 2 (by decide)),
    parseValue_nul (hmemory 3 (by decide)), pure_eq_ok, Except.ok.injEq] at htime
  rw [← htime] at hlt
  exact not_lt_of_ge hstamp hlt

/-- The answer is dispatched. -/
theorem answerStep_eq (hservers : s.globals.serverCount = group.length) :
    answerStep .lock t group s a = (do
      let r ← lockAnswer t a.e (fmtInt t.uniqueGlobalID ++ '_' :: a.response) group s.globals
      return ⟨r.state, s.out ++ r.out⟩) := by
  rw [answerStep, clientText, processMessage_requestText _ _ _ hservers]
  rfl

/-- The new lock has the name of the request, unless that is empty. -/
def electedName (name : Text) (a : Answer) : Text := if name = [] then a.e.localLockName else name

/-- The `YES` with the new id fits into a mail. -/
theorem sprintf_elected (ht : t.uniqueGlobalID < MAX_CLIENTS) {n : ℕ} (hn : n < MAX_DLOCK) :
    sprintf MaxMailSize (clientText .createLockAnswer t.uniqueGlobalID
      (fmtInt CreationState.yes.code ++ '_' :: fmtInt (t.globalId MAX_DLOCK n) ++ ['_'])) =
      .ok (clientText .createLockAnswer t.uniqueGlobalID
        (fmtInt CreationState.yes.code ++ '_' :: fmtInt (t.globalId MAX_DLOCK n) ++ ['_'])) := by
  obtain ⟨-, hdigits⟩ := uniqueGlobalID_fits ht
  have hmax : (MAX_DLOCK : ℤ) = 100 := rfl
  have hclients : (MAX_CLIENTS : ℤ) = 1000 := rfl
  have hid : (fmtInt (t.globalId MAX_DLOCK n)).length ≤ 5 :=
    length_fmtInt_le_of_nonneg (by norm_num) t.globalId_nonneg (by
      rw [NetThread.globalId, hmax]
      omega)
  have htype : (fmtInt RequestType.createLockAnswer.code).length = 2 := by decide
  have hyes : (fmtInt CreationState.yes.code).length = 1 := by decide
  apply sprintf_eq
  simp only [clientText, requestText, List.length_append, List.length_cons, List.length_nil, htype,
    hyes]
  show _ < 32
  omega

/-- **The end of the election**: the lock is stored in the slot of the index, the others are told,
    and the user thread gets its id. -/
theorem electLock_eq_ok (group : List NetThread) (ht : t.uniqueGlobalID < MAX_CLIENTS) {n : ℕ} (hn : n < MAX_DLOCK)
    (hcreate : g.createDLockIndex = n) (e : Ambient) :
    ∃ r, electLock t e t.uniqueGlobalID t.uniqueGlobalID.toNat group g = .ok r ∧
      r.state.dlocks = Function.update g.dlocks n
        (some (.new (copyName e g t.uniqueGlobalID.toNat) (t.globalId MAX_DLOCK n))) ∧
      r.state.createDLockIndex = n + 1 ∧
      ∃ told : List Message, (∀ m ∈ told, ∃ entry ∈ group, m.dest = entry.address) ∧
        r.out = told ++ [replyToUser t e (t.globalId MAX_DLOCK n)] := by
  obtain ⟨hindex, -⟩ := uniqueGlobalID_fits ht
  have hslot : index MAX_DLOCK (n : ℤ) = .ok n := index_natCast hn
  have hid : t.uniqueGlobalID * (MAX_DLOCK : ℕ) + (n : ℤ) = t.globalId MAX_DLOCK n := rfl
  simp only [electLock, createObject, Kind.max, Kind.createIndex, hcreate, hslot, ok_bind, pure_eq_ok,
    hid, createVerify, sprintf_elected ht hn, hindex]
  refine ⟨_, rfl, rfl, rfl, _, ?_, rfl⟩
  intro m hm
  obtain ⟨entry, hentry, rfl⟩ := List.mem_map.mp hm
  exact ⟨entry, List.mem_of_mem_filter hentry, rfl⟩

/-- **An answer that counts**, one of several that are still missing. -/
theorem answerStep_counts (ht : t.uniqueGlobalID < MAX_CLIENTS) {c : ℤ}
    (hs : Pending t group name g s c) (hrefusal : Refusal a.response) (hcounts : Counts t s a)
    (hmore : c + 1 ≠ group.length - 1) :
    ∃ s', answerStep .lock t group s a = .ok s' ∧ Pending t group name g s' (c + 1) := by
  obtain ⟨g', hset, time, htime, hlt⟩ := hcounts
  rw [mem_toOption] at hset htime
  rw [answerStep_eq hs.serverCount, lockAnswer_refusal ht hrefusal hs.localLockIndex]
  obtain ⟨buffer, rfl⟩ := setRow_eq_ok hset
  rw [← hs.verifyResponses, ← hs.serverCount] at hmore
  simp only [hset, ok_bind, htime, if_pos hlt, if_neg hmore, pure_eq_ok]
  refine ⟨_, rfl, ⟨hs.waiting.dlocks, hs.waiting.createDLockIndex, ?_⟩, hs.lockName,
    hs.localLockIndex, ?_, hs.serverCount⟩
  · rw [Result.failed, List.append_nil]
    exact hs.waiting.reply
  · rw [← hs.verifyResponses]
    exact Function.update_self _ _ _

/-- **The last answer that counts.** -/
theorem answerStep_last (ht : t.uniqueGlobalID < MAX_CLIENTS) {c : ℤ}
    (hs : Pending t group name g s c) (hrefusal : Refusal a.response) (hcounts : Counts t s a)
    (hlast : c + 1 = group.length - 1)
    (hroom : 0 ≤ g.createDLockIndex ∧ g.createDLockIndex < MAX_DLOCK - 1)
    (hbox : ∀ m ∈ group, m.address ≠ t.userAddress) :
    ∃ s', answerStep .lock t group s a = .ok s' ∧ Elected t (electedName name a) g s' := by
  obtain ⟨g', hset, time, htime, hlt⟩ := hcounts
  rw [mem_toOption] at hset htime
  rw [answerStep_eq hs.serverCount, lockAnswer_refusal ht hrefusal hs.localLockIndex]
  obtain ⟨buffer, rfl⟩ := setRow_eq_ok hset
  obtain ⟨n, hn⟩ := Int.eq_ofNat_of_zero_le hroom.1
  have hmax : (MAX_DLOCK : ℤ) = 100 := rfl
  obtain ⟨r, hr, hdlocks, hindex, told, htold, hout⟩ :=
    electLock_eq_ok (g := { s.globals with
      verifyBuffer := buffer
      verifyResponses := Function.update s.globals.verifyResponses t.uniqueGlobalID.toNat
        (s.globals.verifyResponses t.uniqueGlobalID.toNat + 1) })
      group ht (show n < MAX_DLOCK by omega) (hs.waiting.createDLockIndex.trans hn) a.e
  rw [← hs.verifyResponses, ← hs.serverCount] at hlast
  simp only [hset, ok_bind, htime, if_pos hlt, if_pos hlast, hr, pure_eq_ok]
  refine ⟨_, rfl, ?_, ?_, replyToUser t a.e (t.globalId MAX_DLOCK n), ?_, ?_⟩
  · rw [hdlocks, hn, Int.toNat_natCast, hs.waiting.dlocks, electedName, copyName, hs.lockName]
  · rw [hindex, hn]
  · rw [hout, replies_append, replies_append, hs.waiting.reply, replies_group hbox htold,
      replies_replyToUser]
    rfl
  · rw [hn, Int.toNat_natCast]
    rfl

/-- **An answer that does not count** leaves the thread waiting. -/
theorem answerStep_ignored (ht : t.uniqueGlobalID < MAX_CLIENTS) {c : ℤ}
    (hs : Pending t group name g s c) (hrefusal : Refusal a.response) (hcounts : ¬ Counts t s a)
    (h : answerStep .lock t group s a = .ok s') : Pending t group name g s' c := by
  rw [answerStep_eq hs.serverCount, lockAnswer_refusal ht hrefusal hs.localLockIndex] at h
  obtain ⟨r, hr, h⟩ := bind_eq_ok.mp h
  obtain ⟨g', hset, hr⟩ := bind_eq_ok.mp hr
  obtain ⟨time, htime, hr⟩ := bind_eq_ok.mp hr
  have hlt : ¬ g'.lockCreationTimeStamps t.uniqueGlobalID.toNat < time := fun hlt =>
    hcounts ⟨g', mem_toOption.mpr hset, time, mem_toOption.mpr htime, by
      obtain ⟨buffer, rfl⟩ := setRow_eq_ok hset
      exact hlt⟩
  rw [if_neg hlt] at hr
  obtain ⟨buffer, rfl⟩ := setRow_eq_ok hset
  cases hr
  cases h
  refine ⟨⟨hs.waiting.dlocks, hs.waiting.createDLockIndex, ?_⟩, hs.lockName, hs.localLockIndex,
    hs.verifyResponses, hs.serverCount⟩
  rw [Result.failed, List.append_nil]
  exact hs.waiting.reply

/-! ## The runs -/

/-- As long as answers are missing nothing is created. -/
theorem Pending.exec (ht : t.uniqueGlobalID < MAX_CLIENTS) {l : List Answer} {c : ℤ}
    (hs : Pending t group name g s c) (hrefusal : ∀ a ∈ l, Refusal a.response)
    (hmissing : c + l.length < group.length - 1)
    (h : exec (answerStep .lock t group) s l = .ok s') : Waiting t g s' := by
  induction l generalizing s c with
  | nil =>
    cases h
    exact hs.waiting
  | cons a l ih =>
    obtain ⟨s₁, hstep, hrest⟩ := exec_cons_eq_ok h
    have ha : Refusal a.response := hrefusal a List.mem_cons_self
    have hl : ∀ a ∈ l, Refusal a.response := fun a h => hrefusal a (List.mem_cons_of_mem _ h)
    rw [List.length_cons, Nat.cast_add, Nat.cast_one] at hmissing
    by_cases hcounts : Counts t s a
    · obtain ⟨s₂, hstep', hs₂⟩ := answerStep_counts ht hs ha hcounts (by omega)
      cases hstep.symm.trans hstep'
      exact ih hs₂ hl (by omega) hrest
    · exact ih (answerStep_ignored ht hs ha hcounts hstep) hl (by omega) hrest

theorem Waiting.not_elected (h : Waiting t g s') : ¬ Elected t name g s' := fun helected => by
  have := h.createDLockIndex.symm.trans helected.createDLockIndex
  omega

/-- What is created has the name of the request. -/
theorem elected_iff (h : Elected t (electedName name a) g s') :
    Elected t name g s' ↔ (name = [] → a.e.localLockName = []) := by
  constructor
  · rintro hname rfl
    have hslot := congrFun (h.dlocks.symm.trans hname.dlocks) g.createDLockIndex.toNat
    rw [Function.update_self, Function.update_self, Option.some_inj, electedName, if_pos rfl] at hslot
    exact congrArg DistributedLock.name hslot
  · intro hclear
    have hname : electedName name a = name := by
      rw [electedName]
      split_ifs with hempty
      · rw [hclear hempty, hempty]
      · rfl
    rwa [hname] at h

/-- The first answer of several. -/
theorem completes_cons {l : List Answer} (hwait : Waiting t g s) {s₁ : Election}
    (hstep : answerStep .lock t group s a = .ok s₁) :
    Completes t group name g s (a :: l) ↔ Completes t group name g s₁ l := by
  rw [Completes, exec_cons_ok hstep]
  refine and_congr_right fun _ => ⟨fun h k hk s' hs' => ?_, fun h k hk s' hs' => ?_⟩
  · exact h (k + 1) (Nat.succ_lt_succ hk) s' (by rwa [List.take_succ_cons, exec_cons_ok hstep])
  · cases k with
    | zero =>
      cases hs'
      exact hwait
    | succ k =>
      rw [List.take_succ_cons, exec_cons_ok hstep] at hs'
      exact h k (Nat.lt_of_succ_lt_succ hk) s' hs'

/-- **The answers that are missing** create the lock if each of them counts. -/
theorem completes_iff (ht : t.uniqueGlobalID < MAX_CLIENTS)
    (hroom : 0 ≤ g.createDLockIndex ∧ g.createDLockIndex < MAX_DLOCK - 1)
    (hbox : ∀ m ∈ group, m.address ≠ t.userAddress) {l : List Answer} (hne : l ≠ []) {c : ℤ}
    (hs : Pending t group name g s c) (hrefusal : ∀ a ∈ l, Refusal a.response)
    (hmissing : c + l.length = group.length - 1) :
    Completes t group name g s l ↔ Guarded (answerStep .lock t group) (Counts t) s l ∧
      ∀ a ∈ l.getLast?, name = [] → a.e.localLockName = [] := by
  induction l generalizing s c with
  | nil => exact absurd rfl hne
  | cons a l ih =>
    have ha : Refusal a.response := hrefusal a List.mem_cons_self
    have hl : ∀ a ∈ l, Refusal a.response := fun a h => hrefusal a (List.mem_cons_of_mem _ h)
    rw [List.length_cons, Nat.cast_add, Nat.cast_one] at hmissing
    by_cases hcounts : Counts t s a
    · by_cases hlast : l = []
      · subst hlast
        obtain ⟨s', hstep, helected⟩ :=
          answerStep_last ht hs ha hcounts (by simpa using hmissing) hroom hbox
        have hend : exec (answerStep .lock t group) s [a] = .ok s' := exec_cons_ok hstep
        constructor
        · rintro ⟨⟨s'', hs'', hname⟩, -⟩
          cases hend.symm.trans hs''
          refine ⟨⟨hcounts, fun _ _ => trivial⟩, fun b hb => ?_⟩
          cases hb
          exact (elected_iff helected).mp hname
        · rintro ⟨-, hclear⟩
          refine ⟨⟨s', hend, (elected_iff helected).mpr (hclear a rfl)⟩, fun k hk s'' hs'' => ?_⟩
          obtain rfl : k = 0 := Nat.lt_one_iff.mp hk
          cases hs''
          exact hs.waiting
      · have hlength : 0 < l.length := List.length_pos_of_ne_nil hlast
        obtain ⟨s₁, hstep, hs₁⟩ := answerStep_counts ht hs ha hcounts (by omega)
        rw [completes_cons hs.waiting hstep, ih hlast hs₁ hl (by omega),
          List.getLast?_cons_of_ne_nil hlast]
        refine and_congr_left fun _ => ⟨fun h => ⟨hcounts, fun s' hs' => ?_⟩, fun h => h.2 s₁ hstep⟩
        cases hstep.symm.trans hs'
        exact h
    · constructor
      · rintro ⟨⟨s', hs', helected⟩, -⟩
        obtain ⟨s₁, hstep, hrest⟩ := exec_cons_eq_ok hs'
        have hs₁ := answerStep_ignored ht hs ha hcounts hstep
        exact absurd helected (hs₁.exec ht hl (by omega) hrest).not_elected
      · exact fun h => absurd h.1.1 hcounts

end

/-! ## The request -/

section

variable {t : NetThread} {group : List NetThread} {name : Text} {e : Ambient} {g : Globals} {r : Result}

/-- The questions that the thread asks. -/
def questionsOf (k : Kind) (t : NetThread) (group : List NetThread) (name : Text) : List Message :=
  (group.filter (· ≠ t)).map fun entry =>
    outgoing t { toMachine := entry.machineID, fromMachine := t.machineID }
      { toBox := entry.mailID, fromBox := t.mailID } (clientText k.verify t.uniqueGlobalID name)

/-- One question for each of the others. -/
theorem length_questionsOf (name : Text) (k : Kind) (hgroup : group.Nodup) (ht : t ∈ group) :
    (questionsOf k t group name).length = group.length - 1 := by
  have hothers : group.filter (· ≠ t) = group.erase t := by
    rw [hgroup.erase_eq_filter]
    exact List.filter_congr fun entry _ => by rw [bne, decide_not, beq_eq_decide]
  rw [questionsOf, List.length_map, hothers, List.length_erase_of_mem ht]

theorem mem_questionsOf {k : Kind} {m : Message} (h : m ∈ questionsOf k t group name) :
    m.data = clientText k.verify t.uniqueGlobalID name ∧ ∃ entry ∈ group, m.dest = entry.address := by
  obtain ⟨entry, hentry, rfl⟩ := List.mem_map.mp h
  exact ⟨rfl, entry, List.mem_of_mem_filter hentry, rfl⟩

/-- No question goes to the user thread. -/
theorem replies_questionsOf {k : Kind} (hbox : ∀ m ∈ group, m.address ≠ t.userAddress) :
    replies t (questionsOf k t group name) = [] :=
  replies_group hbox fun _ hm => (mem_questionsOf hm).2

/-- The globals when the questions have gone out. -/
def askedState (k : Kind) (e : Ambient) (i : ℕ) (name : Text) (g : Globals) : Globals :=
  let g := beginCreate k e i { g with
    lockName := Function.update g.lockName i name
    localLockIndex := Function.update g.localLockIndex i (-1) }
  { g with verifyResponses := Function.update g.verifyResponses i 0 }

section

variable (k : Kind) (i : ℕ)

@[simp] theorem askedState_lockName : (askedState k e i name g).lockName i = name := by
  cases k <;> exact Function.update_self _ _ _

@[simp] theorem askedState_localLockIndex : (askedState k e i name g).localLockIndex i = -1 := by
  cases k <;> exact Function.update_self _ _ _

@[simp] theorem askedState_verifyResponses : (askedState k e i name g).verifyResponses i = 0 := by
  cases k <;> exact Function.update_self _ _ _

@[simp] theorem askedState_serverCount : (askedState k e i name g).serverCount = g.serverCount := by
  cases k <;> rfl

end

/-- **A request**: the thread refuses it, asks the others, or answers at once. -/
theorem create_eq_ok {k : Kind} {inPktHdr : PacketHeader} {inMailHdr : MailHeader}
    (hclient : clientOf inPktHdr inMailHdr = t.uniqueGlobalID)
    (h : create k t e inPktHdr inMailHdr name group g = .ok r) :
    if 0 ≤ k.createIndex g ∧ k.createIndex g < k.max - 1 then
      t.uniqueGlobalID < MAX_CLIENTS ∧ ∃ found, k.find g name = .ok found ∧
        if g.serverCount > 1 ∧ found = -1 then
          r = ⟨askedState k e t.uniqueGlobalID.toNat name g, questionsOf k t group name, false⟩
        else ∃ id, r.out = [createReply k t e t.uniqueGlobalID id]
    else r = .failed g := by
  rw [create] at h
  simp only [hclient] at h
  split_ifs with hroom
  · rw [if_pos hroom] at h
    obtain ⟨i, hi, h⟩ := bind_eq_ok.mp h
    have hclients : t.uniqueGlobalID < MAX_CLIENTS := by
      rw [index] at hi
      split_ifs at hi with hlt
      exact hlt.2
    rw [(uniqueGlobalID_fits hclients).1, Except.ok.injEq] at hi
    subst hi
    obtain ⟨g₁, hname, h⟩ := bind_eq_ok.mp h
    rw [setName] at hname
    split_ifs at hname
    rw [Except.ok.injEq] at hname
    subst hname
    obtain ⟨found, hfind, h⟩ := bind_eq_ok.mp h
    refine ⟨hclients, found, by cases k <;> exact hfind, ?_⟩
    split_ifs with hasked
    · obtain ⟨hservers, rfl⟩ := hasked
      rw [if_pos ⟨hservers, rfl⟩] at h
      obtain ⟨⟨g₁, out⟩, hquestions, h⟩ := bind_eq_ok.mp h
      rw [createVerify, bind_eq_ok] at hquestions
      obtain ⟨request, hprint, hquestions⟩ := hquestions
      obtain ⟨-, rfl⟩ := sprintf_eq_ok hprint
      rw [(uniqueGlobalID_fits hclients).1, ok_bind, pure_eq_ok, Except.ok.injEq, Prod.mk.injEq]
        at hquestions
      obtain ⟨rfl, rfl⟩ := hquestions
      rw [pure_eq_ok, Except.ok.injEq] at h
      exact h.symm
    · rw [if_neg hasked] at h
      obtain ⟨⟨id, g₁⟩, -, h⟩ := bind_eq_ok.mp h
      rw [pure_eq_ok, Except.ok.injEq] at h
      exact ⟨id, by rw [← h]⟩
  · rw [if_neg hroom, Except.ok.injEq] at h
    exact h.symm

/-- A request of the user thread is dispatched. -/
theorem processMessage_request {k : Kind}
    (h : processMessage (t.user.call t e) (t.user.text k.request name) group g = .ok r) :
    g.serverCount = group.length ∧
      create k t e (t.user.call t e).inPktHdr (t.user.call t e).inMailHdr name group g = .ok r := by
  have hcount : g.serverCount = group.length := by
    by_contra hne
    rw [processMessage, if_pos hne] at h
    cases h
  rw [show t.user.text k.request name = requestText k.request name from rfl,
    processMessage_requestText _ _ _ hcount] at h
  exact ⟨hcount, by cases k <;> exact h⟩

/-- **The request for a lock** that is not here: with room in the table the questions go out, and
    without it nothing. -/
theorem createLock_pending (hsize : 2 ≤ group.length)
    (hbox : ∀ m ∈ group, m.address ≠ t.userAddress) (habsent : Kind.lock.find g name = .ok (-1))
    (h : processMessage (t.user.call t e) (t.user.text .createLock name) group g = .ok r) :
    if 0 ≤ g.createDLockIndex ∧ g.createDLockIndex < MAX_DLOCK - 1 then
      t.uniqueGlobalID < MAX_CLIENTS ∧ r.out = questionsOf .lock t group name ∧
        Pending t group name g ⟨r.state, r.out⟩ 0
    else r = .failed g := by
  have hrequest : processMessage (t.user.call t e) (t.user.text Kind.lock.request name) group g =
      .ok r := h
  obtain ⟨hcount, hcreate⟩ := processMessage_request hrequest
  have hcases := create_eq_ok (t.user_call_client t e) hcreate
  split_ifs with hroom
  · rw [if_pos (show 0 ≤ Kind.lock.createIndex g ∧
      Kind.lock.createIndex g < (Kind.lock.max : ℤ) - 1 from hroom)] at hcases
    obtain ⟨hclients, found, hfind, hasked⟩ := hcases
    rw [habsent, Except.ok.injEq] at hfind
    subst hfind
    rw [if_pos ⟨by omega, rfl⟩] at hasked
    subst hasked
    exact ⟨hclients, rfl, ⟨rfl, rfl, replies_questionsOf hbox⟩, askedState_lockName _ _,
      askedState_localLockIndex _ _, askedState_verifyResponses _ _, hcount⟩
  · rwa [if_neg (show ¬ (0 ≤ Kind.lock.createIndex g ∧
      Kind.lock.createIndex g < (Kind.lock.max : ℤ) - 1) from hroom)] at hcases

/-! ## The theorem -/

/-- **The election completes** if and only if there is room for the lock, each answer reads with a
    later time stamp than the request in its row, and a lock without a name gets none. -/
theorem election_completes_iff (hgroup : group.Nodup) (ht : t ∈ group) (hsize : 2 ≤ group.length)
    (hbox : ∀ m ∈ group, m.address ≠ t.userAddress) (habsent : Kind.lock.find g name = .ok (-1))
    (hrequest : processMessage (t.user.call t e) (t.user.text .createLock name) group g = .ok r)
    {questions : List Message} {answers : List Answer} (hquestions : questions.Perm r.out)
    (hanswers : List.Forall₂ (RepliesTo t name) questions answers) :
    Completes t group name g ⟨r.state, r.out⟩ answers ↔
      ElectionOk t group name g ⟨r.state, r.out⟩ answers := by
  have hpending := createLock_pending hsize hbox habsent hrequest
  have hlength : answers.length = r.out.length := by
    rw [← hanswers.length_eq, hquestions.length_eq]
  split_ifs at hpending with hroom
  · obtain ⟨hclients, hout, hs⟩ := hpending
    rw [hout, length_questionsOf _ _ hgroup ht] at hlength
    have hrefusal : ∀ a ∈ answers, Refusal a.response := by
      intro a ha
      obtain ⟨k, hk, rfl⟩ := List.mem_iff_get.mp ha
      have hk' : k < questions.length := by rw [hanswers.length_eq]; exact k.isLt
      have hm : questions.get ⟨k, hk'⟩ ∈ r.out := hquestions.mem_iff.mp (List.get_mem _ _)
      rw [hout] at hm
      obtain ⟨entry, -, hentry⟩ := List.mem_map.mp hm
      exact (hanswers.get hk' k.isLt).refusal (by rw [← hentry]; rfl)
    rw [completes_iff hclients hroom hbox (by rintro rfl; simp at hlength; omega) hs hrefusal (by omega)]
    exact (and_iff_right hroom).symm
  · subst hpending
    obtain rfl : answers = [] := List.eq_nil_of_length_eq_zero hlength
    constructor
    · rintro ⟨⟨s', hs', helected⟩, -⟩
      cases hs'
      have := helected.createDLockIndex
      simp only [Result.failed_state] at this
      omega
    · exact fun h => absurd h.1 hroom

/-- The other server has a younger request for a lock, and says so. -/
theorem election_completes_iff_maybe :
    let t : NetThread := ⟨1, 0⟩
    let group : List NetThread := [t, ⟨2, 0⟩]
    let a : Answer := ⟨.clear ⟨7, 0⟩, ⟨1, 2⟩, ⟨0, 0⟩, "1_6_0".toList⟩
    ∃ r, processMessage (t.user.call t (.clear ⟨5, 0⟩)) (t.user.text .createLock ['A']) group
        (.init 2) = .ok r ∧
      List.Forall₂ (RepliesTo t ['A']) r.out [a] ∧
      Completes t group ['A'] (.init 2) ⟨r.state, r.out⟩ [a] := by
  intro t group a
  have hrun : ∃ r ∈ (processMessage (t.user.call t (.clear ⟨5, 0⟩)) (t.user.text .createLock ['A'])
      group (.init 2)).toOption, r.out = questionsOf .lock t group ['A'] ∧
        ElectionOk t group ['A'] (.init 2) ⟨r.state, r.out⟩ [a] := by
    decide +kernel
  obtain ⟨r, hr, hout, hok⟩ := hrun
  rw [mem_toOption] at hr
  have hreply : ∃ r ∈ (processMessage ⟨⟨2, 0⟩, .clear ⟨6, 0⟩, ⟨2, 1⟩, ⟨0, 0⟩⟩
      (clientText .createLockVerify 100 ['A']) group { Globals.init 2 with
        lockCreationStates := fun _ => .maybe
        lockCreationTimeStamps := fun _ => ⟨6, 0⟩ }).toOption,
      r.out = [⟨⟨1, 2⟩, ⟨0, 0⟩, clientText .createLockAnswer 100 a.response⟩] := by
    decide +kernel
  obtain ⟨r', hr', hout'⟩ := hreply
  have hanswers : List.Forall₂ (RepliesTo t ['A']) r.out [a] := by
    rw [hout]
    exact .cons ⟨⟨2, 0⟩, .clear ⟨6, 0⟩, group, _, r', rfl, rfl, mem_toOption.mp hr', _,
      by rw [hout']; exact List.mem_singleton_self _, rfl, rfl, rfl⟩ .nil
  refine ⟨r, hr, hanswers, ?_⟩
  exact (election_completes_iff (by decide) (by decide) (by decide) (by decide) rfl hr (.refl _)
    hanswers).mpr hok

/-- **The election stalls**: the one other server answers `NO`, and nothing is created. -/
theorem election_stalls :
    let t : NetThread := ⟨1, 0⟩
    let group : List NetThread := [t, ⟨2, 0⟩]
    let a : Answer := ⟨.clear ⟨7, 0⟩, ⟨1, 2⟩, ⟨0, 0⟩, "0".toList⟩
    ∃ r, processMessage (t.user.call t (.clear ⟨5, 0⟩)) (t.user.text .createLock ['A']) group
        (.init 2) = .ok r ∧
      List.Forall₂ (RepliesTo t ['A']) r.out [a] ∧
      ¬ Completes t group ['A'] (.init 2) ⟨r.state, r.out⟩ [a] := by
  intro t group a
  have hrun : ∃ r ∈ (processMessage (t.user.call t (.clear ⟨5, 0⟩)) (t.user.text .createLock ['A'])
      group (.init 2)).toOption, r.out = questionsOf .lock t group ['A'] ∧
        Ends (answerStep .lock t group) ⟨r.state, r.out⟩ [a] (·.globals.createDLockIndex = 0) := by
    decide +kernel
  obtain ⟨r, hr, hout, s, hs, hindex⟩ := hrun
  have hreply : ∃ r ∈ (processMessage ⟨⟨2, 0⟩, .clear ⟨6, 0⟩, ⟨2, 1⟩, ⟨0, 0⟩⟩
      (clientText .createLockVerify 100 ['A']) group (.init 2)).toOption,
      r.out = [⟨⟨1, 2⟩, ⟨0, 0⟩, clientText .createLockAnswer 100 a.response⟩] := by
    decide +kernel
  obtain ⟨r', hr', hout'⟩ := hreply
  refine ⟨r, mem_toOption.mp hr, ?_, ?_⟩
  · rw [hout]
    exact .cons ⟨⟨2, 0⟩, .clear ⟨6, 0⟩, group, _, r', rfl, rfl, mem_toOption.mp hr', _,
      by rw [hout']; exact List.mem_singleton_self _, rfl, rfl, rfl⟩ .nil
  · rintro ⟨⟨s', hs', helected⟩, -⟩
    cases hs.symm.trans hs'
    have := hindex.symm.trans helected.createDLockIndex
    cases this

end

end Nachos.Network
