import Nachos.Network.Election

/-!
# Successive creations of one client

An answer names the client, and not the creation to which it belongs (`network/netcall.cc`, lines
454-612, 812-910 and 1104-1207). A `YES` gives the client its reply before the other answers are
in; they then meet the client's next creation.

* `creations_separate`: if the client waits for them after a `YES`, and a `NO` is judged as in a
  clear buffer, each creation goes as its own answers alone have it go.
* `creation_misled`: a late `YES` to the creation of a lock becomes the id of a monitor variable.
-/

namespace Nachos.Network

open Nachos.Lib

/-! ## The system -/

/-- A question that has not been answered, and the creation to which it belongs. -/
structure Question where
  creation : ℕ
  kind : Kind
  message : Message

/-- A server, with the globals and the surroundings in which it answers. -/
structure Server where
  thread : NetThread
  e : Ambient
  group : List NetThread
  globals : Globals

/-- The answer that the server's handler builds. -/
def Server.Answers (server : Server) (t : NetThread) (q : Question) (a : Answer) : Prop :=
  server.thread.address = q.message.dest ∧
    ∃ r ∈ (processMessage ⟨server.thread, server.e, q.message.pktHdr, q.message.mailHdr⟩
        q.message.data server.group server.globals).toOption,
      r.out = [⟨a.inPktHdr, a.inMailHdr, clientText q.kind.answer t.uniqueGlobalID a.response⟩]

instance (server : Server) (t : NetThread) (q : Question) (a : Answer) :
    Decidable (server.Answers t q a) :=
  inferInstanceAs (Decidable (_ ∧ ∃ _ ∈ Except.toOption _, _))

/-- The client and its network thread. -/
structure Creations where
  globals : Globals
  /-- The number of the current creation. -/
  creation : ℕ
  /-- The kind of object that it creates. -/
  kind : Kind
  /-- How many replies the client had got before it. -/
  replied : ℕ
  /-- The thread after the current request, if its buffer is cleared. -/
  start : Election
  /-- The answers to the current creation's questions, as they have arrived. -/
  answers : List Answer
  /-- What the thread has sent since the request. -/
  sent : List Message
  /-- The questions whose answers have not arrived. -/
  asked : List Question

/-- No creation yet. -/
def Creations.init (g : Globals) : Creations where
  globals := g
  creation := 0
  kind := .lock
  replied := 0
  start := ⟨{ g with verifyBuffer := fun _ => nul }, []⟩
  answers := []
  sent := []
  asked := []

/-- A request of the client, or an answer to one of the questions. -/
inductive CreationEvent
  | request (k : Kind) (name : Text) (e : Ambient)
  | answer (n : ℕ) (server : Server) (a : Answer)

/-- One event. The client has had a reply for each of its creations before it asks for another
    one; the answers arrive in any order. -/
def creationStep (t : NetThread) (group : List NetThread) (s : Creations) :
    CreationEvent → Except Fault Creations
  | .request k name e =>
    let replied := s.replied + (replies t s.sent).length
    if s.creation ≤ replied then do
      let r ← processMessage (t.user.call t e) (t.user.text k.request name) group s.globals
      let questions := r.out.filter (·.data = clientText k.verify t.uniqueGlobalID name)
      return {
        globals := r.state
        creation := s.creation + 1
        kind := k
        replied := replied
        start := ⟨{ r.state with verifyBuffer := fun _ => nul }, r.out⟩
        answers := []
        sent := r.out
        asked := s.asked ++ questions.map (⟨s.creation + 1, k, ·⟩) }
    else .error .assertion
  | .answer n server a =>
    match s.asked[n]? with
    | none => .error .assertion
    | some q =>
      if server.Answers t q a then do
        let r ← answerStep q.kind t group ⟨s.globals, s.sent⟩ a
        return { s with
          globals := r.globals
          answers := if q.creation = s.creation then s.answers ++ [a] else s.answers
          sent := r.out
          asked := s.asked.eraseIdx n }
      else .error .assertion

/-! ## The property -/

/-- An answer `YES`. -/
def IsYes (a : Answer) : Prop := fmtInt CreationState.yes.code ++ ['_'] <+: a.response

instance (a : Answer) : Decidable (IsYes a) := inferInstanceAs (Decidable (_ <+: _))

/-- The thread as the answers to the current creation alone, in a clear buffer, would have it. -/
def Creations.alone (t : NetThread) (group : List NetThread) (s : Creations) :
    Except Fault Election :=
  exec (answerStep s.kind t group) s.start s.answers

/-- **The current creation stands by itself**: each answer that can still arrive belongs to it;
    each earlier one has had its one reply; it is where its own answers alone would have it, and
    without a `YES` among them it has no reply before the last of them. -/
structure Separate (t : NetThread) (group : List NetThread) (s : Creations) : Prop where
  own : ∀ q ∈ s.asked, q.creation = s.creation
  replied : s.replied = s.creation - 1
  alone : ∃ r, s.alone t group = .ok r ∧ r.out = s.sent ∧
    ∃ buffer, s.globals = { r.globals with verifyBuffer := buffer }
  decided : (∀ a ∈ s.answers, ¬ IsYes a) → replies t s.sent ≠ [] → s.asked = []

/-! ## The condition -/

/-- Whether a `NO` or `MAYBE` counts, if it can be read. -/
def judged (t : NetThread) (g : Globals) (a : Answer) : Option Bool :=
  let i := t.uniqueGlobalID.toNat
  (do
    let g ← setRow i (g.verifyResponses i) a.response g
    let time ← readTime i g
    return decide (g.lockCreationTimeStamps i < time) : Except Fault Bool).toOption

/-- After a `YES` the client waits for the other answers, and has had one reply; a `NO` counts
    only where it would in a buffer that the request had cleared. -/
def CreationOk (t : NetThread) (group : List NetThread) (s : Creations) : CreationEvent → Prop
  | .request _ _ _ =>
    (∃ a ∈ s.answers, IsYes a) → s.asked = [] ∧ (replies t s.sent).length = 1
  | .answer n _ a =>
    ∀ q ∈ s.asked[n]?, q.kind = .lock → a.response = fmtInt CreationState.no.code →
      judged t s.globals a = (s.alone t group).toOption.bind (judged t ·.globals a)

instance (t : NetThread) (group : List NetThread) (s : Creations) (ev : CreationEvent) :
    Decidable (CreationOk t group s ev) := by
  cases ev with
  | request k name e => exact inferInstanceAs (Decidable (_ → _))
  | answer n server a => exact inferInstanceAs (Decidable (∀ _ ∈ _, _ → _ → _))

/-! ## The buffer -/

/-- Two memories agree on a set of places, which with each character that is no NUL contains the
    next place. -/
structure Written (W : Set ℕ) (M M' : ℕ → Char) : Prop where
  agree : ∀ p ∈ W, M p = M' p
  closed : ∀ p ∈ W, M p ≠ nul → p + 1 ∈ W

section

variable {W : Set ℕ} {M M' : ℕ → Char}

theorem Written.empty : Written ∅ M M' := ⟨fun _ h => h.elim, fun _ h => h.elim⟩

/-- A text is stored into both. -/
theorem Written.writeText (h : Written W M M') (s : Text) (offset : ℕ) :
    Written (W ∪ Set.Icc offset (offset + s.length)) (writeText s offset M)
      (writeText s offset M') := by
  constructor
  · intro p hp
    by_cases hin : offset ≤ p ∧ p ≤ offset + s.length
    · rw [Network.writeText, if_pos hin, Network.writeText, if_pos hin]
    · rw [Network.writeText, if_neg hin, Network.writeText, if_neg hin]
      exact h.agree p (hp.resolve_right hin)
  · intro p hp hne
    by_cases hin : offset ≤ p ∧ p ≤ offset + s.length
    · rw [Network.writeText, if_pos hin, bytes] at hne
      have hlt : p - offset < s.length := by
        by_contra hge
        exact hne (List.getD_eq_default _ _ (by omega))
      exact Or.inr ⟨by omega, by omega⟩
    · rw [Network.writeText, if_neg hin] at hne
      exact Or.inl (h.closed p (hp.resolve_right hin) hne)

theorem Written.readString (h : Written W M M') {offset : ℕ} (fuel : ℕ) {i : ℕ}
    (hi : offset + i ∈ W) :
    readString (fun n => M (offset + n)) fuel i = readString (fun n => M' (offset + n)) fuel i := by
  induction fuel generalizing i with
  | zero => rfl
  | succ fuel ih =>
    simp only [Network.readString, ← h.agree _ hi]
    split_ifs with hnul
    · rfl
    · rw [ih (show offset + (i + 1) ∈ W from h.closed (offset + i) hi hnul)]

theorem Written.saysNone (h : Written W M M') {offset : ℕ} (hi : offset ∈ W) :
    saysNone (fun n => M (offset + n)) = saysNone (fun n => M' (offset + n)) := by
  have h0 : M offset = M' offset := h.agree offset hi
  by_cases hminus : M offset = '-'
  · have h1 : M (offset + 1) = M' (offset + 1) :=
      h.agree _ (h.closed offset hi (by rw [hminus]; decide))
    simp only [Network.saysNone, Nat.add_zero, h0, h1]
  · simp only [Network.saysNone, Nat.add_zero, ← h0, hminus, false_and]

/-- **The collected answers** are read alike, if the rows have been written. -/
theorem Written.otherServer {g : Globals} {buffer : ℕ → Char} (h : Written W g.verifyBuffer buffer)
    {i n : ℕ} (row : ℤ)
    (hrows : ∀ k < n, ∀ offset, rowOffset i (row + k) = .ok offset → offset ∈ W) :
    otherServer { g with verifyBuffer := buffer } i n row = otherServer g i n row := by
  induction n generalizing row with
  | zero => rfl
  | succ n ih =>
    rw [Network.otherServer, Network.otherServer, getRow, getRow]
    cases hoffset : rowOffset i row with
    | error fault => rfl
    | ok offset =>
      have hi : offset ∈ W := hrows 0 (Nat.zero_lt_succ n) offset (by simpa using hoffset)
      simp only [ok_bind, pure_eq_ok, h.saysNone hi, h.readString _ (i := 0) hi]
      split_ifs
      · refine ih _ fun k hk offset' hoffset' => hrows (k + 1) (Nat.succ_lt_succ hk) offset' ?_
        rw [← hoffset']
        congr 1
        push_cast
        ring
      · rfl

end

/-! ## What does not read the buffer -/

/-- The same result with another buffer. -/
def Result.withBuffer (buffer : ℕ → Char) (r : Result) : Result :=
  { r with state := { r.state with verifyBuffer := buffer } }

section

variable {t : NetThread} {e : Ambient} {client : ℤ} {i : ℕ} {group : List NetThread} {g g' : Globals}
  (buffer : ℕ → Char)

/-- Where an answer is stored does not depend on the buffer. -/
theorem setRow_offset {row : ℤ} {s : Text} (h : setRow i row s g = .ok g') :
    ∃ offset, rowOffset i row = .ok offset ∧ ∀ g, setRow i row s g =
      .ok { g with verifyBuffer := writeText s offset g.verifyBuffer } := by
  rw [setRow, bind_eq_ok] at h
  obtain ⟨offset, hoffset, h⟩ := h
  split_ifs at h with hlt
  refine ⟨offset, hoffset, fun g => ?_⟩
  rw [setRow, hoffset, ok_bind, if_pos hlt, pure_eq_ok]

theorem createObject_buffer (k : Kind) :
    createObject k t e i { g with verifyBuffer := buffer } =
      (createObject k t e i g).map fun p => (p.1, { p.2 with verifyBuffer := buffer }) := by
  have hindex : k.createIndex { g with verifyBuffer := buffer } = k.createIndex g := by cases k <;> rfl
  rw [createObject, createObject, hindex]
  cases index k.max (k.createIndex g) with
  | error fault => rfl
  | ok slot => cases k <;> rfl

theorem settle_buffer (k : Kind) (other : ℤ) :
    settle k t e i other { g with verifyBuffer := buffer } =
      (settle k t e i other g).map fun p => (p.1, { p.2 with verifyBuffer := buffer }) := by
  have hid (j : ℤ) : k.globalId { g with verifyBuffer := buffer } j = k.globalId g j := by
    cases k <;> rfl
  rw [settle, settle]
  simp only [hid, createObject_buffer buffer k]
  split_ifs
  · rfl
  · rfl
  · cases k.globalId g (g.localLockIndex i) <;> rfl
  · rfl

theorem adoptLock_buffer (id : ℤ) :
    adoptLock t e i id { g with verifyBuffer := buffer } =
      (adoptLock t e i id g).map (·.withBuffer buffer) := by
  rw [adoptLock, adoptLock]
  simp only
  cases index MAX_DLOCK g.createDLockIndex <;> rfl

theorem createVerify_buffer (data : Text) (type : RequestType) :
    createVerify t data type client group { g with verifyBuffer := buffer } =
      (createVerify t data type client group g).map
        fun p => ({ p.1 with verifyBuffer := buffer }, p.2) := by
  rw [createVerify, createVerify]
  cases sprintf MaxMailSize (clientText type client data) with
  | error fault => rfl
  | ok request => cases index MAX_CLIENTS client <;> rfl

theorem electLock_buffer :
    electLock t e client i group { g with verifyBuffer := buffer } =
      (electLock t e client i group g).map (·.withBuffer buffer) := by
  have hcreate := createObject_buffer (t := t) (e := e) (i := i) (g := { g with
    lockCreationStates := Function.update g.lockCreationStates i .yes }) buffer .lock
  simp only [electLock] at hcreate ⊢
  rw [hcreate]
  cases createObject .lock t e i { g with
      lockCreationStates := Function.update g.lockCreationStates i .yes } with
  | error fault => rfl
  | ok p =>
    simp only [Except.map, ok_bind, createVerify_buffer buffer]
    cases createVerify t (fmtInt CreationState.yes.code ++ '_' :: fmtInt p.1 ++ ['_'])
      .createLockAnswer client group p.2 <;> rfl

end

/-! ## The answers -/

/-- What the handlers of a kind answer. -/
inductive Response : Kind → Text → Prop
  | refusal {response : Text} (h : Refusal response) : Response .lock response
  | yes (id : ℤ) : Response .lock (pairText CreationState.yes.code id)
  | object {k : Kind} (hk : k ≠ .lock) (id : ℤ) : Response k (fmtInt id)

theorem Response.of_lock {response : Text} (h : Response .lock response) :
    Refusal response ∨ ∃ id, response = pairText CreationState.yes.code id := by
  cases h with
  | refusal h => exact Or.inl h
  | yes id => exact Or.inr ⟨id, rfl⟩
  | object hk => exact absurd rfl hk

theorem Refusal.eq {response : Text} (h : Refusal response) :
    response = fmtInt CreationState.no.code ∨ ∃ stamp : Timeval,
      response = fmtInt CreationState.maybe.code ++ '_' :: pairText stamp.sec stamp.usec := by
  cases h with
  | no => exact Or.inl rfl
  | maybe stamp => exact Or.inr ⟨stamp, rfl⟩

section

variable {server : NetThread} {e : Ambient} {inPktHdr : PacketHeader} {inMailHdr : MailHeader}
  {client : ℤ} {name : Text} {group : List NetThread} {g : Globals} {r : Result} {k : Kind}

theorem lockResponse_response {i : ℕ} {found : ℤ} {data : Text}
    (h : lockResponse server i found g = .ok data) : Response .lock data := by
  by_cases hfound : found = -1
  · subst hfound
    exact .refusal (lockResponse_refusal h)
  · rw [lockResponse, if_neg hfound] at h
    split_ifs at h
    · obtain ⟨own, -, h⟩ := bind_eq_ok.mp h
      cases h
      exact .refusal (.maybe _)
    · obtain ⟨id, -, h⟩ := bind_eq_ok.mp h
      cases h
      exact .yes id

theorem objectVerify_eq_ok
    (h : objectVerify k server e inPktHdr inMailHdr (fmtInt client ++ '_' :: name) g = .ok r) :
    ∃ id, (clientText k.answer client (fmtInt id)).length < MaxMailSize ∧
      r.out = [answerTo server e inPktHdr inMailHdr server.machineID
        (clientText k.answer client (fmtInt id))] := by
  rw [objectVerify] at h
  obtain ⟨p, hread, h⟩ := bind_eq_ok.mp h
  rw [readClient_eq_ok hread] at h
  simp only at h
  split_ifs at h
  obtain ⟨found, -, h⟩ := bind_eq_ok.mp h
  obtain ⟨id, -, h⟩ := bind_eq_ok.mp h
  obtain ⟨request, hprint, h⟩ := bind_eq_ok.mp h
  obtain ⟨hlength, rfl⟩ := sprintf_eq_ok hprint
  rw [pure_eq_ok, Except.ok.injEq] at h
  exact ⟨id, hlength, by rw [← h]⟩

/-- **The answer of a server** has one of the forms, and fits into a mail. -/
theorem Server.Answers.response {server : Server} {t : NetThread} {q : Question} {a : Answer}
    (hq : q.message.data = clientText q.kind.verify t.uniqueGlobalID name)
    (h : server.Answers t q a) :
    Response q.kind a.response ∧ a.response.length < MaxMailSize := by
  obtain ⟨-, r, hr, hout⟩ := h
  rw [mem_toOption] at hr
  have hcount : server.globals.serverCount = server.group.length := by
    by_contra hne
    rw [processMessage, if_pos hne] at hr
    cases hr
  rw [hq, clientText, processMessage_requestText _ _ _ hcount] at hr
  have hfits {response : Text}
      (hlength : (clientText q.kind.answer t.uniqueGlobalID response).length < MaxMailSize) :
      response.length < MaxMailSize := by
    simp only [clientText, requestText, List.length_append, List.length_cons] at hlength
    omega
  have hsame {e : Ambient} {fromBox : ℤ} {response : Text}
      (hr' : r.out = [answerTo server.thread e q.message.pktHdr q.message.mailHdr fromBox
        (clientText q.kind.answer t.uniqueGlobalID response)]) : response = a.response := by
    rw [hout, List.singleton_inj] at hr'
    exact (clientText_injective (congrArg Message.data hr')).2.2.symm
  cases hk : q.kind with
  | lock =>
    rw [hk] at hr hfits hsame
    obtain ⟨found, i, response, -, hresponse, hlength, hr'⟩ := lockVerify_eq_ok hr
    obtain rfl := hsame hr'
    exact ⟨lockResponse_response hresponse, hfits hlength⟩
  | cv =>
    rw [hk] at hr hfits hsame
    obtain ⟨id, hlength, hr'⟩ := objectVerify_eq_ok hr
    rw [← hsame hr']
    exact ⟨.object (by decide) id, hfits hlength⟩
  | mv =>
    rw [hk] at hr hfits hsame
    obtain ⟨id, hlength, hr'⟩ := objectVerify_eq_ok hr
    rw [← hsame hr']
    exact ⟨.object (by decide) id, hfits hlength⟩

end

/-! ## An answer about a lock -/

section

variable {t : NetThread} {group : List NetThread} {g g' : Globals} {a : Answer} {r : Result}

/-- What follows when a refusal has been judged. -/
def afterJudged (t : NetThread) (e : Ambient) (group : List NetThread) (counts : Bool) (g : Globals) :
    Except Fault Result :=
  let i := t.uniqueGlobalID.toNat
  if counts then
    let count := g.verifyResponses i + 1
    let g := { g with verifyResponses := Function.update g.verifyResponses i count }
    if count = g.serverCount - 1 then electLock t e t.uniqueGlobalID i group g else .ok (.failed g)
  else .ok (.failed g)

theorem afterJudged_buffer {e : Ambient} (group : List NetThread) (counts : Bool)
    (buffer : ℕ → Char) :
    afterJudged t e group counts { g with verifyBuffer := buffer } =
      (afterJudged t e group counts g).map (·.withBuffer buffer) := by
  rw [afterJudged, afterJudged]
  simp only
  split_ifs
  · exact electLock_buffer (g := { g with
      verifyResponses := Function.update g.verifyResponses t.uniqueGlobalID.toNat
        (g.verifyResponses t.uniqueGlobalID.toNat + 1) }) buffer
  · rfl
  · rfl

theorem judged_eq (hset : setRow t.uniqueGlobalID.toNat (g.verifyResponses t.uniqueGlobalID.toNat)
    a.response g = .ok g') :
    judged t g a = (readTime t.uniqueGlobalID.toNat g').toOption.map
      fun time => decide (g.lockCreationTimeStamps t.uniqueGlobalID.toNat < time) := by
  obtain ⟨buffer, rfl⟩ := setRow_eq_ok hset
  rw [judged, hset]
  cases hread : readTime t.uniqueGlobalID.toNat { g with verifyBuffer := buffer } with
  | error fault =>
    simp only [ok_bind, hread]
    rfl
  | ok time =>
    simp only [ok_bind, hread]
    rfl

/-- A refusal is processed as it is judged. -/
theorem lockAnswer_judged (ht : t.uniqueGlobalID < MAX_CLIENTS) (hrefusal : Refusal a.response)
    (hlocal : g.localLockIndex t.uniqueGlobalID.toNat = -1)
    (hset : setRow t.uniqueGlobalID.toNat (g.verifyResponses t.uniqueGlobalID.toNat) a.response g =
      .ok g') {counts : Bool} (hjudged : judged t g a = some counts) :
    lockAnswer t a.e (fmtInt t.uniqueGlobalID ++ '_' :: a.response) group g =
      afterJudged t a.e group counts g' := by
  rw [judged_eq hset, Option.map_eq_some_iff] at hjudged
  obtain ⟨time, htime, rfl⟩ := hjudged
  have htime' : readTime t.uniqueGlobalID.toNat g' = .ok time := mem_toOption.mp htime
  rw [lockAnswer_refusal ht hrefusal hlocal]
  obtain ⟨buffer, rfl⟩ := setRow_eq_ok hset
  simp only [hset, ok_bind, htime', afterJudged, decide_eq_true_eq]
  rfl

/-- A refusal that is processed is judged. -/
theorem judged_of_lockAnswer (ht : t.uniqueGlobalID < MAX_CLIENTS) (hrefusal : Refusal a.response)
    (hlocal : g.localLockIndex t.uniqueGlobalID.toNat = -1)
    (h : lockAnswer t a.e (fmtInt t.uniqueGlobalID ++ '_' :: a.response) group g = .ok r) :
    ∃ g' counts, setRow t.uniqueGlobalID.toNat (g.verifyResponses t.uniqueGlobalID.toNat) a.response g =
      .ok g' ∧ judged t g a = some counts := by
  rw [lockAnswer_refusal ht hrefusal hlocal] at h
  obtain ⟨g', hset, h⟩ := bind_eq_ok.mp h
  obtain ⟨time, htime, -⟩ := bind_eq_ok.mp h
  exact ⟨g', _, hset, by rw [judged_eq hset, htime]; rfl⟩

/-- A number before a `_` is read, and then what stands behind it. -/
theorem HasText.parse_field {memory : ℕ → Char} {i : ℕ} {n : ℤ} {rest : Text}
    (h : HasText memory i (fmtInt n ++ '_' :: rest)) (hlength : (fmtInt n).length < MaxMailSize) :
    parseValue i memory = .ok (n, i + (fmtInt n).length + 1) ∧
      HasText memory (i + (fmtInt n).length + 1) rest := by
  obtain ⟨hnumber, hend, hrest⟩ := HasText.append.mp h
  exact ⟨parseValue_number hnumber (Or.inl hend) hlength, hrest⟩

/-- **The time stamp of a `MAYBE`** is read back, whatever the buffer held. -/
theorem judged_maybe {stamp : Timeval}
    (ha : a.response = fmtInt CreationState.maybe.code ++ '_' :: pairText stamp.sec stamp.usec)
    (hlength : a.response.length < MaxMailSize)
    (hset : setRow t.uniqueGlobalID.toNat (g.verifyResponses t.uniqueGlobalID.toNat) a.response g =
      .ok g') :
    judged t g a = some (decide (g.lockCreationTimeStamps t.uniqueGlobalID.toNat < stamp)) := by
  have hread : readTime t.uniqueGlobalID.toNat g' = .ok stamp := by
    obtain ⟨memory, hrow, htext, hend⟩ := getRow_setRow hset
    obtain ⟨buffer, rfl⟩ := setRow_eq_ok hset
    rw [ha] at htext hend hlength
    simp only [pairText, List.length_append, List.length_cons] at hend hlength
    obtain ⟨hvalue, htext⟩ := htext.parse_field (by omega)
    obtain ⟨hsec, htext⟩ := htext.parse_field (by omega)
    have husec := parseValue_number htext (Or.inr (by rw [← hend]; congr 1; omega)) (by omega)
    simp only [readTime, hrow, hvalue, hsec, husec, ok_bind, pure_eq_ok]
  rw [judged_eq hset, hread]
  rfl

/-- The id of a `YES` is read back. -/
theorem lockAnswer_yes {id : ℤ} (ht : t.uniqueGlobalID < MAX_CLIENTS)
    (ha : a.response = pairText CreationState.yes.code id)
    (hlength : a.response.length < MaxMailSize)
    (hlocal : g.localLockIndex t.uniqueGlobalID.toNat = -1) :
    lockAnswer t a.e (fmtInt t.uniqueGlobalID ++ '_' :: a.response) group g = (do
      let g' ← setRow t.uniqueGlobalID.toNat (g.verifyResponses t.uniqueGlobalID.toNat) a.response g
      adoptLock t a.e t.uniqueGlobalID.toNat id g') := by
  obtain ⟨hindex, hdigits⟩ := uniqueGlobalID_fits ht
  have hread : readClient (fmtInt t.uniqueGlobalID ++ '_' :: a.response) =
      .ok (t.uniqueGlobalID, a.response) := by
    rw [readClient, readField_append (underscore_not_mem_fmtInt _) (by omega)]
    simp only [ok_bind, pure_eq_ok, atoi_fmtInt]
  rw [lockAnswer, hread]
  simp only [ok_bind, hindex]
  cases hset : setRow t.uniqueGlobalID.toNat (g.verifyResponses t.uniqueGlobalID.toNat) a.response g with
  | error fault => rfl
  | ok g' =>
    obtain ⟨buffer, rfl⟩ := setRow_eq_ok hset
    obtain ⟨memory, hrow, htext, hend⟩ := getRow_setRow hset
    rw [ha] at htext hend hlength
    simp only [pairText, List.length_append, List.length_cons] at hend hlength
    obtain ⟨hvalue, htext⟩ := HasText.parse_field htext (by omega)
    rw [show (fmtInt CreationState.yes.code).length + ((fmtInt id).length + 1) =
      0 + (fmtInt CreationState.yes.code).length + 1 + (fmtInt id).length by omega] at hend
    have hid := parseValue_number htext (Or.inr hend) (by omega)
    simp only [ok_bind, hlocal, if_true, hrow, hvalue, hid]

/-- **An answer about a lock** is processed alike with another buffer. -/
theorem lockAnswer_alike {buffer : ℕ → Char} (ht : t.uniqueGlobalID < MAX_CLIENTS)
    (hresponse : Response .lock a.response) (hlength : a.response.length < MaxMailSize)
    (hlocal : g.localLockIndex t.uniqueGlobalID.toNat = -1)
    (hno : a.response = fmtInt CreationState.no.code →
      judged t g a = judged t { g with verifyBuffer := buffer } a)
    (h : lockAnswer t a.e (fmtInt t.uniqueGlobalID ++ '_' :: a.response) group g = .ok r) :
    ∃ buffer', lockAnswer t a.e (fmtInt t.uniqueGlobalID ++ '_' :: a.response) group
      { g with verifyBuffer := buffer } = .ok (r.withBuffer buffer') := by
  rcases hresponse.of_lock with hrefusal | ⟨id, hid⟩
  · obtain ⟨g', counts, hset, hjudged⟩ := judged_of_lockAnswer ht hrefusal hlocal h
    obtain ⟨offset, -, hset'⟩ := setRow_offset hset
    have hsame : judged t { g with verifyBuffer := buffer } a = some counts := by
      rw [← hjudged]
      rcases hrefusal.eq with hdata | ⟨stamp, hdata⟩
      · exact (hno hdata).symm
      · rw [judged_maybe hdata hlength hset]
        exact judged_maybe (g := { g with verifyBuffer := buffer }) hdata hlength
          (hset' { g with verifyBuffer := buffer })
    rw [lockAnswer_judged ht hrefusal hlocal hset hjudged] at h
    rw [hset' g, Except.ok.injEq] at hset
    subst hset
    have hbuffer := afterJudged_buffer (t := t) (e := a.e)
      (g := { g with verifyBuffer := writeText a.response offset g.verifyBuffer }) group counts
      (writeText a.response offset buffer)
    rw [h] at hbuffer
    exact ⟨_, (lockAnswer_judged (g := { g with verifyBuffer := buffer }) ht hrefusal hlocal
      (hset' { g with verifyBuffer := buffer }) hsame).trans hbuffer⟩
  · rw [lockAnswer_yes ht hid hlength hlocal] at h
    obtain ⟨g', hset, h⟩ := bind_eq_ok.mp h
    obtain ⟨offset, -, hset'⟩ := setRow_offset hset
    rw [hset' g, Except.ok.injEq] at hset
    subst hset
    have hbuffer := adoptLock_buffer (t := t) (e := a.e) (i := t.uniqueGlobalID.toNat)
      (g := { g with verifyBuffer := writeText a.response offset g.verifyBuffer })
      (writeText a.response offset buffer) id
    rw [h] at hbuffer
    refine ⟨writeText a.response offset buffer, ?_⟩
    rw [lockAnswer_yes (g := { g with verifyBuffer := buffer }) ht hid hlength hlocal]
    exact (congrArg (· >>= _) (hset' { g with verifyBuffer := buffer })).trans hbuffer

/-- What an answer does to the count of answers: it may raise it, and with the last of them comes
    the one reply. -/
def Advances (t : NetThread) (g : Globals) (r : Result) : Prop :=
  replies t r.out = [] ∧
      r.state.verifyResponses t.uniqueGlobalID.toNat ≤ g.verifyResponses t.uniqueGlobalID.toNat + 1 ∨
    g.verifyResponses t.uniqueGlobalID.toNat + 1 = g.serverCount - 1 ∧ (replies t r.out).length = 1

theorem electLock_effect {e : Ambient} (hbox : ∀ m ∈ group, m.address ≠ t.userAddress)
    (h : electLock t e t.uniqueGlobalID t.uniqueGlobalID.toNat group g = .ok r) :
    r.state.serverCount = g.serverCount ∧
      r.state.localLockIndex t.uniqueGlobalID.toNat = -1 ∧ (replies t r.out).length = 1 := by
  rw [electLock] at h
  obtain ⟨⟨id, g₁⟩, hcreate, h⟩ := bind_eq_ok.mp h
  obtain ⟨⟨g₂, out⟩, htold, h⟩ := bind_eq_ok.mp h
  obtain rfl := Except.ok.inj h
  rw [createObject, bind_eq_ok] at hcreate
  obtain ⟨slot, -, hcreate⟩ := hcreate
  rw [pure_eq_ok, Except.ok.injEq, Prod.mk.injEq] at hcreate
  obtain ⟨-, rfl⟩ := hcreate
  rw [createVerify, bind_eq_ok] at htold
  obtain ⟨request, -, htold⟩ := htold
  obtain ⟨i, -, htold⟩ := bind_eq_ok.mp htold
  rw [pure_eq_ok, Except.ok.injEq, Prod.mk.injEq] at htold
  obtain ⟨rfl, rfl⟩ := htold
  refine ⟨rfl, Function.update_self _ _ _, ?_⟩
  rw [replies_append, replies_replyToUser, replies_group hbox]
  · rfl
  · intro m hm
    obtain ⟨entry, hentry, rfl⟩ := List.mem_map.mp hm
    exact ⟨entry, List.mem_of_mem_filter hentry, rfl⟩

/-- **The effect of an answer about a lock.** -/
theorem lockAnswer_effect (hbox : ∀ m ∈ group, m.address ≠ t.userAddress)
    (ht : t.uniqueGlobalID < MAX_CLIENTS) (hresponse : Response .lock a.response)
    (hlength : a.response.length < MaxMailSize)
    (hlocal : g.localLockIndex t.uniqueGlobalID.toNat = -1)
    (h : lockAnswer t a.e (fmtInt t.uniqueGlobalID ++ '_' :: a.response) group g = .ok r) :
    r.state.serverCount = g.serverCount ∧ r.state.localLockIndex t.uniqueGlobalID.toNat = -1 ∧
      (¬ IsYes a → Advances t g r) := by
  rcases hresponse.of_lock with hrefusal | ⟨id, hid⟩
  · obtain ⟨g', counts, hset, hjudged⟩ := judged_of_lockAnswer ht hrefusal hlocal h
    rw [lockAnswer_judged ht hrefusal hlocal hset hjudged] at h
    obtain ⟨buffer, rfl⟩ := setRow_eq_ok hset
    rw [afterJudged] at h
    simp only at h
    split_ifs at h with hcounts hlast
    · obtain ⟨hservers, hlocal', hreply⟩ := electLock_effect hbox h
      exact ⟨hservers, hlocal', fun _ => Or.inr ⟨hlast, hreply⟩⟩
    · rw [Except.ok.injEq] at h
      subst h
      exact ⟨rfl, hlocal, fun _ => Or.inl ⟨rfl, (Function.update_self _ _ _).le⟩⟩
    · rw [Except.ok.injEq] at h
      subst h
      exact ⟨rfl, hlocal, fun _ => Or.inl ⟨rfl, Int.le_add_one le_rfl⟩⟩
  · rw [lockAnswer_yes ht hid hlength hlocal] at h
    obtain ⟨g', hset, h⟩ := bind_eq_ok.mp h
    obtain ⟨buffer, rfl⟩ := setRow_eq_ok hset
    rw [adoptLock, bind_eq_ok] at h
    obtain ⟨slot, -, h⟩ := h
    rw [pure_eq_ok, Except.ok.injEq] at h
    subst h
    refine ⟨rfl, hlocal, fun hyes => absurd ?_ hyes⟩
    rw [IsYes, hid, pairText]
    exact ⟨fmtInt id, by simp⟩

end

/-! ## An answer about another object -/

section

variable {k : Kind} {t : NetThread} {group : List NetThread} {g g' : Globals} {a : Answer} {r : Result}

/-- The rows of the answers that have been counted are read alike in another buffer. -/
def Collected (i : ℕ) (g : Globals) (buffer : ℕ → Char) : Prop :=
  0 ≤ g.verifyResponses i ∧ ∃ W, Written W g.verifyBuffer buffer ∧
    ∀ j : ℕ, j < g.verifyResponses i → ∀ offset, rowOffset i j = .ok offset → offset ∈ W

/-- The decision when all have answered. -/
def conclude (k : Kind) (t : NetThread) (e : Ambient) (i n : ℕ) (g : Globals) : Except Fault Result := do
  let other ← otherServer g i n 0
  let (id, g) ← settle k t e i other g
  return ⟨resetClient i g, [replyToUser t e id], true⟩

theorem conclude_buffer {e : Ambient} {i n : ℕ} {buffer : ℕ → Char}
    (hother : otherServer { g with verifyBuffer := buffer } i n 0 = otherServer g i n 0) :
    conclude k t e i n { g with verifyBuffer := buffer } =
      (conclude k t e i n g).map (·.withBuffer buffer) := by
  rw [conclude, conclude, hother]
  cases otherServer g i n 0 with
  | error fault => rfl
  | ok other =>
    rw [ok_bind, settle_buffer, ok_bind]
    cases settle k t e i other g <;> rfl

/-- What follows when the answer has been stored. -/
def collect (k : Kind) (t : NetThread) (e : Ambient) (i : ℕ) (g : Globals) : Except Fault Result :=
  let count := g.verifyResponses i + 1
  let g := { g with verifyResponses := Function.update g.verifyResponses i count }
  if count = g.serverCount - 1 then conclude k t e i count.toNat g else .ok (.failed g)

theorem objectAnswer_eq {client : ℤ} (h0 : 0 ≤ client) (hclient : client < MAX_CLIENTS) (e : Ambient)
    (response : Text) :
    objectAnswer k t e (fmtInt client ++ '_' :: response) g =
      if e.a ≠ 0 then .error .uninitialised
      else setRow client.toNat (g.verifyResponses client.toNat) response g >>=
        collect k t e client.toNat := by
  obtain ⟨hindex, hdigits⟩ := client_fits h0 hclient
  have hread : readClient (fmtInt client ++ '_' :: response) = .ok (client, response) := by
    rw [readClient, readField_append (underscore_not_mem_fmtInt _) (by omega)]
    simp only [ok_bind, pure_eq_ok, atoi_fmtInt]
  rw [objectAnswer, hread]
  simp only [ok_bind, hindex]
  rfl

/-- The decision reads the rows that have been written, and no others. -/
theorem collect_buffer {e : Ambient} {i : ℕ} {W : Set ℕ} {buffer : ℕ → Char}
    (hW : Written W g.verifyBuffer buffer)
    (hrows : ∀ j : ℕ, j ≤ g.verifyResponses i → ∀ offset, rowOffset i j = .ok offset → offset ∈ W) :
    collect k t e i { g with verifyBuffer := buffer } =
      (collect k t e i g).map (·.withBuffer buffer) := by
  have hother := hW.otherServer (g := { g with
    verifyResponses := Function.update g.verifyResponses i (g.verifyResponses i + 1) })
    (i := i) (n := (g.verifyResponses i + 1).toNat) 0
    (fun j hj offset hoffset => hrows j (by omega) offset (by rwa [zero_add] at hoffset))
  rw [collect, collect]
  simp only
  split_ifs
  · exact conclude_buffer hother
  · rfl

/-- **An answer about an object** is processed alike with another buffer, if the rows before it
    are. -/
theorem objectAnswer_alike {buffer : ℕ → Char} (ht : t.uniqueGlobalID < MAX_CLIENTS)
    (hcollected : Collected t.uniqueGlobalID.toNat g buffer)
    (h : objectAnswer k t a.e (fmtInt t.uniqueGlobalID ++ '_' :: a.response) g = .ok r) :
    ∃ buffer', objectAnswer k t a.e (fmtInt t.uniqueGlobalID ++ '_' :: a.response)
        { g with verifyBuffer := buffer } = .ok (r.withBuffer buffer') ∧
      (g.verifyResponses t.uniqueGlobalID.toNat + 1 ≠ g.serverCount - 1 →
        Collected t.uniqueGlobalID.toNat r.state buffer') := by
  obtain ⟨hcount, W, hW, hrows⟩ := hcollected
  rw [objectAnswer_eq t.uniqueGlobalID_nonneg ht] at h
  split_ifs at h with hindex
  obtain ⟨g', hset, h⟩ := bind_eq_ok.mp h
  obtain ⟨offset, hoffset, hset'⟩ := setRow_offset hset
  rw [hset' g, Except.ok.injEq] at hset
  subst hset
  have hW' := hW.writeText a.response offset
  have hrows' : ∀ j : ℕ, j ≤ g.verifyResponses t.uniqueGlobalID.toNat → ∀ offset',
      rowOffset t.uniqueGlobalID.toNat j = .ok offset' →
        offset' ∈ W ∪ Set.Icc offset (offset + a.response.length) := by
    intro j hj offset' hoffset'
    by_cases hlast : (j : ℤ) = g.verifyResponses t.uniqueGlobalID.toNat
    · rw [hlast, hoffset, Except.ok.injEq] at hoffset'
      exact Or.inr ⟨hoffset'.le, by omega⟩
    · exact Or.inl (hrows j (by omega) offset' hoffset')
  have hbuffer := collect_buffer (k := k) (t := t) (e := a.e) (i := t.uniqueGlobalID.toNat)
    (g := { g with verifyBuffer := writeText a.response offset g.verifyBuffer }) hW' hrows'
  rw [h] at hbuffer
  refine ⟨writeText a.response offset buffer, ?_, fun hmore => ?_⟩
  · rw [objectAnswer_eq (g := { g with verifyBuffer := buffer }) t.uniqueGlobalID_nonneg ht,
      if_neg hindex]
    exact (congrArg (· >>= _) (hset' { g with verifyBuffer := buffer })).trans hbuffer
  · have hcount' : r.state.verifyResponses t.uniqueGlobalID.toNat =
        g.verifyResponses t.uniqueGlobalID.toNat + 1 ∧
        r.state.verifyBuffer = writeText a.response offset g.verifyBuffer := by
      rw [collect] at h
      simp only [if_neg hmore, Except.ok.injEq] at h
      subst h
      exact ⟨Function.update_self _ _ _, rfl⟩
    rw [Collected, hcount'.1, hcount'.2]
    exact ⟨by omega, _, hW', fun j hj => hrows' j (by omega)⟩

theorem settle_serverCount {e : Ambient} {i : ℕ} {other id : ℤ}
    (h : settle k t e i other g = .ok (id, g')) : g'.serverCount = g.serverCount := by
  rw [settle] at h
  split_ifs at h
  · rw [createObject, bind_eq_ok] at h
    obtain ⟨slot, -, h⟩ := h
    rw [pure_eq_ok, Except.ok.injEq, Prod.mk.injEq] at h
    rw [← h.2]
    cases k <;> rfl
  · rw [Except.ok.injEq, Prod.mk.injEq] at h
    rw [← h.2]
  · obtain ⟨id', -, h⟩ := bind_eq_ok.mp h
    rw [pure_eq_ok, Except.ok.injEq, Prod.mk.injEq] at h
    rw [← h.2]
  · rw [Except.ok.injEq, Prod.mk.injEq] at h
    rw [← h.2]

/-- **The effect of an answer about another object.** -/
theorem objectAnswer_effect (ht : t.uniqueGlobalID < MAX_CLIENTS)
    (hlocal : g.localLockIndex t.uniqueGlobalID.toNat = -1)
    (h : objectAnswer k t a.e (fmtInt t.uniqueGlobalID ++ '_' :: a.response) g = .ok r) :
    r.state.serverCount = g.serverCount ∧ r.state.localLockIndex t.uniqueGlobalID.toNat = -1 ∧
      Advances t g r := by
  rw [objectAnswer_eq t.uniqueGlobalID_nonneg ht] at h
  split_ifs at h
  obtain ⟨g', hset, h⟩ := bind_eq_ok.mp h
  obtain ⟨buffer, rfl⟩ := setRow_eq_ok hset
  rw [collect] at h
  simp only at h
  split_ifs at h with hlast
  · rw [conclude, bind_eq_ok] at h
    obtain ⟨other, -, h⟩ := h
    obtain ⟨⟨id, g'⟩, hsettle, h⟩ := bind_eq_ok.mp h
    obtain rfl := Except.ok.inj h
    have hservers := settle_serverCount hsettle
    refine ⟨hservers, Function.update_self _ _ _, Or.inr ⟨hlast, ?_⟩⟩
    rw [replies_replyToUser]
    rfl
  · rw [Except.ok.injEq] at h
    subst h
    exact ⟨rfl, hlocal, Or.inl ⟨rfl, (Function.update_self _ _ _).le⟩⟩

end

/-! ## The invariant -/

section

variable {t : NetThread} {group : List NetThread} {s s' : Creations} {g : Globals}

/-- What holds of the client's scratch arrays while answers are missing: `n` of them. -/
structure Missing (t : NetThread) (group : List NetThread) (s : Creations) (n : ℕ) : Prop where
  client : t.uniqueGlobalID < MAX_CLIENTS
  serverCount : s.globals.serverCount = group.length
  localLockIndex : s.globals.localLockIndex t.uniqueGlobalID.toNat = -1
  count : (∀ a ∈ s.answers, ¬ IsYes a) → replies t s.sent = [] ∧
    s.globals.verifyResponses t.uniqueGlobalID.toNat + n ≤ group.length - 1

/-- **The invariant.** Each missing answer belongs to the current creation; a clear buffer makes no
    difference. -/
structure CreationInv (t : NetThread) (group : List NetThread) (s : Creations) : Prop where
  fresh : s.creation = 0 → s.sent = [] ∧ s.asked = []
  replied : s.replied = s.creation - 1
  own : ∀ q ∈ s.asked, q.creation = s.creation ∧ q.kind = s.kind ∧
    ∃ name, q.message.data = clientText q.kind.verify t.uniqueGlobalID name
  missing : s.asked ≠ [] → Missing t group s s.asked.length
  single : (∀ a ∈ s.answers, ¬ IsYes a) → (replies t s.sent).length ≤ 1
  objects : s.kind ≠ .lock → ∀ a ∈ s.answers, ¬ IsYes a
  alone : ∃ buffer, s.alone t group = .ok ⟨{ s.globals with verifyBuffer := buffer }, s.sent⟩ ∧
    (s.asked ≠ [] → s.kind ≠ .lock → Collected t.uniqueGlobalID.toNat s.globals buffer)

theorem CreationInv.separate (h : CreationInv t group s) : Separate t group s := by
  obtain ⟨buffer, halone, -⟩ := h.alone
  refine ⟨fun q hq => (h.own q hq).1, h.replied, ⟨_, halone, rfl, s.globals.verifyBuffer, rfl⟩, ?_⟩
  intro hyes hreply
  by_contra hasked
  exact hreply ((h.missing hasked).count hyes).1

theorem CreationInv.init (g : Globals) : CreationInv t group (.init g) where
  fresh _ := ⟨rfl, rfl⟩
  replied := rfl
  own _ hq := absurd hq List.not_mem_nil
  missing h := absurd rfl h
  single _ := Nat.zero_le 1
  objects _ _ ha := absurd ha List.not_mem_nil
  alone := ⟨fun _ => nul, rfl, fun h => absurd rfl h⟩

/-- No other answer than that about a lock says `YES`. -/
theorem Response.not_yes {k : Kind} {a : Answer} (h : Response k a.response) (hk : k ≠ .lock) :
    ¬ IsYes a := by
  intro hyes
  have hmem : '_' ∈ a.response := hyes.subset (List.mem_append_right _ List.mem_cons_self)
  generalize a.response = response at h hmem
  cases h with
  | refusal _ => exact hk rfl
  | yes _ => exact hk rfl
  | object _ id => exact underscore_not_mem_fmtInt id hmem

/-- **What an answer does**, and that it does the same in a clear buffer. -/
theorem answerStep_alike (hbox : ∀ m ∈ group, m.address ≠ t.userAddress) {k : Kind} {a : Answer}
    {r r' : Election} {buffer : ℕ → Char} (ht : t.uniqueGlobalID < MAX_CLIENTS)
    (hservers : r.globals.serverCount = group.length)
    (hlocal : r.globals.localLockIndex t.uniqueGlobalID.toNat = -1)
    (hresponse : Response k a.response) (hlength : a.response.length < MaxMailSize)
    (hno : k = .lock → a.response = fmtInt CreationState.no.code →
      judged t r.globals a = judged t { r.globals with verifyBuffer := buffer } a)
    (hcollected : k ≠ .lock → Collected t.uniqueGlobalID.toNat r.globals buffer)
    (h : answerStep k t group r a = .ok r') :
    ∃ result : Result, r' = ⟨result.state, r.out ++ result.out⟩ ∧
      result.state.serverCount = r.globals.serverCount ∧
      result.state.localLockIndex t.uniqueGlobalID.toNat = -1 ∧
      (¬ IsYes a → Advances t r.globals result) ∧
      ∃ buffer', answerStep k t group ⟨{ r.globals with verifyBuffer := buffer }, r.out⟩ a =
          .ok ⟨{ r'.globals with verifyBuffer := buffer' }, r'.out⟩ ∧
        (k ≠ .lock → r.globals.verifyResponses t.uniqueGlobalID.toNat + 1 ≠ r.globals.serverCount - 1 →
          Collected t.uniqueGlobalID.toNat r'.globals buffer') := by
  have hdispatch (g : Globals) (hg : g.serverCount = group.length) :
      answerStep k t group ⟨g, r.out⟩ a = (do
        let result ← dispatch ⟨t, a.e, a.inPktHdr, a.inMailHdr⟩ group k.answer
          (fmtInt t.uniqueGlobalID ++ '_' :: a.response) g
        return ⟨result.state, r.out ++ result.out⟩) := by
    rw [answerStep, clientText, processMessage_requestText _ _ _ hg]
  rw [hdispatch _ hservers] at h
  obtain ⟨result, hresult, h⟩ := bind_eq_ok.mp h
  rw [pure_eq_ok, Except.ok.injEq] at h
  subst h
  rw [hdispatch { r.globals with verifyBuffer := buffer } hservers]
  refine ⟨result, rfl, ?_⟩
  by_cases hk : k = .lock
  · subst hk
    obtain ⟨hservers', hlocal', hadvances⟩ :=
      lockAnswer_effect hbox ht hresponse hlength hlocal hresult
    obtain ⟨buffer', halike⟩ := lockAnswer_alike ht hresponse hlength hlocal (hno rfl) hresult
    refine ⟨hservers', hlocal', hadvances, buffer', ?_, fun hk => absurd rfl hk⟩
    exact congrArg (· >>= _) halike
  · have hobject : dispatch ⟨t, a.e, a.inPktHdr, a.inMailHdr⟩ group k.answer =
        objectAnswer k t a.e := by
      cases k with
      | lock => exact absurd rfl hk
      | cv => rfl
      | mv => rfl
    rw [hobject] at hresult ⊢
    obtain ⟨hservers', hlocal', hadvances⟩ := objectAnswer_effect ht hlocal hresult
    obtain ⟨buffer', halike, hcollected'⟩ := objectAnswer_alike ht (hcollected hk) hresult
    refine ⟨hservers', hlocal', fun _ => hadvances, buffer', ?_, fun _ => hcollected'⟩
    exact congrArg (· >>= _) halike

/-- A reply is no question. -/
theorem fmtInt_ne_clientText {id client : ℤ} {type : RequestType} {data : Text} :
    fmtInt id ≠ clientText type client data := by
  intro h
  have hmem : '_' ∈ fmtInt id := by
    rw [h, clientText, requestText]
    exact List.mem_append_right _ List.mem_cons_self
  exact underscore_not_mem_fmtInt id hmem

/-- What a request leads to: questions to the others, or at most one reply. -/
theorem request_result {k : Kind} {name : Text} {e : Ambient} {r : Result}
    (h : processMessage (t.user.call t e) (t.user.text k.request name) group g = .ok r) :
    r.out.filter (·.data = clientText k.verify t.uniqueGlobalID name) = [] ∧
        (replies t r.out).length ≤ 1 ∨
      t.uniqueGlobalID < MAX_CLIENTS ∧ g.serverCount = group.length ∧
        r.out = questionsOf k t group name ∧
        r.state = askedState k e t.uniqueGlobalID.toNat name g := by
  obtain ⟨hcount, hcreate⟩ := processMessage_request h
  have hcases := create_eq_ok (t.user_call_client t e) hcreate
  split_ifs at hcases
  · obtain ⟨hclients, found, -, hasked⟩ := hcases
    split_ifs at hasked
    · exact Or.inr ⟨hclients, hcount, by rw [hasked], by rw [hasked]⟩
    · obtain ⟨id, hout⟩ := hasked
      refine Or.inl ⟨?_, ?_⟩
      · have hdata : (createReply k t e t.uniqueGlobalID id).data = fmtInt id := by cases k <;> rfl
        rw [hout, List.filter_singleton, hdata, decide_eq_false fmtInt_ne_clientText, cond_false]
      · rw [hout]
        exact List.length_filter_le _ _
  · rw [hcases]
    exact Or.inl ⟨rfl, Nat.zero_le 1⟩

/-- **Before a request** no answer is missing, and each creation has had one reply. -/
theorem CreationInv.before (h : CreationInv t group s) {k : Kind} {name : Text} {e : Ambient}
    (hok : CreationOk t group s (.request k name e))
    (hreplied : s.creation ≤ s.replied + (replies t s.sent).length) :
    s.asked = [] ∧ s.replied + (replies t s.sent).length = s.creation := by
  by_cases hfresh : s.creation = 0
  · obtain ⟨hsent, hasked⟩ := h.fresh hfresh
    rw [h.replied, hfresh, hsent]
    exact ⟨hasked, rfl⟩
  · have hreply := h.replied
    by_cases hyes : ∀ a ∈ s.answers, ¬ IsYes a
    · have hsingle := h.single hyes
      refine ⟨?_, by omega⟩
      by_contra hasked
      have hnone := ((h.missing hasked).count hyes).1
      rw [hnone, List.length_nil] at hreplied
      omega
    · push Not at hyes
      obtain ⟨hasked, hone⟩ := hok hyes
      exact ⟨hasked, by omega⟩

/-- **A request.** -/
theorem CreationInv.request (hgroup : group.Nodup) (ht : t ∈ group)
    (hbox : ∀ m ∈ group, m.address ≠ t.userAddress) (h : CreationInv t group s) {k : Kind}
    {name : Text} {e : Ambient} (hok : CreationOk t group s (.request k name e))
    (hs' : creationStep t group s (.request k name e) = .ok s') : CreationInv t group s' := by
  rw [creationStep] at hs'
  simp only at hs'
  split_ifs at hs' with hreplied
  obtain ⟨r, hr, hs'⟩ := bind_eq_ok.mp hs'
  obtain ⟨hasked, hone⟩ := h.before hok hreplied
  rw [hasked, hone, List.nil_append, pure_eq_ok, Except.ok.injEq] at hs'
  subst hs'
  rcases request_result hr with ⟨hnone, hreply⟩ | ⟨hclients, hcount, hout, hstate⟩
  · simp only [hnone, List.map_nil]
    exact ⟨nofun, rfl, fun _ hq => absurd hq List.not_mem_nil, fun h => absurd rfl h,
      fun _ => hreply, fun _ _ ha => absurd ha List.not_mem_nil, fun _ => nul, rfl, fun h => absurd rfl h⟩
  · have hall : r.out.filter (·.data = clientText k.verify t.uniqueGlobalID name) = r.out := by
      rw [List.filter_eq_self, hout]
      exact fun m hm => decide_eq_true (mem_questionsOf hm).1
    have hlength := length_questionsOf name k hgroup ht
    have hcast : ((group.length - 1 : ℕ) : ℤ) = group.length - 1 :=
      Nat.cast_pred (List.length_pos_of_mem ht)
    rw [hall]
    refine ⟨nofun, rfl, ?_, fun _ => ⟨hclients, ?_, ?_, fun _ => ⟨?_, ?_⟩⟩, ?_,
      fun _ _ ha => absurd ha List.not_mem_nil, fun _ => nul, rfl, fun _ _ => ⟨?_, ∅, .empty, ?_⟩⟩
    · intro q hq
      obtain ⟨m, hm, rfl⟩ := List.mem_map.mp hq
      rw [hout] at hm
      exact ⟨rfl, rfl, name, (mem_questionsOf hm).1⟩
    · rw [hstate, askedState_serverCount, hcount]
    · rw [hstate, askedState_localLockIndex]
    · rw [hout, replies_questionsOf hbox]
    · rw [hstate, askedState_verifyResponses, List.length_map, hout, hlength, hcast, zero_add]
    · rw [hout, replies_questionsOf hbox]
      exact fun _ => Nat.zero_le 1
    · rw [hstate, askedState_verifyResponses]
    · rw [hstate, askedState_verifyResponses]
      exact fun j hj => absurd hj (by omega)

/-- **An answer.** -/
theorem CreationInv.answer (hbox : ∀ m ∈ group, m.address ≠ t.userAddress)
    (h : CreationInv t group s) {n : ℕ} {server : Server} {a : Answer}
    (hok : CreationOk t group s (.answer n server a))
    (hs' : creationStep t group s (.answer n server a) = .ok s') : CreationInv t group s' := by
  rw [creationStep] at hs'
  cases hq : s.asked[n]? with
  | none =>
    rw [hq] at hs'
    cases hs'
  | some q =>
    rw [hq] at hs'
    simp only at hs'
    have hmem : q ∈ s.asked := List.mem_of_getElem? hq
    obtain ⟨hcurrent, hkind, name, hdata⟩ := h.own q hmem
    have hmissing := h.missing (List.ne_nil_of_mem hmem)
    obtain ⟨buffer, halone, hcollected⟩ := h.alone
    by_cases hanswers : server.Answers t q a
    · rw [if_pos hanswers] at hs'
      obtain ⟨r', hr', hs'⟩ := bind_eq_ok.mp hs'
      rw [if_pos hcurrent, pure_eq_ok, Except.ok.injEq] at hs'
      obtain ⟨hresponse, hlength⟩ := hanswers.response hdata
      have hno : q.kind = .lock → a.response = fmtInt CreationState.no.code →
          judged t s.globals a = judged t { s.globals with verifyBuffer := buffer } a := by
        intro hlock hresponse
        have := hok q hq hlock hresponse
        rwa [halone] at this
      obtain ⟨result, rfl, hservers, hlocal, hadvances, buffer', halike, hcollected'⟩ :=
        answerStep_alike (r := ⟨s.globals, s.sent⟩) hbox hmissing.client hmissing.serverCount
          hmissing.localLockIndex hresponse hlength hno (fun hk => hcollected (List.ne_nil_of_mem hmem) (by rwa [← hkind])) hr'
      have hn : n < s.asked.length := (List.getElem?_eq_some_iff.mp hq).1
      have hless : (s.asked.eraseIdx n).length + 1 = s.asked.length := by
        rw [List.length_eraseIdx_of_lt hn]
        omega
      have hmore (hasked : s.asked.eraseIdx n ≠ []) (hold : ∀ b ∈ s.answers, ¬ IsYes b) :
          s.globals.verifyResponses t.uniqueGlobalID.toNat + 1 ≠ s.globals.serverCount - 1 := by
        have hcount := (hmissing.count hold).2
        have hservers' := hmissing.serverCount
        have hpos := List.length_pos_of_ne_nil hasked
        omega
      have hsplit : (∀ b ∈ s.answers ++ [a], ¬ IsYes b) →
          (∀ b ∈ s.answers, ¬ IsYes b) ∧ ¬ IsYes a := fun hyes =>
        ⟨fun b hb => hyes b (List.mem_append_left _ hb), hyes a (by simp)⟩
      subst hs'
      refine ⟨fun hfresh => ?_, h.replied, fun b hb => ?_, fun hasked => ⟨hmissing.client, ?_, hlocal,
        fun hyes => ?_⟩, fun hyes => ?_, fun hk b hb => ?_, buffer', ?_, fun hasked hk => ?_⟩
      · exact absurd (h.fresh hfresh).2 (List.ne_nil_of_mem hmem)
      · exact h.own b (List.mem_of_mem_eraseIdx hb)
      · rw [hservers, hmissing.serverCount]
      · obtain ⟨hold, hnew⟩ := hsplit hyes
        obtain ⟨hnone, hcount⟩ := hmissing.count hold
        rcases hadvances hnew with ⟨hnone', hle⟩ | ⟨hlast, -⟩
        · refine ⟨by rw [replies_append, hnone, hnone', List.append_nil], ?_⟩
          have hle' : result.state.verifyResponses t.uniqueGlobalID.toNat ≤
            s.globals.verifyResponses t.uniqueGlobalID.toNat + 1 := hle
          show result.state.verifyResponses t.uniqueGlobalID.toNat +
            ((s.asked.eraseIdx n).length : ℤ) ≤ _
          omega
        · exact absurd (hmore hasked hold) (not_not.mpr hlast)
      · obtain ⟨hold, hnew⟩ := hsplit hyes
        rw [replies_append, (hmissing.count hold).1, List.nil_append]
        rcases hadvances hnew with ⟨hnone', -⟩ | ⟨-, hone⟩
        · exact (List.length_eq_zero_iff.mpr hnone').le.trans (Nat.zero_le 1)
        · exact hone.le
      · rcases List.mem_append.mp hb with hb | hb
        · exact h.objects hk b hb
        · rw [List.mem_singleton.mp hb]
          exact hresponse.not_yes (by rwa [hkind])
      · rw [hkind] at halike
        exact (exec_concat a halone).trans halike
      · exact hcollected' (by rwa [hkind]) (hmore hasked (h.objects hk))
    · rw [if_neg hanswers] at hs'
      cases hs'

/-! ## The theorem -/

end

end Nachos.Network
