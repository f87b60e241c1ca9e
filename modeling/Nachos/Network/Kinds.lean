import Nachos.Network.Creations

/-!
# Three copies of one protocol

The cases that create a lock, a condition variable and a monitor variable (`network/netcall.cc`,
lines 317-1263) come from one text. That of a lock has become an election; the others still ask
whether somebody has the object.

* `creations_alike`: the three kinds agree on requests and questions, and the last two on answers,
  if the ids are those of the same threads and slots.
* `lock_decides_early`: a lock is adopted with the first answer that names one.
-/

namespace Nachos.Network

open Nachos.Lib

/-! ## Places -/

/-- The thread that has created an object, and its slot there. -/
abbrev Place := NetThread × ℕ

/-- A place in a table of any kind. -/
def Place.Proper (p : Place) : Prop := p.1.uniqueGlobalID < MAX_CLIENTS ∧ p.2 < MAX_DLOCK

instance (p : Place) : Decidable p.Proper := inferInstanceAs (Decidable (_ ∧ _))

namespace Kind

/-- The id of the object at a place. -/
def placeId (k : Kind) : Option Place → ℤ
  | none => -1
  | some p => p.1.globalId k.max p.2

/-- The answer of a server that knows the place of an object, or of none. -/
def response (k : Kind) (place : Option Place) : Text :=
  match k with
  | lock => if place = none then fmtInt CreationState.no.code
    else pairText CreationState.yes.code (lock.placeId place)
  | cv | mv => fmtInt (k.placeId place)

end Kind

/-! ## Runs -/

/-- The messages of the protocol. -/
inductive CreationText
  | request (name : Text)
  | verify (client : ℤ) (name : Text)
  | answer (client : ℤ) (place : Option Place)

/-- The message about an object of a kind. -/
def CreationText.text (k : Kind) : CreationText → Text
  | request name => requestText k.request name
  | verify client name => clientText k.verify client name
  | answer client place => clientText k.answer client (k.response place)

/-- A message as it arrives. -/
structure Arrival where
  e : Ambient
  inPktHdr : PacketHeader
  inMailHdr : MailHeader
  content : CreationText

/-- A network thread. -/
structure Protocol where
  globals : Globals
  /-- The answers that have been counted for each client. -/
  answers : ℕ → List (Option Place)
  /-- What has been sent for each message. -/
  sent : List (CreationText × List Message)

/-- The answers after a message. -/
def addAnswer (answers : ℕ → List (Option Place)) : CreationText → ℕ → List (Option Place)
  | .answer client place =>
    Function.update answers client.toNat (answers client.toNat ++ [place])
  | _ => answers

/-- The answers that count after a message. -/
def remember (answers : ℕ → List (Option Place)) (content : CreationText) (g : Globals) (i : ℕ) :
    List (Option Place) :=
  (addAnswer answers content i).take (g.verifyResponses i).toNat

/-- The thread processes a message about an object of a kind. -/
def protocolStep (k : Kind) (t : NetThread) (group : List NetThread) (s : Protocol) (a : Arrival) :
    Except Fault Protocol := do
  let r ← processMessage ⟨t, a.e, a.inPktHdr, a.inMailHdr⟩ (a.content.text k) group s.globals
  return ⟨r.state, remember s.answers a.content r.state, s.sent ++ [(a.content, r.out)]⟩

/-- A process that has just started. -/
def Protocol.init (serverCount : ℤ) : Protocol := ⟨.init serverCount, fun _ => [], []⟩

/-! ## The same protocol -/

/-- Objects of two kinds with the same name, at the same place. -/
def SameObject (k k' : Kind) : Option Object → Option Object → Prop :=
  Option.Rel fun o o' => o.name = o'.name ∧
    ∃ place : Place, place.Proper ∧ o.globalId = k.placeId place ∧ o'.globalId = k'.placeId place

/-- **The same tables**, up to the ids, and the same scratch arrays but for the texts of the
    answers. -/
structure SameTables (k k' : Kind) (g g' : Globals) : Prop where
  serverCount : g'.serverCount = g.serverCount
  createIndex : k'.createIndex g' = k.createIndex g
  objects : ∀ slot, SameObject k k' (k.object g slot) (k'.object g' slot)
  lockName : g'.lockName = g.lockName
  localLockIndex : g'.localLockIndex = g.localLockIndex
  verifyResponses : g'.verifyResponses = g.verifyResponses

/-- **The same message** in answer to a message of the protocol. The reply about an object that is
    found here goes astray for a condition variable, and the servers' answers about locks come from
    another mailbox. -/
inductive SameMessage (k k' : Kind) : CreationText → Message → Message → Prop
  | question (name : Text) (client : ℤ) (pktHdr : PacketHeader) (mailHdr : MailHeader) :
      SameMessage k k' (.request name) ⟨pktHdr, mailHdr, clientText k.verify client name⟩
        ⟨pktHdr, mailHdr, clientText k'.verify client name⟩
  | found (name : Text) (place : Place) {m m' : Message} (hdata : m.data = fmtInt (k.placeId place))
      (hdata' : m'.data = fmtInt (k'.placeId place))
      (haddress : k ≠ .cv → k' ≠ .cv → m.pktHdr = m'.pktHdr ∧ m.mailHdr = m'.mailHdr) :
      SameMessage k k' (.request name) m m'
  | answer (client : ℤ) (name : Text) (place : Option Place) (pktHdr : PacketHeader)
      {mailHdr mailHdr' : MailHeader} (hto : mailHdr.toBox = mailHdr'.toBox)
      (hfrom : k ≠ .lock → k' ≠ .lock → mailHdr.fromBox = mailHdr'.fromBox) :
      SameMessage k k' (.verify client name)
        ⟨pktHdr, mailHdr, clientText k.answer client (k.response place)⟩
        ⟨pktHdr, mailHdr', clientText k'.answer client (k'.response place)⟩
  | decided (client : ℤ) (last place : Option Place) (pktHdr : PacketHeader) (mailHdr : MailHeader) :
      SameMessage k k' (.answer client last) ⟨pktHdr, mailHdr, fmtInt (k.placeId place)⟩
        ⟨pktHdr, mailHdr, fmtInt (k'.placeId place)⟩

/-- **The same state**, after the same messages. -/
structure SameProtocol (k k' : Kind) (s s' : Protocol) : Prop where
  tables : SameTables k k' s.globals s'.globals
  answers : s'.answers = s.answers
  sent : List.Forall₂ (fun p p' => p.1 = p'.1 ∧ List.Forall₂ (SameMessage k k' p.1) p.2 p'.2)
    s.sent s'.sent

/-! ## The condition -/

/-- A table without holes in which no name occurs twice. -/
def DistinctNames (k : Kind) (g : Globals) : Prop :=
  (∀ i < (k.createIndex g).toNat, (k.object g i).isSome) ∧
    ∀ i < (k.createIndex g).toNat, ∀ j < (k.createIndex g).toNat,
      (k.object g i).map Object.name = (k.object g j).map Object.name → i = j

instance (k : Kind) (g : Globals) : Decidable (DistinctNames k g) :=
  inferInstanceAs (Decidable ((∀ _ < _, _) ∧ ∀ _ < _, ∀ _ < _, _ → _))

/-- The answer in a row is read as it was written. -/
def ReadsAs (k : Kind) (g : Globals) (i : ℕ) (place : Option Place) (row : ℕ) : Prop :=
  ∃ memory ∈ (getRow i row g).toOption, saysNone memory = place.isNone ∧
    (place ≠ none → atoi (readString memory (20 * MAX_CLIENTS) 0) = k.placeId place)

instance (k : Kind) (g : Globals) (i : ℕ) (place : Option Place) (row : ℕ) :
    Decidable (ReadsAs k g i place row) :=
  inferInstanceAs (Decidable (∃ _ ∈ Except.toOption _, _))

/-- The answer has its place in the buffer, and if it is the last one each answer is read as it was
    written. -/
def Intact (k : Kind) (s : Protocol) (client : ℤ) (place : Option Place) : Prop :=
  let i := client.toNat
  ∃ g ∈ (setRow i (s.globals.verifyResponses i) (k.response place) s.globals).toOption,
    s.globals.verifyResponses i + 1 = s.globals.serverCount - 1 →
      ∀ p ∈ (s.answers i ++ [place]).zipIdx, ReadsAs k g i p.1 p.2

instance (k : Kind) (s : Protocol) (client : ℤ) (place : Option Place) :
    Decidable (Intact k s client place) :=
  inferInstanceAs (Decidable (∃ _ ∈ Except.toOption _, _ → ∀ _ ∈ _, _))

/-- There is room in the smallest of the tables, and no name twice in this one. A request is that of
    the thread's own client; a server that is asked about a lock is not about to create one; an
    answer is not about a lock, and comes through the buffer. -/
def ProtocolOk (k : Kind) (t : NetThread) (s : Protocol) (a : Arrival) : Prop :=
  (0 ≤ k.createIndex s.globals ∧ k.createIndex s.globals < MAX_DLOCK - 1) ∧
    DistinctNames k s.globals ∧
    match a.content with
    | .request _ => clientOf a.inPktHdr a.inMailHdr = t.uniqueGlobalID
    | .verify client _ => (0 ≤ client ∧ client < MAX_CLIENTS) ∧
      if k = .lock then s.globals.lockCreationStates client.toNat ≠ .maybe else a.e.a = 0
    | .answer client place => k ≠ .lock ∧ Intact k s client place

instance (k : Kind) (t : NetThread) (s : Protocol) (a : Arrival) : Decidable (ProtocolOk k t s a) := by
  unfold ProtocolOk
  cases a.content <;> infer_instance

/-! ## Tables -/

section

variable {k k' : Kind} {g g' : Globals} {name : Text}

/-- In a table with distinct names the search finds the one object with the name, whether it
    breaks or not. -/
theorem find_cases (hnames : DistinctNames k g) (h0 : 0 ≤ k.createIndex g) (name : Text) :
    (∀ i < (k.createIndex g).toNat, ∀ o, k.object g i = some o → o.name ≠ name) ∧
        k.find g name = .ok (-1) ∧
        searchFirst (k.object g) name (k.createIndex g).toNat 0 = .ok (-1) ∨
      ∃ i < (k.createIndex g).toNat, ∃ o, k.object g i = some o ∧ o.name = name ∧
        k.find g name = .ok i ∧ searchFirst (k.object g) name (k.createIndex g).toNat 0 = .ok i := by
  obtain ⟨hsome, hdistinct⟩ := hnames
  have hn : k.createIndex g = ((k.createIndex g).toNat : ℤ) := (Int.toNat_of_nonneg h0).symm
  by_cases hfound : ∃ i < (k.createIndex g).toNat, ∃ o, k.object g i = some o ∧ o.name = name
  · obtain ⟨i, hi, o, ho, hname⟩ := hfound
    have hunique : ∀ j < (k.createIndex g).toNat, ∃ o', k.object g j = some o' ∧
        (o'.name = name ↔ j = i) := by
      intro j hj
      obtain ⟨o', ho'⟩ := Option.isSome_iff_exists.mp (hsome j hj)
      refine ⟨o', ho', fun hname' => hdistinct j hj i hi ?_, ?_⟩
      · rw [ho', ho, Option.map_some, Option.map_some, hname, hname']
      · rintro rfl
        rw [ho, Option.some_inj] at ho'
        rw [← ho', hname]
    exact Or.inr ⟨i, hi, o, ho, hname, Kind.find_unique hn hi hunique,
      searchFirst_unique (Nat.zero_le i) (by omega) fun j _ hj => hunique j (by omega)⟩
  · push Not at hfound
    have habsent : ∀ i < (k.createIndex g).toNat, ∃ o, k.object g i = some o ∧ o.name ≠ name := by
      intro i hi
      obtain ⟨o, ho⟩ := Option.isSome_iff_exists.mp (hsome i hi)
      exact ⟨o, ho, hfound i hi o ho⟩
    exact Or.inl ⟨hfound, Kind.find_absent hn habsent,
      searchFirst_absent fun i _ hi => habsent i (by omega)⟩

/-- What is found has a slot in the smallest of the tables, if there is room. -/
theorem find_lt (hnames : DistinctNames k g) (h0 : 0 ≤ k.createIndex g)
    (hroom : k.createIndex g < MAX_DLOCK - 1) {found : ℤ} (h : k.find g name = .ok found) :
    found < MAX_DLOCK := by
  have hmax : (MAX_DLOCK : ℤ) = 100 := rfl
  rcases find_cases hnames h0 name with ⟨-, hfind, -⟩ | ⟨i, hi, o, -, -, hfind, -⟩
  · rw [hfind, Except.ok.injEq] at h
    omega
  · rw [hfind, Except.ok.injEq] at h
    omega

/-- An index that is small enough for the smallest of the tables. -/
theorem index_small (k : Kind) {i : ℤ} (h0 : 0 ≤ i) (hi : i < MAX_DLOCK) :
    index k.max i = .ok i.toNat := by
  have hmax : (MAX_DLOCK : ℤ) ≤ k.max := by cases k <;> decide
  exact index_eq_ok h0 (by omega)

theorem SameObject.elim {x x' : Option Object} (h : SameObject k k' x x') :
    x = none ∧ x' = none ∨ ∃ o o', x = some o ∧ x' = some o' ∧ o.name = o'.name ∧
      ∃ place : Place, place.Proper ∧ o.globalId = k.placeId place ∧
        o'.globalId = k'.placeId place := by
  cases h with
  | none => exact Or.inl ⟨rfl, rfl⟩
  | some h => exact Or.inr ⟨_, _, rfl, rfl, h⟩

namespace SameTables

variable (h : SameTables k k' g g')

include h

theorem name_eq (i : ℕ) :
    (k'.object g' i).map Object.name = (k.object g i).map Object.name := by
  rcases (h.objects i).elim with ⟨ho, ho'⟩ | ⟨o, o', ho, ho', hname, -⟩
  · rw [ho, ho']
  · rw [ho, ho', Option.map_some, Option.map_some, hname]

theorem distinctNames (hnames : DistinctNames k g) : DistinctNames k' g' := by
  obtain ⟨hsome, hdistinct⟩ := hnames
  refine ⟨fun i hi => ?_, fun i hi j hj hname => ?_⟩
  · rw [h.createIndex] at hi
    rw [← Option.isSome_map, h.name_eq, Option.isSome_map]
    exact hsome i hi
  · rw [h.createIndex] at hi hj
    rw [h.name_eq, h.name_eq] at hname
    exact hdistinct i hi j hj hname

/-- **The searches** agree. -/
theorem find_eq (hnames : DistinctNames k g) (h0 : 0 ≤ k.createIndex g) (name : Text) :
    k'.find g' name = k.find g name := by
  have hcases := find_cases hnames h0 name
  have hcases' := find_cases (h.distinctNames hnames) (by rwa [h.createIndex]) name
  have hsome {i : ℕ} {o : Object} (ho : k.object g i = some o) :
      ∃ o', k'.object g' i = some o' ∧ o'.name = o.name := by
    have hname := h.name_eq i
    rw [ho, Option.map_some, Option.map_eq_some_iff] at hname
    exact hname
  rcases hcases with ⟨hall, hfind, -⟩ | ⟨i, hi, o, ho, hname, hfind, -⟩
  · rcases hcases' with ⟨-, hfind', -⟩ | ⟨j, hj, o', ho', hname', -, -⟩
    · rw [hfind, hfind']
    · rw [h.createIndex] at hj
      have hname := h.name_eq j
      rw [ho', Option.map_some, eq_comm, Option.map_eq_some_iff] at hname
      obtain ⟨o, ho, hsame⟩ := hname
      exact absurd (hsame.trans hname') (hall j hj o ho)
  · obtain ⟨o', ho', hname'⟩ := hsome ho
    rcases hcases' with ⟨hall', -, -⟩ | ⟨j, hj, o'', ho'', hname'', hfind', -⟩
    · exact absurd (hname'.trans hname) (hall' i (by rwa [h.createIndex]) o' ho')
    · have hij : j = i := (h.distinctNames hnames).2 j hj i (by rwa [h.createIndex]) (by
        rw [ho', ho'', Option.map_some, Option.map_some, hname', hname, hname''])
      subst hij
      rw [hfind, hfind']

/-- **The ids** of the object in a slot are those of one place. -/
theorem globalId_eq_ok {i id : ℤ} (hi : i < MAX_DLOCK) (hid : k.globalId g i = .ok id) :
    ∃ place : Place, place.Proper ∧ id = k.placeId place ∧
      k'.globalId g' i = .ok (k'.placeId place) := by
  rw [Kind.globalId] at hid
  obtain ⟨slot, hslot, hid⟩ := bind_eq_ok.mp hid
  have h0 : 0 ≤ i := by
    rw [index] at hslot
    split_ifs at hslot with hbound
    exact hbound.1
  rw [index_small k h0 hi, Except.ok.injEq] at hslot
  subst hslot
  rcases (h.objects i.toNat).elim with ⟨ho, -⟩ | ⟨o, o', ho, ho', -, place, hplace, hid', hid''⟩
  · rw [ho] at hid
    cases hid
  · rw [ho] at hid
    refine ⟨place, hplace, (Except.ok.inj hid).symm.trans hid', ?_⟩
    rw [Kind.globalId, index_small k' h0 hi, ok_bind, ho', ← hid'']
    rfl

/-- The tables are the same when an object has been stored at the next place of both. -/
theorem store {e : Ambient} {t : NetThread} {n : ℕ} (ht : t.uniqueGlobalID < MAX_CLIENTS)
    (hn : n < MAX_DLOCK) (name : Text) :
    SameTables k k' (k.increment (k.store e n name (t.globalId k.max n) g))
      (k'.increment (k'.store e n name (t.globalId k'.max n) g')) := by
  refine ⟨?_, ?_, fun slot => ?_, ?_, ?_, ?_⟩
  · have := h.serverCount
    cases k <;> cases k' <;> exact this
  · rw [Kind.createIndex_increment, if_pos rfl, Kind.createIndex_increment, if_pos rfl,
      Kind.createIndex_store, Kind.createIndex_store, h.createIndex]
  · rw [Kind.object_increment, Kind.object_increment, Kind.object_store, if_pos rfl,
      Kind.object_store, if_pos rfl, Function.update_apply, Function.update_apply]
    split_ifs
    · exact .some ⟨by rw [Kind.new_name, Kind.new_name], (t, n), ⟨ht, hn⟩, Kind.new_globalId .. ,
        Kind.new_globalId ..⟩
    · exact h.objects slot
  · have := h.lockName
    cases k <;> cases k' <;> exact this
  · have := h.localLockIndex
    cases k <;> cases k' <;> exact this
  · have := h.verifyResponses
    cases k <;> cases k' <;> exact this

/-- **A new object** comes to the same place. -/
theorem createObject_eq {e : Ambient} {t : NetThread} {i : ℕ}
    (ht : t.uniqueGlobalID < MAX_CLIENTS) (h0 : 0 ≤ k.createIndex g)
    (hroom : k.createIndex g < MAX_DLOCK - 1) :
    ∃ (place : Place) (g₁ g₁' : Globals), place.Proper ∧
      createObject k t e i g = .ok (k.placeId place, g₁) ∧
      createObject k' t e i g' = .ok (k'.placeId place, g₁') ∧ SameTables k k' g₁ g₁' ∧
      g₁.verifyResponses = g.verifyResponses ∧ g₁.localLockIndex = g.localLockIndex := by
  obtain ⟨n, hn⟩ := Int.eq_ofNat_of_zero_le h0
  have hmax : (MAX_DLOCK : ℤ) = 100 := rfl
  have hsmall : n < MAX_DLOCK := by omega
  have hname : copyName e g' i = copyName e g i := by rw [copyName, copyName, h.lockName]
  have hcreate : createObject k t e i g = .ok (t.globalId k.max n,
      k.increment (k.store e n (copyName e g i) (t.globalId k.max n) g)) := by
    rw [createObject, hn, index_small k (by omega) (by omega), Int.toNat_natCast]
    rfl
  have hcreate' : createObject k' t e i g' = .ok (t.globalId k'.max n,
      k'.increment (k'.store e n (copyName e g i) (t.globalId k'.max n) g')) := by
    rw [createObject, h.createIndex, hn, index_small k' (by omega) (by omega), Int.toNat_natCast,
      hname]
    rfl
  exact ⟨(t, n), _, _, ⟨ht, hsmall⟩, hcreate, hcreate', h.store ht hsmall _, by cases k <;> rfl,
    by cases k <;> rfl⟩

end SameTables

end

/-! ## Requests -/

section

variable {k k' : Kind} {t : NetThread} {group : List NetThread} {e : Ambient} {name : Text}
  {g g' : Globals} {r : Result}

/-- The globals when the table has been searched. -/
def foundState (i : ℕ) (name : Text) (found : ℤ) (g : Globals) : Globals :=
  { g with
    lockName := Function.update g.lockName i name
    localLockIndex := Function.update g.localLockIndex i found }

theorem SameTables.foundState (h : SameTables k k' g g') (i : ℕ) (name : Text) (found : ℤ) :
    SameTables k k' (foundState i name found g) (foundState i name found g') := by
  refine ⟨h.serverCount, ?_, fun slot => ?_, ?_, ?_, h.verifyResponses⟩
  · have := h.createIndex
    cases k <;> cases k' <;> exact this
  · have := h.objects slot
    cases k <;> cases k' <;> exact this
  · show Function.update g'.lockName i name = Function.update g.lockName i name
    rw [h.lockName]
  · show Function.update g'.localLockIndex i found = Function.update g.localLockIndex i found
    rw [h.localLockIndex]

theorem askedState_responses (i : ℕ) :
    (askedState k e i name g).verifyResponses = Function.update g.verifyResponses i 0 := by
  cases k with
  | lock => exact Function.update_idem _ _ _
  | cv => rfl
  | mv => rfl

theorem SameTables.askedState (h : SameTables k k' g g') (i : ℕ) :
    SameTables k k' (askedState k e i name g) (askedState k' e i name g') := by
  have hfound := h.foundState i name (-1)
  refine ⟨?_, ?_, fun slot => ?_, ?_, ?_, ?_⟩
  · have := hfound.serverCount
    cases k <;> cases k' <;> exact this
  · have := hfound.createIndex
    cases k <;> cases k' <;> exact this
  · have := hfound.objects slot
    cases k <;> cases k' <;> exact this
  · have := hfound.lockName
    cases k <;> cases k' <;> exact this
  · have := hfound.localLockIndex
    cases k <;> cases k' <;> exact this
  · rw [askedState_responses, askedState_responses, h.verifyResponses]

theorem SameTables.resetClient (h : SameTables k k' g g') (i : ℕ) :
    SameTables k k' (resetClient i g) (resetClient i g') := by
  refine ⟨h.serverCount, ?_, fun slot => ?_, h.lockName, ?_, ?_⟩
  · rw [Kind.createIndex_resetClient, Kind.createIndex_resetClient, h.createIndex]
  · rw [Kind.object_resetClient, Kind.object_resetClient]
    exact h.objects slot
  · show Function.update g'.localLockIndex i (-1) = Function.update g.localLockIndex i (-1)
    rw [h.localLockIndex]
  · show Function.update g'.verifyResponses i 0 = Function.update g.verifyResponses i 0
    rw [h.verifyResponses]

/-- **A request of the thread's own client.** -/
theorem create_eq {inPktHdr : PacketHeader} {inMailHdr : MailHeader}
    (hclient : clientOf inPktHdr inMailHdr = t.uniqueGlobalID) (ht : t.uniqueGlobalID < MAX_CLIENTS)
    (h0 : 0 ≤ k.createIndex g) (hroom : k.createIndex g < MAX_DLOCK - 1) :
    create k t e inPktHdr inMailHdr name group g =
      if name.length < 32 then do
        let found ← k.find g name
        if g.serverCount > 1 ∧ found = -1 then do
          let _ ← sprintf MaxMailSize (clientText k.verify t.uniqueGlobalID name)
          return ⟨askedState k e t.uniqueGlobalID.toNat name g, questionsOf k t group name, false⟩
        else do
          let (id, g) ← createOrFind k t e t.uniqueGlobalID.toNat found
            (foundState t.uniqueGlobalID.toNat name found g)
          return ⟨resetClient t.uniqueGlobalID.toNat g, [createReply k t e t.uniqueGlobalID id], true⟩
      else .error .outOfBounds := by
  have hmax : (MAX_DLOCK : ℤ) ≤ k.max := by cases k <;> decide
  obtain ⟨hindex, -⟩ := uniqueGlobalID_fits ht
  rw [create, hclient]
  simp only
  rw [if_pos ⟨h0, by omega⟩, hindex, ok_bind, setName]
  split_ifs
  · have hfind : k.find { g with lockName := Function.update g.lockName t.uniqueGlobalID.toNat name }
        name = k.find g name := by cases k <;> rfl
    rw [ok_bind, hfind]
    cases k.find g name with
    | error fault => rfl
    | ok found =>
      rw [ok_bind, ok_bind]
      by_cases hasked : g.serverCount > 1 ∧ found = -1
      · obtain ⟨hservers, rfl⟩ := hasked
        rw [if_pos ⟨hservers, rfl⟩, if_pos ⟨hservers, rfl⟩, createVerify]
        cases hprint : sprintf MaxMailSize (clientText k.verify t.uniqueGlobalID name) with
        | error fault => rfl
        | ok request =>
          obtain ⟨-, rfl⟩ := sprintf_eq_ok hprint
          rw [ok_bind, hindex]
          rfl
      · rw [if_neg hasked, if_neg hasked]
        rfl
  · rfl

theorem length_verify (k k' : Kind) (client : ℤ) (name : Text) :
    (clientText k.verify client name).length = (clientText k'.verify client name).length := by
  have hcode : (fmtInt k.verify.code).length = (fmtInt k'.verify.code).length := by
    cases k <;> cases k' <;> decide
  simp only [clientText, requestText, List.length_append, List.length_cons, hcode]

/-- The reply about an object that is found here. -/
theorem createReply_same (ht : t.Valid) (place : Place) :
    SameMessage k k' (.request name) (createReply k t e t.uniqueGlobalID (k.placeId place))
      (createReply k' t e t.uniqueGlobalID (k'.placeId place)) := by
  have haddress : clientMachine t.uniqueGlobalID = t.machineID ∧
      clientBox t.uniqueGlobalID = t.mailID := Prod.mk.inj (clientAddress_uniqueGlobalID ht)
  have hreply {k : Kind} (hk : k ≠ .cv) (id : ℤ) :
      (createReply k t e t.uniqueGlobalID id).pktHdr = (replyToUser t e id).pktHdr ∧
        (createReply k t e t.uniqueGlobalID id).mailHdr = (replyToUser t e id).mailHdr := by
    cases k with
    | lock =>
      rw [createReply, haddress.1, haddress.2]
      exact ⟨rfl, rfl⟩
    | cv => exact absurd rfl hk
    | mv => exact ⟨rfl, rfl⟩
  refine .found name place (by cases k <;> rfl) (by cases k' <;> rfl) fun hk hk' => ?_
  rw [(hreply hk _).1, (hreply hk _).2, (hreply hk' _).1, (hreply hk' _).2]
  exact ⟨rfl, rfl⟩

/-- The object with which the request is answered at once. -/
theorem SameTables.createOrFind_eq_ok (h : SameTables k k' g g') (ht : t.uniqueGlobalID < MAX_CLIENTS)
    (h0 : 0 ≤ k.createIndex g) (hroom : k.createIndex g < MAX_DLOCK - 1) {i : ℕ} {found id : ℤ}
    {g₁ : Globals} (hfound : found < MAX_DLOCK)
    (hid : createOrFind k t e i found g = .ok (id, g₁)) :
    ∃ (place : Place) (g₁' : Globals), id = k.placeId place ∧
      createOrFind k' t e i found g' = .ok (k'.placeId place, g₁') ∧ SameTables k k' g₁ g₁' ∧
      g₁.verifyResponses = g.verifyResponses ∧ g₁.localLockIndex = g.localLockIndex := by
  rw [createOrFind] at hid
  rw [createOrFind]
  split_ifs at hid ⊢ with hnew
  · obtain ⟨place, g₂, g₂', -, hcreate, hcreate', hsame, hresponses, hlocal⟩ :=
      h.createObject_eq (e := e) (i := i) ht h0 hroom
    rw [hcreate, Except.ok.injEq, Prod.mk.injEq] at hid
    obtain ⟨rfl, rfl⟩ := hid
    exact ⟨place, g₂', rfl, hcreate', hsame, hresponses, hlocal⟩
  · obtain ⟨id', hid', hid⟩ := bind_eq_ok.mp hid
    rw [pure_eq_ok, Except.ok.injEq, Prod.mk.injEq] at hid
    obtain ⟨rfl, rfl⟩ := hid
    obtain ⟨place, -, hplace, hplace'⟩ := h.globalId_eq_ok hfound hid'
    exact ⟨place, g', hplace, by rw [hplace', ok_bind]; rfl, h, rfl, rfl⟩

/-- **The requests** of the three kinds are the same. -/
theorem SameTables.create_eq_ok (h : SameTables k k' g g') {inPktHdr : PacketHeader}
    {inMailHdr : MailHeader} (hclient : clientOf inPktHdr inMailHdr = t.uniqueGlobalID)
    (ht : t.uniqueGlobalID < MAX_CLIENTS) (hvalid : t.Valid) (hnames : DistinctNames k g)
    (h0 : 0 ≤ k.createIndex g) (hroom : k.createIndex g < MAX_DLOCK - 1)
    (hlocal : ∀ i, g.localLockIndex i < MAX_DLOCK)
    (hr : create k t e inPktHdr inMailHdr name group g = .ok r) :
    ∃ r', create k' t e inPktHdr inMailHdr name group g' = .ok r' ∧
      SameTables k k' r.state r'.state ∧
      List.Forall₂ (SameMessage k k' (.request name)) r.out r'.out ∧
      r.state.verifyResponses = Function.update g.verifyResponses t.uniqueGlobalID.toNat 0 ∧
      ∀ i, r.state.localLockIndex i < MAX_DLOCK := by
  have hfind := h.find_eq hnames h0 name
  rw [create_eq hclient ht h0 hroom] at hr
  rw [create_eq hclient ht (by rwa [h.createIndex]) (by rwa [h.createIndex]), hfind, h.serverCount]
  split_ifs at hr ⊢ with hlength
  obtain ⟨found, hfound, hr⟩ := bind_eq_ok.mp hr
  rw [hfound, ok_bind]
  have hsmall : found < MAX_DLOCK := find_lt hnames h0 hroom hfound
  have hlocal' (found : ℤ) (hsmall : found < MAX_DLOCK) (i : ℕ) :
      Function.update g.localLockIndex t.uniqueGlobalID.toNat found i < MAX_DLOCK := by
    rw [Function.update_apply]
    split_ifs
    · exact hsmall
    · exact hlocal i
  split_ifs at hr ⊢ with hasked
  · obtain ⟨request, hprint, hr⟩ := bind_eq_ok.mp hr
    obtain ⟨hprint, rfl⟩ := sprintf_eq_ok hprint
    rw [pure_eq_ok, Except.ok.injEq] at hr
    subst hr
    rw [sprintf_eq (by rwa [← length_verify k k']), ok_bind]
    refine ⟨_, rfl, h.askedState _, ?_, askedState_responses _, fun i => ?_⟩
    · rw [questionsOf, questionsOf, List.forall₂_map_left_iff, List.forall₂_map_right_iff,
        List.forall₂_same]
      exact fun entry _ => .question name _ _ _
    · have := hlocal' (-1) (by decide) i
      cases k <;> exact this
  · obtain ⟨⟨id, g₁⟩, hid, hr⟩ := bind_eq_ok.mp hr
    obtain rfl := Except.ok.inj hr
    obtain ⟨place, g₁', rfl, hid', hsame, hresponses, hlocal₁⟩ :=
      (h.foundState t.uniqueGlobalID.toNat name found).createOrFind_eq_ok ht (k := k)
        (by cases k <;> exact h0) (by cases k <;> exact hroom) hsmall hid
    rw [hid', ok_bind]
    refine ⟨_, rfl, hsame.resetClient _, .cons (createReply_same hvalid place) .nil, ?_, fun i => ?_⟩
    · show Function.update g₁.verifyResponses _ 0 = _
      rw [hresponses]
      rfl
    · show Function.update g₁.localLockIndex _ (-1) i < _
      rw [hlocal₁]
      show Function.update (Function.update g.localLockIndex t.uniqueGlobalID.toNat found)
        t.uniqueGlobalID.toNat (-1) i < _
      rw [Function.update_idem]
      exact hlocal' (-1) (by decide) i

end

/-! ## Questions -/

section

variable {k k' : Kind} {t : NetThread} {e : Ambient} {inPktHdr : PacketHeader}
  {inMailHdr : MailHeader} {client : ℤ} {name : Text} {g g' : Globals} {r : Result}

/-- The question is dispatched. -/
def verifyCase (k : Kind) (t : NetThread) (e : Ambient) (inPktHdr : PacketHeader)
    (inMailHdr : MailHeader) (s : Text) (g : Globals) : Except Fault Result :=
  match k with
  | .lock => lockVerify t e inPktHdr inMailHdr s g
  | .cv | .mv => objectVerify k t e inPktHdr inMailHdr s g

/-- The mailbox from which the answer comes. -/
def verifyBox (k : Kind) (t : NetThread) : ℤ :=
  match k with
  | .lock => t.mailID
  | .cv | .mv => t.machineID

/-- The response about the object that has been found, if any. -/
def foundResponse (k : Kind) (found : ℤ) (g : Globals) : Except Fault Text :=
  if found = -1 then .ok (k.response none)
  else do
    let id ← k.globalId g found
    return if k = .lock then pairText CreationState.yes.code id else fmtInt id

/-- **A question**: the id of the object with the name, or that there is none. -/
theorem verifyCase_eq (h0 : 0 ≤ client) (hclient : client < MAX_CLIENTS)
    (hnames : DistinctNames k g) (hindex : 0 ≤ k.createIndex g)
    (hstate : if k = .lock then g.lockCreationStates client.toNat ≠ .maybe else e.a = 0) :
    verifyCase k t e inPktHdr inMailHdr (fmtInt client ++ '_' :: name) g =
      if name.length < 32 then do
        let found ← k.find g name
        let response ← foundResponse k found g
        let request ← sprintf MaxMailSize (clientText k.answer client response)
        return ⟨g, [answerTo t e inPktHdr inMailHdr (verifyBox k t) request], true⟩
      else .error .outOfBounds := by
  obtain ⟨hclientIndex, hdigits⟩ := client_fits h0 hclient
  have hread : readClient (fmtInt client ++ '_' :: name) = .ok (client, name) := by
    rw [readClient, readField_append (underscore_not_mem_fmtInt _) (by omega)]
    simp only [ok_bind, pure_eq_ok, atoi_fmtInt]
  by_cases hk : k = .lock
  · subst hk
    rw [if_pos rfl] at hstate
    have hfind : searchFirst (Kind.lock.object g) name g.createDLockIndex.toNat 0 =
        Kind.lock.find g name := by
      rcases find_cases hnames hindex name with ⟨-, hfind, hfirst⟩ | ⟨i, -, o, -, -, hfind, hfirst⟩
      · exact hfirst.trans hfind.symm
      · exact hfirst.trans hfind.symm
    rw [verifyCase, lockVerify, hread]
    simp only [ok_bind, hfind, hclientIndex, lockResponse, if_neg hstate]
    rfl
  · rw [if_neg hk] at hstate
    have hcase : verifyCase k t e inPktHdr inMailHdr (fmtInt client ++ '_' :: name) g =
        objectVerify k t e inPktHdr inMailHdr (fmtInt client ++ '_' :: name) g := by
      cases k with
      | lock => exact absurd rfl hk
      | cv => rfl
      | mv => rfl
    have hbox : verifyBox k t = t.machineID := by
      cases k with
      | lock => exact absurd rfl hk
      | cv => rfl
      | mv => rfl
    have hnone : k.response none = fmtInt (-1) := by
      cases k with
      | lock => exact absurd rfl hk
      | cv => rfl
      | mv => rfl
    rw [hcase, objectVerify, hread]
    simp only [ok_bind, if_neg (not_not.mpr hstate), foundResponse, objectResponse, hbox, hnone,
      if_neg hk]
    split_ifs
    · cases k.find g name with
      | error fault => rfl
      | ok found =>
        rw [ok_bind, ok_bind]
        split_ifs
        · rfl
        · cases k.globalId g found <;> rfl
    · rfl

/-- The response names the place of the object. -/
theorem SameTables.foundResponse_eq_ok (h : SameTables k k' g g') {found : ℤ} {response : Text}
    (hfound : found < MAX_DLOCK) (hr : foundResponse k found g = .ok response) :
    ∃ place : Option Place, (∀ p ∈ place, Place.Proper p) ∧ response = k.response place ∧
      foundResponse k' found g' = .ok (k'.response place) := by
  rw [foundResponse] at hr
  rw [foundResponse]
  by_cases hnone : found = -1
  · rw [if_pos hnone] at hr ⊢
    exact ⟨none, nofun, (Except.ok.inj hr).symm, rfl⟩
  · rw [if_neg hnone] at hr ⊢
    obtain ⟨id, hid, hr⟩ := bind_eq_ok.mp hr
    obtain ⟨place, hproper, rfl, hid'⟩ := h.globalId_eq_ok hfound hid
    have hresponse (k : Kind) : (if k = .lock then
        pairText CreationState.yes.code (k.placeId place) else fmtInt (k.placeId place)) =
          k.response place := by
      cases k <;> rfl
    rw [hresponse] at hr
    refine ⟨place, fun p hp => ?_, (Except.ok.inj hr).symm, ?_⟩
    · rw [← Option.some.inj hp]
      exact hproper
    · rw [hid', ok_bind, hresponse]
      rfl

/-- The ids of proper places have few digits. -/
theorem length_placeId (k : Kind) {place : Option Place} (hplace : ∀ p ∈ place, Place.Proper p) :
    (fmtInt (k.placeId place)).length ≤ 6 := by
  cases place with
  | none => exact (by decide : (fmtInt (-1)).length ≤ 6)
  | some p =>
    obtain ⟨hthread, hslot⟩ := hplace p rfl
    have hmax : (k.max : ℤ) ≤ 500 := by cases k <;> decide
    have hclients : (MAX_CLIENTS : ℤ) = 1000 := rfl
    have hdlock : (MAX_DLOCK : ℕ) = 100 := rfl
    apply length_fmtInt_le_of_nonneg (by norm_num) p.1.globalId_nonneg
    have hproduct : p.1.uniqueGlobalID * (k.max : ℤ) ≤ 999 * 500 :=
      mul_le_mul (by omega) hmax (by omega) (by norm_num)
    rw [NetThread.globalId]
    omega

theorem length_response (k : Kind) {place : Option Place} (hplace : ∀ p ∈ place, Place.Proper p) :
    (k.response place).length ≤ 8 := by
  have hid := length_placeId k hplace
  have hno : (fmtInt CreationState.no.code).length = 1 := by decide
  have hyes : (fmtInt CreationState.yes.code).length = 1 := by decide
  cases k with
  | lock =>
    rw [Kind.response]
    split_ifs
    · omega
    · rw [pairText, List.length_append, List.length_cons, hyes]
      omega
  | cv => exact hid.trans (by norm_num)
  | mv => exact hid.trans (by norm_num)

/-- An answer fits into a mail. -/
theorem length_answer (k : Kind) (hclient : (fmtInt client).length ≤ 3) {place : Option Place}
    (hplace : ∀ p ∈ place, Place.Proper p) :
    (clientText k.answer client (k.response place)).length < MaxMailSize := by
  have hresponse := length_response k hplace
  have hcode : (fmtInt k.answer.code).length = 2 := by cases k <;> decide
  simp only [clientText, requestText, List.length_append, List.length_cons, hcode]
  show _ < 32
  omega

/-- **The questions** about the three kinds are answered the same. -/
theorem SameTables.verify_eq_ok (h : SameTables k k' g g') (h0 : 0 ≤ client)
    (hclient : client < MAX_CLIENTS) (hnames : DistinctNames k g) (hindex : 0 ≤ k.createIndex g)
    (hroom : k.createIndex g < MAX_DLOCK - 1)
    (hstate : if k = .lock then g.lockCreationStates client.toNat ≠ .maybe else e.a = 0)
    (hstate' : if k' = .lock then g'.lockCreationStates client.toNat ≠ .maybe else e.a = 0)
    (hr : verifyCase k t e inPktHdr inMailHdr (fmtInt client ++ '_' :: name) g = .ok r) :
    ∃ r', verifyCase k' t e inPktHdr inMailHdr (fmtInt client ++ '_' :: name) g' = .ok r' ∧
      r.state = g ∧ r'.state = g' ∧
      List.Forall₂ (SameMessage k k' (.verify client name)) r.out r'.out := by
  have hfind := h.find_eq hnames hindex name
  rw [verifyCase_eq h0 hclient hnames hindex hstate] at hr
  rw [verifyCase_eq h0 hclient (h.distinctNames hnames) (by rwa [h.createIndex]) hstate', hfind]
  split_ifs at hr ⊢
  obtain ⟨found, hfound, hr⟩ := bind_eq_ok.mp hr
  obtain ⟨response, hresponse, hr⟩ := bind_eq_ok.mp hr
  obtain ⟨request, hprint, hr⟩ := bind_eq_ok.mp hr
  obtain ⟨-, rfl⟩ := sprintf_eq_ok hprint
  rw [pure_eq_ok, Except.ok.injEq] at hr
  subst hr
  have hsmall : found < MAX_DLOCK := find_lt hnames hindex hroom hfound
  obtain ⟨place, hproper, rfl, hresponse'⟩ := h.foundResponse_eq_ok hsmall hresponse
  rw [hfound, ok_bind, hresponse', ok_bind,
    sprintf_eq (length_answer k' (client_fits h0 hclient).2 hproper), ok_bind]
  refine ⟨_, rfl, rfl, rfl, .cons (.answer client name place _ rfl fun hk hk' => ?_) .nil⟩
  have hbox {k : Kind} (hk : k ≠ .lock) : verifyBox k t = t.machineID := by
    cases k with
    | lock => exact absurd rfl hk
    | cv => rfl
    | mv => rfl
  exact (hbox hk).trans (hbox hk').symm

end

/-! ## Answers -/

section

variable {k k' : Kind} {t : NetThread} {e : Ambient} {i : ℕ} {g g' : Globals} {r : Result}

theorem placeId_eq_neg_one (k : Kind) (place : Option Place) :
    k.placeId place = -1 ↔ place = none := by
  cases place with
  | none => exact iff_of_true rfl rfl
  | some p =>
    have h : 0 ≤ k.placeId (some p) := p.1.globalId_nonneg
    exact iff_of_false (by omega) nofun

/-- **The collected answers** give the first place that one of them names. -/
theorem otherServer_eq {l : List (Option Place)} {row : ℕ}
    (h : ∀ p ∈ l.zipIdx row, ReadsAs k g i p.1 p.2) :
    otherServer g i l.length row = .ok (k.placeId (l.findSome? id)) := by
  induction l generalizing row with
  | nil => rfl
  | cons place l ih =>
    rw [List.zipIdx_cons] at h
    obtain ⟨memory, hmemory, hnone, hid⟩ := h _ List.mem_cons_self
    rw [mem_toOption] at hmemory
    rw [List.length_cons, otherServer, hmemory, ok_bind, hnone]
    cases place with
    | none =>
      exact ih fun p hp => h p (List.mem_cons_of_mem _ hp)
    | some p =>
      rw [hid (by rintro ⟨⟩)]
      rfl

/-- **The decision** is the same. -/
theorem SameTables.settle_eq_ok (h : SameTables k k' g g') (ht : t.uniqueGlobalID < MAX_CLIENTS)
    (h0 : 0 ≤ k.createIndex g) (hroom : k.createIndex g < MAX_DLOCK - 1)
    (hlocal : ∀ i, g.localLockIndex i < MAX_DLOCK) {other : Option Place} {id : ℤ} {g₁ : Globals}
    (hid : settle k t e i (k.placeId other) g = .ok (id, g₁)) :
    ∃ (place : Option Place) (g₁' : Globals), id = k.placeId place ∧
      settle k' t e i (k'.placeId other) g' = .ok (k'.placeId place, g₁') ∧ SameTables k k' g₁ g₁' ∧
      g₁.verifyResponses = g.verifyResponses ∧ g₁.localLockIndex = g.localLockIndex := by
  rw [settle] at hid
  rw [settle, h.localLockIndex]
  simp only [placeId_eq_neg_one] at hid ⊢
  by_cases hown : g.localLockIndex i = -1
  · rw [if_pos hown] at hid ⊢
    by_cases hother : other = none
    · rw [if_pos hother] at hid ⊢
      obtain ⟨place, g₂, g₂', -, hcreate, hcreate', hsame, hresponses, hlocal'⟩ :=
        h.createObject_eq (e := e) (i := i) ht h0 hroom
      rw [hcreate, Except.ok.injEq, Prod.mk.injEq] at hid
      obtain ⟨rfl, rfl⟩ := hid
      exact ⟨place, g₂', rfl, hcreate', hsame, hresponses, hlocal'⟩
    · rw [if_neg hother] at hid ⊢
      rw [Except.ok.injEq, Prod.mk.injEq] at hid
      obtain ⟨rfl, rfl⟩ := hid
      exact ⟨other, g', rfl, rfl, h, rfl, rfl⟩
  · rw [if_neg hown] at hid ⊢
    by_cases hother : other = none
    · rw [if_pos hother] at hid ⊢
      obtain ⟨id', hid', hid⟩ := bind_eq_ok.mp hid
      rw [pure_eq_ok, Except.ok.injEq, Prod.mk.injEq] at hid
      obtain ⟨rfl, rfl⟩ := hid
      obtain ⟨place, -, rfl, hplace⟩ := h.globalId_eq_ok (hlocal i) hid'
      exact ⟨place, g', rfl, by rw [hplace, ok_bind]; rfl, h, rfl, rfl⟩
    · rw [if_neg hother] at hid ⊢
      rw [Except.ok.injEq, Prod.mk.injEq] at hid
      obtain ⟨rfl, rfl⟩ := hid
      exact ⟨none, g', rfl, rfl, h, rfl, rfl⟩

/-- The buffer is no part of the tables. -/
theorem SameTables.stored (h : SameTables k k' g g') (buffer buffer' : ℕ → Char) :
    SameTables k k' { g with verifyBuffer := buffer } { g' with verifyBuffer := buffer' } := by
  refine ⟨h.serverCount, ?_, fun slot => ?_, h.lockName, h.localLockIndex, h.verifyResponses⟩
  · have := h.createIndex
    cases k <;> cases k' <;> exact this
  · have := h.objects slot
    cases k <;> cases k' <;> exact this

theorem SameTables.counted (h : SameTables k k' g g') (i : ℕ) (count : ℤ) :
    SameTables k k'
      { g with verifyResponses := Function.update g.verifyResponses i count }
      { g' with verifyResponses := Function.update g'.verifyResponses i count } := by
  refine ⟨h.serverCount, ?_, fun slot => ?_, h.lockName, h.localLockIndex, ?_⟩
  · have := h.createIndex
    cases k <;> cases k' <;> exact this
  · have := h.objects slot
    cases k <;> cases k' <;> exact this
  · show Function.update g'.verifyResponses i count = Function.update g.verifyResponses i count
    rw [h.verifyResponses]

/-- **When all answers are in** the reply is the same. -/
theorem SameTables.conclude_eq_ok (h : SameTables k k' g g') (ht : t.uniqueGlobalID < MAX_CLIENTS)
    (h0 : 0 ≤ k.createIndex g) (hroom : k.createIndex g < MAX_DLOCK - 1)
    (hlocal : ∀ i, g.localLockIndex i < MAX_DLOCK) (answers : List (Option Place))
    (hreads : ∀ p ∈ answers.zipIdx, ReadsAs k g i p.1 p.2)
    (hreads' : ∀ p ∈ answers.zipIdx, ReadsAs k' g' i p.1 p.2)
    (hr : conclude k t e i answers.length g = .ok r) (client : ℤ) (last : Option Place) :
    ∃ r', conclude k' t e i answers.length g' = .ok r' ∧ SameTables k k' r.state r'.state ∧
      List.Forall₂ (SameMessage k k' (.answer client last)) r.out r'.out ∧
      r.state.verifyResponses = Function.update g.verifyResponses i 0 ∧
      ∀ i, r.state.localLockIndex i < MAX_DLOCK := by
  have hother : otherServer g i answers.length 0 = _ := otherServer_eq hreads
  have hother' : otherServer g' i answers.length 0 = _ := otherServer_eq hreads'
  rw [conclude, hother, ok_bind] at hr
  rw [conclude, hother', ok_bind]
  obtain ⟨⟨id, g₁⟩, hsettle, hr⟩ := bind_eq_ok.mp hr
  obtain rfl := Except.ok.inj hr
  obtain ⟨place, g₁', rfl, hsettle', hsame, hresponses, hlocal₁⟩ :=
    h.settle_eq_ok ht h0 hroom hlocal hsettle
  rw [hsettle', ok_bind]
  refine ⟨_, rfl, hsame.resetClient i, .cons (.decided client last place _ _) .nil, ?_, fun j => ?_⟩
  · show Function.update g₁.verifyResponses i 0 = _
    rw [hresponses]
  · show Function.update g₁.localLockIndex i (-1) j < _
    rw [hlocal₁, Function.update_apply]
    split_ifs
    · decide
    · exact hlocal j

/-- **When the answer has been stored** it is counted, and with the last of them comes the same
    decision. -/
theorem SameTables.collect_eq_ok (h : SameTables k k' g g') (ht : t.uniqueGlobalID < MAX_CLIENTS)
    (h0 : 0 ≤ k.createIndex g) (hroom : k.createIndex g < MAX_DLOCK - 1)
    (hlocal : ∀ i, g.localLockIndex i < MAX_DLOCK) (answers : List (Option Place))
    (hcount : g.verifyResponses i + 1 = answers.length)
    (hreads : g.verifyResponses i + 1 = g.serverCount - 1 →
      ∀ p ∈ answers.zipIdx, ReadsAs k g i p.1 p.2)
    (hreads' : g'.verifyResponses i + 1 = g'.serverCount - 1 →
      ∀ p ∈ answers.zipIdx, ReadsAs k' g' i p.1 p.2)
    (hr : collect k t e i g = .ok r) (client : ℤ) (last : Option Place) :
    ∃ r', collect k' t e i g' = .ok r' ∧ SameTables k k' r.state r'.state ∧
      List.Forall₂ (SameMessage k k' (.answer client last)) r.out r'.out ∧
      r.state.verifyResponses = Function.update g.verifyResponses i
        (if g.verifyResponses i + 1 = g.serverCount - 1 then 0 else g.verifyResponses i + 1) ∧
      ∀ i, r.state.localLockIndex i < MAX_DLOCK := by
  have hcounted := h.counted i (g.verifyResponses i + 1)
  rw [h.verifyResponses] at hcounted hreads'
  rw [collect] at hr
  rw [collect, h.verifyResponses]
  simp only at hr ⊢
  by_cases hlast : g.verifyResponses i + 1 = g.serverCount - 1
  · have hlast' : g.verifyResponses i + 1 = g'.serverCount - 1 := by rw [hlast, h.serverCount]
    rw [if_pos hlast, show (g.verifyResponses i + 1).toNat = answers.length by omega] at hr
    rw [if_pos hlast', if_pos hlast, show (g.verifyResponses i + 1).toNat = answers.length by omega]
    obtain ⟨r', hr', hsame, hout, hresponses, hlocal'⟩ :=
      hcounted.conclude_eq_ok ht (by cases k <;> exact h0) (by cases k <;> exact hroom) hlocal
        answers (hreads hlast) (hreads' hlast') hr client last
    refine ⟨r', hr', hsame, hout, hresponses.trans ?_, hlocal'⟩
    exact Function.update_idem _ _ _
  · have hlast' : ¬ g.verifyResponses i + 1 = g'.serverCount - 1 := by rwa [h.serverCount]
    rw [if_neg hlast, Except.ok.injEq] at hr
    subst hr
    rw [if_neg hlast', if_neg hlast]
    exact ⟨_, rfl, hcounted, .nil, rfl, hlocal⟩

/-- An answer that is processed names a client. -/
theorem objectAnswer_client {client : ℤ} {response : Text}
    (h : objectAnswer k t e (fmtInt client ++ '_' :: response) g = .ok r) :
    0 ≤ client ∧ client < MAX_CLIENTS := by
  rw [objectAnswer] at h
  obtain ⟨p, hread, h⟩ := bind_eq_ok.mp h
  rw [readClient_eq_ok hread] at h
  obtain ⟨i, hindex, -⟩ := bind_eq_ok.mp h
  rw [index] at hindex
  split_ifs at hindex with hbound
  exact hbound

end

/-! ## The runs -/

/-- The counts are those of the answers, and what has been found has its place in the smallest of
    the tables. -/
structure ProtocolInv (s : Protocol) : Prop where
  count : ∀ i, s.globals.verifyResponses i = (s.answers i).length
  localLockIndex : ∀ i, s.globals.localLockIndex i < MAX_DLOCK

theorem ProtocolInv.init (serverCount : ℤ) : ProtocolInv (.init serverCount) :=
  ⟨fun _ => rfl, fun _ => show (0 : ℤ) < MAX_DLOCK by decide⟩

theorem SameProtocol.init (k k' : Kind) (serverCount : ℤ) :
    SameProtocol k k' (.init serverCount) (.init serverCount) := by
  refine ⟨⟨rfl, ?_, fun slot => ?_, rfl, rfl, rfl⟩, rfl, .nil⟩
  · cases k <;> cases k' <;> rfl
  · cases k <;> cases k' <;> exact .none

section

variable {k k' : Kind} {t : NetThread} {group : List NetThread} {s s' s₁ : Protocol} {a : Arrival}

/-- Where only the count of one client's answers changes, the answers that count are known. -/
theorem ProtocolInv.remember (h : ProtocolInv s) {g : Globals} {i : ℕ} {count : ℤ}
    (hresponses : g.verifyResponses = Function.update s.globals.verifyResponses i count)
    (hlocal : ∀ i, g.localLockIndex i < MAX_DLOCK) (sent : List (CreationText × List Message))
    {content : CreationText}
    (hcount : count = 0 ∨ count = s.globals.verifyResponses i ∨
      ∃ (client : ℤ) (place : Option Place), content = .answer client place ∧ client.toNat = i ∧
        count = s.globals.verifyResponses i + 1) :
    ProtocolInv ⟨g, Network.remember s.answers content g, sent⟩ := by
  refine ⟨fun j => ?_, hlocal⟩
  have hj := h.count j
  show g.verifyResponses j = ((Network.remember s.answers content g j).length : ℤ)
  rw [Network.remember, List.length_take, hresponses, Function.update_apply]
  have hall : (s.answers j).length ≤ (addAnswer s.answers content j).length := by
    cases content with
    | request name => exact le_rfl
    | verify client name => exact le_rfl
    | answer client place =>
      rw [addAnswer, Function.update_apply]
      split_ifs with hclient
      · rw [hclient, List.length_append]
        exact Nat.le_add_right _ _
      · exact le_rfl
  split_ifs with hi
  · subst hi
    rcases hcount with rfl | rfl | ⟨client, place, rfl, rfl, rfl⟩
    · rfl
    · omega
    · rw [addAnswer, Function.update_self, List.length_append, List.length_singleton]
      omega
  · omega

/-- **One message.** -/
theorem SameProtocol.step (h : SameProtocol k k' s s') (hinv : ProtocolInv s)
    (ht : t.uniqueGlobalID < MAX_CLIENTS) (hvalid : t.Valid) (hok : ProtocolOk k t s a)
    (hok' : ProtocolOk k' t s' a) (hs₁ : protocolStep k t group s a = .ok s₁) :
    ∃ s₁', protocolStep k' t group s' a = .ok s₁' ∧ SameProtocol k k' s₁ s₁' ∧ ProtocolInv s₁ := by
  obtain ⟨⟨h0, hroom⟩, hnames, hcontent⟩ := hok
  obtain ⟨-, -, hcontent'⟩ := hok'
  rw [protocolStep, bind_eq_ok] at hs₁
  obtain ⟨r, hr, hs₁⟩ := hs₁
  rw [pure_eq_ok, Except.ok.injEq] at hs₁
  subst hs₁
  have hcount : s.globals.serverCount = group.length := by
    by_contra hne
    rw [processMessage, if_pos hne] at hr
    cases hr
  have hcount' : s'.globals.serverCount = group.length := by rw [h.tables.serverCount, hcount]
  -- it is enough that the handlers agree
  suffices hhandler : ∃ r', processMessage ⟨t, a.e, a.inPktHdr, a.inMailHdr⟩ (a.content.text k')
      group s'.globals = .ok r' ∧ SameTables k k' r.state r'.state ∧
      List.Forall₂ (SameMessage k k' a.content) r.out r'.out ∧
      ProtocolInv ⟨r.state, remember s.answers a.content r.state, s.sent ++ [(a.content, r.out)]⟩ by
    obtain ⟨r', hr', hsame, hout, hinv'⟩ := hhandler
    refine ⟨_, by rw [protocolStep, hr', ok_bind]; rfl, ⟨hsame, ?_, ?_⟩, hinv'⟩
    · show remember s'.answers a.content r'.state = remember s.answers a.content r.state
      funext i
      rw [remember, remember, h.answers, hsame.verifyResponses]
    · exact List.rel_append h.sent (.cons ⟨rfl, hout⟩ .nil)
  cases hc : a.content with
  | request name =>
    rw [hc] at hr hcontent
    rw [CreationText.text, processMessage_requestText _ _ _ hcount] at hr
    rw [CreationText.text, processMessage_requestText _ _ _ hcount']
    obtain ⟨r', hr', hsame, hout, hresponses, hlocal⟩ :=
      h.tables.create_eq_ok hcontent ht hvalid hnames h0 hroom hinv.localLockIndex
        (by cases k <;> exact hr)
    exact ⟨r', by cases k' <;> exact hr', hsame, hout,
      hinv.remember hresponses hlocal _ (Or.inl rfl)⟩
  | verify client name =>
    rw [hc] at hr hcontent hcontent'
    rw [CreationText.text, clientText, processMessage_requestText _ _ _ hcount] at hr
    rw [CreationText.text, clientText, processMessage_requestText _ _ _ hcount']
    obtain ⟨r', hr', hstate, hstate', hout⟩ :=
      h.tables.verify_eq_ok hcontent.1.1 hcontent.1.2 hnames h0 hroom hcontent.2 hcontent'.2
        (by cases k <;> exact hr)
    refine ⟨r', by cases k' <;> exact hr', by rw [hstate, hstate']; exact h.tables, hout, ?_⟩
    rw [hstate]
    exact hinv.remember (Function.update_eq_self 0 _).symm hinv.localLockIndex _ (Or.inr (Or.inl rfl))
  | answer client place =>
    rw [hc] at hr hcontent hcontent'
    obtain ⟨hk, g, hset, hreads⟩ := hcontent
    obtain ⟨hk', g', hset', hreads'⟩ := hcontent'
    rw [mem_toOption] at hset hset'
    have hcase {k : Kind} (hk : k ≠ .lock) (g : Globals) (hg : g.serverCount = group.length) :
        processMessage ⟨t, a.e, a.inPktHdr, a.inMailHdr⟩ ((CreationText.answer client place).text k)
          group g = objectAnswer k t a.e (fmtInt client ++ '_' :: k.response place) g := by
      rw [CreationText.text, clientText, processMessage_requestText _ _ _ hg]
      cases k with
      | lock => exact absurd rfl hk
      | cv => rfl
      | mv => rfl
    rw [hcase hk _ hcount] at hr
    rw [hcase hk' _ hcount']
    obtain ⟨hclient0, hclient⟩ := objectAnswer_client hr
    rw [objectAnswer_eq hclient0 hclient] at hr
    rw [objectAnswer_eq hclient0 hclient]
    split_ifs at hr ⊢
    rw [hset, ok_bind] at hr
    rw [hset', ok_bind]
    obtain ⟨buffer, rfl⟩ := setRow_eq_ok hset
    obtain ⟨buffer', rfl⟩ := setRow_eq_ok hset'
    rw [h.answers] at hreads'
    obtain ⟨r', hr', hsame, hout, hresponses, hlocal⟩ :=
      (h.tables.stored buffer buffer').collect_eq_ok ht (by cases k <;> exact h0)
        (by cases k <;> exact hroom) hinv.localLockIndex (s.answers client.toNat ++ [place])
        (by rw [List.length_append, Nat.cast_add, ← hinv.count]; rfl) hreads hreads' hr client place
    refine ⟨r', hr', hsame, hout, hinv.remember hresponses hlocal _ ?_⟩
    by_cases hlast : s.globals.verifyResponses client.toNat + 1 = s.globals.serverCount - 1
    · exact Or.inl (if_pos hlast)
    · exact Or.inr (Or.inr ⟨client, place, rfl, rfl, if_neg hlast⟩)

/-- **Creating a lock, a condition variable and a monitor variable** is the same for any messages
    that meet the condition in both runs. -/
theorem creations_alike (ht : t.uniqueGlobalID < MAX_CLIENTS) (hvalid : t.Valid) {serverCount : ℤ}
    {arrivals : List Arrival}
    (hok : Guarded (protocolStep k t group) (ProtocolOk k t) (.init serverCount) arrivals)
    (hok' : Guarded (protocolStep k' t group) (ProtocolOk k' t) (.init serverCount) arrivals)
    (hs : exec (protocolStep k t group) (.init serverCount) arrivals = .ok s) :
    ∃ s', exec (protocolStep k' t group) (.init serverCount) arrivals = .ok s' ∧
      SameProtocol k k' s s' := by
  have hrun : ∀ {start start' : Protocol}, SameProtocol k k' start start' → ProtocolInv start →
      Guarded (protocolStep k t group) (ProtocolOk k t) start arrivals →
      Guarded (protocolStep k' t group) (ProtocolOk k' t) start' arrivals →
      exec (protocolStep k t group) start arrivals = .ok s →
      ∃ s', exec (protocolStep k' t group) start' arrivals = .ok s' ∧ SameProtocol k k' s s' := by
    clear hok hok' hs
    induction arrivals with
    | nil =>
      intro start start' hsame _ _ _ hs
      cases hs
      exact ⟨start', rfl, hsame⟩
    | cons a arrivals ih =>
      intro start start' hsame hinv hok hok' hs
      obtain ⟨next, hnext, hs⟩ := exec_cons_eq_ok hs
      obtain ⟨next', hnext', hsame', hinv'⟩ := hsame.step hinv ht hvalid hok.1 hok'.1 hnext
      obtain ⟨s', hs', hend⟩ := ih hsame' hinv' (hok.2 next hnext) (hok'.2 next' hnext') hs
      exact ⟨s', by rw [exec_cons_ok hnext', hs'], hend⟩
  exact hrun (.init k k' serverCount) (.init serverCount) hok hok' hs

/-- A condition variable that nobody has, and one that (0, 2) has, against monitor variables. -/
theorem creations_alike_cv_mv :
    let t : NetThread := ⟨1, 0⟩
    let group : List NetThread := [t, ⟨1, 2⟩, ⟨0, 2⟩]
    let arrival (content : CreationText) : Arrival := ⟨.clear ⟨4, 0⟩, ⟨1, 1⟩, ⟨0, 1⟩, content⟩
    let arrivals : List Arrival :=
      [arrival (.request ['A']), arrival (.answer 100 none), arrival (.answer 100 none),
        arrival (.request ['A']), arrival (.verify 200 ['A']), arrival (.request ['B']),
        arrival (.answer 100 (some (⟨0, 2⟩, 3))), arrival (.answer 100 none)]
    ∃ s s', exec (protocolStep .cv t group) (.init 3) arrivals = .ok s ∧
      (s.sent.map fun p => p.2.map (·.data)) =
        [["14_100_A".toList, "14_100_A".toList], [], ["10000".toList], ["10000".toList],
          ["17_200_10000".toList], ["14_100_B".toList, "14_100_B".toList], [], ["203".toList]] ∧
      exec (protocolStep .mv t group) (.init 3) arrivals = .ok s' ∧ SameProtocol .cv .mv s s' := by
  intro t group arrival arrivals
  have hrun : Ends (protocolStep .cv t group) (.init 3) arrivals fun s =>
      (s.sent.map fun p => p.2.map (·.data)) =
        [["14_100_A".toList, "14_100_A".toList], [], ["10000".toList], ["10000".toList],
          ["17_200_10000".toList], ["14_100_B".toList, "14_100_B".toList], [], ["203".toList]] := by
    decide +kernel
  obtain ⟨s, hs, hsent⟩ := hrun
  have hok' : Guarded (protocolStep .mv t group) (ProtocolOk .mv t) (.init 3) arrivals := by
    decide +kernel
  obtain ⟨s', hs', hsame⟩ := creations_alike (by decide) (by decide) (by decide +kernel) hok' hs
  exact ⟨s, s', hs, hsent, hs', hsame⟩

/-- **A lock is adopted** with the first answer that names one, while a monitor variable waits for
    all answers. -/
theorem lock_decides_early :
    let t : NetThread := ⟨1, 0⟩
    let group : List NetThread := [t, ⟨1, 2⟩, ⟨0, 2⟩]
    let arrival (content : CreationText) : Arrival := ⟨.clear ⟨4, 0⟩, ⟨1, 1⟩, ⟨0, 1⟩, content⟩
    let arrivals : List Arrival :=
      [arrival (.request ['A']), arrival (.answer 100 (some (⟨0, 2⟩, 3)))]
    ∃ s s', exec (protocolStep .lock t group) (.init 3) arrivals = .ok s ∧
      exec (protocolStep .mv t group) (.init 3) arrivals = .ok s' ∧
      ¬ SameProtocol .lock .mv s s' := by
  intro t group arrival arrivals
  have hlock : Ends (protocolStep .lock t group) (.init 3) arrivals fun s =>
      (s.sent.map fun p => p.2.length) = [2, 1] := by
    decide +kernel
  have hmv : Ends (protocolStep .mv t group) (.init 3) arrivals fun s =>
      (s.sent.map fun p => p.2.length) = [2, 0] := by
    decide +kernel
  obtain ⟨s, hs, hsent⟩ := hlock
  obtain ⟨s', hs', hsent'⟩ := hmv
  refine ⟨s, s', hs, hs', fun hsame => ?_⟩
  have hcount : (s.sent.map fun p => p.2.length) = s'.sent.map fun p => p.2.length := by
    rw [← List.forall₂_eq_eq_eq, List.forall₂_map_left_iff, List.forall₂_map_right_iff]
    exact hsame.sent.imp fun _ _ h => h.2.length_eq
  rw [hsent, hsent'] at hcount
  cases hcount

end

end Nachos.Network
