import Nachos.Network.Forwarding
import Nachos.Network.Sending

/-!
# The object tables of a single server

Runs of create and destroy requests on the three tables, together with the list of
the objects that have been created and not destroyed. A table is a stack: new
objects go to the create index, which every destroy decrements, and slots below it
are searched without a test for null.

* `tables_exact_iff`: the tables are exact after every request if and only if every
  destroy of a live object hits the top of its stack, and smaller conditions on names,
  ids and mailboxes hold.
* `tables_not_exact`: destroying the first of two locks leaves a hole.
-/

namespace Nachos.Network

open Nachos.Lib

/-! ## Runs -/

/-- The request that destroys an object. -/
def Kind.destroy : Kind → RequestType
  | lock => .destroyLock
  | cv => .destroyCv
  | mv => .destroyMv

/-- A request of the user thread: a name that fits into a message, or any number. -/
inductive TableRequest
  | create (k : Kind) (name : Text) (short : name.length < 30) (e : Ambient) (p : Office)
  | destroy (k : Kind) (id : ℤ) (int : IsInt id) (e : Ambient) (p : Office)

namespace TableRequest

def e : TableRequest → Ambient
  | create _ _ _ e _ | destroy _ _ _ e _ => e

def office : TableRequest → Office
  | create _ _ _ _ p | destroy _ _ _ _ p => p

/-- The text of the request. -/
def text : TableRequest → Text
  | create k name _ _ _ => requestText k.request name
  | destroy k id _ _ _ => requestText k.destroy (fmtInt id)

end TableRequest

/-- The globals, the objects of each kind that are live, as they were created, and
    whether all replies have agreed with them. -/
structure TableState where
  globals : Globals
  live : Kind → List Object
  agrees : Bool

/-- Book-keeping of a request that has been processed. A live name is to be answered
    with the id of its object; any other reply names a new object. -/
def TableRequest.record (q : TableRequest) (r : Result) (s : TableState) : TableState :=
  match q with
  | create k name _ e _ =>
    match (s.live k).find? (·.name = name) with
    | some o => ⟨r.state, s.live, s.agrees && r.out.map Message.data = [fmtInt o.globalId]⟩
    | none => ⟨r.state, Function.update s.live k
        (s.live k ++ r.out.map fun reply => k.new e name (atoi reply.data)), s.agrees⟩
  | destroy k id _ _ _ =>
    if r.success then
      ⟨r.state, Function.update s.live k ((s.live k).filter (·.globalId ≠ id)), s.agrees⟩
    else ⟨r.state, s.live, s.agrees⟩

/-- The one network thread processes a request of its user thread. -/
def tableStep (t : NetThread) (s : TableState) (q : TableRequest) : Except Fault TableState := do
  let r ← serve (t.user.call t q.e) q.office q.text [t] s.globals
  return q.record r s

/-- A server that has just started. -/
def TableState.init : TableState := ⟨.init 1, fun _ => [], true⟩

/-- **The tables are exact**: live objects are stored unmodified in the slot that their
    id names, the slots below the create index are not null, and replies have agreed. -/
structure TablesExact (s : TableState) : Prop where
  stored : ∀ k, ∀ o ∈ s.live k, k.object s.globals (o.globalId.tmod k.max).toNat = some o
  dense : ∀ (k : Kind) (slot : ℕ), (slot : ℤ) < k.createIndex s.globals →
    k.object s.globals slot ≠ none
  agrees : s.agrees = true

/-- The mailbox that the reply to a create request of the thread's own user goes to. -/
def Kind.replyBox (k : Kind) (t : NetThread) : ℤ :=
  match k with
  | lock => clientBox t.uniqueGlobalID + 1
  | cv => clientBox t.uniqueGlobalID
  | mv => t.mailID + 1

/-- The reply to the request of the thread's own user to destroy an object of the
    thread. -/
def Kind.destroyReply (k : Kind) (t : NetThread) (e : Ambient) (id : ℤ) : Message :=
  let pktHdr := { e.outPktHdr with toMachine := clientMachine t.uniqueGlobalID }
  let box := clientBox t.uniqueGlobalID
  match k with
  | lock => outgoing t pktHdr { toBox := box + 1, fromBox := t.mailID } (idText id (e.heapTail 0))
  | cv => outgoing t pktHdr { toBox := box, fromBox := t.machineID } (fmtInt (id.tmod MAX_DCV))
  | mv => outgoing t pktHdr { toBox := box, fromBox := t.machineID } (idText id (e.heapTail 0))

/-- The message by which such a request for the object of another thread is forwarded.
    For a monitor variable the mailbox was never set. -/
def Kind.forwarded (k : Kind) (t : NetThread) (e : Ambient) (id : ℤ) : Message :=
  let box := match k with
    | lock | cv => id.tdiv k.max
    | mv => e.outMailHdr.toBox + 1
  (t.user.call t e).forwarded k.destroy (id.tdiv k.max) box t.uniqueGlobalID (fmtInt id)

/-- What keeps the tables exact. As long as the table accepts requests, the client
    number is an index of the scratch arrays, the reply has a mailbox, and an object with
    the empty name is created in clear memory; a live name is asked for while the table
    accepts requests. A live object that is destroyed is the last of its table, and the id
    of a monitor variable fits into the buffer of the reply. The reply, and a request that
    is forwarded, are taken by `Send`. -/
def TableOk (t : NetThread) (s : TableState) (q : TableRequest) : Prop :=
  match q with
  | .create k name _ e _ =>
    (k.createIndex s.globals < k.max - 1 →
      t.uniqueGlobalID < MAX_CLIENTS ∧ k.replyBox t < Mail.numBoxes) ∧
      if ∃ o ∈ s.live k, o.name = name then k.createIndex s.globals < k.max - 1
      else name = [] → k.createIndex s.globals < k.max - 1 → e.localLockName = []
  | .destroy k id _ e p =>
    (∀ o ∈ s.live k, o.globalId = id → id.tmod k.max = k.createIndex s.globals - 1 ∧
      (k = .mv → id < 100000) ∧ p.Takes t (k.destroyReply t e id)) ∧
    (id.tdiv k.max ≠ t.uniqueGlobalID → p.Takes t (k.forwarded t e id))

instance (t : NetThread) (s : TableState) (q : TableRequest) : Decidable (TableOk t s q) := by
  cases q <;> unfold TableOk <;> infer_instance

/-! ## The stack behind a table -/

/-- The table of a kind implements a stack of objects. -/
structure Stack (t : NetThread) (k : Kind) (g : Globals) (objects : List Object) : Prop where
  index : k.createIndex g = objects.length
  bound : objects.length < k.max
  slots : ∀ slot, k.object g slot = objects[slot]?
  ids : ∀ slot o, objects[slot]? = some o → o.globalId = t.globalId k.max slot
  names : (objects.map Object.name).Nodup
  owner : objects ≠ [] → t.uniqueGlobalID < MAX_CLIENTS

/-- The live objects of each kind are the stack that its table implements. -/
structure TablesInv (t : NetThread) (s : TableState) : Prop where
  server : s.globals.serverCount = 1
  agrees : s.agrees = true
  tables : ∀ k, Stack t k s.globals (s.live k)

variable {t : NetThread} {s s' : TableState}

theorem TablesInv.init : TablesInv t .init where
  server := rfl
  agrees := rfl
  tables k :=
    { index := by cases k <;> rfl
      bound := by cases k <;> decide
      slots := fun slot => by cases k <;> rfl
      ids := fun slot o h => nomatch h
      names := List.nodup_nil
      owner := fun h => absurd rfl h }

theorem TablesInv.exact (h : TablesInv t s) : TablesExact s where
  stored k o ho := by
    obtain ⟨slot, hslot, rfl⟩ := List.getElem_of_mem ho
    have hk := h.tables k
    rw [hk.ids slot _ (List.getElem?_eq_getElem hslot), t.globalId_tmod (hslot.trans hk.bound),
      Int.toNat_natCast, hk.slots, List.getElem?_eq_getElem hslot]
  dense k slot hslot := by
    rw [(h.tables k).index] at hslot
    rw [(h.tables k).slots, List.getElem?_eq_getElem (by omega)]
    exact Option.some_ne_none _
  agrees := h.agrees

/-- Of the globals the invariant reads the tables and the create indices only. -/
theorem Stack.of_tables {k : Kind} {g g' : Globals} {objects : List Object}
    (h : Stack t k g objects) (hobject : k.object g' = k.object g)
    (hindex : k.createIndex g' = k.createIndex g) : Stack t k g' objects :=
  { h with
    index := hindex.trans h.index
    slots := fun slot => by rw [hobject, h.slots] }

/-- A step on one of the stacks. -/
theorem TablesInv.update (h : TablesInv t s) {k : Kind} {g : Globals} {objects : List Object}
    (hserver : g.serverCount = 1) (hk : Stack t k g objects)
    (hother : ∀ k', k' ≠ k → k'.object g = k'.object s.globals ∧
      k'.createIndex g = k'.createIndex s.globals) :
    TablesInv t ⟨g, Function.update s.live k objects, s.agrees⟩ where
  server := hserver
  agrees := h.agrees
  tables k' := by
    by_cases hne : k' = k
    · subst hne
      simpa using hk
    · obtain ⟨hobject, hindex⟩ := hother k' hne
      simpa [hne] using (h.tables k').of_tables hobject hindex

/-! ## Create requests -/

section

variable {k : Kind} {e : Ambient} {inPktHdr : PacketHeader} {inMailHdr : MailHeader} {name : Text}
  {group : List NetThread} {g : Globals} {i : ℕ} {found : ℤ}

/-- The scratch arrays after the search. -/
def searched (i : ℕ) (name : Text) (found : ℤ) (g : Globals) : Globals :=
  { g with
    lockName := Function.update g.lockName i name
    localLockIndex := Function.update g.localLockIndex i found }

@[simp] theorem object_searched : k.object (searched i name found g) = k.object g := by
  cases k <;> rfl

@[simp] theorem createIndex_searched : k.createIndex (searched i name found g) = k.createIndex g := by
  cases k <;> rfl

/-- A create request to a single server, up to the search. -/
theorem create_single (hserver : g.serverCount = 1) (hclient : clientOf inPktHdr inMailHdr = i)
    (hi : i < MAX_CLIENTS) (hrange : 0 ≤ k.createIndex g ∧ k.createIndex g < k.max - 1)
    (hname : name.length < 32) (hfind : k.find g name = .ok found) :
    create k t e inPktHdr inMailHdr name group g = (do
      let (id, g') ← createOrFind k t e i found (searched i name found g)
      return ⟨resetClient i g', [createReply k t e i id], true⟩) := by
  have hfind' : k.find { g with lockName := Function.update g.lockName i name } name = .ok found := by
    rw [← hfind]
    cases k <;> rfl
  rw [create, if_pos hrange, hclient, index_natCast hi, ok_bind, setName, if_pos hname, ok_bind,
    hfind', ok_bind]
  exact if_neg (fun h => absurd (hserver ▸ h.1) (lt_irrefl _))

/-- A table that is full refuses. -/
theorem create_full (h : (k.max : ℤ) - 1 ≤ k.createIndex g) :
    create k t e inPktHdr inMailHdr name group g = .ok (.failed g) := by
  rw [create, if_neg (by omega)]

theorem createOrFind_found {slot : ℕ} {o : Object} (hslot : slot < k.max)
    (ho : k.object g slot = some o) : createOrFind k t e i slot g = .ok (o.globalId, g) := by
  rw [createOrFind, if_neg (by omega), Kind.globalId, index_natCast hslot, ok_bind, ho]
  rfl

theorem createOrFind_new {n : ℕ} (hn : k.createIndex g = n) (hslot : n < k.max) :
    createOrFind k t e i (-1) g = .ok (t.globalId k.max n,
      k.increment (k.store e n (copyName e g i) (t.globalId k.max n) g)) := by
  rw [createOrFind, if_pos rfl, createObject, hn, index_natCast hslot, ok_bind]
  rfl

end

/-! ## Destroy requests -/

/-- Empty a slot and decrement the create index. -/
def Kind.clear (k : Kind) (slot : ℕ) (g : Globals) : Globals :=
  match k with
  | lock => { g.setLock slot none with createDLockIndex := g.createDLockIndex - 1 }
  | cv => { g.setCv slot none with createDCVIndex := g.createDCVIndex - 1 }
  | mv => { g.setMv slot none with createDMVIndex := g.createDMVIndex - 1 }

theorem Kind.object_clear (k k' : Kind) (slot : ℕ) (g : Globals) : k'.object (k.clear slot g) =
    if k' = k then Function.update (k.object g) slot none else k'.object g := by
  funext i
  cases k <;> cases k' <;> simp only [reduceCtorEq, if_true, if_false] <;> try rfl
  all_goals
    simp only [object, clear, Globals.setLock_dlocks, Globals.setCv_cvs, Globals.setMv_mvs,
      Function.update_apply]
    split_ifs <;> rfl

theorem Kind.createIndex_clear (k k' : Kind) (slot : ℕ) (g : Globals) :
    k'.createIndex (k.clear slot g) = if k' = k then k.createIndex g - 1 else k'.createIndex g := by
  cases k <;> cases k' <;> rfl

section

variable {k : Kind} {e : Ambient} {group : List NetThread} {g : Globals} {id : ℤ}

/-- The operation behind a destroy request. -/
def Kind.destroyObject (k : Kind) (c : Call) (id : ℤ) (g : Globals) : Except Fault Result :=
  match k with
  | lock => destroyLock c.t c.e id c.e.outPktHdr c.client g
  | cv => c.deleteCV id c.client g
  | mv => destroyMV c.t c.e id c.e.outPktHdr c.client g

/-- A destroy request of the user thread is forwarded or executed. -/
theorem dispatch_destroy (group : List NetThread) (hid : IsInt id) :
    dispatch (t.user.call t e) group k.destroy (fmtInt id) g =
      if id.tdiv k.max ≠ t.uniqueGlobalID then
        (t.user.call t e).forward k.destroy (id.tdiv k.max) (k.forwarded t e id).mailHdr.toBox
          t.uniqueGlobalID (fmtInt id) g
      else k.destroyObject (t.user.call t e) id g := by
  have hread := readOne_direct t.uniqueGlobalID (s := fmtInt id)
    (by have := hid.length_le; show _ < 32; omega) (fmtInt_ne_nil _) (fmtInt_head? _)
  cases k <;>
    · simp only [Kind.destroy, dispatch, Call.destroyLock, Call.destroyCV, Call.destroyMV,
        Call.oneArgument, NetThread.user_call_client, hread, ok_bind, atoi_fmtInt, Origin.call_t,
        Kind.destroyObject]
      rfl

/-- An id in an empty slot, or out of range, is refused. -/
theorem Kind.destroyObject_none {c : Call}
    (h : 0 ≤ id → k.object g (id.tmod k.max).toNat = none) :
    k.destroyObject c id g = .ok (.failed g) := by
  by_cases hid : 0 ≤ id
  · have h := h hid
    cases k <;> simp only [object, Option.map_eq_none_iff, max] at h <;>
      simp only [destroyObject, destroyLock, destroyMV, Call.deleteCV, h] <;> split_ifs <;> rfl
  · cases k <;> exact if_pos (Or.inl (by omega))

/-- An object of the thread is destroyed, if the reply can be printed. -/
theorem Kind.destroyObject_some {slot : ℕ} {o : Object} (hslot : slot < k.max)
    (ht : t.uniqueGlobalID < MAX_CLIENTS) (ho : k.object g slot = some o)
    (hid : o.globalId = t.globalId k.max slot) (hmv : k = .mv → o.globalId < 100000) :
    k.destroyObject (t.user.call t e) o.globalId g =
      .ok ⟨k.clear slot g, [k.destroyReply t e o.globalId], true⟩ := by
  have h0 : 0 ≤ o.globalId := hid ▸ t.globalId_nonneg
  have hclient := NetThread.user_call_client t t e
  cases k with
  | lock =>
    obtain ⟨l, hl, rfl⟩ := Option.map_eq_some_iff.mp ho
    have hrange := mt (t.globalId_refused_iff hslot).mp (not_le.mpr ht)
    rw [← hid, max] at hrange
    have hack : itoa 5 l.globalId (e.heapTail 0) = _ :=
      itoa_globalId h0 (by push_cast at hrange; omega) (e.heapTail 0)
    rw [destroyObject, hclient, Origin.call_t, Origin.call_e,
      show Object.globalId (.lock l) = t.globalId MAX_DLOCK slot from hid,
      destroyLock_own _ _ _ _ _ hslot ht hl, hack, hid]
    rfl
  | cv =>
    obtain ⟨cv, hcv, rfl⟩ := Option.map_eq_some_iff.mp ho
    have hslot : slot < MAX_DCV := hslot
    have hdelete : (t.user.call t e).deleteCV _ t.uniqueGlobalID g = _ :=
      Call.deleteCV_own hslot (by rw [Origin.call_t]; exact ht) hcv
    rw [Origin.call_t, Origin.call_e, show t.globalId MAX_DCV slot = _ from hid.symm] at hdelete
    rw [destroyObject, hclient, hdelete, destroyReply, hid,
      show t.globalId Kind.cv.max slot = t.globalId MAX_DCV slot from rfl, t.globalId_tmod hslot]
    rfl
  | mv =>
    obtain ⟨v, hv, rfl⟩ := Option.map_eq_some_iff.mp ho
    have hack : itoa 5 v.globalId (e.heapTail 0) = _ := itoa_globalId h0 (hmv rfl) (e.heapTail 0)
    rw [destroyObject, hclient, Origin.call_t, Origin.call_e,
      show Object.globalId (.mv v) = t.globalId MAX_DMV slot from hid,
      destroyMV_own _ _ _ _ _ hslot ht hv, hack, hid]
    rfl

/-- The reply about a monitor variable whose id has six digits overflows. -/
theorem Kind.destroyObject_overflow {slot : ℕ} {o : Object} (hslot : slot < MAX_DMV)
    (ht : t.uniqueGlobalID < MAX_CLIENTS) (ho : Kind.mv.object g slot = some o)
    (hid : o.globalId = t.globalId MAX_DMV slot) (hlong : 100000 ≤ o.globalId) :
    Kind.mv.destroyObject (t.user.call t e) o.globalId g = .error .outOfBounds := by
  obtain ⟨v, hv, rfl⟩ := Option.map_eq_some_iff.mp ho
  have hrange := mt (t.globalId_refused_iff hslot).mp (not_le.mpr ht)
  obtain ⟨n, hn⟩ := Int.eq_ofNat_of_zero_le ((t.globalId_nonneg : 0 ≤ t.globalId MAX_DMV slot))
  change v.globalId = _ at hid
  change 100000 ≤ v.globalId at hlong
  rw [hid, hn] at hlong
  push_cast [hn] at hrange
  rw [destroyObject, show Object.globalId (.mv v) = _ from hid, Origin.call_t, Origin.call_e,
    destroyMV_own _ _ _ _ _ hslot ht hv, hid, hn,
    itoa_overflow (by norm_num; omega) (by norm_num; omega)]
  rfl

end

/-! ## The steps of the stack -/

namespace Stack

variable {k : Kind} {e : Ambient} {name : Text} {g : Globals} {objects : List Object}

theorem object_of_lt (h : Stack t k g objects) {slot : ℕ} (hslot : slot < objects.length) :
    k.object g slot = some objects[slot] := by
  rw [h.slots, List.getElem?_eq_getElem hslot]

theorem globalId_getElem (h : Stack t k g objects) {slot : ℕ} (hslot : slot < objects.length) :
    objects[slot].globalId = t.globalId k.max slot :=
  h.ids slot _ (List.getElem?_eq_getElem hslot)

/-- The search finds a live name. -/
theorem find_live (h : Stack t k g objects) {slot : ℕ} (hslot : slot < objects.length)
    (hname : objects[slot].name = name) : k.find g name = .ok slot := by
  refine Kind.find_unique h.index hslot fun j hj => ⟨_, h.object_of_lt hj, fun hj' => ?_, ?_⟩
  · have hinj := List.nodup_iff_injective_getElem.mp h.names
    have hsame : (⟨j, by simpa using hj⟩ : Fin (objects.map Object.name).length) =
        ⟨slot, by simpa using hslot⟩ := hinj (by simpa using hj'.trans hname.symm)
    simpa using hsame
  · rintro rfl
    exact hname

/-- It does not find any other. -/
theorem find_new (h : Stack t k g objects) (hname : ¬ ∃ o ∈ objects, o.name = name) :
    k.find g name = .ok (-1) :=
  Kind.find_absent h.index fun _ hi => ⟨_, h.object_of_lt hi, fun heq =>
    hname ⟨_, List.getElem_mem hi, heq⟩⟩

/-- A new object goes on top of the stack. -/
theorem push (h : Stack t k g objects) (ht : t.uniqueGlobalID < MAX_CLIENTS)
    (hroom : objects.length + 1 < k.max) (hname : ¬ ∃ o ∈ objects, o.name = name) :
    let id := t.globalId k.max objects.length
    Stack t k (k.increment (k.store e objects.length name id g)) (objects ++ [k.new e name id]) where
  index := by simp [Kind.createIndex_increment, h.index]
  bound := by simpa using hroom
  slots slot := by
    simp only [Kind.object_increment, Kind.object_store, if_true]
    rcases lt_trichotomy slot objects.length with hlt | rfl | hgt
    · rw [Function.update_of_ne hlt.ne, h.slots, List.getElem?_append_left hlt]
    · simp
    · rw [Function.update_of_ne hgt.ne', h.slots, List.getElem?_eq_none_iff.mpr hgt.le,
        List.getElem?_eq_none_iff.mpr (by simpa using hgt)]
  ids slot o ho := by
    rcases lt_or_ge slot objects.length with hlt | hge
    · rw [List.getElem?_append_left hlt] at ho
      exact h.ids slot o ho
    · rw [List.getElem?_append_right hge, List.getElem?_singleton] at ho
      split_ifs at ho with hz
      cases ho
      rw [Kind.new_globalId, show slot = objects.length by omega]
  names := by
    rw [List.map_append, List.nodup_append]
    refine ⟨h.names, List.nodup_singleton _, ?_⟩
    simp only [List.mem_map, List.map_cons, Kind.new_name, List.map_nil, List.mem_singleton,
      forall_eq, forall_exists_index, and_imp]
    exact fun n o ho hn heq => hname ⟨o, ho, hn.trans heq⟩
  owner _ := ht

/-- The object on top of the stack is taken off. -/
theorem pop (h : Stack t k g objects) {n : ℕ} (hn : objects.length = n + 1) :
    Stack t k (k.clear n g) objects.dropLast where
  index := by simp [Kind.createIndex_clear, h.index, hn]
  bound := by
    have := h.bound
    rw [List.length_dropLast]
    omega
  slots slot := by
    simp only [Kind.object_clear, if_true]
    by_cases hs : slot = n
    · rw [hs, Function.update_self, eq_comm, List.getElem?_eq_none_iff, List.length_dropLast, hn]
      omega
    · rw [Function.update_of_ne hs, h.slots, List.getElem?_dropLast]
      split_ifs with hlt
      · rfl
      · exact List.getElem?_eq_none_iff.mpr (by omega)
  ids slot o ho := by
    rw [List.getElem?_dropLast] at ho
    split_ifs at ho
    exact h.ids slot o ho
  names := h.names.sublist ((List.dropLast_sublist _).map _)
  owner _ := h.owner (by rintro rfl; simp at hn)

/-- Its id is the only one of its kind. -/
theorem filter_top (h : Stack t k g objects) {n : ℕ} (hn : objects.length = n + 1) :
    objects.filter (·.globalId ≠ t.globalId k.max n) = objects.dropLast := by
  have hne : objects ≠ [] := by rintro rfl; simp at hn
  conv_lhs => rw [← List.dropLast_append_getLast hne]
  have hlast : [objects.getLast hne].filter (·.globalId ≠ t.globalId k.max n) = [] := by
    have := h.globalId_getElem (show n < objects.length by omega)
    simp [List.getLast_eq_getElem, hn, this]
  rw [List.filter_append, hlast, List.append_nil, List.filter_eq_self]
  intro o ho
  obtain ⟨slot, hslot, rfl⟩ := List.getElem_of_mem ho
  have hlt : slot < n := by simpa [hn] using hslot
  rw [List.getElem_dropLast, h.globalId_getElem (by omega)]
  have hid : t.globalId k.max slot ≠ t.globalId k.max n := by
    simp only [NetThread.globalId]
    omega
  simpa using hid

/-- An id that is not in the stack stands for an empty slot. -/
theorem object_none (h : Stack t k g objects) {id : ℤ} (hid : id.tdiv k.max = t.uniqueGlobalID)
    (h0 : 0 ≤ id) (hnot : ∀ o ∈ objects, o.globalId ≠ id) :
    k.object g (id.tmod k.max).toNat = none := by
  rw [h.slots, List.getElem?_eq_none_iff]
  by_contra hlt
  rw [not_le] at hlt
  refine hnot _ (List.getElem_mem hlt) ?_
  rw [h.globalId_getElem hlt, NetThread.globalId, ← hid, Int.toNat_of_nonneg (Int.tmod_nonneg _ h0)]
  exact Int.tdiv_mul_add_tmod id k.max

end Stack

/-! ## Create steps -/

section

variable {k : Kind} {e : Ambient} {p : Office} {name : Text} {short : name.length < 30}

theorem tableStep_create (h : TablesInv t s) :
    tableStep t s (.create k name short e p) = (do
      let c := t.user.call t e
      let r ← p.carry t (create k t e c.inPktHdr c.inMailHdr name [t] s.globals)
      return (TableRequest.create k name short e p).record r s) := by
  simp only [tableStep, serve, TableRequest.text, TableRequest.e, TableRequest.office, Origin.call_t]
  rw [processMessage_requestText _ _ _ (by rw [h.server]; rfl)]
  cases k <;> rfl

@[simp] theorem createReply_data {client id : ℤ} :
    (createReply k t e client id).data = fmtInt id := by
  cases k <;> rfl

/-- The reply with the id of an object of the thread is short, so `Send` takes it if
    its mailbox is there. -/
theorem createReply_taken {slot : ℕ} (ht : t.uniqueGlobalID < MAX_CLIENTS) (hslot : slot < k.max) :
    p.Takes t (createReply k t e t.uniqueGlobalID (t.globalId k.max slot)) ↔
      k.replyBox t < Mail.numBoxes := by
  have hint : IsInt (t.globalId k.max slot) := by
    have h0 : 0 ≤ t.globalId k.max slot := t.globalId_nonneg
    have hmax : k.max ≤ 500 := by cases k <;> decide
    have hid : t.globalId k.max slot < 1000 * k.max := by
      rw [NetThread.globalId]
      have : t.uniqueGlobalID * k.max ≤ 999 * k.max := by
        have : t.uniqueGlobalID < 1000 := ht
        gcongr
        omega
      omega
    constructor <;> norm_num <;> omega
  have hbox : (createReply k t e t.uniqueGlobalID (t.globalId k.max slot)).mailHdr.toBox = k.replyBox t := by
    cases k <;> rfl
  have hreply : 0 ≤ k.replyBox t := by
    have hclient : 0 ≤ clientBox t.uniqueGlobalID := by
      rw [clientBox_of_nonneg t.uniqueGlobalID_nonneg]
      omega
    cases k
    · exact add_nonneg hclient zero_le_one
    · exact hclient
    · exact (by omega : (0 : ℤ) ≤ t.mailID + 1)
  rw [Office.takes_of_short (by rw [createReply_data]; exact hint.length_le.trans (by norm_num)), hbox]
  exact and_iff_right hreply

/-- A request that the table accepts, from the search on. -/
theorem tableStep_room (h : TablesInv t s) (ht : t.uniqueGlobalID < MAX_CLIENTS)
    (hroom : k.createIndex s.globals < k.max - 1) {found : ℤ}
    (hfind : k.find s.globals name = .ok found) {slot : ℕ} {g : Globals} (hslot : slot < k.max)
    (hcreate : createOrFind k t e t.uniqueGlobalID.toNat found
      (searched t.uniqueGlobalID.toNat name found s.globals) = .ok (t.globalId k.max slot, g)) :
    tableStep t s (.create k name short e p) =
      if k.replyBox t < Mail.numBoxes then
        .ok ((TableRequest.create k name short e p).record ⟨resetClient t.uniqueGlobalID.toNat g,
          [createReply k t e t.uniqueGlobalID (t.globalId k.max slot)], true⟩ s)
      else .error .assertion := by
  have hnat : (t.uniqueGlobalID.toNat : ℤ) = t.uniqueGlobalID :=
    Int.toNat_of_nonneg t.uniqueGlobalID_nonneg
  have hclient : (t.user.call t e).client = (t.uniqueGlobalID.toNat : ℤ) := by
    rw [NetThread.user_call_client, hnat]
  have hindex := (h.tables k).index
  have hi : t.uniqueGlobalID.toNat < MAX_CLIENTS := by
    show _ < 1000
    have : t.uniqueGlobalID < 1000 := ht
    omega
  rw [tableStep_create h]
  dsimp only
  rw [create_single h.server hclient hi ⟨by omega, hroom⟩ (by omega : name.length < 32) hfind, hcreate,
    ok_bind, hnat]
  dsimp only
  rw [pure_eq_ok, Office.carry_single]
  simp only [createReply_taken ht hslot]
  split_ifs <;> rfl

/-- The client numbers of a thread beyond the scratch arrays are out of bounds. -/
theorem tableStep_noClient (h : TablesInv t s) (ht : (MAX_CLIENTS : ℤ) ≤ t.uniqueGlobalID)
    (hroom : k.createIndex s.globals < k.max - 1) :
    tableStep t s (.create k name short e p) = .error .outOfBounds := by
  have hindex := (h.tables k).index
  have hclient : (t.user.call t e).client = t.uniqueGlobalID := NetThread.user_call_client t t e
  rw [tableStep_create h]
  dsimp only
  rw [create, if_pos ⟨by omega, hroom⟩, show clientOf _ _ = _ from hclient, index, if_neg (by omega)]
  rfl

/-- A full table stays as it is. -/
theorem tableStep_full (h : TablesInv t s) (hfull : (k.max : ℤ) - 1 ≤ k.createIndex s.globals) :
    tableStep t s (.create k name short e p) =
      .ok ((TableRequest.create k name short e p).record (.failed s.globals) s) := by
  rw [tableStep_create h]
  simp only [create_full hfull, Result.failed, Office.carry_silent, ok_bind, pure_eq_ok]

/-- A live name is answered with the id of its object, if the reply has a mailbox. -/
theorem tableStep_live (h : TablesInv t s) (hroom : k.createIndex s.globals < k.max - 1)
    (hlive : ∃ o ∈ s.live k, o.name = name) :
    ∃ s', TablesInv t s' ∧ tableStep t s (.create k name short e p) =
      if k.replyBox t < Mail.numBoxes then .ok s' else .error .assertion := by
  obtain ⟨o, ho⟩ := Option.isSome_iff_exists.mp
    (List.find?_isSome.mpr (by simpa using hlive) : ((s.live k).find? (·.name = name)).isSome)
  obtain ⟨slot, hslot, rfl⟩ := List.getElem_of_mem (List.mem_of_find?_eq_some ho)
  have hname : (s.live k)[slot].name = name := by simpa using List.find?_some ho
  have hk := h.tables k
  let i := t.uniqueGlobalID.toNat
  refine ⟨⟨resetClient i (searched i name slot s.globals), s.live, s.agrees⟩,
    ⟨h.server, h.agrees, fun k' => (h.tables k').of_tables (by simp) (by simp)⟩, ?_⟩
  have hobject : k.object (searched i name slot s.globals) slot = some (s.live k)[slot] := by
    simpa using hk.object_of_lt hslot
  have hcreate := createOrFind_found (t := t) (e := e) (i := i) (hslot.trans hk.bound) hobject
  rw [hk.globalId_getElem hslot] at hcreate
  rw [tableStep_room h (hk.owner (by rintro h0; simp [h0] at hslot)) hroom (hk.find_live hslot hname)
    (hslot.trans hk.bound) hcreate]
  simp [TableRequest.record, ho, i, hk.globalId_getElem hslot]

/-- A new name gets the slot of the create index. -/
theorem tableStep_new (h : TablesInv t s) (ht : t.uniqueGlobalID < MAX_CLIENTS)
    (hroom : k.createIndex s.globals < k.max - 1) (hlive : ¬ ∃ o ∈ s.live k, o.name = name) :
    let i := t.uniqueGlobalID.toNat
    let id := t.globalId k.max (s.live k).length
    tableStep t s (.create k name short e p) =
      if k.replyBox t < Mail.numBoxes then .ok
        ⟨resetClient i (k.increment (k.store e (s.live k).length
            (if name = [] then e.localLockName else name) id (searched i name (-1) s.globals))),
          Function.update s.live k (s.live k ++ [k.new e name id]), s.agrees⟩
      else .error .assertion := by
  have hk := h.tables k
  have hfind : (s.live k).find? (·.name = name) = none := by
    rw [List.find?_eq_none]
    exact fun o ho heq => hlive ⟨o, ho, by simpa using heq⟩
  have hindex : k.createIndex (searched t.uniqueGlobalID.toNat name (-1) s.globals) = (s.live k).length := by
    rw [createIndex_searched, hk.index]
  dsimp only
  rw [tableStep_room h ht hroom (hk.find_new hlive) hk.bound (createOrFind_new hindex hk.bound)]
  simp [TableRequest.record, hfind, copyName, searched]

end

/-! ## Destroy steps -/

section

variable {k : Kind} {e : Ambient} {p : Office} {id : ℤ} {int : IsInt id}

theorem tableStep_other (h : TablesInv t s) (hother : id.tdiv k.max ≠ t.uniqueGlobalID) :
    tableStep t s (.destroy k id int e p) = (do
      let c := t.user.call t e
      let r ← p.carry c.t (c.forward k.destroy (id.tdiv k.max) (k.forwarded t e id).mailHdr.toBox
        t.uniqueGlobalID (fmtInt id) s.globals)
      return (TableRequest.destroy k id int e p).record r s) := by
  simp only [tableStep, serve, TableRequest.text, TableRequest.e, TableRequest.office]
  rw [processMessage_requestText _ _ _ (by rw [h.server]; rfl), dispatch_destroy _ int, if_pos hother]

/-- A request for the object of another thread changes nothing, if `Send` takes it. -/
theorem tableStep_forward (h : TablesInv t s) (hother : id.tdiv k.max ≠ t.uniqueGlobalID)
    (htaken : p.Takes t (k.forwarded t e id)) : tableStep t s (.destroy k id int e p) = .ok s := by
  have hfilter : (s.live k).filter (·.globalId ≠ id) = s.live k := by
    rw [List.filter_eq_self]
    intro o ho
    obtain ⟨slot, hslot, rfl⟩ := List.getElem_of_mem ho
    have hk := h.tables k
    simp only [ne_eq, decide_eq_true_eq]
    rintro rfl
    exact hother (hk.globalId_getElem hslot ▸ t.globalId_tdiv (hslot.trans hk.bound))
  rw [tableStep_other h hother]
  dsimp only
  rw [Call.carry_forward (by rw [Origin.call_t]; exact htaken)]
  simp only [ok_bind, pure_eq_ok, TableRequest.record, if_true, hfilter, Function.update_eq_self]

theorem tableStep_noForward (h : TablesInv t s) (hother : id.tdiv k.max ≠ t.uniqueGlobalID)
    (hrefused : ¬ p.Takes t (k.forwarded t e id)) :
    ∃ f, tableStep t s (.destroy k id int e p) = .error f := by
  have hfault : ∃ f, p.carry (t.user.call t e).t ((t.user.call t e).forward k.destroy (id.tdiv k.max)
      (k.forwarded t e id).mailHdr.toBox t.uniqueGlobalID (fmtInt id) s.globals) = .error f :=
    Call.carry_forward_fault (by rw [Origin.call_t]; exact hrefused)
  obtain ⟨f, hf⟩ := hfault
  refine ⟨f, ?_⟩
  rw [tableStep_other h hother]
  dsimp only
  rw [hf]
  rfl

/-- A request that is executed by the thread itself. -/
theorem tableStep_destroy (h : TablesInv t s) (hown : id.tdiv k.max = t.uniqueGlobalID) :
    tableStep t s (.destroy k id int e p) = (do
      let r ← p.carry t (k.destroyObject (t.user.call t e) id s.globals)
      return (TableRequest.destroy k id int e p).record r s) := by
  simp only [tableStep, serve, TableRequest.text, TableRequest.e, TableRequest.office, Origin.call_t]
  rw [processMessage_requestText _ _ _ (by rw [h.server]; rfl), dispatch_destroy _ int,
    if_neg (not_not.mpr hown)]

/-- Nothing happens to an object that is not live. -/
theorem tableStep_dead (h : TablesInv t s) (hown : id.tdiv k.max = t.uniqueGlobalID)
    (hdead : ∀ o ∈ s.live k, o.globalId ≠ id) : tableStep t s (.destroy k id int e p) = .ok s := by
  rw [tableStep_destroy h hown, Kind.destroyObject_none fun h0 => (h.tables k).object_none hown h0 hdead]
  rfl

/-- A live object is taken out of its slot, if `Send` takes the reply. -/
theorem tableStep_clear (h : TablesInv t s) {slot : ℕ} (hslot : slot < (s.live k).length)
    (hid : id = t.globalId k.max slot) (hmv : k = .mv → id < 100000) :
    tableStep t s (.destroy k id int e p) =
      if p.Takes t (k.destroyReply t e id) then .ok ⟨k.clear slot s.globals,
        Function.update s.live k ((s.live k).filter (·.globalId ≠ id)), s.agrees⟩
      else .error .assertion := by
  have hk := h.tables k
  have hlt := hslot.trans hk.bound
  have hglobal := hk.globalId_getElem hslot
  have hclear := Kind.destroyObject_some (e := e) hlt
    (hk.owner (by rintro h0; simp [h0] at hslot)) (hk.object_of_lt hslot) hglobal
    (by rw [hglobal, ← hid]; exact hmv)
  rw [hglobal, ← hid] at hclear
  rw [tableStep_destroy h (hid ▸ t.globalId_tdiv hlt), hclear, Office.carry_single]
  split_ifs <;> rfl

theorem tableStep_overflow (h : TablesInv t s) {slot : ℕ} (hslot : slot < (s.live .mv).length)
    (hid : id = t.globalId MAX_DMV slot) (hlong : 100000 ≤ id) :
    tableStep t s (.destroy .mv id int e p) = .error .outOfBounds := by
  have hk := h.tables .mv
  have hlt := hslot.trans hk.bound
  have hglobal : _ = t.globalId MAX_DMV slot := hk.globalId_getElem hslot
  have hover := Kind.destroyObject_overflow (e := e) hlt
    (hk.owner (by rintro h0; simp [h0] at hslot)) (hk.object_of_lt hslot) hglobal
    (by rw [hglobal, ← hid]; exact hlong)
  rw [hglobal, ← hid] at hover
  rw [tableStep_destroy h (hid ▸ t.globalId_tdiv hlt), hover]
  rfl

end

/-! ## Exactness -/

/-- **Step lemma**, for a request that keeps the tables exact. -/
theorem tableStep_ok {q : TableRequest} (h : TablesInv t s) (hq : TableOk t s q) :
    ∃ s', tableStep t s q = .ok s' ∧ TablesInv t s' := by
  cases q with
  | create k name short e p =>
    obtain ⟨hclient, hname⟩ := hq
    have hk := h.tables k
    by_cases hlive : ∃ o ∈ s.live k, o.name = name
    · rw [if_pos hlive] at hname
      obtain ⟨s', hs', hstep⟩ : ∃ s', TablesInv t s' ∧ tableStep t s (.create k name short e p) = _ :=
        tableStep_live h hname hlive
      exact ⟨s', hstep.trans (if_pos (hclient hname).2), hs'⟩
    · rw [if_neg hlive] at hname
      by_cases hroom : k.createIndex s.globals < k.max - 1
      · -- the name is copied as it is, so the new object is the one that is recorded
        have hcopy : (if name = [] then e.localLockName else name) = name := by
          split_ifs with hnil
          · exact (hname hnil hroom).trans hnil.symm
          · rfl
        obtain ⟨ht, hbox⟩ := hclient hroom
        refine ⟨_, (tableStep_new h ht hroom hlive).trans (if_pos hbox), ?_⟩
        rw [hcopy]
        have hsearched : Stack t k (searched t.uniqueGlobalID.toNat name (-1) s.globals) (s.live k) :=
          hk.of_tables (by simp) (by simp)
        have hlength : (s.live k).length + 1 < k.max := by
          have := hk.index
          omega
        refine h.update ?_ ((hsearched.push (e := e) ht hlength hlive).of_tables (by simp)
          (by simp)) fun k' hne => ?_
        · rw [← h.server]
          cases k <;> rfl
        · simp [Kind.object_store, Kind.createIndex_increment, hne]
      · have hfind : (s.live k).find? (·.name = name) = none := by
          rw [List.find?_eq_none]
          exact fun o ho heq => hlive ⟨o, ho, by simpa using heq⟩
        refine ⟨s, ?_, h⟩
        rw [tableStep_full h (by omega)]
        simp [TableRequest.record, hfind, Result.failed]
  | destroy k id int e p =>
    obtain ⟨hlive, hforward⟩ := hq
    have hk := h.tables k
    by_cases hown : id.tdiv k.max = t.uniqueGlobalID
    · by_cases hdead : ∀ o ∈ s.live k, o.globalId ≠ id
      · exact ⟨s, tableStep_dead h hown hdead, h⟩
      · push Not at hdead
        obtain ⟨o, ho, hid⟩ := hdead
        obtain ⟨htop, hmv, htaken⟩ := hlive o ho hid
        obtain ⟨slot, hslot, rfl⟩ := List.getElem_of_mem ho
        rw [hk.globalId_getElem hslot] at hid
        rw [← hid, t.globalId_tmod (hslot.trans hk.bound), hk.index] at htop
        have hn : (s.live k).length = slot + 1 := by omega
        refine ⟨_, (tableStep_clear h hslot hid.symm hmv).trans (if_pos htaken), ?_⟩
        rw [← hid, hk.filter_top hn]
        refine h.update ?_ (hk.pop hn) fun k' hne => ?_
        · rw [← h.server]
          cases k <;> rfl
        · simp [Kind.object_clear, Kind.createIndex_clear, hne]
    · exact ⟨s, tableStep_forward h hown (hforward hown), h⟩

/-- A create request that is not `TableOk` stops the thread or leaves tables that are not
    exact. -/
theorem tableStep_create_not_exact {k : Kind} {name : Text} {short : name.length < 30} {e : Ambient}
    {p : Office} (h : TablesInv t s) (hq : ¬ TableOk t s (.create k name short e p))
    (hs' : tableStep t s (.create k name short e p) = .ok s') : ¬ TablesExact s' := by
  intro hexact
  have hk := h.tables k
  by_cases hroom : k.createIndex s.globals < k.max - 1
  · by_cases ht : t.uniqueGlobalID < MAX_CLIENTS
    · by_cases hlive : ∃ o ∈ s.live k, o.name = name
      · obtain ⟨s'', -, hstep⟩ : ∃ s'', TablesInv t s'' ∧ tableStep t s (.create k name short e p) = _ :=
          tableStep_live h hroom hlive
        have hbox : ¬ k.replyBox t < Mail.numBoxes := fun hbox =>
          hq ⟨fun _ => ⟨ht, hbox⟩, by rw [if_pos hlive]; exact hroom⟩
        rw [hstep, if_neg hbox] at hs'
        cases hs'
      · rw [tableStep_new h ht hroom hlive] at hs'
        by_cases hbox : k.replyBox t < Mail.numBoxes
        swap
        · rw [if_neg hbox] at hs'
          cases hs'
        rw [if_pos hbox] at hs'
        cases hs'
        -- the object with the empty name got another one
        have hmemory : name = [] ∧ e.localLockName ≠ [] := by
          by_contra hcon
          refine hq ⟨fun _ => ⟨ht, hbox⟩, ?_⟩
          rw [if_neg hlive]
          exact fun hnil _ => by_contra fun hne => hcon ⟨hnil, hne⟩
        have hstored := hexact.stored k (k.new e name (t.globalId k.max (s.live k).length)) (by
          simp only [Function.update_self]
          exact List.mem_append_right _ (List.mem_singleton_self _))
        rw [Kind.new_globalId, t.globalId_tmod hk.bound] at hstored
        simp only [Int.toNat_natCast, Kind.object_resetClient, Kind.object_increment,
          Kind.object_store, if_true, Function.update_self, hmemory.1, Option.some.injEq] at hstored
        exact hmemory.2 (by simpa using congrArg Object.name hstored)
    · rw [tableStep_noClient h (by omega) hroom] at hs'
      cases hs'
  · have hlive : ∃ o ∈ s.live k, o.name = name := by
      by_contra hlive
      refine hq ⟨fun hlt => absurd hlt hroom, ?_⟩
      rw [if_neg hlive]
      exact fun _ hlt => absurd hlt hroom
    obtain ⟨o, ho⟩ := Option.isSome_iff_exists.mp
      (List.find?_isSome.mpr (by simpa using hlive) : ((s.live k).find? (·.name = name)).isSome)
    rw [tableStep_full h (by omega)] at hs'
    cases hs'
    simpa [TableRequest.record, ho, Result.failed] using hexact.agrees

/-- So does a destroy request. -/
theorem tableStep_destroy_not_exact {k : Kind} {id : ℤ} {int : IsInt id} {e : Ambient} {p : Office}
    (h : TablesInv t s) (hq : ¬ TableOk t s (.destroy k id int e p))
    (hs' : tableStep t s (.destroy k id int e p) = .ok s') : ¬ TablesExact s' := by
  intro hexact
  have hk := h.tables k
  by_cases hown : id.tdiv k.max = t.uniqueGlobalID
  · have hlive : ∃ o ∈ s.live k, o.globalId = id ∧ ¬ (id.tmod k.max = k.createIndex s.globals - 1 ∧
        (k = .mv → id < 100000) ∧ p.Takes t (k.destroyReply t e id)) := by
      by_contra hcon
      push Not at hcon
      exact hq ⟨fun o ho hid => hcon o ho hid, fun hne => absurd hown hne⟩
    obtain ⟨o, ho, hid, hbad⟩ := hlive
    obtain ⟨slot, hslot, rfl⟩ := List.getElem_of_mem ho
    rw [hk.globalId_getElem hslot] at hid
    by_cases hmv : k = .mv → id < 100000
    · rw [tableStep_clear h hslot hid.symm hmv] at hs'
      split_ifs at hs' with htaken
      cases hs'
      -- the slot below the top is empty
      have hmod := t.globalId_tmod (hslot.trans hk.bound)
      rw [hid] at hmod
      have hlow : slot + 1 ≠ (s.live k).length := by
        rintro hn
        exact hbad ⟨by rw [hmod, hk.index]; omega, hmv, htaken⟩
      refine hexact.dense k slot ?_ (by simp [Kind.object_clear])
      simp only [Kind.createIndex_clear, if_true, hk.index]
      omega
    · push Not at hmv
      obtain ⟨rfl, hlong⟩ := hmv
      rw [tableStep_overflow h hslot hid.symm hlong] at hs'
      cases hs'
  · have hrefused : ¬ p.Takes t (k.forwarded t e id) := by
      refine fun htaken => hq ⟨fun o ho hid => ?_, fun _ => htaken⟩
      obtain ⟨slot, hslot, rfl⟩ := List.getElem_of_mem ho
      exact absurd (hid ▸ hk.globalId_getElem hslot ▸ t.globalId_tdiv (hslot.trans hk.bound)) hown
    obtain ⟨f, hf⟩ : ∃ f, tableStep t s (.destroy k id int e p) = .error f :=
      tableStep_noForward h hown hrefused
    rw [hf] at hs'
    cases hs'

/-- Any other request stops the thread or leaves tables that are not exact. -/
theorem tableStep_not_exact {q : TableRequest} (h : TablesInv t s) (hq : ¬ TableOk t s q)
    (hs' : tableStep t s q = .ok s') : ¬ TablesExact s' := by
  cases q with
  | create k name short e p => exact tableStep_create_not_exact h hq hs'
  | destroy k id int e p => exact tableStep_destroy_not_exact h hq hs'

/-- **The tables of a single server** are exact after every request if and only if
    each request satisfies `TableOk`. -/
theorem tables_exact_iff (requests : List TableRequest) :
    Throughout (tableStep t) TablesExact .init requests ↔ Guarded (tableStep t) (TableOk t) .init requests :=
  throughout_iff_guarded (fun _ => TablesInv.exact) (fun _ _ => tableStep_ok)
    (fun _ _ _ => tableStep_not_exact) requests .init

/-! ## Two runs -/

/-- Two locks are created, and the last is destroyed and created again. -/
theorem tables_exact_stack : Throughout (tableStep ⟨0, 0⟩) TablesExact .init
    [.create .lock ['a'] (by decide) (.clear ⟨0, 0⟩) .quiet,
      .create .lock ['b'] (by decide) (.clear ⟨0, 0⟩) .quiet,
      .destroy .lock 1 (by decide) (.clear ⟨0, 0⟩) .quiet,
      .create .lock ['b'] (by decide) (.clear ⟨0, 0⟩) .quiet] :=
  (tables_exact_iff _).mpr (by decide +kernel)

/-- **A hole**: two locks are created and the first is destroyed. Slot 0 is empty
    below the create index. -/
theorem tables_not_exact : ¬ Throughout (tableStep ⟨0, 0⟩) TablesExact .init
    [.create .lock ['a'] (by decide) (.clear ⟨0, 0⟩) .quiet,
      .create .lock ['b'] (by decide) (.clear ⟨0, 0⟩) .quiet,
      .destroy .lock 0 (by decide) (.clear ⟨0, 0⟩) .quiet] := by
  intro h
  obtain ⟨s, hrun, hindex, hobject⟩ : Ends (tableStep ⟨0, 0⟩) .init
      [.create .lock ['a'] (by decide) (.clear ⟨0, 0⟩) .quiet,
        .create .lock ['b'] (by decide) (.clear ⟨0, 0⟩) .quiet,
        .destroy .lock 0 (by decide) (.clear ⟨0, 0⟩) .quiet]
      fun s => Kind.lock.createIndex s.globals = 1 ∧ Kind.lock.object s.globals 0 = none := by
    decide +kernel
  exact (h.of_exec hrun).dense .lock 0 (by rw [hindex]; decide) hobject

end Nachos.Network
