import Nachos.Network.AcrossServers
import Nachos.Network.Election

/-!
# The ids of live objects

Runs of a group of network threads on several machines, each of which processes any messages,
and the global ids in the tables (`network/netcall.cc`, lines 257-261 and 2207-2992). A thread
that adopts a lock stores its id in a slot of its own table.

* `ids_usable`: if no thread adopts an id of its own machine, the ids of the objects that the
  threads own are distinct and give back owner and slot, and every operation lets them pass but
  for `WAIT`, which refuses those above 99000, and `BROADCAST`, which refuses those above 99.
* `wait_and_broadcast_refuse`: two requests of the client that holds a lock, for it and for a
  condition variable, both of which have been created.
-/

namespace Nachos.Network

open Nachos.Lib

/-! ## What a message does to the ids -/

/-- In every slot the object is gone, or it has the same id as before, or the id that `t` gives to
    a new one, or for a lock one that is `adopted`. -/
def IdStep (t : NetThread) (adopted : ℤ → Prop) (g g' : Globals) : Prop :=
  ∀ (k : Kind) (slot : ℕ) (o : Object), k.object g' slot = some o →
    (∃ o', k.object g slot = some o' ∧ o.globalId = o'.globalId) ∨
      (slot < k.max ∧ o.globalId = t.globalId k.max slot) ∨
        (k = .lock ∧ slot < k.max ∧ adopted o.globalId)

/-- The same of a call of `processMessage`, if it returns. -/
def IdCall (t : NetThread) (adopted : ℤ → Prop) (g : Globals) (x : Except Fault Result) : Prop :=
  ∀ r, x = .ok r → IdStep t adopted g r.state

section

variable {t : NetThread} {adopted : ℤ → Prop} {g g' g'' : Globals} {slot : ℕ}

theorem IdStep.of_objects (h : ∀ k : Kind, k.object g' = k.object g) : IdStep t adopted g g' := by
  intro k slot o ho
  rw [h k] at ho
  exact Or.inl ⟨o, ho, rfl⟩

theorem IdStep.refl (g : Globals) : IdStep t adopted g g := .of_objects fun _ => rfl

theorem IdStep.trans (h : IdStep t adopted g g') (h' : IdStep t adopted g' g'') :
    IdStep t adopted g g'' := by
  intro k slot o ho
  obtain ⟨o', ho', hid⟩ | hnew := h' k slot o ho
  · rw [hid]
    exact h k slot o' ho'
  · exact Or.inr hnew

/-- A change of one lock. -/
theorem IdStep.setLock {lock : DistributedLock} (hlock : g.dlocks slot = some lock)
    {l : Option DistributedLock} (hid : ∀ lock' ∈ l, lock'.globalId = lock.globalId)
    (hdlocks : g'.dlocks = Function.update g.dlocks slot l) (hcvs : g'.cvs = g.cvs)
    (hmvs : g'.mvs = g.mvs) : IdStep t adopted g g' := by
  intro k slot' o ho
  cases k with
  | lock =>
    rw [Kind.object, hdlocks, Function.update_apply] at ho
    split_ifs at ho with hslot
    · subst hslot
      obtain ⟨lock', hl, rfl⟩ := Option.map_eq_some_iff.mp ho
      exact Or.inl ⟨.lock lock, by rw [Kind.object, hlock]; rfl, hid lock' hl⟩
    · exact Or.inl ⟨o, ho, rfl⟩
  | cv => exact Or.inl ⟨o, by rwa [Kind.object, ← hcvs], rfl⟩
  | mv => exact Or.inl ⟨o, by rwa [Kind.object, ← hmvs], rfl⟩

/-- A change of one condition variable. -/
theorem IdStep.setCv {cv : DistributedCV} (hcv : g.cvs slot = some cv) {c : Option DistributedCV}
    (hid : ∀ cv' ∈ c, cv'.globalId = cv.globalId) (hdlocks : g'.dlocks = g.dlocks)
    (hcvs : g'.cvs = Function.update g.cvs slot c) (hmvs : g'.mvs = g.mvs) :
    IdStep t adopted g g' := by
  intro k slot' o ho
  cases k with
  | lock => exact Or.inl ⟨o, by rwa [Kind.object, ← hdlocks], rfl⟩
  | cv =>
    rw [Kind.object, hcvs, Function.update_apply] at ho
    split_ifs at ho with hslot
    · subst hslot
      obtain ⟨cv', hc, rfl⟩ := Option.map_eq_some_iff.mp ho
      exact Or.inl ⟨.cv cv, by rw [Kind.object, hcv]; rfl, hid cv' hc⟩
    · exact Or.inl ⟨o, ho, rfl⟩
  | mv => exact Or.inl ⟨o, by rwa [Kind.object, ← hmvs], rfl⟩

/-- A change of one monitor variable. -/
theorem IdStep.setMv {mv : DistributedMV} (hmv : g.mvs slot = some mv) {v : Option DistributedMV}
    (hid : ∀ mv' ∈ v, mv'.globalId = mv.globalId) (hdlocks : g'.dlocks = g.dlocks)
    (hcvs : g'.cvs = g.cvs) (hmvs : g'.mvs = Function.update g.mvs slot v) :
    IdStep t adopted g g' := by
  intro k slot' o ho
  cases k with
  | lock => exact Or.inl ⟨o, by rwa [Kind.object, ← hdlocks], rfl⟩
  | cv => exact Or.inl ⟨o, by rwa [Kind.object, ← hcvs], rfl⟩
  | mv =>
    rw [Kind.object, hmvs, Function.update_apply] at ho
    split_ifs at ho with hslot
    · subst hslot
      obtain ⟨mv', hv, rfl⟩ := Option.map_eq_some_iff.mp ho
      exact Or.inl ⟨.mv mv, by rw [Kind.object, hmv]; rfl, hid mv' hv⟩
    · exact Or.inl ⟨o, ho, rfl⟩

/-- A new object. -/
theorem IdStep.store (k : Kind) (e : Ambient) (hslot : slot < k.max) (name : Text) {id : ℤ}
    (hid : id = t.globalId k.max slot ∨ k = .lock ∧ adopted id) :
    IdStep t adopted g (k.store e slot name id g) := by
  intro k' slot' o ho
  rw [Kind.object_store] at ho
  split_ifs at ho with hk
  · subst hk
    rw [Function.update_apply] at ho
    split_ifs at ho with hslot'
    · subst hslot'
      cases ho
      rw [Kind.new_globalId]
      obtain rfl | ⟨rfl, hadopted⟩ := hid
      · exact Or.inr (Or.inl ⟨hslot, rfl⟩)
      · exact Or.inr (Or.inr ⟨rfl, hslot, hadopted⟩)
    · exact Or.inl ⟨o, ho, rfl⟩
  · exact Or.inl ⟨o, ho, rfl⟩

/-! ## Calls -/

theorem IdCall.ok {r : Result} (h : IdStep t adopted g r.state) : IdCall t adopted g (.ok r) := by
  intro r' hr
  cases hr
  exact h

theorem IdCall.failed : IdCall t adopted g (.ok (.failed g)) := .ok (.refl g)

theorem IdCall.error {fault : Fault} : IdCall t adopted g (.error fault) := nofun

theorem IdCall.bind {α : Type} {x : Except Fault α} {f : α → Except Fault Result}
    (h : ∀ a, x = .ok a → IdCall t adopted g (f a)) : IdCall t adopted g (x >>= f) := by
  intro r hr
  obtain ⟨a, ha, hr⟩ := bind_eq_ok.mp hr
  exact h a ha r hr

theorem IdCall.trans {x : Except Fault Result} (h : IdStep t adopted g g')
    (h' : IdCall t adopted g' x) : IdCall t adopted g x :=
  fun r hr => h.trans (h' r hr)

theorem IdCall.ite {p : Prop} [Decidable p] {x y : Except Fault Result} (hx : p → IdCall t adopted g x)
    (hy : ¬ p → IdCall t adopted g y) : IdCall t adopted g (if p then x else y) := by
  split_ifs with hp
  · exact hx hp
  · exact hy hp

end

/-! ## Operations -/

section

variable {t : NetThread} {adopted : ℤ → Prop} {g : Globals} {e : Ambient} {heapTail : Text}
  {outPktHdr inPktHdr : PacketHeader} {inMailHdr : MailHeader} {clientNum : ℤ} {lockSlot cvSlot : ℕ}
  {lock : DistributedLock} {cv : DistributedCV}

theorem handOff_globalId (t : NetThread) (lock : DistributedLock) :
    (handOff t lock.free).1.globalId = lock.globalId := by
  unfold handOff
  split <;> rfl

theorem acquireOwn_ids (hlock : g.dlocks lockSlot = some lock) :
    IdCall t adopted g (acquireOwn t heapTail outPktHdr clientNum lockSlot lock g) := by
  unfold acquireOwn
  refine .bind fun ack _ => .ite (fun _ => .ok ?_) (fun _ => .ok ?_)
  · exact .setLock hlock (by rintro _ ⟨⟩; rfl) rfl rfl rfl
  · exact .setLock hlock (by rintro _ ⟨⟩; rfl) rfl rfl rfl

theorem acquire_ids {lockIndex : ℤ} :
    IdCall t adopted g (acquire t heapTail lockIndex outPktHdr inPktHdr inMailHdr clientNum g) := by
  unfold acquire
  refine .ite (fun _ => .failed) (fun _ => .ite (fun _ => ?_) (fun _ => .ok (.refl g)))
  simp only
  split
  · exact .failed
  · next lock hlock => exact acquireOwn_ids hlock

theorem releaseOwn_ids (hlock : g.dlocks lockSlot = some lock) :
    IdCall t adopted g (releaseOwn t e outPktHdr clientNum lockSlot lock g) := by
  unfold releaseOwn
  refine .bind fun ack _ => .ok ?_
  exact .setLock hlock (by rintro _ ⟨⟩; exact handOff_globalId t lock) rfl rfl rfl

theorem release_ids {lockIndex : ℤ} :
    IdCall t adopted g (release t e lockIndex outPktHdr clientNum g) := by
  unfold release
  refine .ite (fun _ => .failed) (fun _ => .ite (fun _ => ?_) (fun _ => .failed))
  simp only
  split
  · exact .failed
  · next lock hlock => exact releaseOwn_ids hlock

theorem destroyLock_ids {lockIndex : ℤ} :
    IdCall t adopted g (destroyLock t e lockIndex outPktHdr clientNum g) := by
  unfold destroyLock
  refine .ite (fun _ => .failed) (fun _ => .ite (fun _ => ?_) (fun _ => .failed))
  simp only
  split
  · exact .failed
  · next lock hlock =>
    refine .bind fun ack _ => .ok ?_
    exact .setLock hlock (l := none) nofun rfl rfl rfl

theorem setMV_ids {mvIndex value : ℤ} :
    IdCall t adopted g (setMV t mvIndex value outPktHdr clientNum g) := by
  unfold setMV
  refine .ite (fun _ => .failed) (fun _ => .ite (fun _ => ?_) (fun _ => .failed))
  simp only
  split
  · exact .failed
  · next mv hmv =>
    refine .ite (fun _ => .ok ?_) (fun _ => .error)
    exact .setMv hmv (by rintro _ ⟨⟩; rfl) rfl rfl rfl

theorem getMV_ids {mvIndex : ℤ} :
    IdCall t adopted g (getMV t e mvIndex outPktHdr inPktHdr inMailHdr g) := by
  unfold getMV
  refine .ite (fun _ => .bind fun _ _ => .ok (.refl g)) (fun _ => .ite (fun _ => ?_) (fun _ => .failed))
  split
  · exact .bind fun _ _ => .ok (.refl g)
  · exact .bind fun _ _ => .ok (.refl g)

theorem destroyMV_ids {mvIndex : ℤ} :
    IdCall t adopted g (destroyMV t e mvIndex outPktHdr clientNum g) := by
  unfold destroyMV
  refine .ite (fun _ => .failed) (fun _ => .ite (fun _ => ?_) (fun _ => .failed))
  simp only
  split
  · exact .failed
  · next mv hmv =>
    refine .bind fun ack _ => .ok ?_
    exact .setMv hmv (v := none) nofun rfl rfl rfl

theorem waitOwn_ids (hlock : g.dlocks lockSlot = some lock) (hcv : g.cvs cvSlot = some cv) :
    IdCall t adopted g (waitOwn t e outPktHdr clientNum lockSlot cvSlot lock cv g) := by
  unfold waitOwn
  refine .bind fun ack _ => .ok ?_
  have hfirst : IdStep t adopted g (g.setLock lockSlot (some (handOff t lock.free).1)) :=
    .setLock hlock (by rintro _ ⟨⟩; exact handOff_globalId t lock) rfl rfl rfl
  exact hfirst.trans (.setCv hcv (by rintro _ ⟨⟩; rfl) rfl rfl rfl)

theorem wait_ids {cvIndex lockIndex : ℤ} :
    IdCall t adopted g (wait t e cvIndex lockIndex outPktHdr inMailHdr clientNum g) := by
  unfold wait
  refine .ite (fun _ => .failed) fun _ => .ite (fun _ => .failed) fun _ =>
    .ite (fun _ => ?_) fun _ => .ite (fun _ => ?_) fun _ => .error
  · simp only
    split
    · exact .failed
    · next lock hlock =>
      refine .ite (fun _ => .failed) fun _ => ?_
      split
      · exact .failed
      · next cv hcv => exact waitOwn_ids hlock hcv
  · simp only
    split
    · exact .failed
    · exact .ite (fun _ => .failed) fun _ => .bind fun i _ => .ok (.of_objects fun k => by cases k <;> rfl)

theorem acquireFor_ids {lockIndex : ℤ} {reply : Message} :
    IdCall t adopted g (acquireFor t heapTail lockIndex outPktHdr reply g) := by
  unfold acquireFor
  refine .bind fun r hr => .ite (fun _ => .ok ?_) (fun _ => .error)
  exact acquire_ids r hr

theorem signalOwn_ids (hcv : g.cvs cvSlot = some cv) :
    IdCall t adopted g (signalOwn t e outPktHdr clientNum lockSlot cvSlot cv g) := by
  unfold signalOwn
  refine .bind fun ack _ => ?_
  simp only
  split
  · exact .ok (.setCv hcv (by rintro _ ⟨⟩; rfl) rfl rfl rfl)
  · refine .ite (fun _ => .ok (.refl g)) fun _ => .bind fun r hr => .ok ?_
    have hacquire : IdStep t adopted _ r.state := acquireFor_ids r hr
    refine IdStep.trans ?_ hacquire
    exact .setCv hcv (by rintro _ ⟨⟩; rfl) rfl rfl rfl

theorem signal_ids {cvIndex lockIndex : ℤ} :
    IdCall t adopted g (signal t e cvIndex lockIndex outPktHdr inMailHdr clientNum g) := by
  unfold signal
  refine .ite (fun _ => .failed) fun _ => .ite (fun _ => .failed) fun _ =>
    .ite (fun _ => ?_) fun _ => .ite (fun _ => .bind fun i _ => .ok ?_) fun _ => .failed
  · simp only
    split
    · exact .failed
    · refine .ite (fun _ => .failed) fun _ => ?_
      split
      · exact .failed
      · next cv hcv => exact signalOwn_ids hcv
  · exact .of_objects fun k => by cases k <;> rfl

theorem wakeAll_ids {heapTail : ℕ → Text} {lockId : ℤ} (queue : List Message) (k : ℕ) :
    IdCall t adopted g (wakeAll t heapTail lockId outPktHdr queue k g) := by
  induction queue generalizing k g with
  | nil => exact .ok (.refl g)
  | cons reply queue ih =>
    unfold wakeAll
    refine .bind fun r hr => .bind fun r' hr' => .ok ?_
    exact (acquireFor_ids r hr).trans (ih (k + 1) r' hr')

theorem broadcastOwn_ids (hcv : g.cvs cvSlot = some cv) :
    IdCall t adopted g (broadcastOwn t e outPktHdr inPktHdr inMailHdr lockSlot cvSlot cv g) := by
  unfold broadcastOwn
  refine .bind fun ack _ => .ite (fun _ => .ok (.refl g)) fun _ => .bind fun r hr => .ok ?_
  have hwake : IdStep t adopted _ r.state := wakeAll_ids _ _ r hr
  refine IdStep.trans ?_ hwake
  exact .setCv hcv (by rintro _ ⟨⟩; rfl) rfl rfl rfl

theorem broadcast_ids {cvIndex lockIndex : ℤ} :
    IdCall t adopted g (broadcast t e cvIndex lockIndex outPktHdr inPktHdr inMailHdr clientNum g) := by
  unfold broadcast
  refine .ite (fun _ => .failed) fun _ => .ite (fun _ => .failed) fun _ =>
    .ite (fun _ => ?_) fun _ => .bind fun i _ => .ok ?_
  · simp only
    split
    · exact .failed
    · refine .ite (fun _ => .failed) fun _ => ?_
      split
      · exact .failed
      · next cv hcv => exact broadcastOwn_ids hcv
  · exact .of_objects fun k => by cases k <;> rfl

end

/-! ## Creations -/

section

variable {t : NetThread} {adopted : ℤ → Prop} {g : Globals} {e : Ambient} {k : Kind} {i : ℕ}
  {group : List NetThread}

/-- A new object has the id of its slot. -/
theorem createObject_ids {id : ℤ} {g' : Globals} (h : createObject k t e i g = .ok (id, g')) :
    IdStep t adopted g g' := by
  rw [createObject] at h
  obtain ⟨slot, hslot, h⟩ := bind_eq_ok.mp h
  rw [index] at hslot
  split_ifs at hslot with hbound
  cases hslot
  cases h
  have hindex : k.createIndex g = ((k.createIndex g).toNat : ℤ) := (Int.toNat_of_nonneg hbound.1).symm
  have hstore : IdStep t adopted g (k.store e (k.createIndex g).toNat (copyName e g i)
      (t.uniqueGlobalID * k.max + k.createIndex g) g) := by
    refine .store k e (by omega) _ (Or.inl ?_)
    rw [NetThread.globalId, ← hindex]
  exact hstore.trans (.of_objects fun k' => k.object_increment _ k')

theorem createOrFind_ids {found id : ℤ} {g' : Globals}
    (h : createOrFind k t e i found g = .ok (id, g')) : IdStep t adopted g g' := by
  rw [createOrFind] at h
  split_ifs at h
  · exact createObject_ids h
  · obtain ⟨id, -, h⟩ := bind_eq_ok.mp h
    cases h
    exact .refl g

theorem settle_ids {other id : ℤ} {g' : Globals} (h : settle k t e i other g = .ok (id, g')) :
    IdStep t adopted g g' := by
  rw [settle] at h
  split_ifs at h
  · exact createObject_ids h
  · cases h
    exact .refl g
  · obtain ⟨id, -, h⟩ := bind_eq_ok.mp h
    cases h
    exact .refl g
  · cases h
    exact .refl g

theorem createVerify_objects {data : Text} {type : RequestType} {client : ℤ} {g' : Globals}
    {out : List Message} (h : createVerify t data type client group g = .ok (g', out)) (k : Kind) :
    k.object g' = k.object g := by
  rw [createVerify] at h
  obtain ⟨request, -, h⟩ := bind_eq_ok.mp h
  obtain ⟨j, -, h⟩ := bind_eq_ok.mp h
  cases h
  cases k <;> rfl

theorem setRow_objects {row : ℤ} {s : Text} {g' : Globals} (h : setRow i row s g = .ok g') (k : Kind) :
    k.object g' = k.object g := by
  obtain ⟨buffer, rfl⟩ := setRow_eq_ok h
  cases k <;> rfl

theorem create_ids {inPktHdr : PacketHeader} {inMailHdr : MailHeader} {name : Text} :
    IdCall t adopted g (create k t e inPktHdr inMailHdr name group g) := by
  unfold create
  refine .ite (fun _ => .bind fun i hi => .bind fun g₁ hg₁ => .bind fun found hfound => ?_)
    fun _ => .failed
  have hname : IdStep t adopted g g₁ := by
    rw [setName] at hg₁
    split_ifs at hg₁
    cases hg₁
    exact .of_objects fun k => by cases k <;> rfl
  have hlocal : IdStep t adopted g₁
      { g₁ with localLockIndex := Function.update g₁.localLockIndex i found } :=
    .of_objects fun k => by cases k <;> rfl
  refine .ite (fun _ => .bind fun p hp => .ok ?_) fun _ => .bind fun p hp => .ok ?_
  · have hbegin : IdStep t adopted g₁ (beginCreate k e i
        { g₁ with localLockIndex := Function.update g₁.localLockIndex i found }) :=
      .of_objects fun k' => by cases k <;> cases k' <;> rfl
    exact (hname.trans hbegin).trans (.of_objects (createVerify_objects hp))
  · exact ((hname.trans hlocal).trans (createOrFind_ids hp)).trans (.of_objects fun k => k.object_resetClient _ i)

theorem electLock_ids {client : ℤ} : IdCall t adopted g (electLock t e client i group g) := by
  unfold electLock
  refine .bind fun p hp => .bind fun q hq => .ok ?_
  have hstates : IdStep t adopted g
      { g with lockCreationStates := Function.update g.lockCreationStates i .yes } :=
    .of_objects fun k => by cases k <;> rfl
  have hcreate : IdStep t adopted _ p.2 := createObject_ids hp
  have hlocal : IdStep t adopted q.1
      { q.1 with localLockIndex := Function.update q.1.localLockIndex i (-1) } :=
    .of_objects fun k => by cases k <;> rfl
  exact ((hstates.trans hcreate).trans (.of_objects (createVerify_objects hq))).trans hlocal

theorem adoptLock_ids {id : ℤ} (hid : adopted id) : IdCall t adopted g (adoptLock t e i id g) := by
  unfold adoptLock
  refine .bind fun slot hslot => .ok ?_
  rw [index] at hslot
  split_ifs at hslot with hbound
  cases hslot
  have hstore : IdStep t adopted g (Kind.lock.store e g.createDLockIndex.toNat (copyName e g i) id g) :=
    .store .lock e (by show _ < MAX_DLOCK; omega) _ (Or.inr ⟨rfl, hid⟩)
  exact hstore.trans (.of_objects fun k => by cases k <;> rfl)

/-- What a branch for an answer adopts: the id behind a `YES` in the row that it reads, if it waits
    for answers. -/
def adoptedId (t : NetThread) (g : Globals) (s : Text) : Except Fault (Option ℤ) := do
  let (client, response) ← readClient s
  let i ← index MAX_CLIENTS client
  let own ← index MAX_CLIENTS t.uniqueGlobalID
  let g ← setRow i (g.verifyResponses own) response g
  let row ← getRow i (g.verifyResponses i) g
  let (verifyResponse, next) ← parseValue 0 row
  let (lockIndex, _) ← parseValue next row
  return if g.localLockIndex i = -1 ∧ verifyResponse = CreationState.yes.code then some lockIndex
    else none

theorem lockAnswer_ids {s : Text} (hs : ∀ id, adoptedId t g s = .ok (some id) → adopted id) :
    IdCall t adopted g (lockAnswer t e s group g) := by
  unfold lockAnswer
  refine .bind fun p hp => .bind fun i hi => .bind fun own hown => .bind fun g₁ hg₁ => ?_
  have hset : IdStep t adopted g g₁ := .of_objects (setRow_objects hg₁)
  refine .trans hset (.ite (fun hlocal => .bind fun row hrow => .bind fun q hq =>
    .ite (fun hyes => .bind fun id hid => ?_) fun _ => .ite (fun _ => .bind fun sec _ =>
      .bind fun usec _ => .ite (fun _ => ?_) fun _ => .failed) fun _ => .failed) fun _ => .failed)
  · refine adoptLock_ids (hs id.1 ?_)
    simp only [adoptedId, hp, hi, hown, hg₁, hrow, hq, hid, ok_bind, hlocal, hyes, and_self, if_true,
      pure_eq_ok]
  · have hcount : IdStep t adopted g₁
        { g₁ with verifyResponses := Function.update g₁.verifyResponses i (g₁.verifyResponses i + 1) } :=
      .of_objects fun k => by cases k <;> rfl
    exact .ite (fun _ => .trans hcount electLock_ids) fun _ => .ok hcount

theorem objectAnswer_ids {s : Text} : IdCall t adopted g (objectAnswer k t e s g) := by
  unfold objectAnswer
  refine .bind fun p hp => .bind fun i hi => .ite (fun _ => .error) fun _ =>
    .bind fun g₁ hg₁ => ?_
  have hset : IdStep t adopted g g₁ := .of_objects (setRow_objects hg₁)
  have hcount : IdStep t adopted g₁
      { g₁ with verifyResponses := Function.update g₁.verifyResponses i (g₁.verifyResponses i + 1) } :=
    .of_objects fun k => by cases k <;> rfl
  refine .trans (hset.trans hcount) (.ite (fun _ => .bind fun other _ => .bind fun q hq => .ok ?_)
    fun _ => .failed)
  exact (settle_ids hq).trans (.of_objects fun k => k.object_resetClient _ i)

end

/-! ## Branches -/

section

variable {c : Call} {adopted : ℤ → Prop} {g : Globals} {group : List NetThread} {s : Text}

theorem oneArgument_ids {type : RequestType} {max : ℕ} {box : ℤ → ℤ}
    {handle : ℤ → ℤ → Globals → Except Fault Result}
    (h : ∀ id clientNum, IdCall c.t adopted g (handle id clientNum g)) :
    IdCall c.t adopted g (c.oneArgument type max box handle s g) := by
  unfold Call.oneArgument
  refine .bind fun args _ => .ite (fun _ => .bind fun buffer _ => .ok (.refl g)) fun _ => h _ _

theorem twoArguments_ids {type : RequestType} {machine : ℤ → ℤ → ℤ} {box : ℤ → ℤ}
    {handle : ℤ → ℤ → ℤ → Globals → Except Fault Result} {args : ℤ × Text × Text}
    (h : ∀ a b clientNum, IdCall c.t adopted g (handle a b clientNum g)) :
    IdCall c.t adopted g (c.twoArguments type machine box handle args g) := by
  unfold Call.twoArguments
  exact .ite (fun _ => .bind fun buffer _ => .ok (.refl g)) fun _ => h _ _ _

theorem deleteCV_ids {cvIndex clientNum : ℤ} : IdCall c.t adopted g (c.deleteCV cvIndex clientNum g) := by
  unfold Call.deleteCV
  refine .ite (fun _ => .failed) fun _ => ?_
  simp only
  split
  · exact .failed
  · next cv hcv =>
    refine .bind fun ack _ => .ok ?_
    exact .setCv hcv (c := none) nofun rfl rfl rfl

theorem waitCV_ids : IdCall c.t adopted g (c.waitCV s g) := by
  unfold Call.waitCV
  refine .bind fun args _ => .bind fun slot _ => ?_
  split
  · exact .ok (.refl g)
  · next cv hcv =>
    refine .bind fun ack _ => .ok ?_
    exact .setCv hcv (by rintro _ ⟨⟩; rfl) rfl rfl rfl

theorem waitResponse_ids : IdCall c.t adopted g (c.waitResponse s g) := by
  unfold Call.waitResponse
  refine .ite (fun _ => .error) fun _ => .bind fun args _ => .ite (fun _ => .failed) fun _ =>
    .bind fun i _ => .bind fun slot _ => ?_
  split
  · exact .error
  · next lock hlock =>
    exact .ok (.setLock hlock (by rintro _ ⟨⟩; exact handOff_globalId c.t lock) rfl rfl rfl)

theorem signalLock_ids : IdCall c.t adopted g (c.signalLock s g) := by
  unfold Call.signalLock
  refine .bind fun args _ => .bind fun slot _ => ?_
  split
  · exact .ok (.refl g)
  · exact .ok (.refl g)

theorem signalResponse_ids : IdCall c.t adopted g (c.signalResponse s g) := by
  unfold Call.signalResponse
  refine .bind fun args _ => .ite (fun _ => .failed) fun _ => .bind fun i _ => .bind fun ack _ =>
    .bind fun slot _ => ?_
  split
  · exact .error
  · next cv hcv =>
    split
    · exact .ok (.setCv hcv (by rintro _ ⟨⟩; rfl) rfl rfl rfl)
    · refine .ite (fun _ => .ok (.refl g)) fun _ => .bind fun r hr => .ok ?_
      have hacquire : IdStep c.t adopted _ r.state := acquireFor_ids r hr
      refine IdStep.trans ?_ hacquire
      exact .setCv hcv (by rintro _ ⟨⟩; rfl) rfl rfl rfl

theorem broadcastLock_ids : IdCall c.t adopted g (c.broadcastLock s g) := by
  unfold Call.broadcastLock
  refine .bind fun args _ => .bind fun slot _ => ?_
  split
  · exact .ok (.refl g)
  · refine .bind fun slot _ => ?_
    split
    · exact .error
    · exact .ite (fun _ => .ok (.refl g)) fun _ => .ok (.refl g)

theorem broadcastResponse_ids : IdCall c.t adopted g (c.broadcastResponse s g) := by
  unfold Call.broadcastResponse
  refine .bind fun args _ => .ite (fun _ => .failed) fun _ => .bind fun i _ => .bind fun ack _ =>
    .bind fun slot _ => ?_
  split
  · exact .error
  · next cv hcv =>
    refine .ite (fun _ => .ok (.refl g)) fun _ => .bind fun r hr => .ok ?_
    have hwake : IdStep c.t adopted _ r.state := wakeAll_ids _ _ r hr
    refine IdStep.trans ?_ hwake
    exact .setCv hcv (by rintro _ ⟨⟩; rfl) rfl rfl rfl

theorem lockVerify_ids {t : NetThread} {e : Ambient} {inPktHdr : PacketHeader}
    {inMailHdr : MailHeader} : IdCall t adopted g (lockVerify t e inPktHdr inMailHdr s g) := by
  unfold lockVerify
  exact .bind fun args _ => .ite (fun _ => .bind fun found _ => .bind fun i _ => .bind fun data _ =>
    .bind fun request _ => .ok (.refl g)) fun _ => .error

theorem objectVerify_ids {k : Kind} {t : NetThread} {e : Ambient} {inPktHdr : PacketHeader}
    {inMailHdr : MailHeader} : IdCall t adopted g (objectVerify k t e inPktHdr inMailHdr s g) := by
  unfold objectVerify
  exact .bind fun args _ => .ite (fun _ => .error) fun _ => .ite (fun _ => .bind fun found _ =>
    .bind fun id _ => .bind fun request _ => .ok (.refl g)) fun _ => .error

/-- **One message**: a new object gets the id of its slot, and nothing else gives or changes ids,
    but for the adoption of a lock. -/
theorem dispatch_ids {type : RequestType}
    (hs : type = .createLockAnswer → ∀ id, adoptedId c.t g s = .ok (some id) → adopted id) :
    IdCall c.t adopted g (dispatch c group type s g) := by
  cases type with
  | createLock | createCv | createMv => exact create_ids
  | createLockAnswer => exact lockAnswer_ids (hs rfl)
  | createCvAnswer | createMvAnswer => exact objectAnswer_ids
  | createLockVerify => exact lockVerify_ids
  | createCvVerify | createMvVerify => exact objectVerify_ids
  | acquire =>
    unfold dispatch Call.acquire
    exact oneArgument_ids fun _ _ => acquire_ids
  | release =>
    unfold dispatch Call.release
    exact oneArgument_ids fun _ _ => release_ids
  | destroyLock =>
    unfold dispatch Call.destroyLock
    exact oneArgument_ids fun _ _ => destroyLock_ids
  | setMv => exact .bind fun args _ => twoArguments_ids fun _ _ _ => setMV_ids
  | getMv =>
    unfold dispatch Call.getMV
    exact oneArgument_ids fun _ _ => getMV_ids
  | destroyMv =>
    unfold dispatch Call.destroyMV
    exact oneArgument_ids fun _ _ => destroyMV_ids
  | wait => exact .bind fun args _ => twoArguments_ids fun _ _ _ => wait_ids
  | waitCv => exact waitCV_ids
  | waitResponse => exact waitResponse_ids
  | signal =>
    exact .ite (fun _ => .error) fun _ => .bind fun args _ => twoArguments_ids fun _ _ _ => signal_ids
  | signalLock => exact signalLock_ids
  | signalResponse => exact signalResponse_ids
  | broadcast => exact .bind fun args _ => twoArguments_ids fun _ _ _ => broadcast_ids
  | broadcastLock => exact broadcastLock_ids
  | broadcastResponse => exact broadcastResponse_ids
  | destroyCv =>
    unfold dispatch Call.destroyCV
    exact oneArgument_ids fun _ _ => deleteCV_ids
  | timestamp => exact .failed
  | startUserProgram | regNetThread | regNetThreadResponse | groupInfo | ack | invalidType =>
    exact .error

/-- The same of any text. -/
theorem processMessage_ids {msgData : Text}
    (hs : ∀ s, readType msgData = .ok (RequestType.createLockAnswer.code, some s) →
      ∀ id, adoptedId c.t g s = .ok (some id) → adopted id) :
    IdCall c.t adopted g (processMessage c msgData group g) := by
  unfold processMessage
  refine .ite (fun _ => .error) fun _ => .bind fun p hp => ?_
  obtain ⟨requestType, rest⟩ := p
  simp only
  split
  · exact .failed
  · exact .error
  · next r s hr =>
    refine dispatch_ids fun hanswer id hid => hs s ?_ id hid
    rw [hp, ← RequestType.code_of_ofCode hr, hanswer]

end

/-! ## Runs -/

/-- A network thread of the group processes a message. -/
def worldStep (group : List NetThread) (w : World) (i : NetThread × Delivery) : Except Fault World := do
  let g ← deliver i.1 group (w i.1.machineID) i.2
  return Function.update w i.1.machineID g

/-- The processes have just started. -/
def World.init (group : List NetThread) : World := fun _ => .init group.length

/-- The threads have machine ids 0 to 9 and mailboxes 0 to 99. -/
def ValidGroup (group : List NetThread) : Prop := ∀ t ∈ group, t.machineID ≤ 9 ∧ t.mailID ≤ 99

instance (group : List NetThread) : Decidable (ValidGroup group) :=
  inferInstanceAs (Decidable (∀ _ ∈ _, _))

/-- **No id of the own machine is adopted**: a thread of the group processes the message, and if it
    is an answer with a `YES` whose lock the thread adopts, the owner is on another machine. -/
def AdoptsForeign (group : List NetThread) (w : World) (i : NetThread × Delivery) : Prop :=
  i.1 ∈ group ∧ ∀ s, readType i.2.data = .ok (RequestType.createLockAnswer.code, some s) →
    ∀ id, adoptedId i.1 (w i.1.machineID) s = .ok (some id) →
      ∀ t ∈ group, t.machineID = i.1.machineID → id.tdiv MAX_DLOCK ≠ t.uniqueGlobalID

/-- An object that a thread of its machine owns, in a slot. -/
structure Owned (w : World) (k : Kind) (t : NetThread) (slot : ℕ) (o : Object) : Prop where
  stored : k.object (w t.machineID) slot = some o
  owner : o.globalId.tdiv k.max = t.uniqueGlobalID

/-- **The owner lets the id of a live lock pass**, whatever else it has: what its operations do. -/
structure LockAccepts (t : NetThread) (g : Globals) (slot : ℕ) (lock : DistributedLock) : Prop where
  acquire : ∀ heapTail outPktHdr inPktHdr inMailHdr clientNum,
    Network.acquire t heapTail lock.globalId outPktHdr inPktHdr inMailHdr clientNum g =
      acquireOwn t heapTail outPktHdr
        (if clientNum = -2 then clientOf inPktHdr inMailHdr else clientNum) slot lock g
  release : ∀ e outPktHdr clientNum, Network.release t e lock.globalId outPktHdr clientNum g =
    releaseOwn t e outPktHdr clientNum slot lock g
  destroyLock : ∀ e outPktHdr clientNum, Network.destroyLock t e lock.globalId outPktHdr clientNum g =
    .ok ⟨{ g.setLock slot none with createDLockIndex := g.createDLockIndex - 1 },
      [outgoing t { outPktHdr with toMachine := clientMachine clientNum }
        { toBox := clientBox clientNum + 1, fromBox := t.mailID }
        (idText lock.globalId (e.heapTail 0))], true⟩

/-- That of a live condition variable. -/
structure CvAccepts (t : NetThread) (g : Globals) (slot : ℕ) (cv : DistributedCV) : Prop where
  destroyCv : ∀ e inPktHdr inMailHdr clientNum,
    Call.deleteCV ⟨t, e, inPktHdr, inMailHdr⟩ cv.globalId clientNum g =
      .ok ⟨{ g.setCv slot none with createDCVIndex := g.createDCVIndex - 1 },
        [outgoing t { e.outPktHdr with toMachine := clientMachine clientNum }
          { toBox := clientBox clientNum, fromBox := t.machineID } (fmtInt slot)], true⟩

/-- That of a live monitor variable. A number that is too long for the block of the reply is a fault. -/
structure MvAccepts (t : NetThread) (g : Globals) (slot : ℕ) (mv : DistributedMV) : Prop where
  setMv : ∀ value outPktHdr clientNum, Network.setMV t mv.globalId value outPktHdr clientNum g =
    if (setMvText mv.globalId value).length < 24 then
      .ok ⟨g.setMv slot (some { mv with value := value }),
        [outgoing t { outPktHdr with toMachine := clientMachine clientNum }
          { toBox := clientBox clientNum + 1, fromBox := t.machineID } (setMvText mv.globalId value)], true⟩
    else .error .outOfBounds
  getMv : ∀ e outPktHdr inPktHdr inMailHdr,
    Network.getMV t e mv.globalId outPktHdr inPktHdr inMailHdr g = (do
      let ack ← itoa 4 mv.value (e.heapTail 0)
      return ⟨g, [sendReply t outPktHdr inPktHdr inMailHdr ack], true⟩)
  destroyMv : ∀ e outPktHdr clientNum, Network.destroyMV t e mv.globalId outPktHdr clientNum g = (do
    let ack ← itoa 5 mv.globalId (e.heapTail 0)
    return ⟨{ g.setMv slot none with createDMVIndex := g.createDMVIndex - 1 },
      [outgoing t { outPktHdr with toMachine := clientMachine clientNum }
        { toBox := clientBox clientNum, fromBox := t.machineID } ack], true⟩)

/-- Those of a live lock and a live condition variable of one thread, but for the ids that `WAIT` and
    `BROADCAST` refuse. -/
structure PairAccepts (t : NetThread) (g : Globals) (lockSlot cvSlot : ℕ) (lock : DistributedLock)
    (cv : DistributedCV) : Prop where
  wait : ∀ e outPktHdr inMailHdr clientNum,
    Network.wait t e cv.globalId lock.globalId outPktHdr inMailHdr clientNum g =
      if lock.globalId ≤ 99000 ∧ cv.globalId ≤ 99000 ∧ lock.ownerMailID ≠ -1 then
        waitOwn t e outPktHdr clientNum lockSlot cvSlot lock cv g
      else .ok (.failed g)
  signal : ∀ e outPktHdr inMailHdr clientNum,
    Network.signal t e cv.globalId lock.globalId outPktHdr inMailHdr clientNum g =
      if lock.ownerMailID ≠ -1 then signalOwn t e outPktHdr clientNum lockSlot cvSlot cv g
      else .ok (.failed g)
  broadcast : ∀ e outPktHdr inPktHdr inMailHdr clientNum,
    Network.broadcast t e cv.globalId lock.globalId outPktHdr inPktHdr inMailHdr clientNum g =
      if lock.globalId ≤ 99 ∧ cv.globalId ≤ 99 ∧ lock.ownerMailID ≠ -1 then
        broadcastOwn t e outPktHdr inPktHdr inMailHdr lockSlot cvSlot cv g
      else .ok (.failed g)

/-- Those of a live lock and a live condition variable of two threads: `WAIT` is processed by the owner
    of the lock, in state `g`, the others by that of the condition variable, in state `g'`. -/
structure AcrossAccepts (t t' : NetThread) (g g' : Globals) (lock : DistributedLock)
    (cv : DistributedCV) : Prop where
  wait : ∀ e outPktHdr inMailHdr clientNum,
    Network.wait t e cv.globalId lock.globalId outPktHdr inMailHdr clientNum g = .ok (.failed g) ↔
      99000 < lock.globalId ∨ 99000 < cv.globalId ∨ lock.ownerMailID = -1
  signal : ∀ e outPktHdr inMailHdr clientNum,
    Network.signal t' e cv.globalId lock.globalId outPktHdr inMailHdr clientNum g' ≠ .ok (.failed g')
  broadcast : ∀ e outPktHdr inPktHdr inMailHdr clientNum,
    Network.broadcast t' e cv.globalId lock.globalId outPktHdr inPktHdr inMailHdr clientNum g' =
      .ok (.failed g')

/-- **Every id that is handed out can be used**, but for those that `WAIT` and `BROADCAST` refuse. -/
structure IdsUsable (group : List NetThread) (w : World) : Prop where
  owner : ∀ k t slot o, t ∈ group → k.object (w t.machineID) slot = some o →
    (∃ t' ∈ group, t'.machineID = t.machineID ∧ Owned w k t' slot o) ∨
      k = .lock ∧ ∀ t' ∈ group, t'.machineID = t.machineID → ¬ Owned w k t' slot o
  distinct : ∀ k, ∀ t ∈ group, ∀ t' ∈ group, ∀ slot slot' o o', Owned w k t slot o →
    Owned w k t' slot' o' → o.globalId = o'.globalId → t = t' ∧ slot = slot'
  slot : ∀ k, ∀ t ∈ group, ∀ slot o, Owned w k t slot o → o.globalId.tmod k.max = slot
  lock : ∀ t ∈ group, ∀ slot lock, Owned w .lock t slot (.lock lock) →
    LockAccepts t (w t.machineID) slot lock
  cv : ∀ t ∈ group, ∀ slot cv, Owned w .cv t slot (.cv cv) → CvAccepts t (w t.machineID) slot cv
  mv : ∀ t ∈ group, ∀ slot mv, Owned w .mv t slot (.mv mv) → MvAccepts t (w t.machineID) slot mv
  pair : ∀ t ∈ group, ∀ lockSlot cvSlot lock cv, Owned w .lock t lockSlot (.lock lock) →
    Owned w .cv t cvSlot (.cv cv) → PairAccepts t (w t.machineID) lockSlot cvSlot lock cv
  across : ∀ t ∈ group, ∀ t' ∈ group, t ≠ t' → ∀ lockSlot cvSlot lock cv,
    Owned w .lock t lockSlot (.lock lock) → Owned w .cv t' cvSlot (.cv cv) →
      AcrossAccepts t t' (w t.machineID) (w t'.machineID) lock cv

/-- The objects of each machine have the ids of their slots, or are locks of other machines. -/
def IdsInv (group : List NetThread) (w : World) : Prop :=
  ∀ machine (k : Kind) slot o, k.object (w machine) slot = some o →
    (slot < k.max ∧ ∃ t ∈ group, t.machineID = machine ∧ o.globalId = t.globalId k.max slot) ∨
      (k = .lock ∧ ∀ t ∈ group, t.machineID = machine → o.globalId.tdiv k.max ≠ t.uniqueGlobalID)

section

variable {group : List NetThread} {w w' : World}

theorem IdsInv.init : IdsInv group (.init group) := by
  intro machine k slot o ho
  cases k <;> cases ho

/-- A step keeps the ids, if it adopts no id of the own machine. -/
theorem IdsInv.step {i : NetThread × Delivery} (h : IdsInv group w) (hok : AdoptsForeign group w i)
    (hs : worldStep group w i = .ok w') : IdsInv group w' := by
  obtain ⟨t, d⟩ := i
  obtain ⟨ht, hforeign⟩ := hok
  rw [worldStep, bind_eq_ok] at hs
  obtain ⟨g, hg, hw⟩ := hs
  rw [pure_eq_ok, Except.ok.injEq] at hw
  rw [Network.deliver, bind_eq_ok] at hg
  obtain ⟨r, hr, hstate⟩ := hg
  rw [pure_eq_ok, Except.ok.injEq] at hstate
  have hids : IdCall t (fun id => ∀ t' ∈ group, t'.machineID = t.machineID →
      id.tdiv MAX_DLOCK ≠ t'.uniqueGlobalID) (w t.machineID)
      (processMessage ⟨t, d.e, d.inPktHdr, d.inMailHdr⟩ d.data group (w t.machineID)) :=
    processMessage_ids hforeign
  rw [← hw, ← hstate]
  intro machine k slot o ho
  rw [Function.update_apply] at ho
  split_ifs at ho with hm
  · subst hm
    obtain ⟨o', ho', hid⟩ | ⟨hslot, hid⟩ | ⟨rfl, hslot, hid⟩ := hids r hr k slot o ho
    · rw [hid]
      exact h t.machineID k slot o' ho'
    · exact Or.inl ⟨hslot, t, ht, rfl, hid⟩
    · exact Or.inr ⟨rfl, hid⟩
  · exact h machine k slot o ho

/-! ## Use -/

theorem ValidGroup.uniqueGlobalID_lt (hg : ValidGroup group) {t : NetThread} (ht : t ∈ group) :
    t.uniqueGlobalID < (MAX_NUM_GLOBAL_IDS : ℤ) := by
  have := hg t ht
  unfold NetThread.uniqueGlobalID MAX_NUM_GLOBAL_IDS
  omega

theorem ValidGroup.inj (hg : ValidGroup group) {t t' : NetThread} (ht : t ∈ group) (ht' : t' ∈ group)
    (h : t.uniqueGlobalID = t'.uniqueGlobalID) : t = t' := by
  have h1 := hg t ht
  have h2 := hg t' ht'
  obtain ⟨m, b⟩ := t
  obtain ⟨m', b'⟩ := t'
  simp only [NetThread.uniqueGlobalID, NetThread.mk.injEq] at *
  omega

/-- An object that a thread owns has the id of its slot. -/
theorem IdsInv.owned (h : IdsInv group w) (hg : ValidGroup group) {k : Kind} {t : NetThread}
    {slot : ℕ} {o : Object} (ht : t ∈ group) (ho : Owned w k t slot o) :
    slot < k.max ∧ o.globalId = t.globalId k.max slot := by
  obtain ⟨hslot, t', ht', -, hid⟩ | ⟨-, hne⟩ := h t.machineID k slot o ho.stored
  · have howner := ho.owner
    rw [hid, t'.globalId_tdiv hslot] at howner
    cases hg.inj ht' ht howner
    exact ⟨hslot, hid⟩
  · exact absurd ho.owner (hne t ht rfl)

section

variable {t : NetThread} {g : Globals} {e : Ambient} {outPktHdr inPktHdr : PacketHeader}
  {inMailHdr : MailHeader} {clientNum : ℤ} {lockSlot cvSlot slot : ℕ} {lock : DistributedLock}
  {cv : DistributedCV} {mv : DistributedMV}

theorem setMV_eq {value : ℤ} (ht : t.uniqueGlobalID < (MAX_NUM_GLOBAL_IDS : ℤ)) (hslot : slot < MAX_DMV)
    (hmv : g.mvs slot = some mv) : setMV t (t.globalId MAX_DMV slot) value outPktHdr clientNum g =
      if (setMvText mv.globalId value).length < 24 then
        .ok ⟨g.setMv slot (some { mv with value := value }),
          [outgoing t { outPktHdr with toMachine := clientMachine clientNum }
            { toBox := clientBox clientNum + 1, fromBox := t.machineID }
            (setMvText mv.globalId value)], true⟩
      else .error .outOfBounds := by
  rw [setMV, if_neg (mt (t.globalId_refused_iff hslot).mp (by omega)), if_pos (t.globalId_tdiv hslot),
    t.globalId_tmod hslot, Int.toNat_natCast]
  simp only [hmv]

theorem getMV_eq (ht : t.uniqueGlobalID < (MAX_NUM_GLOBAL_IDS : ℤ)) (hslot : slot < MAX_DMV)
    (hmv : g.mvs slot = some mv) :
    getMV t e (t.globalId MAX_DMV slot) outPktHdr inPktHdr inMailHdr g = (do
      let ack ← itoa 4 mv.value (e.heapTail 0)
      return ⟨g, [sendReply t outPktHdr inPktHdr inMailHdr ack], true⟩) := by
  rw [getMV, if_neg (mt (t.globalId_refused_iff hslot).mp (by omega)), if_pos (t.globalId_tdiv hslot),
    t.globalId_tmod hslot, Int.toNat_natCast]
  simp only [hmv]

theorem signal_eq (ht : t.uniqueGlobalID < (MAX_NUM_GLOBAL_IDS : ℤ)) (hlockSlot : lockSlot < MAX_DLOCK)
    (hcvSlot : cvSlot < MAX_DCV) (hlock : g.dlocks lockSlot = some lock) (hcv : g.cvs cvSlot = some cv) :
    signal t e (t.globalId MAX_DCV cvSlot) (t.globalId MAX_DLOCK lockSlot) outPktHdr inMailHdr
      clientNum g =
      if lock.ownerMailID ≠ -1 then signalOwn t e outPktHdr clientNum lockSlot cvSlot cv g
      else .ok (.failed g) := by
  rw [signal, if_neg (mt (t.globalId_refused_iff hlockSlot).mp (by omega)),
    if_neg (mt (t.globalId_refused_iff hcvSlot).mp (by omega)),
    if_pos ⟨t.globalId_tdiv hlockSlot, t.globalId_tdiv hcvSlot⟩, t.globalId_tmod hlockSlot,
    t.globalId_tmod hcvSlot, Int.toNat_natCast, Int.toNat_natCast]
  simp only [hlock, hcv, ite_not]

/-- `WAIT` compares with `MAX_NUM_GLOBAL_IDS * (MAX_DLOCK - 1)`. -/
theorem wait_eq (hlockSlot : lockSlot < MAX_DLOCK) (hcvSlot : cvSlot < MAX_DCV)
    (hlock : g.dlocks lockSlot = some lock) (hcv : g.cvs cvSlot = some cv) :
    wait t e (t.globalId MAX_DCV cvSlot) (t.globalId MAX_DLOCK lockSlot) outPktHdr inMailHdr
      clientNum g =
      if t.globalId MAX_DLOCK lockSlot ≤ 99000 ∧ t.globalId MAX_DCV cvSlot ≤ 99000 ∧
        lock.ownerMailID ≠ -1 then waitOwn t e outPktHdr clientNum lockSlot cvSlot lock cv g
      else .ok (.failed g) := by
  have hlock0 : 0 ≤ t.globalId MAX_DLOCK lockSlot := t.globalId_nonneg
  have hcv0 : 0 ≤ t.globalId MAX_DCV cvSlot := t.globalId_nonneg
  have hlockMax : (MAX_NUM_GLOBAL_IDS : ℤ) * ((MAX_DLOCK : ℤ) - 1) = 99000 := rfl
  have hcvMax : (MAX_NUM_GLOBAL_IDS : ℤ) * ((MAX_DCV : ℤ) - 1) = 99000 := rfl
  by_cases hin : t.globalId MAX_DLOCK lockSlot ≤ 99000 ∧ t.globalId MAX_DCV cvSlot ≤ 99000 ∧
    lock.ownerMailID ≠ -1
  · rw [if_pos hin, wait, if_neg (by omega), if_neg (by omega),
      if_pos ⟨t.globalId_tdiv hlockSlot, t.globalId_tdiv hcvSlot⟩, t.globalId_tmod hlockSlot,
      t.globalId_tmod hcvSlot, Int.toNat_natCast, Int.toNat_natCast]
    simp only [hlock, hcv, if_neg hin.2.2]
  · rw [if_neg hin, wait]
    refine ite_eq_left_iff.mpr fun hl => ite_eq_left_iff.mpr fun hc => ?_
    have howner : lock.ownerMailID = -1 := by omega
    rw [if_pos ⟨t.globalId_tdiv hlockSlot, t.globalId_tdiv hcvSlot⟩, t.globalId_tmod hlockSlot,
      Int.toNat_natCast]
    simp only [hlock, if_pos howner]

/-- `BROADCAST` compares with `MAX_DLOCK - 1`. -/
theorem broadcast_eq (hlockSlot : lockSlot < MAX_DLOCK) (hcvSlot : cvSlot < MAX_DCV)
    (hlock : g.dlocks lockSlot = some lock) (hcv : g.cvs cvSlot = some cv) :
    broadcast t e (t.globalId MAX_DCV cvSlot) (t.globalId MAX_DLOCK lockSlot) outPktHdr inPktHdr
      inMailHdr clientNum g =
      if t.globalId MAX_DLOCK lockSlot ≤ 99 ∧ t.globalId MAX_DCV cvSlot ≤ 99 ∧
        lock.ownerMailID ≠ -1 then
        broadcastOwn t e outPktHdr inPktHdr inMailHdr lockSlot cvSlot cv g
      else .ok (.failed g) := by
  have hlock0 : 0 ≤ t.globalId MAX_DLOCK lockSlot := t.globalId_nonneg
  have hcv0 : 0 ≤ t.globalId MAX_DCV cvSlot := t.globalId_nonneg
  have hlockMax : (MAX_DLOCK : ℤ) - 1 = 99 := rfl
  have hcvMax : (MAX_DCV : ℤ) - 1 = 99 := rfl
  by_cases hin : t.globalId MAX_DLOCK lockSlot ≤ 99 ∧ t.globalId MAX_DCV cvSlot ≤ 99 ∧
    lock.ownerMailID ≠ -1
  · rw [if_pos hin, broadcast, if_neg (by omega), if_neg (by omega),
      if_pos ⟨t.globalId_tdiv hlockSlot, t.globalId_tdiv hcvSlot⟩, t.globalId_tmod hlockSlot,
      t.globalId_tmod hcvSlot, Int.toNat_natCast, Int.toNat_natCast]
    simp only [hlock, hcv, if_neg hin.2.2]
  · rw [if_neg hin, broadcast]
    refine ite_eq_left_iff.mpr fun hl => ite_eq_left_iff.mpr fun hc => ?_
    have howner : lock.ownerMailID = -1 := by omega
    rw [if_pos ⟨t.globalId_tdiv hlockSlot, t.globalId_tdiv hcvSlot⟩, t.globalId_tmod hlockSlot,
      Int.toNat_natCast]
    simp only [hlock, if_pos howner]

end

/-- A lock that a thread owns. -/
theorem IdsInv.owned_lock (h : IdsInv group w) (hg : ValidGroup group) {t : NetThread} {slot : ℕ}
    {lock : DistributedLock} (ht : t ∈ group) (ho : Owned w .lock t slot (.lock lock)) :
    slot < MAX_DLOCK ∧ lock.globalId = t.globalId MAX_DLOCK slot ∧
      (w t.machineID).dlocks slot = some lock := by
  obtain ⟨hslot, hid⟩ := h.owned hg ht ho
  exact ⟨hslot, hid, by simpa [Kind.object] using ho.stored⟩

/-- A condition variable that a thread owns. -/
theorem IdsInv.owned_cv (h : IdsInv group w) (hg : ValidGroup group) {t : NetThread} {slot : ℕ}
    {cv : DistributedCV} (ht : t ∈ group) (ho : Owned w .cv t slot (.cv cv)) :
    slot < MAX_DCV ∧ cv.globalId = t.globalId MAX_DCV slot ∧ (w t.machineID).cvs slot = some cv := by
  obtain ⟨hslot, hid⟩ := h.owned hg ht ho
  exact ⟨hslot, hid, by simpa [Kind.object] using ho.stored⟩

theorem IdsInv.lockAccepts (h : IdsInv group w) (hg : ValidGroup group) {t : NetThread} {slot : ℕ}
    {lock : DistributedLock} (ht : t ∈ group) (ho : Owned w .lock t slot (.lock lock)) :
    LockAccepts t (w t.machineID) slot lock := by
  have hlt := hg.uniqueGlobalID_lt ht
  obtain ⟨hslot, hid, hlock⟩ := h.owned_lock hg ht ho
  constructor
  case acquire =>
    intro heapTail outPktHdr inPktHdr inMailHdr clientNum
    rw [hid, acquire_own _ _ _ _ _ _ _ hslot hlt, hlock]
  case release =>
    intro e outPktHdr clientNum
    rw [hid, release_own _ _ _ _ _ hslot hlt, hlock]
  case destroyLock =>
    intro e outPktHdr clientNum
    have hsmall : t.globalId MAX_DLOCK slot < 100000 := t.globalId_lt hslot hlt
    rw [hid, destroyLock_own _ _ _ _ _ hslot hlt hlock, hid, itoa_globalId t.globalId_nonneg hsmall]
    rfl

theorem IdsInv.cvAccepts (h : IdsInv group w) (hg : ValidGroup group) {t : NetThread} {slot : ℕ}
    {cv : DistributedCV} (ht : t ∈ group) (ho : Owned w .cv t slot (.cv cv)) :
    CvAccepts t (w t.machineID) slot cv := by
  obtain ⟨hslot, hid, hcv⟩ := h.owned_cv hg ht ho
  constructor
  intro e inPktHdr inMailHdr clientNum
  rw [hid]
  exact Call.deleteCV_own (c := ⟨t, e, inPktHdr, inMailHdr⟩) hslot (hg.uniqueGlobalID_lt ht) hcv

theorem IdsInv.mvAccepts (h : IdsInv group w) (hg : ValidGroup group) {t : NetThread} {slot : ℕ}
    {mv : DistributedMV} (ht : t ∈ group) (ho : Owned w .mv t slot (.mv mv)) :
    MvAccepts t (w t.machineID) slot mv := by
  have hlt := hg.uniqueGlobalID_lt ht
  obtain ⟨hslot, hid⟩ := h.owned hg ht ho
  change mv.globalId = t.globalId MAX_DMV slot at hid
  have hmv : (w t.machineID).mvs slot = some mv := by simpa [Kind.object] using ho.stored
  constructor
  case setMv =>
    intro value outPktHdr clientNum
    conv_lhs => rw [hid, setMV_eq hlt hslot hmv]
  case getMv =>
    intro e outPktHdr inPktHdr inMailHdr
    rw [hid, getMV_eq hlt hslot hmv]
  case destroyMv =>
    intro e outPktHdr clientNum
    conv_lhs => rw [hid, destroyMV_own _ _ _ _ _ hslot hlt hmv]

theorem IdsInv.pairAccepts (h : IdsInv group w) (hg : ValidGroup group) {t : NetThread}
    {lockSlot cvSlot : ℕ} {lock : DistributedLock} {cv : DistributedCV} (ht : t ∈ group)
    (hl : Owned w .lock t lockSlot (.lock lock)) (hc : Owned w .cv t cvSlot (.cv cv)) :
    PairAccepts t (w t.machineID) lockSlot cvSlot lock cv := by
  obtain ⟨hlockSlot, hlockId, hlock⟩ := h.owned_lock hg ht hl
  obtain ⟨hcvSlot, hcvId, hcv⟩ := h.owned_cv hg ht hc
  constructor
  case wait =>
    intro e outPktHdr inMailHdr clientNum
    rw [hlockId, hcvId]
    exact wait_eq hlockSlot hcvSlot hlock hcv
  case signal =>
    intro e outPktHdr inMailHdr clientNum
    rw [hlockId, hcvId]
    exact signal_eq (hg.uniqueGlobalID_lt ht) hlockSlot hcvSlot hlock hcv
  case broadcast =>
    intro e outPktHdr inPktHdr inMailHdr clientNum
    rw [hlockId, hcvId]
    exact broadcast_eq hlockSlot hcvSlot hlock hcv

theorem IdsInv.acrossAccepts (h : IdsInv group w) (hg : ValidGroup group) {t t' : NetThread}
    {lockSlot cvSlot : ℕ} {lock : DistributedLock} {cv : DistributedCV} (ht : t ∈ group)
    (ht' : t' ∈ group) (hne : t ≠ t') (hl : Owned w .lock t lockSlot (.lock lock))
    (hc : Owned w .cv t' cvSlot (.cv cv)) :
    AcrossAccepts t t' (w t.machineID) (w t'.machineID) lock cv := by
  obtain ⟨hlockSlot, hlockId, hlock⟩ := h.owned_lock hg ht hl
  obtain ⟨hcvSlot, hcvId, hcv⟩ := h.owned_cv hg ht' hc
  have hne : t.uniqueGlobalID ≠ t'.uniqueGlobalID := mt (hg.inj ht ht') hne
  have hlockOwner : (t.globalId MAX_DLOCK lockSlot).tdiv MAX_DLOCK = t.uniqueGlobalID :=
    t.globalId_tdiv hlockSlot
  have hcvOwner : (t'.globalId MAX_DCV cvSlot).tdiv MAX_DCV = t'.uniqueGlobalID :=
    t'.globalId_tdiv hcvSlot
  constructor
  case wait =>
    intro e outPktHdr inMailHdr clientNum
    rw [hlockId, hcvId]
    have hlock0 : 0 ≤ t.globalId MAX_DLOCK lockSlot := t.globalId_nonneg
    have hcv0 : 0 ≤ t'.globalId MAX_DCV cvSlot := t'.globalId_nonneg
    have hlockMax : (MAX_NUM_GLOBAL_IDS : ℤ) * ((MAX_DLOCK : ℤ) - 1) = 99000 := rfl
    have hcvMax : (MAX_NUM_GLOBAL_IDS : ℤ) * ((MAX_DCV : ℤ) - 1) = 99000 := rfl
    rw [wait]
    by_cases hl : t.globalId MAX_DLOCK lockSlot ≤ 99000
    swap
    · rw [if_pos (by omega)]
      exact iff_of_true rfl (by omega)
    by_cases hc : t'.globalId MAX_DCV cvSlot ≤ 99000
    swap
    · rw [if_neg (by omega), if_pos (by omega)]
      exact iff_of_true rfl (by omega)
    rw [if_neg (by omega), if_neg (by omega),
      if_neg (c := _ ∧ _) (fun h => hne (h.2.symm.trans hcvOwner)), if_pos hlockOwner, t.globalId_tmod hlockSlot,
      Int.toNat_natCast]
    simp only [hlock]
    by_cases howner : lock.ownerMailID = -1
    · rw [if_pos howner]
      exact iff_of_true rfl (Or.inr (Or.inr howner))
    · rw [if_neg howner]
      refine iff_of_false (fun h => ?_) (by omega)
      obtain ⟨i, -, h⟩ := bind_eq_ok.mp h
      cases congrArg Result.success (Except.ok.inj h)
  case signal =>
    intro e outPktHdr inMailHdr clientNum hrefused
    rw [hlockId, hcvId, signal,
      if_neg (mt (t.globalId_refused_iff hlockSlot).mp (not_le.mpr (hg.uniqueGlobalID_lt ht))),
      if_neg (mt (t'.globalId_refused_iff hcvSlot).mp (not_le.mpr (hg.uniqueGlobalID_lt ht'))),
      if_neg (c := _ ∧ _) (fun h => hne (hlockOwner.symm.trans h.1)), if_pos hcvOwner] at hrefused
    obtain ⟨i, -, hrefused⟩ := bind_eq_ok.mp hrefused
    cases congrArg Result.success (Except.ok.inj hrefused)
  case broadcast =>
    intro e outPktHdr inPktHdr inMailHdr clientNum
    rw [hlockId, hcvId]
    exact broadcast_other (p := ⟨t, lockSlot, t', cvSlot⟩) hne e outPktHdr inPktHdr inMailHdr clientNum _

/-- **A run that adopts no id of its own machine has usable ids**: they are distinct, give back the
    owner and the slot, and no operation refuses them, but for `WAIT` above 99000 and `BROADCAST`
    above 99. -/
theorem ids_usable (group : List NetThread) (hg : ValidGroup group) (l : List (NetThread × Delivery))
    (hl : Guarded (worldStep group) (AdoptsForeign group) (.init group) l) (w : World)
    (hw : exec (worldStep group) (.init group) l = .ok w) : IdsUsable group w := by
  have hinv : IdsInv group w := exec_inv (fun _ _ _ => IdsInv.step) .init hl hw
  constructor
  case owner =>
    intro k t slot o ht ho
    obtain ⟨hslot, t', ht', hm, hid⟩ | ⟨hk, hne⟩ := hinv t.machineID k slot o ho
    · refine Or.inl ⟨t', ht', hm, by rwa [hm], ?_⟩
      rw [hid, t'.globalId_tdiv hslot]
    · exact Or.inr ⟨hk, fun t' ht' hm howned => hne t' ht' hm howned.owner⟩
  case distinct =>
    intro k t ht t' ht' slot slot' o o' ho ho' hid
    have howner := ho.owner
    rw [hid, ho'.owner] at howner
    cases hg.inj ht' ht howner
    obtain ⟨-, h⟩ := hinv.owned hg ht ho
    obtain ⟨-, h'⟩ := hinv.owned hg ht ho'
    rw [h, h', NetThread.globalId, NetThread.globalId] at hid
    exact ⟨rfl, by omega⟩
  case slot =>
    intro k t ht slot o ho
    obtain ⟨hslot, hid⟩ := hinv.owned hg ht ho
    rw [hid, t.globalId_tmod hslot]
  case lock => exact fun t ht slot lock ho => hinv.lockAccepts hg ht ho
  case cv => exact fun t ht slot cv ho => hinv.cvAccepts hg ht ho
  case mv => exact fun t ht slot mv ho => hinv.mvAccepts hg ht ho
  case pair => exact fun t ht lockSlot cvSlot lock cv hl hc => hinv.pairAccepts hg ht hl hc
  case across =>
    exact fun t ht t' ht' hne lockSlot cvSlot lock cv hl hc => hinv.acrossAccepts hg ht ht' hne hl hc

end

/-- Server (9, 91) is asked by its user for a lock and a condition variable, and for the lock
    that it has got. -/
def createAndAcquire : List (NetThread × Delivery) :=
  let t : NetThread := ⟨9, 91⟩
  [(RequestType.createLock, ['l']), (RequestType.createCv, ['c']),
    (RequestType.acquire, fmtInt 99100)].map fun (type, arguments) =>
      (t, ⟨.clear ⟨0, 0⟩, ⟨9, 9⟩, ⟨91, 92⟩, t.user.text type arguments⟩)

theorem createAndAcquire_guarded :
    Guarded (worldStep [⟨9, 91⟩]) (AdoptsForeign [⟨9, 91⟩]) (.init [⟨9, 91⟩]) createAndAcquire := by
  have hask : ∀ (w : World) (type : RequestType) (arguments : Text), type ≠ .createLockAnswer →
      AdoptsForeign [⟨9, 91⟩] w (⟨9, 91⟩, ⟨.clear ⟨0, 0⟩, ⟨9, 9⟩, ⟨91, 92⟩,
        NetThread.user ⟨9, 91⟩ |>.text type arguments⟩) := by
    intro w type arguments hne
    refine ⟨List.mem_singleton_self _, fun s hs => ?_⟩
    rw [Origin.text, readType_requestText, Except.ok.injEq, Prod.mk.injEq] at hs
    have hcode := RequestType.ofCode_code type
    rw [hs.1, RequestType.ofCode_code, Option.some.injEq] at hcode
    exact absurd hcode.symm hne
  refine ⟨hask _ _ _ (by decide), fun _ _ => ⟨hask _ _ _ (by decide), fun _ _ =>
    ⟨hask _ _ _ (by decide), fun _ _ => trivial⟩⟩⟩

/-- The ids of that run. -/
theorem ids_usable_created :
    ∃ w, exec (worldStep [⟨9, 91⟩]) (.init [⟨9, 91⟩]) createAndAcquire = .ok w ∧
      IdsUsable [⟨9, 91⟩] w := by
  obtain ⟨w, hw, -⟩ : Ends (worldStep [⟨9, 91⟩]) (.init [⟨9, 91⟩]) createAndAcquire
      fun _ => True := by decide +kernel
  exact ⟨w, hw, ids_usable [⟨9, 91⟩] (by decide) _ createAndAcquire_guarded w hw⟩

/-- **Ids that are refused**: the client that holds lock 99100 cannot wait on condition variable
    99100, and cannot wake those who wait. -/
theorem wait_and_broadcast_refuse :
    let t : NetThread := ⟨9, 91⟩
    let c : Call := t.user.call t (.clear ⟨0, 0⟩)
    ∃ w lock cv, exec (worldStep [t]) (.init [t]) createAndAcquire = .ok w ∧
      Owned w .lock t 0 (.lock lock) ∧ Owned w .cv t 0 (.cv cv) ∧
      lock.owner = clientAddress t.user.client ∧
      lock.globalId = 99100 ∧ cv.globalId = 99100 ∧
      processMessage c (t.user.text .wait (pairText 99100 99100)) [t] (w 9) = .ok (.failed (w 9)) ∧
      processMessage c (t.user.text .broadcast (pairText 99100 99100)) [t] (w 9) =
        .ok (.failed (w 9)) := by
  intro t c
  obtain ⟨w, hw, hl, hc, hcount⟩ : Ends (worldStep [t]) (.init [t]) createAndAcquire fun w =>
    (∃ lock ∈ (w 9).dlocks 0, lock.globalId = 99100 ∧ lock.owner = clientAddress t.user.client) ∧
      (∃ cv ∈ (w 9).cvs 0, cv.globalId = 99100) ∧ (w 9).serverCount = 1 := by decide +kernel
  obtain ⟨lock, hlock, hlockId, howner⟩ := hl
  obtain ⟨cv, hcv, hcvId⟩ := hc
  have hread : readTwo 5 [] c.client (t.user.body (pairText 99100 99100)) =
      .ok (991, fmtInt 99100, fmtInt 99100) := by decide +kernel
  have hid : (99100 : ℤ) = t.globalId 100 0 := by decide
  have hslot : 0 < 100 := by norm_num
  refine ⟨w, lock, cv, hw, ⟨?_, ?_⟩, ⟨?_, ?_⟩, howner, hlockId, hcvId, ?_, ?_⟩
  · show ((w 9).dlocks 0).map Object.lock = _
    rw [hlock, Option.map_some]
  · show lock.globalId.tdiv 100 = 991
    rw [hlockId]
    decide
  · show ((w 9).cvs 0).map Object.cv = _
    rw [hcv, Option.map_some]
  · show cv.globalId.tdiv 100 = 991
    rw [hcvId]
    decide
  · rw [Origin.text, processMessage_requestText _ _ _ hcount]
    show c.wait _ _ = _
    rw [Call.wait, hread, ok_bind, Call.twoArguments]
    simp only [atoi_fmtInt]
    rw [if_neg (by decide), hid]
    exact (wait_eq hslot hslot hlock hcv).trans
      (if_neg fun h => absurd h.1 (by decide))
  · rw [Origin.text, processMessage_requestText _ _ _ hcount]
    show c.broadcast _ _ = _
    rw [Call.broadcast, hread, ok_bind, Call.twoArguments]
    simp only [atoi_fmtInt]
    rw [if_neg (by decide), hid]
    exact (broadcast_eq hslot hslot hlock hcv).trans
      (if_neg fun h => absurd h.1 (by decide))

end Nachos.Network
