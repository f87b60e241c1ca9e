import Nachos.Network.AcrossServers
import Nachos.Network.Sending
import Nachos.Network.Syscalls

/-!
# Illegal requests

The error exits of the operations on locks, condition variables and monitor variables
(`network/netcall.cc`, lines 1290-2992): a request is illegal if its object does not exist, its id
is out of range, the client does not hold the lock, or the condition variable is waited on with
another lock (`WRITEUP`, lines 108-113). The functions test the first two, but only whether the
lock has an owner at all. What a call sends has to pass the assertions of `Send` as well: a request
for the object of another server is forwarded to a mailbox that need not exist.

* `illegal_unchanged_iff`: the illegal requests that leave the tables unchanged, exactly.
* `release_by_other`: client 100 frees the lock that client 0 holds.
-/

namespace Nachos.Network

open Nachos.Lib

/-! ## Legality -/

section

variable (t : NetThread) (g g' : Globals)

/-- The tables, with the state, the owner and the queue of each object, and the create indices are
    as before. -/
def SameObjects : Prop :=
  ∀ k : Kind, k.object g' = k.object g ∧ k.createIndex g' = k.createIndex g

/-- The call returns, and the tables are unchanged. -/
def Unchanged (x : Except Fault Result) : Prop := Gives x fun r => SameObjects g r.state

/-- An id that the thread owns and that passes the range checks of most operations. -/
def NetThread.Owns (max : ℕ) (id : ℤ) : Prop :=
  id.tdiv max = t.uniqueGlobalID ∧ ¬ (id < 0 ∨ id > MAX_NUM_GLOBAL_IDS * max - 1)

instance (max : ℕ) (id : ℤ) : Decidable (t.Owns max id) := inferInstanceAs (Decidable (_ ∧ _))

/-- The lock with an id, if it is here. -/
def NetThread.lockOf (id : ℤ) : Option DistributedLock :=
  if t.Owns MAX_DLOCK id then g.dlocks (id.tmod MAX_DLOCK).toNat else none

/-- The condition variable with an id. -/
def NetThread.cvOf (id : ℤ) : Option DistributedCV :=
  if t.Owns MAX_DCV id then g.cvs (id.tmod MAX_DCV).toNat else none

/-- The monitor variable with an id. -/
def NetThread.mvOf (id : ℤ) : Option DistributedMV :=
  if t.Owns MAX_DMV id then g.mvs (id.tmod MAX_DMV).toNat else none

/-- The client holds the lock. -/
def Holds (client : ℕ) (id : ℤ) : Prop := ∃ lock ∈ t.lockOf g id, lock.toMutex.holder = some (client : ℤ)

/-- The clients that wait on the condition variable have used another lock. -/
def WaitedWithOther (cvId lockId : ℤ) : Prop :=
  ∃ cv ∈ t.cvOf g cvId, cv.waitQueue ≠ [] ∧ cv.firstLock ≠ lockId

/-- **An illegal request** of a client, as far as the server `t` can know: an object that is not
    here may be one of another server. -/
def Illegal (client : ℕ) : Syscall → Prop
  | .create _ _ => False
  | .acquire id | .destroyLock id => t.lockOf g id = none
  | .release id => t.lockOf g id = none ∨ ¬ Holds t g client id
  | .destroyCondition id => t.cvOf g id = none
  | .getMV id | .destroyMV id | .setMV id _ => t.mvOf g id = none
  | .wait cv lock | .signal cv lock | .broadcast cv lock =>
    t.cvOf g cv = none ∨ t.lockOf g lock = none ∨ ¬ Holds t g client lock ∨
      WaitedWithOther t g cv lock

/-- A lock that nobody holds or waits for. -/
def DistributedLock.Idle (lock : DistributedLock) : Prop :=
  lock.lockState = FREE ∧ lock.ownerMachID = -1 ∧ lock.ownerMailID = -1 ∧ lock.waitQueue = []

/-- A signal or a broadcast with the lock wakes nobody. -/
def DistributedCV.WakesNobody (cv : DistributedCV) (lockId : ℤ) : Prop :=
  if cv.waitQueue = [] then cv.firstLock = -1 else cv.firstLock ≠ lockId

end

/-! ## Where a request goes -/

namespace Origin

/-- The mailbox that a reply to the sender of the request goes to exists. -/
def HasBox (o : Origin) (t : NetThread) (e : Ambient) : Prop :=
  0 ≤ (o.call t e).inMailHdr.fromBox ∧ (o.call t e).inMailHdr.fromBox < Mail.numBoxes

end Origin

namespace Syscall

/-- The server that processes the request: the owner of one of its objects, and for a create request
    every server itself. -/
def owner (t : NetThread) : Syscall → ℤ
  | create _ _ => t.uniqueGlobalID
  | acquire id | release id | destroyLock id | wait _ id => id.tdiv MAX_DLOCK
  | destroyCondition id | signal id _ | broadcast id _ => id.tdiv MAX_DCV
  | getMV id | destroyMV id | setMV id _ => id.tdiv MAX_DMV

/-- The type under which any other server forwards it. -/
def sentType : Syscall → RequestType
  | wait _ _ => .signal
  | s => s.type

/-- The mailbox to which it is forwarded. -/
def box (c : Call) : Syscall → ℤ
  | acquire _ => c.inMailHdr.toBox + 1
  | destroyLock id | wait _ id => id.tdiv MAX_DLOCK
  | destroyCondition id | broadcast id _ => id.tdiv MAX_DCV
  | create _ _ | release _ | getMV _ | destroyMV _ | setMV _ _ | signal _ _ => c.e.outMailHdr.toBox + 1

/-- The message by which it is forwarded. -/
def forwarded (o : Origin) (t : NetThread) (e : Ambient) (s : Syscall) : Message :=
  (o.call t e).forwarded s.sentType (s.owner t) (s.box (o.call t e)) (o.readClient e s) s.arguments

end Syscall

/-- The acknowledgement of a `RELEASE`. -/
def releaseReply (t : NetThread) (outPktHdr : PacketHeader) (clientNum : ℤ) (ack : Text) :
    Message :=
  outgoing t { outPktHdr with toMachine := clientMachine clientNum }
    { toBox := clientBox clientNum + 1, fromBox := t.mailID } ack

section

variable (t : NetThread) (g : Globals) (o : Origin) (e : Ambient) (p : Office)

/-- What is harmless at the owner: the lock of a `RELEASE` is idle, and the acknowledgement can be
    printed and sent; the lock of a `WAIT` has no owner, or `WAIT` refuses an id above 99000; and so
    for `SIGNAL`, and for `BROADCAST`, which refuses ids above 99, unless they would wake nobody. The
    replies of `BROADCAST` and `GETMV` go to the sender's mailbox, and the `SIGNALLOCK` for the lock
    of another server to the mailbox with the server's number. -/
def HarmlessHere : Syscall → Prop
  | .create _ _ | .acquire _ | .destroyLock _ | .destroyCondition _ | .destroyMV _ | .setMV _ _ => True
  | .getMV _ => o.HasBox t e
  | .release id => ∀ lock ∈ t.lockOf g id, lock.Idle ∧
    Gives (itoa 5 lock.globalId (e.heapTail 0)) fun ack =>
      p.Takes t (releaseReply t e.outPktHdr o.client ack)
  | .wait cvId lockId => ∀ lock ∈ t.lockOf g lockId, ∀ cv ∈ t.cvOf g cvId,
    lockId ≤ 99000 → cvId ≤ 99000 → lock.ownerMailID = -1
  | .signal cvId lockId =>
    (∀ lock ∈ t.lockOf g lockId, ∀ cv ∈ t.cvOf g cvId, lock.ownerMailID = -1 ∨ cv.WakesNobody lockId) ∧
      (t.Owns MAX_DCV cvId → lockId.tdiv MAX_DLOCK ≠ t.uniqueGlobalID → lockId < 10000 ∨ 99999 < lockId)
  | .broadcast cvId lockId => ∀ lock ∈ t.lockOf g lockId, ∀ cv ∈ t.cvOf g cvId,
    lockId ≤ 99 → cvId ≤ 99 → lock.ownerMailID = -1 ∨ cv.WakesNobody lockId ∧ o.HasBox t e

/-- **A harmless request**: a `SIGNAL` has been forwarded, a request for another server is forwarded
    in a message that `Send` takes, and any other is harmless here. -/
structure Harmless (s : Syscall) : Prop where
  prefixed : s.type = .signal → o.Forwarded
  elsewhere : s.owner t ≠ t.uniqueGlobalID → p.Takes t (s.forwarded o t e)
  here : s.owner t = t.uniqueGlobalID → HarmlessHere t g o e p s

end

/-- Freeing a lock and handing it off changes it, unless it is idle. -/
theorem handOff_eq_self_iff {t : NetThread} {lock : DistributedLock} :
    (handOff t lock.free).1 = lock ↔ lock.Idle := by
  unfold handOff DistributedLock.Idle
  constructor
  · intro h
    cases hq : lock.waitQueue with
    | nil =>
      have hq' : lock.free.waitQueue = [] := hq
      simp only [hq'] at h
      rw [← h]
      exact ⟨rfl, rfl, rfl, rfl⟩
    | cons reply queue =>
      have hq' : lock.free.waitQueue = reply :: queue := hq
      simp only [hq'] at h
      have hlength := congrArg (·.waitQueue.length) h
      simp [DistributedLock.give, hq] at hlength
  · rintro ⟨hstate, hmach, hmail, hq⟩
    have hq' : lock.free.waitQueue = [] := hq
    simp only [hq']
    obtain ⟨name, state, queue, mach, mail, id⟩ := lock
    simp_all [DistributedLock.free]

theorem handOff_of_idle {t : NetThread} {lock : DistributedLock} (h : lock.Idle) :
    handOff t lock.free = (lock, []) := by
  have hsame : (handOff t lock.free).1 = lock := handOff_eq_self_iff.mpr h
  have hq : lock.free.waitQueue = [] := h.2.2.2
  refine Prod.ext hsame ?_
  simp only [handOff, hq]

/-! ## The operations -/

section

variable {t : NetThread} {g g' : Globals} {e : Ambient} {p : Office}
  {outPktHdr inPktHdr : PacketHeader} {inMailHdr : MailHeader} {clientNum id cvId lockId : ℤ}

theorem SameObjects.refl (g : Globals) : SameObjects g g := fun _ => ⟨rfl, rfl⟩

/-- An error exit. -/
theorem Unchanged.failed : Unchanged g (p.carry t (.ok (.failed g))) := ⟨_, rfl, .refl g⟩

/-- A call with one message. -/
theorem unchanged_single {m : Message} {success : Bool} :
    Unchanged g (p.carry t (.ok ⟨g', [m], success⟩)) ↔ p.Takes t m ∧ SameObjects g g' := by
  rw [Office.carry_single]
  split_ifs with htaken
  · refine ⟨fun ⟨r, hr, hsame⟩ => ⟨htaken, ?_⟩, fun h => ⟨_, rfl, h.2⟩⟩
    cases hr
    exact hsame
  · exact iff_of_false (fun ⟨r, hr, _⟩ => nomatch hr) fun h => htaken h.1

/-- Whatever is sent, the call itself has changed nothing. -/
theorem Unchanged.of_carry {x : Except Fault Result} (h : Unchanged g (p.carry t x)) : Unchanged g x := by
  obtain ⟨r, hr, hsame⟩ := h
  exact ⟨r, Office.carry_eq_ok hr, hsame⟩

theorem lockOf_eq (hown : id.tdiv MAX_DLOCK = t.uniqueGlobalID)
    (hrange : ¬ (id < 0 ∨ id > MAX_NUM_GLOBAL_IDS * MAX_DLOCK - 1)) :
    t.lockOf g id = g.dlocks (id.tmod MAX_DLOCK).toNat := if_pos ⟨hown, hrange⟩

theorem cvOf_eq (hown : id.tdiv MAX_DCV = t.uniqueGlobalID)
    (hrange : ¬ (id < 0 ∨ id > MAX_NUM_GLOBAL_IDS * MAX_DCV - 1)) :
    t.cvOf g id = g.cvs (id.tmod MAX_DCV).toNat := if_pos ⟨hown, hrange⟩

theorem mvOf_eq (hown : id.tdiv MAX_DMV = t.uniqueGlobalID)
    (hrange : ¬ (id < 0 ∨ id > MAX_NUM_GLOBAL_IDS * MAX_DMV - 1)) :
    t.mvOf g id = g.mvs (id.tmod MAX_DMV).toNat := if_pos ⟨hown, hrange⟩

/-- Tables that are assigned again. -/
theorem sameObjects_iff : SameObjects g g' ↔
    g'.dlocks = g.dlocks ∧ g'.cvs = g.cvs ∧ g'.mvs = g.mvs ∧
      g'.createDLockIndex = g.createDLockIndex ∧ g'.createDCVIndex = g.createDCVIndex ∧
      g'.createDMVIndex = g.createDMVIndex := by
  constructor
  · intro h
    refine ⟨?_, ?_, ?_, (h .lock).2, (h .cv).2, (h .mv).2⟩
    · funext slot
      exact Option.map_injective (fun _ _ heq => Object.lock.inj heq) (congrFun (h .lock).1 slot)
    · funext slot
      exact Option.map_injective (fun _ _ heq => Object.cv.inj heq) (congrFun (h .cv).1 slot)
    · funext slot
      exact Option.map_injective (fun _ _ heq => Object.mv.inj heq) (congrFun (h .mv).1 slot)
  · rintro ⟨hl, hc, hm, hli, hci, hmi⟩ k
    cases k with
    | lock => exact ⟨by unfold Kind.object; rw [hl], hli⟩
    | cv => exact ⟨by unfold Kind.object; rw [hc], hci⟩
    | mv => exact ⟨by unfold Kind.object; rw [hm], hmi⟩

/-- A lock that is stored again is as before if it is the same. -/
theorem sameObjects_setLock {slot : ℕ} {lock lock' : DistributedLock} (h : g.dlocks slot = some lock) :
    SameObjects g (g.setLock slot (some lock')) ↔ lock' = lock := by
  rw [sameObjects_iff]
  constructor
  · rintro ⟨hl, -⟩
    have hslot := congrFun hl slot
    rw [Globals.setLock_dlocks, Function.update_self, h] at hslot
    exact Option.some.inj hslot
  · rintro rfl
    refine ⟨?_, rfl, rfl, rfl, rfl, rfl⟩
    rw [Globals.setLock_dlocks, ← h, Function.update_eq_self]

/-- So is a condition variable. -/
theorem sameObjects_setCv {slot : ℕ} {cv cv' : DistributedCV} (h : g.cvs slot = some cv) :
    SameObjects g (g.setCv slot (some cv')) ↔ cv' = cv := by
  rw [sameObjects_iff]
  constructor
  · rintro ⟨-, hc, -⟩
    have hslot := congrFun hc slot
    rw [Globals.setCv_cvs, Function.update_self, h] at hslot
    exact Option.some.inj hslot
  · rintro rfl
    refine ⟨rfl, ?_, rfl, rfl, rfl, rfl⟩
    rw [Globals.setCv_cvs, ← h, Function.update_eq_self]

theorem acquire_unchanged {heapTail : Text} (hown : id.tdiv MAX_DLOCK = t.uniqueGlobalID)
    (h : t.lockOf g id = none) :
    Unchanged g (p.carry t (acquire t heapTail id outPktHdr inPktHdr inMailHdr clientNum g)) := by
  unfold acquire
  by_cases hrange : id < 0 ∨ id > MAX_NUM_GLOBAL_IDS * MAX_DLOCK - 1
  · simp only [if_pos hrange]
    exact .failed
  · rw [lockOf_eq hown hrange] at h
    simp only [if_neg hrange, if_pos hown, h]
    exact .failed

theorem destroyLock_unchanged (hown : id.tdiv MAX_DLOCK = t.uniqueGlobalID)
    (h : t.lockOf g id = none) :
    Unchanged g (p.carry t (destroyLock t e id outPktHdr clientNum g)) := by
  rw [destroyLock]
  split_ifs with hrange
  · exact .failed
  · rw [lockOf_eq hown hrange] at h
    simp only [h]
    exact .failed

theorem deleteCV_unchanged {c : Call} (hown : id.tdiv MAX_DCV = c.t.uniqueGlobalID)
    (h : c.t.cvOf g id = none) : Unchanged g (p.carry c.t (c.deleteCV id clientNum g)) := by
  rw [Call.deleteCV]
  split_ifs with hrange
  · exact .failed
  · rw [cvOf_eq hown hrange] at h
    simp only [h]
    exact .failed

/-- `GETMV` replies 999 to the sender. -/
theorem getMV_unchanged_iff (hown : id.tdiv MAX_DMV = t.uniqueGlobalID) (h : t.mvOf g id = none) :
    Unchanged g (p.carry t (getMV t e id outPktHdr inPktHdr inMailHdr g)) ↔
      0 ≤ inMailHdr.fromBox ∧ inMailHdr.fromBox < Mail.numBoxes := by
  have herror : itoa 4 999 (e.heapTail 0) = .ok (fmtInt 999) :=
    itoa_fits (by norm_num) (by norm_num) (by norm_num) (by norm_num) _
  have hget : getMV t e id outPktHdr inPktHdr inMailHdr g =
      .ok ⟨g, [sendReply t outPktHdr inPktHdr inMailHdr (fmtInt 999)], true⟩ := by
    rw [getMV]
    split_ifs with hrange
    · rw [herror]
      rfl
    · rw [mvOf_eq hown hrange] at h
      simp only [h, herror]
      rfl
  have hshort : (fmtInt 999).length ≤ 18 := by decide
  rw [hget, unchanged_single, Office.takes_of_short hshort]
  exact and_iff_left (.refl g)

theorem destroyMV_unchanged (hown : id.tdiv MAX_DMV = t.uniqueGlobalID) (h : t.mvOf g id = none) :
    Unchanged g (p.carry t (destroyMV t e id outPktHdr clientNum g)) := by
  rw [destroyMV]
  split_ifs with hrange
  · exact .failed
  · rw [mvOf_eq hown hrange] at h
    simp only [h]
    exact .failed

theorem setMV_unchanged {value : ℤ} (hown : id.tdiv MAX_DMV = t.uniqueGlobalID)
    (h : t.mvOf g id = none) : Unchanged g (p.carry t (setMV t id value outPktHdr clientNum g)) := by
  rw [setMV]
  split_ifs with hrange
  · exact .failed
  · rw [mvOf_eq hown hrange] at h
    simp only [h]
    exact .failed

/-- `RELEASE` of a lock that is here frees it, whoever holds it. -/
theorem release_unchanged_iff (hown : id.tdiv MAX_DLOCK = t.uniqueGlobalID) :
    Unchanged g (p.carry t (release t e id outPktHdr clientNum g)) ↔ ∀ lock ∈ t.lockOf g id, lock.Idle ∧
      Gives (itoa 5 lock.globalId (e.heapTail 0)) fun ack =>
        p.Takes t (releaseReply t outPktHdr clientNum ack) := by
  by_cases hrange : id < 0 ∨ id > MAX_NUM_GLOBAL_IDS * MAX_DLOCK - 1
  · rw [release, if_pos hrange]
    have hnone : t.lockOf g id = none := if_neg fun h => h.2 hrange
    exact iff_of_true .failed (by simp [hnone])
  · rw [release, if_neg hrange, if_pos hown, lockOf_eq hown hrange]
    cases hlock : g.dlocks (id.tmod MAX_DLOCK).toNat with
    | none => simp only [hlock, Option.mem_def, reduceCtorEq, false_implies, implies_true,
        Unchanged.failed]
    | some lock =>
      simp only [hlock, Option.mem_def, Option.some.injEq, forall_eq']
      constructor
      · intro h
        obtain ⟨r, hr, hsame⟩ := h.of_carry
        rw [releaseOwn, bind_eq_ok] at hr
        obtain ⟨ack, hack, hr⟩ := hr
        cases hr
        have hidle := handOff_eq_self_iff.mp ((sameObjects_setLock hlock).mp hsame)
        refine ⟨hidle, ack, hack, ?_⟩
        rw [releaseOwn, hack, ok_bind, handOff_of_idle hidle] at h
        exact (unchanged_single.mp h).1
      · rintro ⟨hidle, ack, hack, htaken⟩
        rw [releaseOwn, hack, ok_bind, handOff_of_idle hidle]
        exact unchanged_single.mpr ⟨htaken, (sameObjects_setLock hlock).mpr rfl⟩

/-- `WAIT` on objects that are here queues the client. -/
theorem waitOwn_changes {lockSlot cvSlot : ℕ} {lock : DistributedLock} {cv : DistributedCV}
    (hcv : g.cvs cvSlot = some cv) :
    ¬ Unchanged g (p.carry t (waitOwn t e outPktHdr clientNum lockSlot cvSlot lock cv g)) := by
  intro h
  obtain ⟨r, hr, hsame⟩ := h.of_carry
  rw [waitOwn] at hr
  obtain ⟨ack, -, hr⟩ := bind_eq_ok.mp hr
  cases hr
  have hcvs := congrFun (sameObjects_iff.mp hsame).2.1 cvSlot
  simp only [Globals.setCv_cvs, Function.update_self, hcv, Option.some.injEq] at hcvs
  have hlength := congrArg (·.waitQueue.length) hcvs
  simp at hlength

/-- The id of a lock that is here names its slot. -/
theorem globalId_of_owns {max : ℕ} (hown : id.tdiv max = t.uniqueGlobalID)
    (h0 : 0 ≤ id) : t.globalId max (id.tmod max).toNat = id := by
  have hmod : 0 ≤ id.tmod max := Int.tmod_nonneg _ h0
  have hsplit := Int.mul_tdiv_add_tmod id max
  rw [NetThread.globalId, ← hown, Int.toNat_of_nonneg hmod, mul_comm]
  exact hsplit

theorem toNat_tmod_lt {max : ℕ} (hmax : 0 < max) : (id.tmod max).toNat < max := by
  have := Int.tmod_lt_of_pos id (show (0 : ℤ) < max by omega)
  omega

/-- A `WAITCV` goes to mailbox 0. -/
theorem waitCv_taken (h0 : 0 ≤ clientNum) (h1 : clientNum < MAX_CLIENTS)
    (hown : lockId.tdiv MAX_DLOCK = t.uniqueGlobalID) (hlock : 0 ≤ lockId ∧ lockId ≤ 99000)
    (hcv : 0 ≤ cvId) :
    p.Takes t (outgoing t { outPktHdr with toMachine := (cvId.tmod MAX_DCV).tdiv MAX_DCV }
      { toBox := (cvId.tmod MAX_DCV).tdiv MAX_DCV, fromBox := inMailHdr.fromBox }
      (clientText .waitCv clientNum (pairText (cvId.tmod MAX_DCV + t.uniqueGlobalID * MAX_DLOCK)
        ((lockId.tmod MAX_DLOCK).toNat + t.uniqueGlobalID * MAX_DLOCK)))) := by
  have hmod := Int.tmod_lt_of_pos cvId (show (0 : ℤ) < MAX_DCV by norm_num)
  have hmod0 : 0 ≤ cvId.tmod MAX_DCV := Int.tmod_nonneg _ hcv
  have hid : t.uniqueGlobalID * 100 + (lockId.tmod MAX_DLOCK).toNat = lockId :=
    globalId_of_owns hown hlock.1
  have hnat := t.uniqueGlobalID_nonneg
  have htarget : (cvId.tmod MAX_DCV).tdiv MAX_DCV = 0 := Int.tdiv_eq_zero_of_lt hmod0 hmod
  generalize (lockId.tmod MAX_DLOCK).toNat = slot at hid
  generalize cvId.tmod MAX_DCV = index at hmod hmod0 htarget
  have hmod : index < 100 := hmod
  have hleft : (fmtInt (index + t.uniqueGlobalID * MAX_DLOCK)).length ≤ 5 :=
    length_fmtInt_le_of_nonneg (by norm_num) (by norm_num; omega) (by norm_num; omega)
  have hright : (fmtInt (slot + t.uniqueGlobalID * MAX_DLOCK)).length ≤ 5 :=
    length_fmtInt_le_of_nonneg (by norm_num) (by norm_num; omega) (by norm_num; omega)
  refine (Office.takes_of_short (length_clientText_le h0 h1 ?_)).mpr ?_
  · rw [length_pairText]
    omega
  · rw [htarget]
    exact ⟨le_rfl, show (0 : ℤ) < 100 by norm_num⟩

/-- `WAIT` for a lock that is here, whoever holds it. -/
theorem wait_unchanged_iff (hown : lockId.tdiv MAX_DLOCK = t.uniqueGlobalID) (h0 : 0 ≤ clientNum)
    (h1 : clientNum < MAX_CLIENTS) :
    Unchanged g (p.carry t (wait t e cvId lockId outPktHdr inMailHdr clientNum g)) ↔
      ∀ lock ∈ t.lockOf g lockId, ∀ cv ∈ t.cvOf g cvId, lockId ≤ 99000 → cvId ≤ 99000 →
        lock.ownerMailID = -1 := by
  have hlockMax : (MAX_NUM_GLOBAL_IDS : ℤ) * ((MAX_DLOCK : ℤ) - 1) = 99000 := rfl
  have hcvMax : (MAX_NUM_GLOBAL_IDS : ℤ) * ((MAX_DCV : ℤ) - 1) = 99000 := rfl
  have hmax : (MAX_NUM_GLOBAL_IDS : ℤ) * MAX_DLOCK - 1 = 99999 := rfl
  have hmax' : (MAX_NUM_GLOBAL_IDS : ℤ) * MAX_DCV - 1 = 99999 := rfl
  rw [wait]
  by_cases hl : lockId < 0 ∨ lockId > MAX_NUM_GLOBAL_IDS * (MAX_DLOCK - 1)
  · rw [if_pos hl]
    refine iff_of_true .failed fun lock hlock cv _ h99 _ => ?_
    have hnone : t.lockOf g lockId = none := if_neg fun h => h.2 (Or.inl (by omega))
    rw [hnone] at hlock
    cases hlock
  rw [if_neg hl]
  by_cases hc : cvId < 0 ∨ cvId > MAX_NUM_GLOBAL_IDS * (MAX_DCV - 1)
  · rw [if_pos hc]
    refine iff_of_true .failed fun lock _ cv hcv _ h99 => ?_
    have hnone : t.cvOf g cvId = none := if_neg fun h => h.2 (Or.inl (by omega))
    rw [hnone] at hcv
    cases hcv
  rw [if_neg hc, lockOf_eq hown (by omega)]
  cases hlock : g.dlocks (lockId.tmod MAX_DLOCK).toNat with
  | none =>
    refine iff_of_true ?_ (by rintro _ ⟨⟩)
    split_ifs <;> (simp only [hlock]; exact .failed)
  | some lock =>
    by_cases howner : lock.ownerMailID = -1
    · refine iff_of_true ?_ fun lock' hlock' _ _ _ _ => ?_
      · split_ifs <;> (simp only [hlock, if_pos howner]; exact .failed)
      · cases hlock'
        exact howner
    · by_cases hcown : cvId.tdiv MAX_DCV = t.uniqueGlobalID
      · rw [if_pos ⟨hown, hcown⟩, cvOf_eq hcown (by omega)]
        simp only [hlock, if_neg howner]
        cases hcv : g.cvs (cvId.tmod MAX_DCV).toNat with
        | none => simp [Unchanged.failed]
        | some cv =>
          refine iff_of_false (waitOwn_changes hcv) fun h => howner ?_
          exact h lock rfl cv rfl (by omega) (by omega)
      · have hnone : t.cvOf g cvId = none := if_neg fun h => hcown h.1
        rw [if_neg fun h => hcown h.2, if_pos hown, hnone]
        simp only [hlock, if_neg howner, index_eq_ok h0 h1, ok_bind, pure_eq_ok, unchanged_single]
        refine iff_of_true ⟨waitCv_taken h0 h1 hown (by omega) (by omega), ?_⟩ (by rintro _ _ _ ⟨⟩)
        exact fun k => by cases k <;> exact ⟨rfl, rfl⟩

section

variable {lockSlot cvSlot : ℕ} {lock : DistributedLock} {cv : DistributedCV}

/-- `SIGNAL` on objects that are here. -/
theorem signalOwn_unchanged_iff (hlockSlot : lockSlot < MAX_DLOCK) (hcvSlot : cvSlot < MAX_DCV)
    (hlock : g.dlocks lockSlot = some lock) (hcv : g.cvs cvSlot = some cv) (h0 : 0 ≤ clientNum) :
    Unchanged g (p.carry t (signalOwn t e outPktHdr clientNum lockSlot cvSlot cv g)) ↔
      cv.WakesNobody (t.globalId MAX_DLOCK lockSlot) := by
  rw [signalOwn, itoa_slot hcvSlot, ok_bind, DistributedCV.WakesNobody]
  have hack {m : Message} (hm : m = outgoing t { outPktHdr with toMachine := clientMachine clientNum }
      { toBox := clientBox clientNum, fromBox := t.machineID } (fmtInt cvSlot)) : p.Takes t m := by
    subst hm
    exact (Office.takes_of_short (length_slot_le hcvSlot)).mpr (clientBox_bounds h0)
  cases hqueue : cv.waitQueue with
  | nil =>
    simp only [if_true, pure_eq_ok, unchanged_single]
    rw [sameObjects_setCv hcv, and_iff_right (hack rfl)]
    constructor
    · intro hsame
      rw [← hsame]
    · intro hfirst
      rw [← hfirst, ← hqueue]
  | cons reply queue =>
    rw [if_neg (List.cons_ne_nil _ _)]
    by_cases hfirst : cv.firstLock = t.globalId MAX_DLOCK lockSlot
    · refine iff_of_false (fun h => ?_) (not_not.mpr hfirst)
      obtain ⟨r, hr, hsame⟩ := h.of_carry
      simp only [if_neg (not_not.mpr hfirst)] at hr
      obtain ⟨r', hr', hr⟩ := bind_eq_ok.mp hr
      cases hr
      obtain ⟨lock', -, hcvs, -⟩ := acquireFor_eq_ok hlockSlot hr' hlock
      have hsame := congrFun ((sameObjects_iff.mp hsame).2.1.symm.trans hcvs) cvSlot
      rw [Globals.setCv_cvs, Function.update_self, hcv, Option.some.injEq] at hsame
      have hlength := congrArg (·.waitQueue.length) hsame
      simp [hqueue] at hlength
    · simp only [ne_eq, if_pos hfirst, pure_eq_ok, unchanged_single]
      exact iff_of_true ⟨hack rfl, .refl g⟩ hfirst

/-- `BROADCAST` on objects that are here. -/
theorem broadcastOwn_unchanged_iff (hlockSlot : lockSlot < MAX_DLOCK) (hcvSlot : cvSlot < MAX_DCV)
    (hlock : g.dlocks lockSlot = some lock) (hcv : g.cvs cvSlot = some cv) :
    Unchanged g (p.carry t (broadcastOwn t e outPktHdr inPktHdr inMailHdr lockSlot cvSlot cv g)) ↔
      cv.WakesNobody (t.globalId MAX_DLOCK lockSlot) ∧
        0 ≤ inMailHdr.fromBox ∧ inMailHdr.fromBox < Mail.numBoxes := by
  rw [broadcastOwn, itoa_slot hcvSlot, ok_bind, DistributedCV.WakesNobody]
  have hack {m : Message} (hm : m = outgoing t { outPktHdr with toMachine := inPktHdr.fromMachine }
      { toBox := inMailHdr.fromBox, fromBox := t.machineID } (fmtInt cvSlot)) :
      p.Takes t m ↔ 0 ≤ inMailHdr.fromBox ∧ inMailHdr.fromBox < Mail.numBoxes := by
    subst hm
    exact Office.takes_of_short (length_slot_le hcvSlot)
  by_cases hother : cv.waitQueue ≠ [] ∧ cv.firstLock ≠ t.globalId MAX_DLOCK lockSlot
  · simp only [if_pos hother, if_neg hother.1, pure_eq_ok, unchanged_single]
    rw [hack rfl, and_iff_left (.refl g), and_iff_right hother.2]
  · simp only [if_neg hother]
    constructor
    · intro h
      obtain ⟨r, hr, hsame⟩ := h.of_carry
      obtain ⟨r', hr', hr⟩ := bind_eq_ok.mp hr
      cases hr
      obtain ⟨lock', -, hcvs, -⟩ := wakeAll_eq_ok hlockSlot hr' hlock
      have hsame := congrFun ((sameObjects_iff.mp hsame).2.1.symm.trans hcvs) cvSlot
      rw [Globals.setCv_cvs, Function.update_self, hcv, Option.some.injEq] at hsame
      have hempty : cv.waitQueue = [] := by rw [hsame]
      rw [hempty] at h
      simp only [wakeAll, ok_bind, pure_eq_ok, unchanged_single] at h
      rw [if_pos hempty]
      exact ⟨by rw [hsame], (hack rfl).mp h.1⟩
    · rintro ⟨hnobody, hbox⟩
      have hempty : cv.waitQueue = [] := by
        by_contra hne
        rw [if_neg hne] at hnobody
        exact hother ⟨hne, hnobody⟩
      rw [if_pos hempty] at hnobody
      rw [hempty]
      simp only [wakeAll, ok_bind, pure_eq_ok, unchanged_single]
      refine ⟨(hack rfl).mpr hbox, (sameObjects_setCv hcv).mpr ?_⟩
      rw [← hempty, ← hnobody]

end

/-- A `SIGNALLOCK` for a lock that the range check admits needs a mailbox. -/
theorem signalLock_taken_of_owns (h0 : 0 ≤ clientNum) (h1 : clientNum < MAX_CLIENTS)
    (hlock : ¬ (lockId < 0 ∨ lockId > MAX_NUM_GLOBAL_IDS * MAX_DLOCK - 1))
    (hcv : t.Owns MAX_DCV cvId) :
    p.Takes t (outgoing t { outPktHdr with toMachine := lockId.tdiv MAX_DLOCK }
      { toBox := lockId.tdiv MAX_DLOCK, fromBox := inMailHdr.fromBox }
      (clientText .signalLock clientNum (fmtInt (lockId + t.uniqueGlobalID * MAX_DLOCK)))) ↔
      lockId < 10000 ∨ 99999 < lockId := by
  have hmax : (MAX_NUM_GLOBAL_IDS : ℤ) * MAX_DLOCK - 1 = 99999 := rfl
  have hcvMax : (MAX_NUM_GLOBAL_IDS : ℤ) * MAX_DCV - 1 = 99999 := rfl
  have hcvId : t.uniqueGlobalID * 100 + (cvId.tmod MAX_DCV).toNat = cvId :=
    globalId_of_owns hcv.1 (by have := hcv.2; omega)
  have hcvRange := hcv.2
  have ht : t.uniqueGlobalID < MAX_NUM_GLOBAL_IDS := by
    show _ < (1000 : ℤ)
    omega
  rw [signalLock_taken_iff _ _ h0 h1 (by omega) (by omega) ht, Int.tdiv_eq_ediv_of_nonneg (by omega)]
  show lockId / 100 < 100 ↔ _
  omega

/-- **Objects that are here**: a missing one, or a lock without an owner, is an error exit. -/
theorem objects_unchanged_iff {lockSlot cvSlot : ℕ} {own : DistributedCV → Except Fault Result}
    {P : DistributedCV → Prop} (hown : ∀ lock cv, g.dlocks lockSlot = some lock →
      g.cvs cvSlot = some cv → (Unchanged g (p.carry t (own cv)) ↔ P cv)) :
    Unchanged g (p.carry t (match g.dlocks lockSlot with
      | none => .ok (.failed g)
      | some lock =>
        if lock.ownerMailID = -1 then .ok (.failed g)
        else
          match g.cvs cvSlot with
          | none => .ok (.failed g)
          | some cv => own cv)) ↔
      ∀ lock ∈ g.dlocks lockSlot, ∀ cv ∈ g.cvs cvSlot, lock.ownerMailID = -1 ∨ P cv := by
  cases hlock : g.dlocks lockSlot with
  | none => exact iff_of_true .failed (by rintro _ ⟨⟩)
  | some lock =>
    simp only [Option.mem_some_iff, forall_eq']
    by_cases howner : lock.ownerMailID = -1
    · rw [if_pos howner]
      exact iff_of_true .failed fun _ _ => Or.inl howner
    · rw [if_neg howner]
      cases hcv : g.cvs cvSlot with
      | none => exact iff_of_true .failed (by rintro _ ⟨⟩)
      | some cv =>
        simp only [Option.mem_some_iff, forall_eq', howner, false_or]
        exact hown lock cv hlock hcv

/-- `SIGNAL` on a condition variable that is here, whoever holds the lock. -/
theorem signal_unchanged_iff (hown : cvId.tdiv MAX_DCV = t.uniqueGlobalID) (h0 : 0 ≤ clientNum)
    (h1 : clientNum < MAX_CLIENTS) :
    Unchanged g (p.carry t (signal t e cvId lockId outPktHdr inMailHdr clientNum g)) ↔
      (∀ lock ∈ t.lockOf g lockId, ∀ cv ∈ t.cvOf g cvId,
        lock.ownerMailID = -1 ∨ cv.WakesNobody lockId) ∧
      (t.Owns MAX_DCV cvId → lockId.tdiv MAX_DLOCK ≠ t.uniqueGlobalID →
        lockId < 10000 ∨ 99999 < lockId) := by
  have hmax : (MAX_NUM_GLOBAL_IDS : ℤ) * MAX_DLOCK - 1 = 99999 := rfl
  rw [signal]
  by_cases hl : lockId < 0 ∨ lockId > MAX_NUM_GLOBAL_IDS * MAX_DLOCK - 1
  · have hnone : t.lockOf g lockId = none := if_neg fun h => h.2 hl
    rw [if_pos hl, hnone]
    exact iff_of_true .failed ⟨by rintro _ ⟨⟩, fun _ _ => by omega⟩
  rw [if_neg hl]
  by_cases hc : cvId < 0 ∨ cvId > MAX_NUM_GLOBAL_IDS * MAX_DCV - 1
  · have hnone : t.cvOf g cvId = none := if_neg fun h => h.2 hc
    rw [if_pos hc, hnone]
    exact iff_of_true .failed ⟨by rintro _ _ _ ⟨⟩, fun hcv => absurd hc hcv.2⟩
  rw [if_neg hc, cvOf_eq hown hc]
  by_cases hlown : lockId.tdiv MAX_DLOCK = t.uniqueGlobalID
  · rw [if_pos ⟨hlown, hown⟩, lockOf_eq hlown hl, and_iff_left fun _ hne => absurd hlown hne]
    refine objects_unchanged_iff fun lock cv hlock hcv => ?_
    rw [signalOwn_unchanged_iff (toNat_tmod_lt (by norm_num)) (toNat_tmod_lt (by norm_num)) hlock hcv h0,
      globalId_of_owns hlown (by omega)]
  · have hnone : t.lockOf g lockId = none := if_neg fun h => hlown h.1
    rw [if_neg fun h => hlown h.1, if_pos hown, hnone, and_iff_right (by rintro _ ⟨⟩)]
    simp only [index_eq_ok h0 h1, ok_bind, pure_eq_ok, unchanged_single]
    rw [signalLock_taken_of_owns h0 h1 hl ⟨hown, hc⟩]
    refine ⟨fun h _ _ => h.1, fun h => ⟨h ⟨hown, hc⟩ hlown, ?_⟩⟩
    exact fun k => by cases k <;> exact ⟨rfl, rfl⟩

/-- `BROADCAST` on a condition variable that is here, whoever holds the lock. -/
theorem broadcast_unchanged_iff (hown : cvId.tdiv MAX_DCV = t.uniqueGlobalID) :
    Unchanged g (p.carry t (broadcast t e cvId lockId outPktHdr inPktHdr inMailHdr clientNum g)) ↔
      ∀ lock ∈ t.lockOf g lockId, ∀ cv ∈ t.cvOf g cvId, lockId ≤ 99 → cvId ≤ 99 →
        lock.ownerMailID = -1 ∨ cv.WakesNobody lockId ∧
          0 ≤ inMailHdr.fromBox ∧ inMailHdr.fromBox < Mail.numBoxes := by
  have hlockMax : (MAX_DLOCK : ℤ) - 1 = 99 := rfl
  have hcvMax : (MAX_DCV : ℤ) - 1 = 99 := rfl
  have hmax : (MAX_NUM_GLOBAL_IDS : ℤ) * MAX_DLOCK - 1 = 99999 := rfl
  have hmax' : (MAX_NUM_GLOBAL_IDS : ℤ) * MAX_DCV - 1 = 99999 := rfl
  rw [broadcast]
  by_cases hl : lockId < 0 ∨ lockId > MAX_DLOCK - 1
  · rw [if_pos hl]
    refine iff_of_true .failed fun lock hlock cv _ h99 _ => ?_
    have hnone : t.lockOf g lockId = none := if_neg fun h => h.2 (Or.inl (by omega))
    rw [hnone] at hlock
    cases hlock
  rw [if_neg hl]
  by_cases hc : cvId < 0 ∨ cvId > MAX_DCV - 1
  · rw [if_pos hc]
    refine iff_of_true .failed fun lock _ cv hcv _ h99 => ?_
    have hnone : t.cvOf g cvId = none := if_neg fun h => h.2 (Or.inl (by omega))
    rw [hnone] at hcv
    cases hcv
  have hlockId : lockId ≤ 99 := by omega
  have hcvId : cvId ≤ 99 := by omega
  rw [if_neg hc, cvOf_eq hown (by omega)]
  by_cases hlown : lockId.tdiv MAX_DLOCK = t.uniqueGlobalID
  · rw [if_pos ⟨hlown, hown⟩, lockOf_eq hlown (by omega)]
    simp only [hlockId, hcvId, forall_const]
    refine objects_unchanged_iff fun lock cv hlock hcv => ?_
    rw [broadcastOwn_unchanged_iff (toNat_tmod_lt (by norm_num)) (toNat_tmod_lt (by norm_num)) hlock hcv,
      globalId_of_owns hlown (by omega)]
  · -- both ids are below 100, so the owner of the condition variable owns the lock
    have hmax100 : (MAX_DLOCK : ℤ) = 100 := rfl
    have hcvMax100 : (MAX_DCV : ℤ) = 100 := rfl
    rw [Int.tdiv_eq_ediv_of_nonneg (by omega), hmax100] at hlown
    rw [Int.tdiv_eq_ediv_of_nonneg (by omega), hcvMax100] at hown
    omega

end

/-! ## Requests -/

section

variable {t : NetThread} {g : Globals} {e : Ambient} {p : Office} {o : Origin} {id : ℤ}
  {type : RequestType} {arguments : Text} {box : ℤ → ℤ}

/-- A request for an object elsewhere is forwarded. -/
theorem atOwner_unchanged_iff {c : Call} {machine clientNum : ℤ} {handle : Globals → Except Fault Result}
    {b : ℤ} : Unchanged g (p.carry c.t (c.atOwner type machine b clientNum arguments handle g)) ↔
      (machine ≠ c.t.uniqueGlobalID → p.Takes c.t (c.forwarded type machine b clientNum arguments)) ∧
        (machine = c.t.uniqueGlobalID → Unchanged g (p.carry c.t (handle g))) := by
  rw [Call.atOwner]
  split_ifs with h
  · rw [forall_prop_of_true h, and_iff_left fun heq => absurd heq h]
    constructor
    · rintro ⟨r, hr, -⟩
      by_contra hrefused
      obtain ⟨f, hf⟩ := Call.carry_forward_fault (g := g) hrefused
      rw [hf] at hr
      cases hr
    · exact fun htaken => ⟨_, Call.carry_forward htaken, .refl g⟩
  · rw [forall_prop_of_true (not_not.mp h), and_iff_right fun hne => absurd hne h]

/-- A `SIGNAL` of the user thread itself stops the server. -/
theorem signal_user_fault {m n : ℕ} {cv lock : ℤ} {group : List NetThread} :
    dispatch ((Origin.user m n).call t e) group .signal ((Origin.user m n).body (pairText cv lock)) g =
      .error .assertion := by
  rw [dispatch, Call.signal, Origin.body, if_pos (pairText_head? cv lock)]

/-- What the owner does with an illegal request, client by client: the tables are unchanged exactly if
    it is harmless here. -/
theorem perform_unchanged_iff {group : List NetThread} (ho : o.client < MAX_CLIENTS) (s : Syscall)
    (hillegal : Illegal t g o.client s) :
    Unchanged g (p.carry t (s.perform (o.call t e) (o.readClient e s) group g)) ↔
      (s.owner t ≠ t.uniqueGlobalID → p.Takes t (s.forwarded o t e)) ∧
        (s.owner t = t.uniqueGlobalID → HarmlessHere t g o e p s) := by
  have h0 : (0 : ℤ) ≤ o.client := Int.natCast_nonneg _
  have h1 : (o.client : ℤ) < MAX_CLIENTS := by exact_mod_cast ho
  have hatOwner {type : RequestType} {machine b client : ℤ} {arguments : Text}
      {handle : Globals → Except Fault Result} {here : Prop}
      (hhere : machine = t.uniqueGlobalID → (Unchanged g (p.carry t (handle g)) ↔ here)) :
      Unchanged g (p.carry t ((o.call t e).atOwner type machine b client arguments handle g)) ↔
        (machine ≠ t.uniqueGlobalID →
          p.Takes t ((o.call t e).forwarded type machine b client arguments)) ∧
        (machine = t.uniqueGlobalID → here) := by
    have hiff : Unchanged g (p.carry (o.call t e).t
        ((o.call t e).atOwner type machine b client arguments handle g)) ↔ _ := atOwner_unchanged_iff
    rw [Origin.call_t] at hiff
    rw [hiff]
    exact and_congr_right fun _ => forall_congr' hhere
  cases s with
  | create k name => exact absurd hillegal id
  | acquire id =>
    refine hatOwner fun hown => ?_
    rw [Origin.call_t]
    exact iff_of_true (acquire_unchanged hown hillegal) trivial
  | release id =>
    refine hatOwner fun hown => ?_
    rw [Origin.call_t, Origin.call_e]
    exact release_unchanged_iff hown
  | destroyLock id =>
    refine hatOwner fun hown => ?_
    rw [Origin.call_t]
    exact iff_of_true (destroyLock_unchanged hown hillegal) trivial
  | destroyCondition id =>
    refine hatOwner fun hown => iff_of_true ?_ trivial
    have howner := (Origin.call_t o t e).symm
    have hdelete : Unchanged g (p.carry (o.call t e).t ((o.call t e).deleteCV id o.client g)) :=
      deleteCV_unchanged (howner ▸ hown) (howner ▸ hillegal)
    rwa [Origin.call_t] at hdelete
  | getMV id =>
    refine hatOwner fun hown => ?_
    rw [Origin.call_t]
    exact getMV_unchanged_iff hown hillegal
  | destroyMV id =>
    refine hatOwner fun hown => ?_
    rw [Origin.call_t]
    exact iff_of_true (destroyMV_unchanged hown hillegal) trivial
  | setMV id value =>
    refine hatOwner fun hown => ?_
    rw [Origin.call_t]
    exact iff_of_true (setMV_unchanged hown hillegal) trivial
  | wait cv lock =>
    refine hatOwner fun hown => ?_
    rw [Origin.call_t]
    exact wait_unchanged_iff hown h0 h1
  | signal cv lock =>
    refine hatOwner fun hown => ?_
    rw [Origin.call_t]
    exact signal_unchanged_iff hown h0 h1
  | broadcast cv lock =>
    refine hatOwner fun hown => ?_
    rw [Origin.call_t]
    exact broadcast_unchanged_iff hown

/-- **Illegal requests**: the tables are unchanged, and the server still runs, exactly if the request
    is harmless. -/
theorem illegal_unchanged_iff {group : List NetThread} (hcount : g.serverCount = group.length)
    (ho : o.client < MAX_CLIENTS) (s : Syscall) (hlegal : s.Legal) (hillegal : Illegal t g o.client s) :
    Unchanged g (serve (o.call t e) p (o.text s.type s.arguments) group g) ↔ Harmless t g o e p s := by
  rw [serve, Origin.text, processMessage_requestText _ _ _ hcount, Origin.call_t]
  by_cases hsignal : s.type = .signal → o.Forwarded
  · have hcreate : ∀ k name, s ≠ .create k name := by
      rintro k name rfl
      exact hillegal
    rw [dispatch_origin ho hlegal hcreate hsignal, perform_unchanged_iff ho s hillegal]
    exact ⟨fun h => ⟨hsignal, h.1, h.2⟩, fun h => ⟨h.elsewhere, h.here⟩⟩
  · refine iff_of_false ?_ fun h => hsignal h.prefixed
    push Not at hsignal
    obtain ⟨htype, huser⟩ := hsignal
    cases o with
    | forwarded pktHdr mailHdr client => exact absurd trivial huser
    | user m n =>
      rintro ⟨r, hr, -⟩
      rw [htype] at hr
      cases s with
      | signal cv lock =>
        rw [Syscall.arguments, signal_user_fault] at hr
        cases hr
      | create k name => exact hillegal
      | _ => cases htype

end

/-- Client 0 holds lock 0, and client 100 asks for lock 5, which does not exist. -/
theorem illegal_unchanged_acquire :
    Ends (deliver ⟨0, 0⟩ [⟨0, 0⟩, ⟨1, 0⟩]) (.init 2) (waitingRun.take 5) fun g =>
      Unchanged g (serve ((Origin.forwarded ⟨0, 1⟩ ⟨0, 0⟩ 100).call ⟨0, 0⟩ (.clear ⟨6, 0⟩)) .quiet
        ((Origin.forwarded ⟨0, 1⟩ ⟨0, 0⟩ 100).text .acquire (fmtInt 5)) [⟨0, 0⟩, ⟨1, 0⟩] g) := by
  obtain ⟨g, hg, hcount, hnone⟩ : Ends (deliver ⟨0, 0⟩ [⟨0, 0⟩, ⟨1, 0⟩]) (.init 2) (waitingRun.take 5)
    fun g => g.serverCount = 2 ∧ NetThread.lockOf ⟨0, 0⟩ g 5 = none := by decide +kernel
  exact ⟨g, hg, (illegal_unchanged_iff (o := .forwarded ⟨0, 1⟩ ⟨0, 0⟩ 100) hcount (by decide)
    (.acquire 5) (by decide) hnone).mpr ⟨nofun, fun hne => absurd rfl hne, fun _ => trivial⟩⟩

/-- **A lock freed by another client**: client 0 holds lock 0, and a `RELEASE` of client 100 leaves
    it without a holder. -/
theorem release_by_other :
    (Syscall.release 0).Legal ∧
      Ends (deliver ⟨0, 0⟩ [⟨0, 0⟩, ⟨1, 0⟩]) (.init 2) (waitingRun.take 5) fun g =>
        Illegal ⟨0, 0⟩ g 100 (.release 0) ∧ Holds ⟨0, 0⟩ g 0 0 ∧
          Gives (serve ((Origin.forwarded ⟨0, 1⟩ ⟨0, 0⟩ 100).call ⟨0, 0⟩ (.clear ⟨6, 0⟩)) .quiet
            ((Origin.forwarded ⟨0, 1⟩ ⟨0, 0⟩ 100).text .release (fmtInt 0)) [⟨0, 0⟩, ⟨1, 0⟩] g)
            fun r => ¬ Holds ⟨0, 0⟩ r.state 0 0 ∧ ¬ SameObjects g r.state := by
  refine ⟨by decide, ?_⟩
  obtain ⟨g, hg, hheld, r, hr, hfree⟩ : Ends (deliver ⟨0, 0⟩ [⟨0, 0⟩, ⟨1, 0⟩]) (.init 2)
      (waitingRun.take 5) fun g =>
    (NetThread.lockOf ⟨0, 0⟩ g 0).map (·.toMutex.holder) = some (some 0) ∧
      Gives (serve ((Origin.forwarded ⟨0, 1⟩ ⟨0, 0⟩ 100).call ⟨0, 0⟩ (.clear ⟨6, 0⟩)) .quiet
        ((Origin.forwarded ⟨0, 1⟩ ⟨0, 0⟩ 100).text .release (fmtInt 0)) [⟨0, 0⟩, ⟨1, 0⟩] g) fun r =>
      (NetThread.lockOf ⟨0, 0⟩ r.state 0).map (·.toMutex.holder) = some none := by decide +kernel
  obtain ⟨lock, hlock, hholder⟩ := Option.map_eq_some_iff.mp hheld
  have hnot {g : Globals} {c : ℕ} {holder : Option ℤ} (hne : holder ≠ some (c : ℤ))
      (h : (NetThread.lockOf ⟨0, 0⟩ g 0).map (·.toMutex.holder) = some holder) :
      ¬ Holds ⟨0, 0⟩ g c 0 := by
    rintro ⟨lock, hlock, hc⟩
    rw [hlock, Option.map_some, Option.some.injEq, hc] at h
    exact hne h.symm
  have hne : (none : Option ℤ) ≠ some ((0 : ℕ) : ℤ) := nofun
  refine ⟨g, hg, Or.inr (hnot (by decide) hheld), ⟨lock, hlock, hholder⟩, r, hr, hnot hne hfree, ?_⟩
  intro hsame
  have hdlocks := (sameObjects_iff.mp hsame).1
  rw [NetThread.lockOf, hdlocks, ← NetThread.lockOf, hheld] at hfree
  cases hfree

end Nachos.Network
