import Nachos.Network.Process

/-!
# Mutual exclusion of distributed locks

Runs of `ACQUIRE` and `RELEASE` requests on one lock at the network thread that
owns it, together with the clients that have been granted the lock and have not
released it since. `Release` does not ask who releases.

* `at_most_one_holder`: as long as a busy lock is released by its owner only,
  there is at most one holder, and the lock behaves as the mutex
  `DistributedLock.toMutex`.
* `two_holders`: without that, two clients hold a lock after three requests.
-/

namespace Nachos.Network

open Nachos.Lib

/-! ## Runs -/

/-- The operations on a lock. -/
inductive LockOp
  | acquire | release
  deriving DecidableEq, Repr

/-- The request type of an operation. -/
def LockOp.type : LockOp → RequestType
  | acquire => .acquire
  | release => .release

/-- A request on the lock, and the surroundings in which it is processed. -/
structure LockRequest where
  op : LockOp
  origin : Origin
  e : Ambient

/-- The globals, and the clients that hold the lock. -/
structure LockState where
  globals : Globals
  holders : List ℤ

/-- The clients to whom a request gives the lock: who acquires it and is answered,
    or who is sent something besides the acknowledgement of a release. -/
def LockRequest.grants (q : LockRequest) (r : Result) : List ℤ :=
  match q.op with
  | .acquire => r.out.map fun _ => (q.origin.client : ℤ)
  | .release => r.out.tail.map Message.client

/-- The holders after a request: a client stops being one when its own release has
    been processed. -/
def LockRequest.holdersAfter (q : LockRequest) (r : Result) (holders : List ℤ) : List ℤ :=
  if q.op = .release ∧ r.success then
    holders.filter (· ≠ (q.origin.client : ℤ)) ++ q.grants r
  else holders ++ q.grants r

section

variable (t : NetThread) (localNetThreadInfo : List NetThread) (slot : ℕ)

/-- The owner `t` processes a request for the lock in `slot`. -/
def lockStep (s : LockState) (q : LockRequest) : Except Fault LockState := do
  let r ← processMessage (q.origin.call t q.e)
    (q.origin.text q.op.type (fmtInt (t.globalId MAX_DLOCK slot))) localNetThreadInfo s.globals
  return ⟨r.state, q.holdersAfter r s.holders⟩

/-- A release of the busy lock comes from the client that is recorded as its owner. -/
def OwnerReleases (s : LockState) (q : LockRequest) : Prop :=
  q.op = .release → ∀ lock ∈ s.globals.dlocks slot,
    lock.lockState = BUSY → lock.owner = clientAddress q.origin.client

instance (s : LockState) (q : LockRequest) : Decidable (OwnerReleases slot s q) :=
  inferInstanceAs (Decidable (_ → ∀ lock ∈ s.globals.dlocks slot, _ → _))

end

/-! ## The invariant -/

/-- The holders are what the mutex behind the lock says. -/
def HoldersMatch (slot : ℕ) (s : LockState) : Prop :=
  ∃ lock, s.globals.dlocks slot = some lock ∧ s.holders = lock.toMutex.holder.toList

theorem HoldersMatch.length_le_one {slot : ℕ} {s : LockState} (h : HoldersMatch slot s) :
    s.holders.length ≤ 1 := by
  obtain ⟨lock, -, hholders⟩ := h
  rw [hholders, Option.length_toList]
  split <;> omega

section

variable {t : NetThread} {localNetThreadInfo : List NetThread} {slot : ℕ} {s s' : LockState}
  {q : LockRequest}

/-- A request that is processed is processed by the branch for a lock of the thread,
    unless the thread's ids are refused. -/
theorem lockStep_cases (hslot : slot < MAX_DLOCK) {lock : DistributedLock}
    (hlock : s.globals.dlocks slot = some lock)
    (h : lockStep t localNetThreadInfo slot s q = .ok s') :
    ∃ r : Result, s' = ⟨r.state, q.holdersAfter r s.holders⟩ ∧
      (r = .failed s.globals ∨
        q.op = .acquire ∧ acquireOwn t (q.e.heapTail 0) q.e.outPktHdr q.origin.client slot lock
          s.globals = .ok r ∨
        q.op = .release ∧ releaseOwn t q.e q.e.outPktHdr q.origin.client slot lock
          s.globals = .ok r) := by
  rw [lockStep, bind_eq_ok] at h
  obtain ⟨r, hr, h⟩ := h
  cases h
  refine ⟨r, rfl, ?_⟩
  have hcount : s.globals.serverCount = localNetThreadInfo.length := by
    by_contra hne
    rw [processMessage, if_pos hne] at hr
    cases hr
  rw [Origin.text, processMessage_requestText _ _ _ hcount] at hr
  cases hop : q.op with
  | acquire =>
    simp only [hop, LockOp.type, dispatch, Call.acquire] at hr
    have hr := Call.oneArgument_eq_ok hslot hr
    simp only [Origin.call_t, Origin.call_e] at hr
    rcases lt_or_ge t.uniqueGlobalID MAX_NUM_GLOBAL_IDS with ht | ht
    · rw [acquire_own _ _ _ _ _ _ _ hslot ht, hlock, if_neg (by omega)] at hr
      exact Or.inr (Or.inl ⟨rfl, hr⟩)
    · rw [acquire_refused _ _ _ _ _ _ _ hslot ht] at hr
      cases hr
      exact Or.inl rfl
  | release =>
    simp only [hop, LockOp.type, dispatch, Call.release] at hr
    have hr := Call.oneArgument_eq_ok hslot hr
    simp only [Origin.call_t, Origin.call_e] at hr
    rcases lt_or_ge t.uniqueGlobalID MAX_NUM_GLOBAL_IDS with ht | ht
    · rw [release_own _ _ _ _ _ hslot ht, hlock] at hr
      exact Or.inr (Or.inr ⟨rfl, hr⟩)
    · rw [release_refused _ _ _ _ _ hslot ht] at hr
      cases hr
      exact Or.inl rfl

/-- **Step lemma.** -/
theorem lockStep_holdersMatch (hslot : slot < MAX_DLOCK) (hs : HoldersMatch slot s)
    (hok : OwnerReleases slot s q) (h : lockStep t localNetThreadInfo slot s q = .ok s') :
    HoldersMatch slot s' := by
  obtain ⟨lock, hlock, hholders⟩ := hs
  obtain ⟨r, rfl, hr⟩ := lockStep_cases hslot hlock h
  rcases hr with rfl | ⟨hop, hr⟩ | ⟨hop, hr⟩
  · -- refused: nothing is sent and nothing changes
    refine ⟨lock, hlock, ?_⟩
    cases hop : q.op <;>
      simp [LockRequest.holdersAfter, LockRequest.grants, Result.failed, hop, hholders]
  · obtain ⟨lock', hstate, hsuccess, hmutex, hfree, hheld⟩ := acquireOwn_eq_ok hr
    refine ⟨lock', by rw [hstate]; simp, ?_⟩
    rw [addressClient_clientAddress (by omega)] at hmutex
    rw [LockRequest.holdersAfter, if_neg (by simp [hop]), LockRequest.grants, hop, hmutex, hholders]
    cases hm : lock.toMutex.holder with
    | none =>
      obtain ⟨ack, hout⟩ := hfree hm
      rw [Mutex.acquire_of_free _ _ hm, hout]
      simp
    | some c =>
      rw [Mutex.acquire_holder _ _ hm, hheld (by rw [hm]; simp)]
      simp
  · obtain ⟨lock', ack, granted, hstate, hsuccess, hmutex, hout, hgranted⟩ := releaseOwn_eq_ok hr
    refine ⟨lock', by rw [hstate]; simp, ?_⟩
    -- the owner is the only holder, so its release leaves none
    have hnone : s.holders.filter (· ≠ (q.origin.client : ℤ)) = [] := by
      rw [hholders]
      cases hstate : lock.lockState with
      | true => rw [lock.holder_eq_none hstate]; rfl
      | false =>
        rw [lock.holder_of_busy hstate, hok hop lock hlock hstate,
          addressClient_clientAddress (by omega)]
        simp
    rw [LockRequest.holdersAfter, if_pos ⟨hop, hsuccess⟩, hnone, LockRequest.grants, hop, hmutex]
    simp only [hout, List.tail_cons, hgranted, List.nil_append]

/-- **Mutual exclusion** in every state that a run of requests reaches from a new
    lock, if nobody but its owner releases the lock while it is busy. -/
theorem at_most_one_holder (hslot : slot < MAX_DLOCK) {g : Globals} {name : Text} {id : ℤ}
    (hnew : g.dlocks slot = some (.new name id)) {requests : List LockRequest}
    (hok : Guarded (lockStep t localNetThreadInfo slot) (OwnerReleases slot) ⟨g, []⟩ requests)
    (hrun : exec (lockStep t localNetThreadInfo slot) ⟨g, []⟩ requests = .ok s) :
    s.holders.length ≤ 1 := by
  have hinit : HoldersMatch slot ⟨g, []⟩ := ⟨_, hnew, rfl⟩
  exact (exec_inv (fun _ _ _ => lockStep_holdersMatch hslot) hinit hok hrun).length_le_one

end

/-! ## Two holders -/

/-- One network thread with one lock. -/
def lockExample : LockState :=
  ⟨(Globals.init 1).setLock 0 (some (.new ['a'] 0)), []⟩

/-- A request of client `0`, the user thread of the network thread `(0, 0)`, or one
    forwarded for another client. -/
def lockRequestOf (op : LockOp) (client : ℕ) : LockRequest where
  op := op
  origin := if client = 0 then .user 0 0 else .forwarded ⟨0, 1⟩ ⟨0, 1⟩ client
  e := .clear ⟨0, 0⟩

/-- Client 0 acquires the lock, client 100 waits for it, and the owner releases it. -/
theorem at_most_one_holder_handOff :
    ∃ s, exec (lockStep ⟨0, 0⟩ [⟨0, 0⟩] 0) lockExample
        [lockRequestOf .acquire 0, lockRequestOf .acquire 100, lockRequestOf .release 0] = .ok s ∧
      s.holders = [100] ∧ s.holders.length ≤ 1 := by
  obtain ⟨s, hrun, hs⟩ : Ends (lockStep ⟨0, 0⟩ [⟨0, 0⟩] 0) lockExample
      [lockRequestOf .acquire 0, lockRequestOf .acquire 100, lockRequestOf .release 0]
      (·.holders = [100]) := by decide +kernel
  exact ⟨s, hrun, hs, at_most_one_holder (by decide) rfl (by decide +kernel) hrun⟩

/-- **Two holders**: client 0 acquires the lock, client 100 releases it without
    holding it and acquires it. -/
theorem two_holders :
    Ends (lockStep ⟨0, 0⟩ [⟨0, 0⟩] 0) lockExample
      [lockRequestOf .acquire 0, lockRequestOf .release 100, lockRequestOf .acquire 100]
      fun s => s.holders = [0, 100] ∧ ¬ s.holders.length ≤ 1 := by
  decide +kernel

end Nachos.Network
