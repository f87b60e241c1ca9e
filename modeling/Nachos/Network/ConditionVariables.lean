import Nachos.Network.Process

/-!
# Waiting clients of condition variables

A lock and a condition variable of one network thread implement a monitor over
client numbers (`monitorOf`). `Wait` does what a monitor does (`wait_keeps`).
`Signal` and `Broadcast` pass a client to `Acquire` with the `from` fields set to
the address in its queued reply, which is the address of its network thread;
`Acquire` takes that for a user thread and subtracts one.

* `wakeups_keep_waiters_iff`: `Signal` and `Broadcast` do what a monitor does
  exactly when nobody waits.
* `broadcast_loses_waiter`: a broadcast that gives a waiting client's place in the
  queue of the lock to another client.
-/

namespace Nachos.Network

open Nachos.Lib

/-! ## The monitor behind the tables -/

/-- The monitor that a lock and a condition variable implement. -/
def monitorOf (g : Globals) (lockSlot cvSlot : ℕ) : Option (Monitor ℤ) :=
  match g.dlocks lockSlot, g.cvs cvSlot with
  | some lock, some cv => some ⟨lock.toMutex, cv.waitQueue.map Message.client⟩
  | _, _ => none

theorem monitorOf_eq_some {g : Globals} {lockSlot cvSlot : ℕ} {lock : DistributedLock}
    {cv : DistributedCV} (hlock : g.dlocks lockSlot = some lock) (hcv : g.cvs cvSlot = some cv) :
    monitorOf g lockSlot cvSlot = some ⟨lock.toMutex, cv.waitQueue.map Message.client⟩ := by
  rw [monitorOf, hlock, hcv]

/-- The change from `g` to `g'` is that of a monitor operation, and nothing happens
    to the other locks and condition variables. -/
structure Keeps (op : Monitor ℤ → Monitor ℤ) (lockSlot cvSlot : ℕ) (g g' : Globals) : Prop where
  monitor : monitorOf g' lockSlot cvSlot = (monitorOf g lockSlot cvSlot).map op
  dlocks : ∀ slot ≠ lockSlot, g'.dlocks slot = g.dlocks slot
  cvs : ∀ slot ≠ cvSlot, g'.cvs slot = g.cvs slot

/-! ## Waking clients up -/

/-- The number under which a woken client is passed to `Acquire`. -/
def recoded (c : ℤ) : ℤ := addressClient (clientAddress (c - 1))

/-- It is never the client's own. -/
theorem recoded_ne (c : ℤ) : recoded c ≠ c := by
  unfold recoded addressClient clientAddress clientMachine clientBox
  simp only
  rcases le_or_gt 0 (c - 1) with h | h
  · rw [Int.tdiv_eq_ediv_of_nonneg h, Int.tmod_eq_emod_of_nonneg (by omega)]
    omega
  · have hdiv : (c - 1).tdiv 100 = -((1 - c) / 100) := by
      rw [show c - 1 = -(1 - c) by omega, Int.neg_tdiv, Int.tdiv_eq_ediv_of_nonneg (by omega)]
    rcases le_or_gt 0 (c - 1 + 100) with h' | h'
    · rw [hdiv, Int.tmod_eq_emod_of_nonneg h']
      omega
    · have hmod : (c - 1 + 100).tmod 100 = -((1 - c - 100) % 100) := by
        rw [show c - 1 + 100 = -(1 - c - 100) by omega, Int.neg_tmod,
          Int.tmod_eq_emod_of_nonneg (by omega)]
      rw [hdiv, hmod]
      omega

section

variable {t : NetThread} {lockSlot cvSlot : ℕ} (hlockSlot : lockSlot < MAX_DLOCK)
  (hcvSlot : cvSlot < MAX_DCV)

include hlockSlot in
/-- A woken client acquires the lock, under another number. -/
theorem acquireFor_eq_ok {heapTail : Text} {outPktHdr : PacketHeader} {reply : Message}
    {g : Globals} {lock : DistributedLock} {r : Result}
    (h : acquireFor t heapTail (t.globalId MAX_DLOCK lockSlot) outPktHdr reply g = .ok r)
    (hlock : g.dlocks lockSlot = some lock) :
    ∃ lock', r.state.dlocks lockSlot = some lock' ∧ r.state.cvs = g.cvs ∧
      lock'.toMutex = lock.toMutex.acquire (recoded reply.client) := by
  rw [acquireFor, bind_eq_ok] at h
  obtain ⟨r', hr', h⟩ := h
  rcases lt_or_ge t.uniqueGlobalID MAX_NUM_GLOBAL_IDS with ht | ht
  · rw [acquire_own _ _ _ _ _ _ _ hlockSlot ht, hlock, if_pos rfl] at hr'
    obtain ⟨lock', hstate, hsuccess, hmutex, -⟩ := acquireOwn_eq_ok hr'
    rw [if_pos hsuccess] at h
    cases h
    exact ⟨lock', by rw [hstate]; simp, by rw [hstate]; rfl, hmutex⟩
  · rw [acquire_refused _ _ _ _ _ _ _ hlockSlot ht] at hr'
    cases hr'
    cases h

include hlockSlot in
/-- So do all of them. -/
theorem wakeAll_eq_ok {heapTail : ℕ → Text} {outPktHdr : PacketHeader} {queue : List Message}
    {k : ℕ} {g : Globals} {lock : DistributedLock} {r : Result}
    (h : wakeAll t heapTail (t.globalId MAX_DLOCK lockSlot) outPktHdr queue k g = .ok r)
    (hlock : g.dlocks lockSlot = some lock) :
    ∃ lock', r.state.dlocks lockSlot = some lock' ∧ r.state.cvs = g.cvs ∧
      lock'.toMutex = lock.toMutex.acquireAll (queue.map fun reply => recoded reply.client) := by
  induction queue generalizing k g lock r with
  | nil => cases h; exact ⟨lock, hlock, rfl, rfl⟩
  | cons reply queue ih =>
    rw [wakeAll, bind_eq_ok] at h
    obtain ⟨r₁, hr₁, h⟩ := h
    rw [bind_eq_ok] at h
    obtain ⟨r₂, hr₂, h⟩ := h
    cases h
    obtain ⟨lock₁, hlock₁, hcvs, hmutex⟩ := acquireFor_eq_ok hlockSlot hr₁ hlock
    obtain ⟨lock₂, hlock₂, hcvs₂, hmutex₂⟩ := ih hr₂ hlock₁
    refine ⟨lock₂, hlock₂, by rw [hcvs₂, hcvs], ?_⟩
    rw [hmutex₂, hmutex]
    rfl

/-! ## The three operations -/

variable {g : Globals} {lock : DistributedLock} {cv : DistributedCV} (hlock : g.dlocks lockSlot = some lock)
  (hcv : g.cvs cvSlot = some cv) (hheld : lock.ownerMailID ≠ -1)

include hlockSlot hcvSlot hlock hcv hheld in
theorem signal_own (e : Ambient) (outPktHdr : PacketHeader) (inMailHdr : MailHeader) (c : ℤ) :
    signal t e (t.globalId MAX_DCV cvSlot) (t.globalId MAX_DLOCK lockSlot) outPktHdr inMailHdr c g =
      if t.uniqueGlobalID < MAX_NUM_GLOBAL_IDS then signalOwn t e outPktHdr c lockSlot cvSlot cv g
      else .ok (.failed g) := by
  split_ifs with ht
  · rw [signal, if_neg (mt (t.globalId_refused_iff hlockSlot).mp (by omega)),
      if_neg (mt (t.globalId_refused_iff hcvSlot).mp (by omega)),
      if_pos ⟨t.globalId_tdiv hlockSlot, t.globalId_tdiv hcvSlot⟩]
    simp only [t.globalId_tmod hlockSlot, t.globalId_tmod hcvSlot, Int.toNat_natCast, hlock, hcv,
      if_neg hheld]
  · rw [signal, if_pos ((t.globalId_refused_iff hlockSlot).mpr (by omega))]

include hlockSlot hcvSlot hlock hcv hheld in
/-- A `Broadcast` is refused unless the ids are those of the thread with id 0. -/
theorem broadcast_own (e : Ambient) (outPktHdr inPktHdr : PacketHeader) (inMailHdr : MailHeader)
    (c : ℤ) :
    broadcast t e (t.globalId MAX_DCV cvSlot) (t.globalId MAX_DLOCK lockSlot) outPktHdr inPktHdr
        inMailHdr c g =
      if t.uniqueGlobalID = 0 then broadcastOwn t e outPktHdr inPktHdr inMailHdr lockSlot cvSlot cv g
      else .ok (.failed g) := by
  have h0 := t.uniqueGlobalID_nonneg
  split_ifs with hid
  · have hcvRange : ¬ (t.globalId MAX_DCV cvSlot < 0 ∨ t.globalId MAX_DCV cvSlot > MAX_DCV - 1) := by
      unfold NetThread.globalId; rw [hid]; omega
    have hlockRange :
        ¬ (t.globalId MAX_DLOCK lockSlot < 0 ∨ t.globalId MAX_DLOCK lockSlot > MAX_DLOCK - 1) := by
      unfold NetThread.globalId; rw [hid]; omega
    rw [broadcast, if_neg hlockRange, if_neg hcvRange,
      if_pos ⟨t.globalId_tdiv hlockSlot, t.globalId_tdiv hcvSlot⟩]
    simp only [t.globalId_tmod hlockSlot, t.globalId_tmod hcvSlot, Int.toNat_natCast, hlock, hcv,
      if_neg hheld]
  · have hlockRange :
        t.globalId MAX_DLOCK lockSlot < 0 ∨ t.globalId MAX_DLOCK lockSlot > MAX_DLOCK - 1 := by
      have hmax : (MAX_DLOCK : ℤ) = 100 := rfl
      rw [NetThread.globalId, hmax]
      omega
    rw [broadcast, if_pos hlockRange]

include hlock hcv in
/-- Whatever leaves the tables alone is a monitor operation that moves nobody. -/
theorem keeps_of_no_waiters {op : Monitor ℤ → Monitor ℤ} {g' : Globals}
    (hop : ∀ m : Monitor ℤ, m.waiters = [] → op m = m) (hempty : cv.waitQueue = [])
    {cv' : DistributedCV} (hcvs : g'.cvs = Function.update g.cvs cvSlot (some cv'))
    (hqueue : cv'.waitQueue = []) (hdlocks : g'.dlocks = g.dlocks) : Keeps op lockSlot cvSlot g g' where
  monitor := by
    rw [monitorOf_eq_some (by rw [hdlocks, hlock]) (by rw [hcvs, Function.update_self]),
      monitorOf_eq_some hlock hcv, Option.map_some, hop _ (by simp [hempty]), hqueue, hempty]
  dlocks slot _ := by rw [hdlocks]
  cvs slot hslot := by rw [hcvs, Function.update_of_ne hslot]

include hlock hcv in
/-- What an operation with waiters has to do. -/
theorem Keeps.waiters_of_held {op : Monitor ℤ → Monitor ℤ} {g' : Globals}
    (h : Keeps op lockSlot cvSlot g g') {lock' : DistributedLock} {cv' : DistributedCV}
    (hlock' : g'.dlocks lockSlot = some lock') (hcv' : g'.cvs cvSlot = some cv') :
    (⟨lock'.toMutex, cv'.waitQueue.map Message.client⟩ : Monitor ℤ) =
      op ⟨lock.toMutex, cv.waitQueue.map Message.client⟩ := by
  have hm := h.monitor
  rw [monitorOf_eq_some hlock' hcv', monitorOf_eq_some hlock hcv, Option.map_some,
    Option.some.injEq] at hm
  exact hm

include hlockSlot hcvSlot hlock hcv hheld in
/-- `Signal` is the monitor's signal if and only if nobody waits. -/
theorem signal_keeps_iff {b : ℤ} (hholder : lock.toMutex.holder = some b) (e : Ambient)
    (outPktHdr : PacketHeader) (inMailHdr : MailHeader) (c : ℤ) :
    (∃ r, signal t e (t.globalId MAX_DCV cvSlot) (t.globalId MAX_DLOCK lockSlot) outPktHdr inMailHdr c
        g = .ok r ∧ Keeps Monitor.signal lockSlot cvSlot g r.state) ↔ cv.waitQueue = [] := by
  rw [signal_own hlockSlot hcvSlot hlock hcv hheld]
  constructor
  · rintro ⟨r, hr, hk⟩
    -- a signal that takes nobody off
    have hsame (hstate : r.state = g) : cv.waitQueue = [] := by
      have hm := hk.waiters_of_held hlock hcv (by rw [hstate, hlock]) (by rw [hstate, hcv])
      rw [Monitor.signal_of_held _ hholder, Monitor.mk.injEq] at hm
      have := congrArg List.length hm.2
      simp only [List.length_map, List.length_drop] at this
      exact List.length_eq_zero_iff.mp (by omega)
    split_ifs at hr with ht
    · rw [signalOwn, bind_eq_ok] at hr
      obtain ⟨ack, -, hr⟩ := hr
      cases hq : cv.waitQueue with
      | nil => rfl
      | cons reply queue =>
        simp only [hq] at hr
        by_cases hfirst : cv.firstLock ≠ t.globalId MAX_DLOCK lockSlot
        · -- the condition belongs to another lock
          rw [if_pos hfirst] at hr
          cases hr
          exact hq.symm.trans (hsame rfl)
        · rw [if_neg hfirst, bind_eq_ok] at hr
          obtain ⟨r', hr', hr⟩ := hr
          cases hr
          obtain ⟨lock', hlock', hcvs, hmutex⟩ := acquireFor_eq_ok hlockSlot hr' hlock
          have hm := hk.waiters_of_held hlock hcv hlock' (by rw [hcvs]; exact Function.update_self ..)
          rw [Monitor.signal_of_held _ hholder, hmutex, Mutex.acquire_of_held _ _ hholder, hq,
            Monitor.mk.injEq, Mutex.mk.injEq] at hm
          have hrecoded := List.append_cancel_left hm.1.2
          simp only [List.map_cons, List.take_succ_cons, List.take_zero, List.cons.injEq,
            and_true] at hrecoded
          exact absurd hrecoded (recoded_ne _)
    · cases hr
      exact hsame rfl
  · intro hq
    split_ifs
    · simp only [signalOwn, itoa_slot hcvSlot, ok_bind, hq]
      exact ⟨_, rfl, keeps_of_no_waiters hlock hcv (fun m => m.signal_of_nobody) hq rfl rfl rfl⟩
    · refine ⟨_, rfl, keeps_of_no_waiters hlock hcv (fun m => m.signal_of_nobody) hq ?_ hq rfl⟩
      exact (Function.update_eq_self_iff.mpr hcv.symm).symm

include hlockSlot hcvSlot hlock hcv hheld in
/-- So is `Broadcast` the monitor's broadcast. -/
theorem broadcast_keeps_iff {b : ℤ} (hholder : lock.toMutex.holder = some b) (e : Ambient)
    (outPktHdr inPktHdr : PacketHeader) (inMailHdr : MailHeader) (c : ℤ) :
    (∃ r, broadcast t e (t.globalId MAX_DCV cvSlot) (t.globalId MAX_DLOCK lockSlot) outPktHdr inPktHdr
        inMailHdr c g = .ok r ∧ Keeps Monitor.broadcast lockSlot cvSlot g r.state) ↔
      cv.waitQueue = [] := by
  rw [broadcast_own hlockSlot hcvSlot hlock hcv hheld]
  constructor
  · rintro ⟨r, hr, hk⟩
    -- a broadcast that takes nobody off
    have hsame (hstate : r.state = g) : cv.waitQueue = [] := by
      have hm := hk.waiters_of_held hlock hcv (by rw [hstate, hlock]) (by rw [hstate, hcv])
      rw [Monitor.broadcast_of_held _ hholder, Monitor.mk.injEq] at hm
      simpa using hm.2
    split_ifs at hr with hid
    · rw [broadcastOwn, bind_eq_ok] at hr
      obtain ⟨ack, -, hr⟩ := hr
      simp only at hr
      split_ifs at hr with hfirst
      · cases hr
        exact hsame rfl
      · rw [bind_eq_ok] at hr
        obtain ⟨r', hr', hr⟩ := hr
        cases hr
        obtain ⟨lock', hlock', hcvs, hmutex⟩ := wakeAll_eq_ok hlockSlot hr' hlock
        have hm := hk.waiters_of_held hlock hcv hlock' (by rw [hcvs]; exact Function.update_self ..)
        rw [Monitor.broadcast_of_held _ hholder, hmutex, Mutex.acquireAll_of_held _ hholder,
          Monitor.mk.injEq, Mutex.mk.injEq] at hm
        have hrecoded := List.append_cancel_left hm.1.2
        cases hq : cv.waitQueue with
        | nil => rfl
        | cons reply queue =>
          rw [hq, List.map_cons, List.map_cons, List.cons.injEq] at hrecoded
          exact absurd hrecoded.1 (recoded_ne _)
    · cases hr
      exact hsame rfl
  · intro hq
    split_ifs
    · simp only [broadcastOwn, itoa_slot hcvSlot, ok_bind, hq, ne_eq, not_true_eq_false, false_and,
        if_false, wakeAll]
      exact ⟨_, rfl, keeps_of_no_waiters hlock hcv (fun m => m.broadcast_of_nobody) hq rfl rfl rfl⟩
    · refine ⟨_, rfl, keeps_of_no_waiters hlock hcv (fun m => m.broadcast_of_nobody) hq ?_ hq rfl⟩
      exact (Function.update_eq_self_iff.mpr hcv.symm).symm

include hlockSlot hcvSlot hlock hcv hheld in
/-- `Wait` is the monitor's wait, with the client's own number. -/
theorem wait_keeps (hlockId : t.globalId MAX_DLOCK lockSlot ≤ MAX_NUM_GLOBAL_IDS * (MAX_DLOCK - 1))
    (hcvId : t.globalId MAX_DCV cvSlot ≤ MAX_NUM_GLOBAL_IDS * (MAX_DCV - 1)) (e : Ambient)
    (outPktHdr : PacketHeader) (inMailHdr : MailHeader) (c : ℕ) :
    ∃ r, wait t e (t.globalId MAX_DCV cvSlot) (t.globalId MAX_DLOCK lockSlot) outPktHdr inMailHdr c g =
      .ok r ∧ Keeps (·.wait c) lockSlot cvSlot g r.state := by
  have h0 : 0 ≤ t.globalId MAX_DCV cvSlot := t.globalId_nonneg
  have hack := itoa_globalId h0
    (hcvId.trans_lt (by show (1000 : ℤ) * (100 - 1) < 100000; norm_num)) (e.heapTail 0)
  rw [wait, if_neg (not_or.mpr ⟨not_lt.mpr t.globalId_nonneg, not_lt.mpr hlockId⟩),
    if_neg (not_or.mpr ⟨not_lt.mpr h0, not_lt.mpr hcvId⟩),
    if_pos ⟨t.globalId_tdiv hlockSlot, t.globalId_tdiv hcvSlot⟩]
  simp only [t.globalId_tmod hlockSlot, t.globalId_tmod hcvSlot, Int.toNat_natCast, hlock, hcv,
    if_neg hheld, waitOwn, hack, ok_bind]
  refine ⟨_, rfl, ?_, fun slot hslot => Function.update_of_ne hslot .., fun slot hslot =>
    Function.update_of_ne hslot ..⟩
  rw [monitorOf_eq_some (Function.update_self ..) (Function.update_self ..),
    monitorOf_eq_some hlock hcv, Option.map_some, toMutex_handOff, List.map_append]
  have hclient : addressClient (clientAddress c) = c := addressClient_clientAddress (by omega)
  simp only [Monitor.wait, List.map_cons, List.map_nil, Message.client, Message.dest]
  exact congrArg (fun n => some (⟨_, _ ++ [n]⟩ : Monitor ℤ)) hclient

include hlockSlot hcvSlot hlock hcv in
/-- **`Signal` and `Broadcast` keep the waiters exactly when there are none**: for a
    client that holds the lock and any condition variable of the same thread. -/
theorem wakeups_keep_waiters_iff (hbusy : lock.lockState = BUSY) {c : ℕ}
    (howner : lock.owner = clientAddress c) (e : Ambient) (outPktHdr inPktHdr : PacketHeader)
    (inMailHdr : MailHeader) :
    ((∃ r, signal t e (t.globalId MAX_DCV cvSlot) (t.globalId MAX_DLOCK lockSlot) outPktHdr inMailHdr
        c g = .ok r ∧ Keeps Monitor.signal lockSlot cvSlot g r.state) ↔ cv.waitQueue = []) ∧
      ((∃ r, broadcast t e (t.globalId MAX_DCV cvSlot) (t.globalId MAX_DLOCK lockSlot) outPktHdr
        inPktHdr inMailHdr c g = .ok r ∧ Keeps Monitor.broadcast lockSlot cvSlot g r.state) ↔
        cv.waitQueue = []) := by
  have hholder := lock.holder_of_busy hbusy
  have hheld : lock.ownerMailID ≠ -1 := by
    rw [DistributedLock.owner, clientAddress_of_nonneg (by omega), Prod.mk.injEq] at howner
    omega
  exact ⟨signal_keeps_iff hlockSlot hcvSlot hlock hcv hheld hholder e outPktHdr inMailHdr c,
    broadcast_keeps_iff hlockSlot hcvSlot hlock hcv hheld hholder e outPktHdr inPktHdr inMailHdr c⟩

end

/-! ## A lost waiter -/

/-- A lock that client 5 holds and a condition variable without waiters. -/
theorem wakeups_keep_waiters_nobody :
    ∃ g : Globals, ∃ cv, g.cvs 0 = some cv ∧ cv.waitQueue = [] ∧
      ((∃ r, signal ⟨0, 0⟩ (.clear ⟨0, 0⟩) 0 0 ⟨0, 0⟩ ⟨0, 0⟩ 5 g = .ok r ∧
        Keeps Monitor.signal 0 0 g r.state) ↔ cv.waitQueue = []) := by
  let lock : DistributedLock := (DistributedLock.new ['l'] 0).give (0, 5)
  let g := ((Globals.init 1).setLock 0 (some lock)).setCv 0 (some (.new ['c'] 0))
  exact ⟨g, .new ['c'] 0, rfl, rfl, (wakeups_keep_waiters_iff (t := ⟨0, 0⟩) (g := g) (c := 5)
    (by decide : 0 < MAX_DLOCK) (by decide : 0 < MAX_DCV) rfl rfl (by decide) (by decide)
    (.clear ⟨0, 0⟩) ⟨0, 0⟩ ⟨0, 0⟩ ⟨0, 0⟩).1⟩

/-- A message from the user thread of the network thread `(0, 0)`. -/
def fromUser (now : ℤ) (data : String) : Delivery :=
  ⟨.clear ⟨now, 0⟩, ⟨0, 0⟩, ⟨0, 1⟩, data.toList⟩

/-- A message from the network thread `(1, 0)`. -/
def fromPeer (data : String) : Delivery := ⟨.clear ⟨0, 0⟩, ⟨0, 1⟩, ⟨0, 0⟩, data.toList⟩

/-- The thread `(0, 0)` of a group of two creates a lock and a condition variable;
    client 0 acquires the lock and waits, and client 100 acquires the lock. -/
def waitingRun : List Delivery :=
  [fromUser 1 "0_l", fromPeer "16_0_1_5_0", fromUser 2 "4_c", fromPeer "17_0_-1", fromUser 3 "1_0",
    fromUser 4 "7_0_0", fromPeer "1__100_0"]

/-- **A lost waiter**: client 100 broadcasts, and instead of client 0 a client 99 waits
    for the lock. -/
theorem broadcast_loses_waiter :
    Ends (deliver ⟨0, 0⟩ [⟨0, 0⟩, ⟨1, 0⟩]) (.init 2) waitingRun
        (fun g => monitorOf g 0 0 = some ⟨⟨some 100, []⟩, [0]⟩) ∧
      Ends (deliver ⟨0, 0⟩ [⟨0, 0⟩, ⟨1, 0⟩]) (.init 2) (waitingRun ++ [fromPeer "6__100_0_0"])
        (fun g => monitorOf g 0 0 = some ⟨⟨some 100, [99]⟩, []⟩) ∧
      (⟨⟨some 100, []⟩, [0]⟩ : Monitor ℤ).broadcast ≠ ⟨⟨some 100, [99]⟩, []⟩ := by
  decide +kernel

end Nachos.Network
