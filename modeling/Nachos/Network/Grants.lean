import Nachos.Network.LockInvariant

/-!
# Queued and immediate grants

A client is granted a lock at once, if the lock is free when its `ACQUIRE` is processed, or
later, when `RELEASE`, `WAIT` or `WAITRESPONSE` hands the lock to the first in its queue
(`network/netcall.cc`, lines 2232-2272, 2370-2381, 2682-2694 and 1673-1684). The later grant
is the reply that has been queued. Its headers double as the owner of the lock, so they name
the network thread of the client, and the `+ 1` with which the other grant reaches the user
thread is never added.

* `grants_disagree`: whatever happens between, a queued grant has another mailbox than the
  grant that the client would have been sent at once.
* `grant_misses_user`: client 100 is granted a lock at mailbox 0 and not at mailbox 1.
-/

namespace Nachos.Network

open Nachos.Lib

section

variable (t : NetThread) (localNetThreadInfo : List NetThread) (slot : ℕ)

/-- The owner `t` processes a request whose origin is `o`. -/
def processAt (o : Origin) (e : Ambient) (type : RequestType) (arguments : Text) (g : Globals) :
    Except Fault Result :=
  processMessage (o.call t e) (o.text type arguments) localNetThreadInfo g

/-! ## The two ways to a grant -/

/-- An `ACQUIRE` of client `c` finds the lock free, and `grant` is sent. -/
def GrantedAtOnce (c : ℕ) (grant : Message) : Prop :=
  ∃ o e g r lock, o.client = c ∧ g.dlocks slot = some lock ∧ lock.lockState = FREE ∧
    processAt t localNetThreadInfo o e .acquire (fmtInt (t.globalId MAX_DLOCK slot)) g = .ok r ∧
      r.out = [grant]

/-- Client `c` waits on a condition variable: `WAIT`, here or (`WAITCV`) for a lock that another
    thread owns, has put `waiting` at the end of the queue. -/
inductive WaitsOn (c : ℕ) (waiting : Message) : Prop
  | wait (o : Origin) (e : Ambient) (lockSlot : Fin MAX_DLOCK) (cvSlot : Fin MAX_DCV) (g : Globals)
    (r : Result) (cv cv' : DistributedCV) (hc : o.client = c)
    (hr : processAt t localNetThreadInfo o e .wait
      (pairText (t.globalId MAX_DCV cvSlot) (t.globalId MAX_DLOCK lockSlot)) g = .ok r)
    (hcv : g.cvs cvSlot = some cv) (hcv' : r.state.cvs cvSlot = some cv')
    (hqueue : cv'.waitQueue = cv.waitQueue ++ [waiting])
  | waitCV (call : Call) (s cvNum lockNum : Text) (cvSlot : ℕ) (g : Globals) (r : Result)
    (cv cv' : DistributedCV) (hc : readTwo 5 [] call.client s = .ok (c, cvNum, lockNum))
    (hr : call.waitCV s g = .ok r) (hcv : g.cvs cvSlot = some cv)
    (hcv' : r.state.cvs cvSlot = some cv') (hqueue : cv'.waitQueue = cv.waitQueue ++ [waiting])

/-- Client `c` is made to wait for the lock: its `ACQUIRE` finds the lock busy, or it is taken
    off a condition variable (by `SIGNAL`, `BROADCAST` or the handlers of their responses) and
    `Acquire` finds the lock busy. The reply is at the end of the queue. -/
inductive MadeToWait (c : ℕ) (reply : Message) : Prop
  | acquire (o : Origin) (e : Ambient) (g : Globals) (r : Result) (lock lock' : DistributedLock)
    (hc : o.client = c) (hlock : g.dlocks slot = some lock) (hbusy : lock.lockState = BUSY)
    (hr : processAt t localNetThreadInfo o e .acquire (fmtInt (t.globalId MAX_DLOCK slot)) g = .ok r)
    (hlock' : r.state.dlocks slot = some lock') (hqueue : lock'.waitQueue = lock.waitQueue ++ [reply])
  | wakeup (waiting : Message) (hc : WaitsOn t localNetThreadInfo c waiting) (heapTail : Text)
    (outPktHdr : PacketHeader) (g : Globals) (r : Result) (lock lock' : DistributedLock)
    (hlock : g.dlocks slot = some lock) (hbusy : lock.lockState = BUSY)
    (hr : acquireFor t heapTail (t.globalId MAX_DLOCK slot) outPktHdr waiting g = .ok r)
    (hlock' : r.state.dlocks slot = some lock') (hqueue : lock'.waitQueue = lock.waitQueue ++ [reply])

/-- The lock is handed to the first in its queue, whose reply goes out as `grant`. -/
inductive HandedOver (reply grant : Message) : Prop
  | release (o : Origin) (e : Ambient) (g : Globals) (r : Result) (lock : DistributedLock)
    (queue : List Message) (ack : Message) (hlock : g.dlocks slot = some lock)
    (hqueue : lock.waitQueue = reply :: queue)
    (hr : processAt t localNetThreadInfo o e .release (fmtInt (t.globalId MAX_DLOCK slot)) g = .ok r)
    (hout : r.out = [ack, grant])
  | wait (o : Origin) (e : Ambient) (cvSlot : Fin MAX_DCV) (g : Globals) (r : Result)
    (lock : DistributedLock) (queue : List Message) (hlock : g.dlocks slot = some lock)
    (hqueue : lock.waitQueue = reply :: queue)
    (hr : processAt t localNetThreadInfo o e .wait
      (pairText (t.globalId MAX_DCV cvSlot) (t.globalId MAX_DLOCK slot)) g = .ok r)
    (hout : r.out = [grant])
  | waitResponse (call : Call) (s : Text) (g : Globals) (r : Result) (lock : DistributedLock)
    (queue : List Message) (ht : call.t = t) (hlock : g.dlocks slot = some lock)
    (hqueue : lock.waitQueue = reply :: queue)
    (hr : processMessage call (requestText .waitResponse s) localNetThreadInfo g = .ok r)
    (hchanged : r.state.dlocks slot ≠ some lock) (hout : r.out = [grant])

end

/-- Two grants have the same destination, sender mailbox and text. -/
def SameGrant (grant grant' : Message) : Prop :=
  grant.dest = grant'.dest ∧ grant.mailHdr.fromBox = grant'.mailHdr.fromBox ∧ grant.data = grant'.data

instance (grant grant' : Message) : Decidable (SameGrant grant grant') :=
  inferInstanceAs (Decidable (_ ∧ _ ∧ _))

/-! ## What is sent -/

section

variable {t : NetThread} {localNetThreadInfo : List NetThread} {slot : ℕ} {c : ℕ}
  {reply grant waiting : Message}

/-- A message is processed only with the number of network threads right. -/
theorem serverCount_of_processMessage {call : Call} {text : Text} {g : Globals} {r : Result}
    (h : processMessage call text localNetThreadInfo g = .ok r) :
    g.serverCount = localNetThreadInfo.length := by
  by_contra hne
  rw [processMessage, if_pos hne] at h
  cases h

/-- An `ACQUIRE` at the owner is an `Acquire` for its client. -/
theorem processAt_acquire {o : Origin} {e : Ambient} {g : Globals} {r : Result}
    {lock : DistributedLock} (hslot : slot < MAX_DLOCK) (hlock : g.dlocks slot = some lock)
    (h : processAt t localNetThreadInfo o e .acquire (fmtInt (t.globalId MAX_DLOCK slot)) g = .ok r) :
    r = .failed g ∨ acquireOwn t (e.heapTail 0) e.outPktHdr o.client slot lock g = .ok r := by
  have hcount := serverCount_of_processMessage h
  rw [processAt, Origin.text, processMessage_requestText _ _ _ hcount] at h
  simp only [dispatch, Call.acquire] at h
  have h := Call.oneArgument_eq_ok hslot h
  simp only [Origin.call_t, Origin.call_e] at h
  rcases lt_or_ge t.uniqueGlobalID MAX_NUM_GLOBAL_IDS with ht | ht
  · rw [acquire_own _ _ _ _ _ _ _ hslot ht, hlock, if_neg (by omega)] at h
    exact Or.inr h
  · rw [acquire_refused _ _ _ _ _ _ _ hslot ht] at h
    cases h
    exact Or.inl rfl

/-- The grant that is sent at once reaches the mailbox behind that of the client's network
    thread. -/
theorem GrantedAtOnce.dest (hslot : slot < MAX_DLOCK)
    (h : GrantedAtOnce t localNetThreadInfo slot c grant) :
    grant.dest = (clientMachine c, clientBox c + 1) := by
  obtain ⟨o, e, g, r, lock, rfl, hlock, hfree, hr, hout⟩ := h
  rcases processAt_acquire hslot hlock hr with rfl | hr
  · cases hout
  · rw [acquireOwn, bind_eq_ok] at hr
    obtain ⟨ack, -, hr⟩ := hr
    rw [if_neg (by rw [hfree]; decide)] at hr
    cases hr
    cases hout
    rfl

/-- A reply that `Acquire` queues names the client's network thread. -/
theorem acquireOwn_queued {heapTail : Text} {outPktHdr : PacketHeader} {clientNum : ℤ} {g : Globals}
    {r : Result} {lock lock' : DistributedLock} (hbusy : lock.lockState = BUSY)
    (hr : acquireOwn t heapTail outPktHdr clientNum slot lock g = .ok r)
    (hlock' : r.state.dlocks slot = some lock') (hqueue : lock'.waitQueue = lock.waitQueue ++ [reply]) :
    reply.dest = clientAddress clientNum := by
  rw [acquireOwn, bind_eq_ok] at hr
  obtain ⟨ack, -, hr⟩ := hr
  rw [if_pos hbusy] at hr
  cases hr
  rw [Globals.setLock_dlocks, Function.update_self] at hlock'
  cases hlock'
  cases List.append_cancel_left hqueue
  rfl

/-- So does a reply that is queued on a condition variable. -/
theorem WaitsOn.dest (h : WaitsOn t localNetThreadInfo c waiting) : waiting.dest = clientAddress c := by
  cases h with
  | wait o e lockSlot cvSlot g r cv cv' hc hr hcv hcv' hqueue =>
    subst hc
    have hcount := serverCount_of_processMessage hr
    rw [processAt, Origin.text, processMessage_requestText _ _ _ hcount] at hr
    simp only [dispatch, Call.wait] at hr
    obtain ⟨args, hread, hr⟩ := bind_eq_ok.mp hr
    cases Origin.readTwo_eq_ok hread
    simp only [Call.twoArguments, atoi_fmtInt, t.globalId_tdiv lockSlot.isLt, Origin.call_t,
      Origin.call_e, ne_eq, not_true_eq_false, if_false] at hr
    rcases wait_cases lockSlot.isLt cvSlot.isLt hr with rfl | ⟨lock, v, -, hv, hr⟩
    · have hsame : some cv = some cv' := hcv.symm.trans hcv'
      cases hsame
      simp at hqueue
    · cases hcv.symm.trans hv
      rw [waitOwn] at hr
      obtain ⟨ack, -, hr⟩ := bind_eq_ok.mp hr
      cases hr
      rw [Globals.setCv_cvs, Function.update_self] at hcv'
      cases hcv'
      cases List.append_cancel_left hqueue
      rfl
  | waitCV call s cvNum lockNum cvSlot g r cv cv' hc hr hcv hcv' hqueue =>
    rw [Call.waitCV, hc] at hr
    simp only [ok_bind] at hr
    obtain ⟨slot', -, hr⟩ := bind_eq_ok.mp hr
    split at hr
    · cases hr
      have hsame : some cv = some cv' := hcv.symm.trans hcv'
      cases hsame
      simp at hqueue
    · next v hv =>
      obtain ⟨ack, -, hr⟩ := bind_eq_ok.mp hr
      cases hr
      simp only [Call.respond, Globals.setCv_cvs] at hcv'
      by_cases hslot : cvSlot = slot'
      · subst hslot
        cases hcv.symm.trans hv
        rw [Function.update_self] at hcv'
        cases hcv'
        cases List.append_cancel_left hqueue
        rfl
      · rw [Function.update_of_ne hslot] at hcv'
        cases hcv.symm.trans hcv'
        simp at hqueue

/-- A client that has been taken off a condition variable waits under the number below its own. -/
theorem MadeToWait.dest (hslot : slot < MAX_DLOCK) (h : MadeToWait t localNetThreadInfo slot c reply) :
    reply.dest = clientAddress c ∨ reply.dest = clientAddress (c - 1 : ℤ) := by
  cases h with
  | acquire o e g r lock lock' hc hlock hbusy hr hlock' hqueue =>
    subst hc
    rcases processAt_acquire hslot hlock hr with rfl | hr
    · have hsame : some lock = some lock' := hlock.symm.trans hlock'
      cases hsame
      simp at hqueue
    · exact Or.inl (acquireOwn_queued hbusy hr hlock' hqueue)
  | wakeup waiting hc heapTail outPktHdr g r lock lock' hlock hbusy hr hlock' hqueue =>
    rw [acquireFor, bind_eq_ok] at hr
    obtain ⟨r', hr', hr⟩ := hr
    rcases lt_or_ge t.uniqueGlobalID MAX_NUM_GLOBAL_IDS with ht | ht
    · rw [acquire_own _ _ _ _ _ _ _ hslot ht, hlock, if_pos rfl] at hr'
      split_ifs at hr
      cases hr
      right
      rw [acquireOwn_queued hbusy hr' hlock' hqueue]
      have haddress : addressClient waiting.dest = c := by
        rw [hc.dest, addressClient_clientAddress (by omega)]
      simp only [addressClient, Message.dest] at haddress
      simp only [clientOf, Message.asSender, haddress]
    · rw [acquire_refused _ _ _ _ _ _ _ hslot ht] at hr'
      cases hr'
      cases hr

/-- A lock with waiters is handed to the first one. -/
theorem handOff_out {lock : DistributedLock} {queue : List Message}
    (hqueue : lock.waitQueue = reply :: queue) :
    (handOff t lock.free).2 = [outgoing t reply.pktHdr reply.mailHdr reply.data] := by
  simp only [handOff, DistributedLock.free, hqueue]

/-- **The queued reply is what is sent.** -/
theorem HandedOver.sent (hslot : slot < MAX_DLOCK)
    (h : HandedOver t localNetThreadInfo slot reply grant) :
    grant = outgoing t reply.pktHdr reply.mailHdr reply.data := by
  cases h with
  | release o e g r lock queue ack hlock hqueue hr hout =>
    have hcount := serverCount_of_processMessage hr
    rw [processAt, Origin.text, processMessage_requestText _ _ _ hcount] at hr
    simp only [dispatch, Call.release] at hr
    have hr := Call.oneArgument_eq_ok hslot hr
    simp only [Origin.call_t, Origin.call_e] at hr
    rcases lt_or_ge t.uniqueGlobalID MAX_NUM_GLOBAL_IDS with ht | ht
    · rw [release_own _ _ _ _ _ hslot ht, hlock] at hr
      simp only [releaseOwn] at hr
      obtain ⟨ack', -, hr⟩ := bind_eq_ok.mp hr
      cases hr
      simp only [handOff_out hqueue, List.cons.injEq, and_true] at hout
      exact hout.2.symm
    · rw [release_refused _ _ _ _ _ hslot ht] at hr
      cases hr
      cases hout
  | wait o e cvSlot g r lock queue hlock hqueue hr hout =>
    have hcount := serverCount_of_processMessage hr
    rw [processAt, Origin.text, processMessage_requestText _ _ _ hcount] at hr
    simp only [dispatch, Call.wait] at hr
    obtain ⟨args, hread, hr⟩ := bind_eq_ok.mp hr
    cases Origin.readTwo_eq_ok hread
    simp only [Call.twoArguments, atoi_fmtInt, t.globalId_tdiv hslot, Origin.call_t,
      Origin.call_e, ne_eq, not_true_eq_false, if_false] at hr
    rcases wait_cases hslot cvSlot.isLt hr with rfl | ⟨lock', cv, hlock', -, hr⟩
    · cases hout
    · cases hlock.symm.trans hlock'
      rw [waitOwn] at hr
      obtain ⟨ack, -, hr⟩ := bind_eq_ok.mp hr
      cases hr
      have hgranted : (handOff t lock.free).2 = [grant] := hout
      rw [handOff_out hqueue] at hgranted
      exact (List.singleton_inj.mp hgranted).symm
  | waitResponse call s g r lock queue ht hlock hqueue hr hchanged hout =>
    subst ht
    have hcount := serverCount_of_processMessage hr
    rw [processMessage_requestText _ _ _ hcount] at hr
    simp only [dispatch, Call.waitResponse] at hr
    split_ifs at hr with hhead
    obtain ⟨args, -, hr⟩ := bind_eq_ok.mp hr
    split_ifs at hr
    · cases hr
      cases hout
    · obtain ⟨i, -, hr⟩ := bind_eq_ok.mp hr
      obtain ⟨slot', -, hr⟩ := bind_eq_ok.mp hr
      split at hr
      · cases hr
      · next lock' hlock' =>
        cases hr
        -- only the lock whose grant goes out changes
        have hslot' : slot' = slot := by
          by_contra hne
          refine hchanged ?_
          rw [← hlock]
          exact Function.update_of_ne (Ne.symm hne) _ _
        subst hslot'
        cases hlock.symm.trans hlock'
        simp only [handOff_out hqueue, List.cons.injEq, and_true] at hout
        exact hout.symm

/-- **Queued and immediate grants never agree**: whichever way the client was made to wait and
    the lock was handed over, the grant goes to another mailbox. -/
theorem grants_disagree {immediate : Message} (hslot : slot < MAX_DLOCK)
    (himmediate : GrantedAtOnce t localNetThreadInfo slot c immediate)
    (hqueued : MadeToWait t localNetThreadInfo slot c reply)
    (hhanded : HandedOver t localNetThreadInfo slot reply grant) : ¬ SameGrant grant immediate := by
  rintro ⟨hdest, -⟩
  rw [hhanded.sent hslot, himmediate.dest hslot, clientMachine_of_nonneg (by omega),
    clientBox_of_nonneg (by omega)] at hdest
  have hreply : reply.dest = ((c : ℤ) / 100, (c : ℤ) % 100 + 1) := hdest
  rcases hqueued.dest hslot with hown | hbelow
  · rw [hreply, clientAddress_of_nonneg (by omega), Prod.mk.injEq] at hown
    omega
  · rcases Nat.eq_zero_or_pos c with rfl | hpos
    · rw [hreply] at hbelow
      exact absurd hbelow (by decide)
    · rw [hreply, clientAddress_of_nonneg (by omega), Prod.mk.injEq] at hbelow
      omega

end

/-! ## A grant at the wrong mailbox -/

/-- Thread `(0, 0)` with a lock that client 5 holds. -/
def heldLock : Globals := (Globals.init 1).setLock 0 (some ((DistributedLock.new ['l'] 0).give (0, 5)))

/-- The reply that is queued for client 100. -/
def queuedReply : Message := ⟨⟨1, 0⟩, ⟨0, 0⟩, ['0']⟩

/-- The same lock with client 100 in its queue. -/
def heldLockWaiter : Globals :=
  (Globals.init 1).setLock 0
    (some (((DistributedLock.new ['l'] 0).give (0, 5)).queueReply queuedReply))

/-- A free lock. -/
def freeLock : Globals := (Globals.init 1).setLock 0 (some (.new ['l'] 0))

/-- **A grant misses the user thread**: client 100 would have been granted the lock at mailbox 1
    of machine 1, and is granted it at mailbox 0 after client 5 has released it. -/
theorem grant_misses_user :
    Gives (processAt ⟨0, 0⟩ [⟨0, 0⟩] (.user 1 0) (.clear ⟨0, 0⟩) .acquire ['0'] freeLock)
        (fun r => r.out.map Message.dest = [(1, 1)]) ∧
      Gives (processAt ⟨0, 0⟩ [⟨0, 0⟩] (.user 1 0) (.clear ⟨0, 0⟩) .acquire ['0'] heldLock)
        (fun r => (r.state.dlocks 0).map (·.waitQueue) = some [queuedReply]) ∧
      Gives (processAt ⟨0, 0⟩ [⟨0, 0⟩] (.user 0 5) (.clear ⟨0, 0⟩) .release ['0'] heldLockWaiter)
        (fun r => r.out.map Message.dest = [(0, 6), (1, 0)]) := by
  decide +kernel

/-- Its `ACQUIRE` on the held lock and the `RELEASE` make a queued grant. -/
theorem grants_disagree_hundred : ∃ grant immediate,
    GrantedAtOnce ⟨0, 0⟩ [⟨0, 0⟩] 0 100 immediate ∧ MadeToWait ⟨0, 0⟩ [⟨0, 0⟩] 0 100 queuedReply ∧
      HandedOver ⟨0, 0⟩ [⟨0, 0⟩] 0 queuedReply grant ∧ ¬ SameGrant grant immediate := by
  obtain ⟨r₁, hr₁, hout₁⟩ : Gives
      (processAt ⟨0, 0⟩ [⟨0, 0⟩] (.user 1 0) (.clear ⟨0, 0⟩) .acquire ['0'] freeLock)
      fun r => r.out = [⟨⟨1, 0⟩, ⟨1, 0⟩, ['0']⟩] := by decide +kernel
  obtain ⟨r₂, hr₂, hout₂⟩ : Gives
      (processAt ⟨0, 0⟩ [⟨0, 0⟩] (.user 1 0) (.clear ⟨0, 0⟩) .acquire ['0'] heldLock)
      fun r => r.state.dlocks 0 = heldLockWaiter.dlocks 0 := by decide +kernel
  obtain ⟨r₃, hr₃, hout₃⟩ : Gives
      (processAt ⟨0, 0⟩ [⟨0, 0⟩] (.user 0 5) (.clear ⟨0, 0⟩) .release ['0'] heldLockWaiter)
      fun r => r.out = [⟨⟨0, 0⟩, ⟨6, 0⟩, ['0']⟩, queuedReply] := by decide +kernel
  have himmediate : GrantedAtOnce ⟨0, 0⟩ [⟨0, 0⟩] 0 100 ⟨⟨1, 0⟩, ⟨1, 0⟩, ['0']⟩ :=
    ⟨.user 1 0, _, _, r₁, _, rfl, rfl, rfl, hr₁, hout₁⟩
  have hqueued : MadeToWait ⟨0, 0⟩ [⟨0, 0⟩] 0 100 queuedReply :=
    .acquire (.user 1 0) _ _ r₂ _ _ rfl rfl rfl hr₂ hout₂ rfl
  have hhanded : HandedOver ⟨0, 0⟩ [⟨0, 0⟩] 0 queuedReply queuedReply :=
    .release (.user 0 5) _ _ r₃ _ [] _ rfl rfl hr₃ hout₃
  exact ⟨_, _, himmediate, hqueued, hhanded,
    grants_disagree (by decide) himmediate hqueued hhanded⟩

end Nachos.Network
