import Nachos.Network.ConditionVariables

/-!
# The representation of distributed locks

Runs of `ACQUIRE`, `RELEASE`, `WAIT`, `SIGNAL` and `BROADCAST` requests at the network
thread that owns all the locks and condition variables, together with a history of each
lock: the addresses it has been granted to, the replies that have been queued, those that
have been taken off the queue, and the messages that have been sent for these.

Five operations write the flag, the owner and the queue of a lock, but they change it in
three ways only (`LockMove`).

* `lock_representation`: in every state that is reached, the flag, the owner and the queue
  fit together, and every `Acquire` of a lock is one grant or one queue entry.
-/

namespace Nachos.Network

open Nachos.Lib

/-! ## Runs -/

/-- A request for a lock, or for a lock and a condition variable, in slots of the owner. -/
inductive SyncOp
  | acquire (lock : Fin MAX_DLOCK)
  | release (lock : Fin MAX_DLOCK)
  | wait (cv : Fin MAX_DCV) (lock : Fin MAX_DLOCK)
  | signal (cv : Fin MAX_DCV) (lock : Fin MAX_DLOCK)
  | broadcast (cv : Fin MAX_DCV) (lock : Fin MAX_DLOCK)

/-- The request type. -/
def SyncOp.type : SyncOp → RequestType
  | acquire _ => .acquire
  | release _ => .release
  | wait _ _ => .wait
  | signal _ _ => .signal
  | broadcast _ _ => .broadcast

/-- The arguments as they are printed. -/
def SyncOp.arguments (t : NetThread) : SyncOp → Text
  | acquire lock | release lock => fmtInt (t.globalId MAX_DLOCK lock)
  | wait cv lock | signal cv lock | broadcast cv lock =>
    pairText (t.globalId MAX_DCV cv) (t.globalId MAX_DLOCK lock)

/-- A request, where it comes from, and the surroundings in which it is processed. -/
structure SyncRequest where
  op : SyncOp
  origin : Origin
  e : Ambient

/-- What has happened to a lock: to which addresses it has been granted, which replies have
    been queued and which have been taken off the queue, and which messages have handed the
    lock to a client that had to wait. -/
structure LockHistory where
  granted : List (ℤ × ℤ)
  queued : List Message
  handed : List Message
  sent : List Message

/-- Nothing has happened yet. -/
def LockHistory.empty : LockHistory := ⟨[], [], [], []⟩

/-- The history after a request before which `before` was the queue, and after which it is
    `after`. The messages `sent` are grants; `granted` are the grants besides. -/
def LockHistory.extend (h : LockHistory) (granted : List (ℤ × ℤ)) (sent before after : List Message) :
    LockHistory :=
  ⟨h.granted ++ granted ++ sent.map Message.dest, h.queued ++ after.drop before.length,
    h.handed ++ before.take (before.length - after.length), h.sent ++ sent⟩

/-- The globals, and the history of the lock in each slot. -/
structure SyncState where
  globals : Globals
  history : ℕ → LockHistory

/-- The queue of the lock in a slot. -/
def queueOf (g : Globals) (slot : ℕ) : List Message :=
  match g.dlocks slot with
  | some lock => lock.waitQueue
  | none => []

/-- An `ACQUIRE` that is answered at once grants the lock to its client. -/
def SyncRequest.granted (q : SyncRequest) (r : Result) (slot : ℕ) : List (ℤ × ℤ) :=
  match q.op with
  | .acquire lock => if lock = slot ∧ r.out ≠ [] then [clientAddress q.origin.client] else []
  | _ => []

/-- The messages with which a request hands the lock in `slot` on: what `RELEASE` sends after
    its acknowledgement, and all that `WAIT` sends. -/
def SyncRequest.sent (q : SyncRequest) (r : Result) (slot : ℕ) : List Message :=
  match q.op with
  | .release lock => if lock = slot then r.out.tail else []
  | .wait _ lock => if lock = slot then r.out else []
  | _ => []

/-- The owner `t` processes a request. -/
def syncStep (t : NetThread) (localNetThreadInfo : List NetThread) (s : SyncState) (q : SyncRequest) :
    Except Fault SyncState := do
  let r ← processMessage (q.origin.call t q.e) (q.origin.text q.op.type (q.op.arguments t))
    localNetThreadInfo s.globals
  return ⟨r.state, fun slot => (s.history slot).extend (q.granted r slot) (q.sent r slot)
    (queueOf s.globals slot) (queueOf r.state slot)⟩

/-! ## The property -/

/-- A queued reply as `t` sends it. -/
def Message.sentBy (t : NetThread) (reply : Message) : Message :=
  outgoing t reply.pktHdr reply.mailHdr reply.data

@[simp] theorem Message.sentBy_dest (t : NetThread) (reply : Message) :
    (reply.sentBy t).dest = reply.dest := rfl

/-- **The representation of a lock**: it is free exactly when its owner is (-1, -1), nobody
    waits for a free lock, a busy lock belongs to the address it was granted to last, replies
    leave the queue in the order in which they have been queued, and those that have left it
    are what has been sent. -/
structure LockOk (t : NetThread) (lock : DistributedLock) (h : LockHistory) : Prop where
  free_iff : lock.lockState = FREE ↔ lock.owner = (-1, -1)
  nobody : lock.lockState = FREE → lock.waitQueue = []
  latest : lock.lockState = BUSY → h.granted.getLast? = some lock.owner
  fifo : h.queued = h.handed ++ lock.waitQueue
  sent : h.sent = h.handed.map (Message.sentBy t)

/-- An `Acquire` of the lock in `slot` for the client `c` sends one grant and records the
    client's address, or queues one reply to it. -/
def GrantsOrQueues (slot : ℕ) (lock : DistributedLock) (c : ℤ) (g : Globals) (r : Result) : Prop :=
  (∃ grant, grant.dest = (clientMachine c, clientBox c + 1) ∧ r.out = [grant] ∧
      r.state = g.setLock slot (some (lock.give (clientAddress c)))) ∨
    ∃ reply, reply.dest = clientAddress c ∧ r.out = [] ∧
      r.state = g.setLock slot (some (lock.queueReply reply))

/-- Locks that have just been created by `t`, and condition variables without waiters. -/
structure NewObjects (t : NetThread) (g : Globals) : Prop where
  lock : ∀ slot lock, g.dlocks slot = some lock → ∃ name, lock = .new name (t.globalId MAX_DLOCK slot)
  cv : ∀ slot cv, g.cvs slot = some cv → cv.waitQueue = []

/-! ## Addresses -/

/-- An address with non-negative parts. -/
def Plain (a : ℤ × ℤ) : Prop := 0 ≤ a.1 ∧ 0 ≤ a.2

theorem Plain.ne {a : ℤ × ℤ} (h : Plain a) : a ≠ (-1, -1) := by
  rintro rfl
  exact absurd h.1 (by decide)

theorem plain_clientAddress {c : ℤ} (h : -1 ≤ c) : Plain (clientAddress c) := by
  rcases le_or_gt 0 c with h0 | h0
  · rw [clientAddress_of_nonneg h0]
    constructor <;> simp only <;> omega
  · obtain rfl : c = -1 := by omega
    exact ⟨by decide, by decide⟩

/-- A client that is taken off a condition variable is passed to `Acquire` with a number
    that stands for an address. -/
theorem plain_asSender {reply : Message} (h : Plain reply.dest) :
    Plain (clientAddress (clientOf reply.asSender.1 reply.asSender.2)) := by
  apply plain_clientAddress
  obtain ⟨h1, h2⟩ := h
  simp only [Message.dest] at h1 h2
  simp only [clientOf, Message.asSender]
  omega

/-! ## What happens to a lock -/

/-- The three ways in which a lock of `t` changes, the grants besides those of queued
    replies, and the replies that are sent. -/
inductive LockMove (t : NetThread) (lock : DistributedLock) :
    DistributedLock → List (ℤ × ℤ) → List Message → Prop
  | give (a : ℤ × ℤ) (hfree : lock.lockState = FREE) (ha : Plain a) :
      LockMove t lock (lock.give a) [a] []
  | queue (replies : List Message) (hbusy : lock.lockState = BUSY)
      (hreplies : ∀ reply ∈ replies, Plain reply.dest) :
      LockMove t lock { lock with waitQueue := lock.waitQueue ++ replies } [] []
  | handOff : LockMove t lock (handOff t lock.free).1 [] (handOff t lock.free).2

/-- The invariant of a lock: the addresses of its owner and in its queue are plain, and its
    global id is that of its slot. -/
structure LockInv (t : NetThread) (slot : ℕ) (lock : DistributedLock) (h : LockHistory) : Prop where
  ok : LockOk t lock h
  owner : lock.lockState = BUSY → Plain lock.owner
  queue : ∀ reply ∈ lock.waitQueue, Plain reply.dest
  globalId : lock.globalId = t.globalId MAX_DLOCK slot

theorem extend_same (h : LockHistory) (queue : List Message) : h.extend [] [] queue queue = h := by
  simp [LockHistory.extend]

theorem extend_append (h : LockHistory) (granted : List (ℤ × ℤ)) (queue replies : List Message) :
    h.extend granted [] queue (queue ++ replies) =
      ⟨h.granted ++ granted, h.queued ++ replies, h.handed, h.sent⟩ := by
  simp [LockHistory.extend]

theorem extend_cons (h : LockHistory) (t : NetThread) (reply : Message) (queue : List Message) :
    h.extend [] [reply.sentBy t] (reply :: queue) queue =
      ⟨h.granted ++ [reply.dest], h.queued, h.handed ++ [reply], h.sent ++ [reply.sentBy t]⟩ := by
  have hlength : queue.length + 1 - queue.length = 1 := by omega
  simp [LockHistory.extend, hlength]

/-- **A lock that changes** keeps its representation. -/
theorem LockInv.move {t : NetThread} {slot : ℕ} {lock lock' : DistributedLock} {h : LockHistory}
    {granted : List (ℤ × ℤ)} {sent : List Message} (hinv : LockInv t slot lock h)
    (hmove : LockMove t lock lock' granted sent) :
    LockInv t slot lock' (h.extend granted sent lock.waitQueue lock'.waitQueue) := by
  cases hmove with
  | give a hfree ha =>
    have hextend : h.extend [a] [] lock.waitQueue (lock.give a).waitQueue =
        ⟨h.granted ++ [a], h.queued, h.handed, h.sent⟩ := by
      simpa [DistributedLock.give] using extend_append h [a] lock.waitQueue []
    rw [hextend]
    refine ⟨⟨?_, ?_, ?_, hinv.ok.fifo, hinv.ok.sent⟩, fun _ => ha, hinv.queue, hinv.globalId⟩
    · exact ⟨by rintro ⟨⟩, fun howner => absurd howner ha.ne⟩
    · rintro ⟨⟩
    · intro _
      simp [DistributedLock.give, DistributedLock.owner]
  | queue replies hbusy hreplies =>
    rw [extend_append]
    refine ⟨⟨?_, ?_, ?_, ?_, hinv.ok.sent⟩, hinv.owner, ?_, hinv.globalId⟩
    · exact hinv.ok.free_iff
    · intro hfree
      rw [hbusy] at hfree
      cases hfree
    · intro _
      rw [List.append_nil]
      exact hinv.ok.latest hbusy
    · rw [hinv.ok.fifo, List.append_assoc]
    · intro reply hreply
      rcases List.mem_append.mp hreply with hreply | hreply
      · exact hinv.queue reply hreply
      · exact hreplies reply hreply
  | handOff =>
    unfold Network.handOff
    cases hqueue : lock.free.waitQueue with
    | nil =>
      have hempty : lock.waitQueue = [] := hqueue
      have hextend : h.extend [] [] lock.waitQueue lock.free.waitQueue = h :=
        extend_same h lock.waitQueue
      simp only [hextend]
      refine ⟨⟨⟨fun _ => rfl, fun _ => rfl⟩, fun _ => hempty, ?_, hinv.ok.fifo, hinv.ok.sent⟩, ?_,
        hinv.queue, hinv.globalId⟩
      · rintro ⟨⟩
      · rintro ⟨⟩
    | cons reply queue =>
      have hcons : lock.waitQueue = reply :: queue := hqueue
      have hplain : Plain reply.dest := hinv.queue reply (by rw [hcons]; exact List.mem_cons_self)
      have hextend := extend_cons h t reply queue
      simp only [Message.sentBy] at hextend
      simp only [hcons, DistributedLock.give, hextend]
      refine ⟨⟨⟨by rintro ⟨⟩, fun howner => absurd howner hplain.ne⟩, by rintro ⟨⟩, fun _ => ?_, ?_, ?_⟩,
        fun _ => hplain,
        fun reply' hreply' => hinv.queue reply' (by rw [hcons]; exact List.mem_cons_of_mem _ hreply'),
        hinv.globalId⟩
      · simp [DistributedLock.owner]
      · rw [hinv.ok.fifo, hcons, List.append_assoc]
        rfl
      · rw [hinv.ok.sent, List.map_append]
        rfl

/-! ## The operations -/

/-- The waiters of all condition variables have plain addresses. -/
def PlainWaiters (g : Globals) : Prop :=
  ∀ slot cv, g.cvs slot = some cv → ∀ reply ∈ cv.waitQueue, Plain reply.dest

/-- A lock has been changed in one of the three ways. -/
structure Moved (t : NetThread) (lockSlot : ℕ) (granted : List (ℤ × ℤ)) (sent : List Message)
    (g g' : Globals) : Prop where
  lock : ∃ lock lock', g.dlocks lockSlot = some lock ∧
    g'.dlocks = Function.update g.dlocks lockSlot (some lock') ∧ LockMove t lock lock' granted sent
  cvs : PlainWaiters g'

/-- No lock has been changed. -/
structure Still (g g' : Globals) : Prop where
  dlocks : g'.dlocks = g.dlocks
  cvs : PlainWaiters g'

section

variable {t : NetThread} {e : Ambient} {outPktHdr inPktHdr : PacketHeader} {inMailHdr : MailHeader}
  {lockSlot cvSlot : ℕ} {lock : DistributedLock} {cv : DistributedCV} {g : Globals} {r : Result}
  {c : ℤ}

/-- Some of the waiters of a condition variable stay. -/
theorem PlainWaiters.setCv (h : PlainWaiters g) {cv' : DistributedCV}
    (hcv' : ∀ reply ∈ cv'.waitQueue, Plain reply.dest) {g' : Globals}
    (hg' : g'.cvs = Function.update g.cvs cvSlot (some cv')) : PlainWaiters g' := by
  intro slot cv hcv
  rw [hg', Function.update_apply] at hcv
  split_ifs at hcv
  · cases hcv
    exact hcv'
  · exact h slot cv hcv

/-- **`Acquire`** grants a free lock and queues the reply of a busy one. -/
theorem acquireOwn_grantsOrQueues {heapTail : Text}
    (h : acquireOwn t heapTail outPktHdr c lockSlot lock g = .ok r) :
    GrantsOrQueues lockSlot lock c g r ∧ (lock.lockState = FREE ↔ r.out ≠ []) := by
  rw [acquireOwn, bind_eq_ok] at h
  obtain ⟨ack, -, h⟩ := h
  split_ifs at h with hbusy
  · cases h
    exact ⟨Or.inr ⟨_, rfl, rfl, rfl⟩, by simp [hbusy]⟩
  · cases h
    exact ⟨Or.inl ⟨_, rfl, rfl, rfl⟩, by simpa using hbusy⟩

theorem acquireOwn_move {heapTail : Text} (h : acquireOwn t heapTail outPktHdr c lockSlot lock g = .ok r)
    (hlock : g.dlocks lockSlot = some lock) (hc : Plain (clientAddress c)) (hcvs : PlainWaiters g) :
    Moved t lockSlot (if r.out ≠ [] then [clientAddress c] else []) [] g r.state := by
  obtain ⟨hcases, hfree⟩ := acquireOwn_grantsOrQueues h
  rcases hcases with ⟨grant, -, hout, hstate⟩ | ⟨reply, hreply, hout, hstate⟩
  · have hne : r.out ≠ [] := by simp [hout]
    rw [if_pos hne, hstate]
    exact ⟨⟨lock, _, hlock, rfl, .give _ (hfree.mpr hne) hc⟩, hcvs⟩
  · have hbusy : lock.lockState = BUSY := by simpa [hout] using hfree
    rw [if_neg (by simp [hout]), hstate]
    exact ⟨⟨lock, _, hlock, rfl, .queue [reply] hbusy (by simpa [hreply] using hc)⟩, hcvs⟩

/-- **`Release`** frees the lock and hands it to the first in its queue. -/
theorem releaseOwn_move (h : releaseOwn t e outPktHdr c lockSlot lock g = .ok r)
    (hlock : g.dlocks lockSlot = some lock) (hcvs : PlainWaiters g) :
    Moved t lockSlot [] r.out.tail g r.state := by
  rw [releaseOwn, bind_eq_ok] at h
  obtain ⟨ack, -, h⟩ := h
  cases h
  exact ⟨⟨lock, _, hlock, rfl, .handOff⟩, hcvs⟩

/-- **`Wait`** does the same, and queues the client on the condition variable. -/
theorem waitOwn_move (h : waitOwn t e outPktHdr c lockSlot cvSlot lock cv g = .ok r)
    (hlock : g.dlocks lockSlot = some lock) (hcv : g.cvs cvSlot = some cv)
    (hc : Plain (clientAddress c)) (hcvs : PlainWaiters g) : Moved t lockSlot [] r.out g r.state := by
  rw [waitOwn] at h
  obtain ⟨ack, -, h⟩ := bind_eq_ok.mp h
  cases h
  refine ⟨⟨lock, _, hlock, rfl, .handOff⟩, ?_⟩
  refine hcvs.setCv (fun reply hreply => ?_) rfl
  rcases List.mem_append.mp hreply with hreply | hreply
  · exact hcvs cvSlot cv hcv reply hreply
  · rw [List.mem_singleton.mp hreply]
    exact hc

/-- A woken client acquires a busy lock: a reply is queued for it. -/
theorem acquireFor_queues {heapTail : Text} {reply : Message} (hslot : lockSlot < MAX_DLOCK)
    (h : acquireFor t heapTail (t.globalId MAX_DLOCK lockSlot) outPktHdr reply g = .ok r)
    (hlock : g.dlocks lockSlot = some lock) (hbusy : lock.lockState = BUSY) (hreply : Plain reply.dest) :
    ∃ reply', Plain reply'.dest ∧ r.state = g.setLock lockSlot (some (lock.queueReply reply')) := by
  rw [acquireFor, bind_eq_ok] at h
  obtain ⟨r', hr', h⟩ := h
  rcases lt_or_ge t.uniqueGlobalID MAX_NUM_GLOBAL_IDS with ht | ht
  · rw [acquire_own _ _ _ _ _ _ _ hslot ht, hlock, if_pos rfl] at hr'
    obtain ⟨hcases, hfree⟩ := acquireOwn_grantsOrQueues hr'
    rcases hcases with ⟨grant, -, hout, -⟩ | ⟨reply', hdest, -, hstate⟩
    · exact absurd (hfree.mpr (by simp [hout])) (by simp [hbusy])
    · split_ifs at h
      cases h
      exact ⟨reply', by rw [hdest]; exact plain_asSender hreply, hstate⟩
  · rw [acquire_refused _ _ _ _ _ _ _ hslot ht] at hr'
    cases hr'
    cases h

/-- So do all of them, in their order. -/
theorem wakeAll_queues {heapTail : ℕ → Text} {queue : List Message} {k : ℕ}
    (hslot : lockSlot < MAX_DLOCK)
    (h : wakeAll t heapTail (t.globalId MAX_DLOCK lockSlot) outPktHdr queue k g = .ok r)
    (hlock : g.dlocks lockSlot = some lock) (hbusy : lock.lockState = BUSY)
    (hqueue : ∀ reply ∈ queue, Plain reply.dest) :
    ∃ replies, (∀ reply ∈ replies, Plain reply.dest) ∧ r.state.cvs = g.cvs ∧ r.state.dlocks =
      Function.update g.dlocks lockSlot (some { lock with waitQueue := lock.waitQueue ++ replies }) := by
  induction queue generalizing k g lock r with
  | nil =>
    cases h
    refine ⟨[], nofun, rfl, ?_⟩
    rw [List.append_nil]
    exact (Function.update_eq_self_iff.mpr hlock.symm).symm
  | cons reply queue ih =>
    rw [wakeAll] at h
    obtain ⟨r₁, hr₁, h⟩ := bind_eq_ok.mp h
    obtain ⟨r₂, hr₂, h⟩ := bind_eq_ok.mp h
    cases h
    obtain ⟨reply', hreply', hstate⟩ :=
      acquireFor_queues hslot hr₁ hlock hbusy (hqueue reply List.mem_cons_self)
    have hlock' : r₁.state.dlocks lockSlot = some (lock.queueReply reply') := by
      rw [hstate]
      exact Function.update_self ..
    obtain ⟨replies, hreplies, hcvs, hdlocks⟩ := ih hr₂ hlock' hbusy
      (fun reply'' h'' => hqueue reply'' (List.mem_cons_of_mem _ h''))
    refine ⟨reply' :: replies, ?_, ?_, ?_⟩
    · intro reply'' h''
      rcases List.mem_cons.mp h'' with rfl | h''
      · exact hreply'
      · exact hreplies reply'' h''
    · rw [hcvs, hstate]
      rfl
    · rw [hdlocks, hstate]
      simp only [Globals.setLock, Function.update_idem, DistributedLock.queueReply, List.append_assoc,
        List.singleton_append]

/-- **`Signal`** queues the first waiter on a busy lock, or leaves the locks alone. -/
theorem signalOwn_move (hslot : lockSlot < MAX_DLOCK)
    (h : signalOwn t e outPktHdr c lockSlot cvSlot cv g = .ok r) (hlock : g.dlocks lockSlot = some lock)
    (hcv : g.cvs cvSlot = some cv) (hbusy : lock.lockState = BUSY) (hcvs : PlainWaiters g) :
    Still g r.state ∨ Moved t lockSlot [] [] g r.state := by
  rw [signalOwn] at h
  obtain ⟨ack, -, h⟩ := bind_eq_ok.mp h
  cases hqueue : cv.waitQueue with
  | nil =>
    simp only [hqueue] at h
    cases h
    exact Or.inl ⟨rfl, hcvs.setCv (by simp) rfl⟩
  | cons reply queue =>
    simp only [hqueue] at h
    split_ifs at h
    · cases h
      exact Or.inl ⟨rfl, hcvs⟩
    all_goals
      obtain ⟨r', hr', h⟩ := bind_eq_ok.mp h
      cases h
      have hqueued := hcvs cvSlot cv hcv
      rw [hqueue] at hqueued
      obtain ⟨reply', hreply', hstate⟩ := acquireFor_queues hslot hr' hlock hbusy
        (hqueued reply List.mem_cons_self)
      refine Or.inr ⟨⟨lock, _, hlock, by rw [hstate]; rfl, .queue [reply'] hbusy (by simpa)⟩, ?_⟩
      obtain ⟨cv', hcvs', hrest⟩ : ∃ cv', r'.state.cvs = Function.update g.cvs cvSlot (some cv') ∧
          cv'.waitQueue = queue := by
        rw [hstate]
        exact ⟨_, rfl, rfl⟩
      refine hcvs.setCv (fun reply'' h'' => hqueued reply'' (List.mem_cons_of_mem _ ?_)) hcvs'
      rwa [hrest] at h''

/-- **`Broadcast`** queues all waiters on a busy lock, or leaves the locks alone. -/
theorem broadcastOwn_move (hslot : lockSlot < MAX_DLOCK)
    (h : broadcastOwn t e outPktHdr inPktHdr inMailHdr lockSlot cvSlot cv g = .ok r)
    (hlock : g.dlocks lockSlot = some lock) (hcv : g.cvs cvSlot = some cv)
    (hbusy : lock.lockState = BUSY) (hcvs : PlainWaiters g) :
    Still g r.state ∨ Moved t lockSlot [] [] g r.state := by
  rw [broadcastOwn] at h
  obtain ⟨ack, -, h⟩ := bind_eq_ok.mp h
  simp only at h
  split_ifs at h
  · cases h
    exact Or.inl ⟨rfl, hcvs⟩
  · obtain ⟨r', hr', h⟩ := bind_eq_ok.mp h
    cases h
    obtain ⟨replies, hreplies, hcvs', hdlocks⟩ :=
      wakeAll_queues hslot hr' hlock hbusy (hcvs cvSlot cv hcv)
    refine Or.inr ⟨⟨lock, _, hlock, hdlocks, .queue replies hbusy hreplies⟩, ?_⟩
    exact hcvs.setCv (by simp) hcvs'

/-! ## Requests -/

/-- A request for objects of the thread is refused or handled by the branch for them. -/
theorem wait_cases (hlockSlot : lockSlot < MAX_DLOCK) (hcvSlot : cvSlot < MAX_DCV)
    (h : wait t e (t.globalId MAX_DCV cvSlot) (t.globalId MAX_DLOCK lockSlot) outPktHdr inMailHdr c g =
      .ok r) : r = .failed g ∨ ∃ lock cv, g.dlocks lockSlot = some lock ∧ g.cvs cvSlot = some cv ∧
        waitOwn t e outPktHdr c lockSlot cvSlot lock cv g = .ok r := by
  rw [wait] at h
  simp only [t.globalId_tdiv hlockSlot, t.globalId_tdiv hcvSlot, and_self, if_true,
    t.globalId_tmod hlockSlot, t.globalId_tmod hcvSlot, Int.toNat_natCast] at h
  cases hlock : g.dlocks lockSlot with
  | none =>
    simp only [hlock] at h
    split_ifs at h <;> (cases h; exact Or.inl rfl)
  | some lock =>
    cases hcv : g.cvs cvSlot with
    | none =>
      simp only [hlock, hcv] at h
      split_ifs at h <;> (cases h; exact Or.inl rfl)
    | some cv =>
      simp only [hlock, hcv] at h
      split_ifs at h
      iterate 3 (cases h; exact Or.inl rfl)
      exact Or.inr ⟨lock, cv, rfl, rfl, h⟩

theorem signal_cases (hlockSlot : lockSlot < MAX_DLOCK) (hcvSlot : cvSlot < MAX_DCV)
    (h : signal t e (t.globalId MAX_DCV cvSlot) (t.globalId MAX_DLOCK lockSlot) outPktHdr inMailHdr c
      g = .ok r) : r = .failed g ∨ ∃ lock cv, g.dlocks lockSlot = some lock ∧ g.cvs cvSlot = some cv ∧
        lock.ownerMailID ≠ -1 ∧ signalOwn t e outPktHdr c lockSlot cvSlot cv g = .ok r := by
  rw [signal] at h
  simp only [t.globalId_tdiv hlockSlot, t.globalId_tdiv hcvSlot, and_self, if_true,
    t.globalId_tmod hlockSlot, t.globalId_tmod hcvSlot, Int.toNat_natCast] at h
  cases hlock : g.dlocks lockSlot with
  | none =>
    simp only [hlock] at h
    split_ifs at h <;> (cases h; exact Or.inl rfl)
  | some lock =>
    cases hcv : g.cvs cvSlot with
    | none =>
      simp only [hlock, hcv] at h
      split_ifs at h <;> (cases h; exact Or.inl rfl)
    | some cv =>
      simp only [hlock, hcv] at h
      split_ifs at h with _ _ howner
      iterate 3 (cases h; exact Or.inl rfl)
      exact Or.inr ⟨lock, cv, rfl, rfl, howner, h⟩

theorem broadcast_cases (hlockSlot : lockSlot < MAX_DLOCK) (hcvSlot : cvSlot < MAX_DCV)
    (h : broadcast t e (t.globalId MAX_DCV cvSlot) (t.globalId MAX_DLOCK lockSlot) outPktHdr inPktHdr
      inMailHdr c g = .ok r) :
    r = .failed g ∨ ∃ lock cv, g.dlocks lockSlot = some lock ∧ g.cvs cvSlot = some cv ∧
        lock.ownerMailID ≠ -1 ∧
        broadcastOwn t e outPktHdr inPktHdr inMailHdr lockSlot cvSlot cv g = .ok r := by
  rw [broadcast] at h
  simp only [t.globalId_tdiv hlockSlot, t.globalId_tdiv hcvSlot, and_self, if_true,
    t.globalId_tmod hlockSlot, t.globalId_tmod hcvSlot, Int.toNat_natCast] at h
  cases hlock : g.dlocks lockSlot with
  | none =>
    simp only [hlock] at h
    split_ifs at h <;> (cases h; exact Or.inl rfl)
  | some lock =>
    cases hcv : g.cvs cvSlot with
    | none =>
      simp only [hlock, hcv] at h
      split_ifs at h <;> (cases h; exact Or.inl rfl)
    | some cv =>
      simp only [hlock, hcv] at h
      split_ifs at h with _ _ howner
      iterate 3 (cases h; exact Or.inl rfl)
      exact Or.inr ⟨lock, cv, rfl, rfl, howner, h⟩

/-- All locks have their invariant, and all waiters plain addresses. -/
structure SyncInv (t : NetThread) (s : SyncState) : Prop where
  locks : ∀ slot lock, s.globals.dlocks slot = some lock → LockInv t slot lock (s.history slot)
  cvs : PlainWaiters s.globals

theorem SyncInv.init (hnew : NewObjects t g) : SyncInv t ⟨g, fun _ => .empty⟩ where
  locks slot lock hlock := by
    obtain ⟨name, rfl⟩ := hnew.lock slot lock hlock
    exact ⟨⟨⟨fun _ => rfl, fun _ => rfl⟩, fun _ => rfl, nofun, rfl, rfl⟩, nofun, nofun, rfl⟩
  cvs slot cv hcv reply hreply := by
    rw [hnew.cv slot cv hcv] at hreply
    cases hreply

variable {s : SyncState} {q : SyncRequest}

/-- A lock that is held is busy. -/
theorem SyncInv.busy (hs : SyncInv t s) (hlock : s.globals.dlocks lockSlot = some lock)
    (howner : lock.ownerMailID ≠ -1) : lock.lockState = BUSY := by
  have hfree := (hs.locks lockSlot lock hlock).ok.free_iff
  by_contra hnot
  have hpair := hfree.mp (by simpa using hnot)
  exact howner (congrArg Prod.snd hpair)

/-- **Step lemma** for a request that changes one lock or none. -/
theorem SyncInv.step (hs : SyncInv t s) {slot₀ : ℕ} {granted : ℕ → List (ℤ × ℤ)}
    {sent : ℕ → List Message} (hother : ∀ slot ≠ slot₀, granted slot = [] ∧ sent slot = [])
    (h : Still s.globals g ∧ granted slot₀ = [] ∧ sent slot₀ = [] ∨
      Moved t slot₀ (granted slot₀) (sent slot₀) s.globals g) :
    SyncInv t ⟨g, fun slot => (s.history slot).extend (granted slot) (sent slot)
      (queueOf s.globals slot) (queueOf g slot)⟩ := by
  have hsame (slot : ℕ) (hslot : g.dlocks slot = s.globals.dlocks slot)
      (hnone : granted slot = [] ∧ sent slot = []) (lock : DistributedLock)
      (hlock : g.dlocks slot = some lock) : LockInv t slot lock ((s.history slot).extend
        (granted slot) (sent slot) (queueOf s.globals slot) (queueOf g slot)) := by
    have hqueue : queueOf g slot = queueOf s.globals slot := by rw [queueOf, hslot, queueOf]
    rw [hnone.1, hnone.2, hqueue, extend_same]
    exact hs.locks slot lock (hslot ▸ hlock)
  rcases h with ⟨hstill, hnone⟩ | hmoved
  · refine ⟨fun slot lock hlock => ?_, hstill.cvs⟩
    have hslot : g.dlocks slot = s.globals.dlocks slot := by rw [hstill.dlocks]
    by_cases heq : slot = slot₀
    · exact hsame slot hslot (heq ▸ hnone) lock hlock
    · exact hsame slot hslot (hother slot heq) lock hlock
  · obtain ⟨lock, lock', hlock, hdlocks, hmove⟩ := hmoved.lock
    refine ⟨fun slot lock'' hlock'' => ?_, hmoved.cvs⟩
    by_cases heq : slot = slot₀
    · subst heq
      have hnew : g.dlocks slot = some lock' := by rw [hdlocks, Function.update_self]
      obtain rfl : lock' = lock'' := Option.some_injective _ (hnew.symm.trans hlock'')
      simp only [queueOf, hlock, hnew]
      exact (hs.locks slot lock hlock).move hmove
    · exact hsame slot (by rw [hdlocks, Function.update_of_ne heq]) (hother slot heq) lock'' hlock''

/-- **What a request does** to the locks. -/
theorem syncStep_moved {localNetThreadInfo : List NetThread} (hs : SyncInv t s)
    (h : processMessage (q.origin.call t q.e) (q.origin.text q.op.type (q.op.arguments t))
      localNetThreadInfo s.globals = .ok r) :
    ∃ slot₀, (∀ slot ≠ slot₀, q.granted r slot = [] ∧ q.sent r slot = []) ∧
      (Still s.globals r.state ∧ q.granted r slot₀ = [] ∧ q.sent r slot₀ = [] ∨
        Moved t slot₀ (q.granted r slot₀) (q.sent r slot₀) s.globals r.state) := by
  have hcount : s.globals.serverCount = localNetThreadInfo.length := by
    by_contra hne
    rw [processMessage, if_pos hne] at h
    cases h
  rw [Origin.text, processMessage_requestText _ _ _ hcount] at h
  have hclient : Plain (clientAddress q.origin.client) := plain_clientAddress (by omega)
  obtain ⟨op, o, e⟩ := q
  cases op with
  | acquire lock =>
    refine ⟨lock, fun slot hslot => ?_, ?_⟩
    · exact ⟨if_neg fun hboth => hslot hboth.1.symm, rfl⟩
    · simp only [SyncRequest.granted, SyncRequest.sent, true_and, and_true]
      simp only [SyncOp.type, SyncOp.arguments, dispatch, Call.acquire] at h
      have h := Call.oneArgument_eq_ok lock.isLt h
      simp only [Origin.call_t, Origin.call_e] at h
      rcases lt_or_ge t.uniqueGlobalID MAX_NUM_GLOBAL_IDS with ht | ht
      · rw [acquire_own _ _ _ _ _ _ _ lock.isLt ht, if_neg (by omega)] at h
        cases hlock : s.globals.dlocks lock with
        | none =>
          rw [hlock] at h
          cases h
          exact Or.inl ⟨⟨rfl, hs.cvs⟩, rfl⟩
        | some l =>
          rw [hlock] at h
          exact Or.inr (acquireOwn_move h hlock hclient hs.cvs)
      · rw [acquire_refused _ _ _ _ _ _ _ lock.isLt ht] at h
        cases h
        exact Or.inl ⟨⟨rfl, hs.cvs⟩, rfl⟩
  | release lock =>
    refine ⟨lock, fun slot hslot => ⟨rfl, if_neg fun heq => hslot heq.symm⟩, ?_⟩
    simp only [SyncRequest.granted, SyncRequest.sent, if_true, true_and]
    simp only [SyncOp.type, SyncOp.arguments, dispatch, Call.release] at h
    have h := Call.oneArgument_eq_ok lock.isLt h
    simp only [Origin.call_t, Origin.call_e] at h
    rcases lt_or_ge t.uniqueGlobalID MAX_NUM_GLOBAL_IDS with ht | ht
    · rw [release_own _ _ _ _ _ lock.isLt ht] at h
      cases hlock : s.globals.dlocks lock with
      | none =>
        rw [hlock] at h
        cases h
        exact Or.inl ⟨⟨rfl, hs.cvs⟩, rfl⟩
      | some l =>
        rw [hlock] at h
        exact Or.inr (releaseOwn_move h hlock hs.cvs)
    · rw [release_refused _ _ _ _ _ lock.isLt ht] at h
      cases h
      exact Or.inl ⟨⟨rfl, hs.cvs⟩, rfl⟩
  | wait cv lock =>
    refine ⟨lock, fun slot hslot => ⟨rfl, if_neg fun heq => hslot heq.symm⟩, ?_⟩
    simp only [SyncRequest.granted, SyncRequest.sent, if_true, true_and]
    simp only [SyncOp.type, SyncOp.arguments, dispatch, Call.wait] at h
    obtain ⟨args, hread, h⟩ := bind_eq_ok.mp h
    cases Origin.readTwo_eq_ok hread
    have howner : (t.globalId MAX_DLOCK lock).tdiv MAX_DLOCK = t.uniqueGlobalID :=
      t.globalId_tdiv lock.isLt
    simp only [Call.twoArguments, atoi_fmtInt, howner, Origin.call_t, Origin.call_e, ne_eq,
      not_true_eq_false, if_false] at h
    rcases wait_cases lock.isLt cv.isLt h with rfl | ⟨l, v, hlock, hcv, h⟩
    · exact Or.inl ⟨⟨rfl, hs.cvs⟩, rfl⟩
    · exact Or.inr (waitOwn_move h hlock hcv hclient hs.cvs)
  | signal cv lock =>
    refine ⟨lock, fun _ _ => ⟨rfl, rfl⟩, ?_⟩
    simp only [SyncOp.type, SyncOp.arguments] at h
    rw [dispatch, Call.signal] at h
    cases o with
    | user machine box =>
      have hhead : ((Origin.user machine box).body
          (pairText (t.globalId MAX_DCV cv) (t.globalId MAX_DLOCK lock))).head? ≠ some '_' :=
        pairText_head? _ _
      rw [if_pos hhead] at h
      cases h
    | forwarded pktHdr mailHdr client =>
      rw [if_neg (by simp [Origin.body])] at h
      obtain ⟨args, hread, h⟩ := bind_eq_ok.mp h
      -- the client is printed in the text, so that the headers do not matter
      cases Origin.readTwo_eq_ok (o := .forwarded ⟨0, 0⟩ ⟨0, 0⟩ client) (t := t) (e := e) hread
      have howner : (t.globalId MAX_DCV cv).tdiv MAX_DCV = t.uniqueGlobalID := t.globalId_tdiv cv.isLt
      simp only [Call.twoArguments, atoi_fmtInt, howner, Origin.call_t, Origin.call_e, ne_eq,
        not_true_eq_false, if_false] at h
      rcases signal_cases lock.isLt cv.isLt h with rfl | ⟨l, v, hlock, hcv, howner, h⟩
      · exact Or.inl ⟨⟨rfl, hs.cvs⟩, rfl, rfl⟩
      · have hmove := signalOwn_move lock.isLt h hlock hcv (hs.busy hlock howner) hs.cvs
        exact hmove.imp_left fun hstill => ⟨hstill, rfl, rfl⟩
  | broadcast cv lock =>
    refine ⟨lock, fun _ _ => ⟨rfl, rfl⟩, ?_⟩
    simp only [SyncOp.type, SyncOp.arguments, dispatch, Call.broadcast] at h
    obtain ⟨args, hread, h⟩ := bind_eq_ok.mp h
    cases Origin.readTwo_eq_ok hread
    have howner : (t.globalId MAX_DCV cv).tdiv MAX_DCV = t.uniqueGlobalID := t.globalId_tdiv cv.isLt
    simp only [Call.twoArguments, atoi_fmtInt, howner, Origin.call_t, Origin.call_e, ne_eq,
      not_true_eq_false, if_false] at h
    rcases broadcast_cases lock.isLt cv.isLt h with rfl | ⟨l, v, hlock, hcv, howner, h⟩
    · exact Or.inl ⟨⟨rfl, hs.cvs⟩, rfl, rfl⟩
    · have hmove := broadcastOwn_move lock.isLt h hlock hcv (hs.busy hlock howner) hs.cvs
      exact hmove.imp_left fun hstill => ⟨hstill, rfl, rfl⟩

theorem syncStep_inv {localNetThreadInfo : List NetThread} {s' : SyncState} (hs : SyncInv t s)
    (h : syncStep t localNetThreadInfo s q = .ok s') : SyncInv t s' := by
  rw [syncStep] at h
  obtain ⟨r, hr, h⟩ := bind_eq_ok.mp h
  cases h
  obtain ⟨slot₀, hother, hmoved⟩ := syncStep_moved hs hr
  exact hs.step hother hmoved

end

/-- **The representation of the locks**, in every state that a run of requests reaches
    from new objects: whoever asks, the flag, the owner and the queue of each lock fit
    together, and every `Acquire` of the lock is one grant or one queue entry. -/
theorem lock_representation {t : NetThread} {localNetThreadInfo : List NetThread} {g : Globals}
    (ht : t.uniqueGlobalID < MAX_NUM_GLOBAL_IDS) (hnew : NewObjects t g) {requests : List SyncRequest}
    {s : SyncState}
    (hrun : exec (syncStep t localNetThreadInfo) ⟨g, fun _ => .empty⟩ requests = .ok s) {slot : ℕ}
    (hslot : slot < MAX_DLOCK) {lock : DistributedLock} (hlock : s.globals.dlocks slot = some lock) :
    LockOk t lock (s.history slot) ∧
      ∀ heapTail outPktHdr inPktHdr inMailHdr clientNum, ∃ r,
        acquire t heapTail (t.globalId MAX_DLOCK slot) outPktHdr inPktHdr inMailHdr clientNum s.globals =
          .ok r ∧ GrantsOrQueues slot lock
            (if clientNum = -2 then clientOf inPktHdr inMailHdr else clientNum) s.globals r := by
  have hguarded : Guarded (syncStep t localNetThreadInfo) (fun _ _ => True) ⟨g, fun _ => .empty⟩
      requests := Guarded.of_forall (fun _ _ => trivial) _ _
  have hinv := exec_inv (fun _ _ _ h _ => syncStep_inv h) (SyncInv.init hnew) hguarded hrun
  have hl := hinv.locks slot lock hlock
  refine ⟨hl.ok, fun heapTail outPktHdr inPktHdr inMailHdr clientNum => ?_⟩
  rw [acquire_own _ _ _ _ _ _ _ hslot ht, hlock]
  obtain ⟨ack, hack⟩ : ∃ ack, itoa 5 lock.globalId heapTail = .ok ack := by
    rw [hl.globalId]
    refine ⟨_, itoa_globalId t.globalId_nonneg ?_ heapTail⟩
    have hsmall : (slot : ℤ) < 100 := by exact_mod_cast hslot
    have hmax : (MAX_DLOCK : ℤ) = 100 := rfl
    have hids : (MAX_NUM_GLOBAL_IDS : ℤ) = 1000 := rfl
    rw [hids] at ht
    rw [NetThread.globalId, hmax]
    omega
  obtain ⟨r, hr⟩ : ∃ r, acquireOwn t heapTail outPktHdr
      (if clientNum = -2 then clientOf inPktHdr inMailHdr else clientNum) slot lock s.globals = .ok r := by
    simp only [acquireOwn, hack, ok_bind]
    split_ifs <;> exact ⟨_, rfl⟩
  exact ⟨r, hr, (acquireOwn_grantsOrQueues hr).1⟩

/-! ## Example -/

/-- One network thread with one lock and one condition variable. -/
def syncExample : Globals :=
  ((Globals.init 1).setLock 0 (some (.new ['a'] 0))).setCv 0 (some (.new ['b'] 0))

theorem syncExample_newObjects : NewObjects ⟨0, 0⟩ syncExample where
  lock slot lock hlock := by
    simp only [syncExample, Globals.setLock, Globals.setCv, Globals.init, Function.update_apply] at hlock
    split_ifs at hlock with hslot
    cases hlock
    exact ⟨['a'], by rw [hslot]; rfl⟩
  cv slot cv hcv := by
    simp only [syncExample, Globals.setLock, Globals.setCv, Globals.init, Function.update_apply] at hcv
    split_ifs at hcv
    cases hcv
    rfl

/-- A request of client `0`, the user thread of the network thread `(0, 0)`, or one
    forwarded for another client. -/
def syncRequestOf (op : SyncOp) (client : ℕ) : SyncRequest where
  op := op
  origin := if client = 0 then .user 0 0 else .forwarded ⟨0, 1⟩ ⟨0, 1⟩ client
  e := .clear ⟨0, 0⟩

/-- Clients 100 and 200 queue for the lock; client 0 waits on the condition variable and
    client 100 releases the lock. -/
def syncExampleRun : List SyncRequest :=
  [syncRequestOf (.acquire 0) 0, syncRequestOf (.acquire 0) 100, syncRequestOf (.acquire 0) 200,
    syncRequestOf (.wait 0 0) 0, syncRequestOf (.release 0) 100]

/-- Then client 200 has the lock. -/
theorem lock_representation_handedOn : ∃ s lock,
    exec (syncStep ⟨0, 0⟩ [⟨0, 0⟩]) ⟨syncExample, fun _ => .empty⟩ syncExampleRun = .ok s ∧
      s.globals.dlocks 0 = some lock ∧ lock.owner = (2, 0) ∧
      (s.history 0).granted = [(0, 0), (1, 0), (2, 0)] ∧ LockOk ⟨0, 0⟩ lock (s.history 0) := by
  obtain ⟨s, hrun, howner, hgranted⟩ : Ends (syncStep ⟨0, 0⟩ [⟨0, 0⟩]) ⟨syncExample, fun _ => .empty⟩
      syncExampleRun fun s => (s.globals.dlocks 0).map DistributedLock.owner = some (2, 0) ∧
        (s.history 0).granted = [(0, 0), (1, 0), (2, 0)] := by decide +kernel
  obtain ⟨lock, hlock, howner⟩ := Option.map_eq_some_iff.mp howner
  exact ⟨s, lock, hrun, hlock, howner, hgranted,
    (lock_representation (by decide) syncExample_newObjects hrun (by decide) hlock).1⟩

end Nachos.Network
