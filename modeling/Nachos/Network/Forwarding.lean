import Nachos.Network.ConditionVariables

/-!
# Forwarded requests

A network thread forwards a request for an object of another thread. The ten
forwarding branches compute the machine of the owner as `id / MAX_…`, which is the
owner's `uniqueGlobalID` and not its machine id, and the mailbox in three
different ways; `WAIT` goes out as a `SIGNAL`, and `SIGNAL` is not accepted from a
client at all.

* `forwarding_transparent_iff`: for which requests, owners and clients the detour
  makes no difference.
* `acquire_not_forwarded`: an `ACQUIRE` that reaches neither the machine nor the
  mailbox of the owner.
-/

namespace Nachos.Network

open Nachos.Lib

/-! ## Requests -/

/-- The request types with a forwarding branch. -/
inductive ForwardKind
  | acquire | release | destroyLock | setMv | getMv | destroyMv | wait | signal | broadcast | destroyCv
  deriving DecidableEq, Repr

/-- The global id of an object of some thread. -/
def Created (max : ℕ) (id : ℤ) : Prop :=
  ∃ (t : NetThread) (slot : ℕ), t.uniqueGlobalID < (MAX_NUM_GLOBAL_IDS : ℤ) ∧ slot < max ∧
    id = t.globalId max slot

namespace ForwardKind

/-- The request type a client sends. -/
def type : ForwardKind → RequestType
  | acquire => .acquire
  | release => .release
  | destroyLock => .destroyLock
  | setMv => .setMv
  | getMv => .getMv
  | destroyMv => .destroyMv
  | wait => .wait
  | signal => .signal
  | broadcast => .broadcast
  | destroyCv => .destroyCv

/-- The table size by which the owner is found. -/
def max : ForwardKind → ℕ
  | acquire | release | destroyLock | wait => MAX_DLOCK
  | setMv | getMv | destroyMv => MAX_DMV
  | signal | broadcast | destroyCv => MAX_DCV

/-- The text of the arguments: the id that decides who the owner is, and the other
    argument of a request with two. -/
def arguments (k : ForwardKind) (id other : ℤ) : Text :=
  match k with
  | wait => pairText other id
  | setMv | signal | broadcast => pairText id other
  | _ => fmtInt id

/-- What the other argument is: a condition variable, a lock, or any value. -/
def Proper (k : ForwardKind) (other : ℤ) : Prop :=
  match k with
  | wait => Created MAX_DCV other
  | signal | broadcast => Created MAX_DLOCK other
  | _ => True

/-- The type that the forwarding branch prints. -/
def sent : ForwardKind → RequestType
  | wait => .signal
  | k => k.type

/-- The box that the forwarding branch addresses. -/
def box (k : ForwardKind) (f : NetThread) (e : Ambient) (machine : ℤ) : ℤ :=
  match k with
  | acquire => f.mailID + 1
  | destroyLock | wait | broadcast | destroyCv => machine
  | release | setMv | getMv | destroyMv | signal => e.outMailHdr.toBox + 1

end ForwardKind

/-- The user thread of `f`, as the origin of a request. -/
def NetThread.user (f : NetThread) : Origin := .user f.machineID f.mailID

theorem NetThread.user_client (f : NetThread) : (f.user.client : ℤ) = f.uniqueGlobalID := by
  simp only [NetThread.user, Origin.client, uniqueGlobalID]
  push_cast
  ring

@[simp] theorem NetThread.user_call_client (f t : NetThread) (e : Ambient) :
    (f.user.call t e).client = f.uniqueGlobalID := by
  rw [← f.user_client]
  simp only [user, Origin.call_client_user, Origin.client]
  push_cast
  rfl

/-- **Transparency** of forwarding, for a request of the user thread of `f` about the
    object of `o` in `slot`: `f` emits one message, to `o`, and that message does
    at `o` what the request would have done there. -/
def Transparent (k : ForwardKind) (f o : NetThread) (slot : ℕ) (other : ℤ) : Prop :=
  ∀ (e : Ambient) (group : List NetThread) (g : Globals), g.serverCount = group.length →
    ∃ r msg, processMessage (f.user.call f e)
        (f.user.text k.type (k.arguments (o.globalId k.max slot) other)) group g = .ok r ∧
      r.out = [msg] ∧ msg.dest = o.address ∧
      ∀ (e' : Ambient) (group' : List NetThread) (g' : Globals), g'.serverCount = group'.length →
        processMessage ⟨o, e', msg.pktHdr, msg.mailHdr⟩ msg.data group' g' =
          processMessage (f.user.call o e')
            (f.user.text k.type (k.arguments (o.globalId k.max slot) other)) group' g'

/-! ## What a forwarding branch emits -/

theorem Call.forward_eq_ok {c : Call} {type : RequestType} {machine box clientNum : ℤ}
    {arguments : Text} {g : Globals} {r : Result}
    (h : c.forward type machine box clientNum arguments g = .ok r) :
    r.out = [outgoing c.t { c.e.outPktHdr with toMachine := machine }
      { toBox := box, fromBox := c.inMailHdr.fromBox } (forwardText type clientNum arguments)] := by
  rw [forward, bind_eq_ok] at h
  obtain ⟨buffer, hbuffer, h⟩ := h
  rw [sprintf] at hbuffer
  split_ifs at hbuffer
  cases hbuffer
  cases h
  rfl

theorem Call.forward_eq {c : Call} {type : RequestType} {machine box clientNum : ℤ}
    {arguments : Text} {g : Globals}
    (h : (forwardText type clientNum arguments).length < MaxMailSize) :
    c.forward type machine box clientNum arguments g =
      .ok ⟨g, [outgoing c.t { c.e.outPktHdr with toMachine := machine }
        { toBox := box, fromBox := c.inMailHdr.fromBox } (forwardText type clientNum arguments)],
        true⟩ := by
  rw [forward, sprintf_eq h]
  rfl

section

variable {f o : NetThread} {e : Ambient} {slot : ℕ} {g : Globals} {r : Result}

/-- A request with one argument that is not for `f`. -/
theorem Call.oneArgument_other_eq {type : RequestType} {max : ℕ} {box : ℤ → ℤ}
    {handle : ℤ → ℤ → Globals → Except Fault Result} (hslot : slot < max)
    (hne : f.uniqueGlobalID ≠ o.uniqueGlobalID)
    (hid : (fmtInt (o.globalId max slot)).length < MaxMailSize) :
    (f.user.call f e).oneArgument type max box handle (fmtInt (o.globalId max slot)) g =
      (f.user.call f e).forward type o.uniqueGlobalID (box o.uniqueGlobalID) f.uniqueGlobalID
        (fmtInt (o.globalId max slot)) g := by
  rw [oneArgument, readOne_direct _ hid (fmtInt_ne_nil _) (fmtInt_head? _)]
  simp only [ok_bind, atoi_fmtInt, o.globalId_tdiv hslot, Origin.call_t, ne_eq, Ne.symm hne,
    not_false_eq_true, if_true, NetThread.user_call_client]

/-- A request with two arguments that is not for `f`. -/
theorem Call.twoArguments_other_eq {type : RequestType} {machine : ℤ → ℤ → ℤ} {box : ℤ → ℤ}
    {handle : ℤ → ℤ → ℤ → Globals → Except Fault Result} {size : ℕ} {tail : Text} {a b : ℤ}
    (hne : f.uniqueGlobalID ≠ o.uniqueGlobalID) (ha : (fmtInt a).length < MaxMailSize)
    (hb : (fmtInt b).length < MaxMailSize) (hmachine : machine a b = o.uniqueGlobalID) :
    (do
      let args ← readTwo size tail (f.user.call f e).client (pairText a b)
      (f.user.call f e).twoArguments type machine box handle args g) =
      (f.user.call f e).forward type o.uniqueGlobalID (box o.uniqueGlobalID) f.uniqueGlobalID
        (pairText a b) g := by
  rw [readTwo_direct, readPair_pairText, if_pos ⟨ha, hb⟩]
  simp only [ok_bind, twoArguments, atoi_fmtInt, hmachine, Origin.call_t, ne_eq, Ne.symm hne,
    not_false_eq_true, if_true, NetThread.user_call_client, pairText]

theorem Call.oneArgument_other {type : RequestType} {max : ℕ} {box : ℤ → ℤ}
    {handle : ℤ → ℤ → Globals → Except Fault Result} (hslot : slot < max)
    (hne : f.uniqueGlobalID ≠ o.uniqueGlobalID)
    (h : (f.user.call f e).oneArgument type max box handle (fmtInt (o.globalId max slot)) g = .ok r) :
    (f.user.call f e).forward type o.uniqueGlobalID (box o.uniqueGlobalID) f.uniqueGlobalID
      (fmtInt (o.globalId max slot)) g = .ok r := by
  by_cases hid : (fmtInt (o.globalId max slot)).length < MaxMailSize
  · rwa [oneArgument_other_eq hslot hne hid] at h
  · rw [oneArgument, readOne_direct_eq _ (fmtInt_ne_nil _) (fmtInt_head? _), if_neg hid] at h
    cases h

theorem Call.twoArguments_other {type : RequestType} {machine : ℤ → ℤ → ℤ} {box : ℤ → ℤ}
    {handle : ℤ → ℤ → ℤ → Globals → Except Fault Result} {size : ℕ} {tail : Text} {a b : ℤ}
    (hne : f.uniqueGlobalID ≠ o.uniqueGlobalID)
    (h : (do
      let args ← readTwo size tail (f.user.call f e).client (pairText a b)
      (f.user.call f e).twoArguments type machine box handle args g) = .ok r)
    (hmachine : machine a b = o.uniqueGlobalID) :
    (f.user.call f e).forward type o.uniqueGlobalID (box o.uniqueGlobalID) f.uniqueGlobalID
      (pairText a b) g = .ok r := by
  by_cases hab : (fmtInt a).length < MaxMailSize ∧ (fmtInt b).length < MaxMailSize
  · rwa [twoArguments_other_eq hne hab.1 hab.2 hmachine] at h
  · rw [readTwo_direct, readPair_pairText, if_neg hab] at h
    cases h

/-- **What `f` emits**: the machine is the `uniqueGlobalID` of the owner. -/
theorem ForwardKind.emits {k : ForwardKind} (other : ℤ) {group : List NetThread}
    (hk : k ≠ .signal) (hslot : slot < k.max) (hne : f.uniqueGlobalID ≠ o.uniqueGlobalID)
    (h : dispatch (f.user.call f e) group k.type (k.arguments (o.globalId k.max slot) other) g =
      .ok r) :
    r.out = [outgoing f { e.outPktHdr with toMachine := o.uniqueGlobalID }
      { toBox := k.box f e o.uniqueGlobalID, fromBox := f.mailID + 1 }
      (forwardText k.sent f.uniqueGlobalID (k.arguments (o.globalId k.max slot) other))] := by
  have htdiv := o.globalId_tdiv hslot
  cases k with
  | signal => exact absurd rfl hk
  | acquire | release | destroyLock | getMv | destroyMv | destroyCv =>
    simp only [type, dispatch, Call.acquire, Call.release, Call.destroyLock, Call.getMV,
      Call.destroyMV, Call.destroyCV, arguments] at h
    exact Call.forward_eq_ok (Call.oneArgument_other hslot hne h)
  | setMv | broadcast | wait =>
    simp only [type, dispatch, Call.setMV, Call.broadcast, Call.wait, arguments] at h
    exact Call.forward_eq_ok (Call.twoArguments_other hne h htdiv)

/-! ## The detour without a difference -/

/-- `client[5]` holds four digits and the NUL. -/
theorem client_fits_iff (f : NetThread) :
    (fmtInt f.uniqueGlobalID).length < 5 ↔ f.uniqueGlobalID < 10000 := by
  have := length_fmtInt_le_iff (k := 4) (by norm_num) f.uniqueGlobalID_nonneg
  norm_num at this
  rw [← this]
  omega

/-- A request with one argument is read alike with and without the prefix. -/
theorem Call.oneArgument_prefix {c : Call} {type : RequestType} {max : ℕ} {box : ℤ → ℤ}
    {handle : ℤ → ℤ → Globals → Except Fault Result} {id : ℤ}
    (hc : (fmtInt c.client).length < 5) (hid : (fmtInt id).length < MaxMailSize) :
    c.oneArgument type max box handle ('_' :: fmtInt c.client ++ '_' :: fmtInt id) g =
      c.oneArgument type max box handle (fmtInt id) g := by
  rw [oneArgument, readOne_forwarded _ hc hid, oneArgument,
    readOne_direct _ hid (fmtInt_ne_nil _) (fmtInt_head? _)]

theorem Call.broadcast_prefix {c : Call} {a b : ℤ} (hc : (fmtInt c.client).length < 5) :
    c.broadcast ('_' :: fmtInt c.client ++ '_' :: pairText a b) g = c.broadcast (pairText a b) g := by
  rw [broadcast, readTwo_forwarded hc, broadcast, readTwo_direct]

/-- The kinds whose forwarding branch addresses the box with the number of the machine
    and leaves the type alone. -/
def ForwardKind.Plain (k : ForwardKind) : Prop := k = destroyLock ∨ k = broadcast ∨ k = destroyCv

instance (k : ForwardKind) : Decidable k.Plain := inferInstanceAs (Decidable (_ ∨ _ ∨ _))

theorem ForwardKind.dispatch_prefix {k : ForwardKind} (hk : k.Plain) {c : Call} {id : ℤ} (other : ℤ)
    (group : List NetThread) (hc : (fmtInt c.client).length < 5)
    (hid : (fmtInt id).length < MaxMailSize) :
    dispatch c group k.type ('_' :: fmtInt c.client ++ '_' :: k.arguments id other) g =
      dispatch c group k.type (k.arguments id other) g := by
  rcases hk with rfl | rfl | rfl
  · simp only [type, dispatch, Call.destroyLock, arguments]
    exact Call.oneArgument_prefix hc hid
  · exact Call.broadcast_prefix hc
  · simp only [type, dispatch, Call.destroyCV, arguments]
    exact Call.oneArgument_prefix hc hid

theorem Created.bounds {max : ℕ} {id : ℤ} (h : Created max id) :
    0 ≤ id ∧ id < MAX_NUM_GLOBAL_IDS * max := by
  obtain ⟨t, slot, ht, hslot, rfl⟩ := h
  have := mt (t.globalId_refused_iff hslot).mp (by omega)
  omega

/-- The arguments of a request for the thread with id 0 are short. -/
theorem ForwardKind.length_arguments_le {k : ForwardKind} (hk : k.Plain) {other : ℤ}
    (hslot : slot < k.max) (hother : k.Proper other) :
    (k.arguments ((⟨0, 0⟩ : NetThread).globalId k.max slot) other).length ≤ 8 := by
  have hid : (⟨0, 0⟩ : NetThread).globalId k.max slot = slot := by
    simp [NetThread.globalId, NetThread.uniqueGlobalID]
  have hmax : k.max = 100 := by rcases hk with rfl | rfl | rfl <;> rfl
  have hlen : (fmtInt (slot : ℤ)).length ≤ 2 :=
    length_fmtInt_le_of_nonneg (by norm_num) (by omega) (by norm_num; omega)
  rw [hid]
  rcases hk with rfl | rfl | rfl
  · exact hlen.trans (by norm_num)
  · have hbounds := Created.bounds hother
    have := length_fmtInt_le_of_nonneg (k := 5) (by norm_num) hbounds.1
      (hbounds.2.trans_le (by norm_num))
    simp only [arguments, pairText, List.length_append, List.length_cons]
    omega
  · exact hlen.trans (by norm_num)

/-- `f` emits its message. -/
theorem ForwardKind.emits_plain {k : ForwardKind} (hk : k.Plain) {other : ℤ} (group : List NetThread)
    (hslot : slot < k.max) (hother : k.Proper other) (hf : f.uniqueGlobalID < 10000)
    (hne : f.uniqueGlobalID ≠ (⟨0, 0⟩ : NetThread).uniqueGlobalID) :
    ∃ r, dispatch (f.user.call f e) group k.type
      (k.arguments ((⟨0, 0⟩ : NetThread).globalId k.max slot) other) g = .ok r := by
  have hlen := length_arguments_le hk hslot hother
  have hc := (client_fits_iff f).mpr hf
  have hcode : (fmtInt k.type.code).length ≤ 2 :=
    length_fmtInt_le_of_nonneg (by norm_num) k.type.code_bounds.1
      (by have := k.type.code_bounds.2; omega)
  have hsprintf : (forwardText k.type f.uniqueGlobalID
      (k.arguments ((⟨0, 0⟩ : NetThread).globalId k.max slot) other)).length < MaxMailSize := by
    simp only [forwardText, requestText, List.length_append, List.length_cons]
    show _ < 32
    omega
  have hid : (fmtInt ((⟨0, 0⟩ : NetThread).globalId k.max slot)).length < MaxMailSize := by
    show _ < 32
    rcases hk with rfl | rfl | rfl
    · exact hlen.trans_lt (by norm_num)
    · simp only [arguments, pairText, List.length_append] at hlen
      omega
    · exact hlen.trans_lt (by norm_num)
  rcases hk with rfl | rfl | rfl
  · simp only [type, dispatch, Call.destroyLock, arguments] at hsprintf ⊢
    exact ⟨_, (Call.oneArgument_other_eq hslot hne hid).trans (Call.forward_eq hsprintf)⟩
  · simp only [type, dispatch, Call.broadcast, arguments] at hsprintf hlen ⊢
    simp only [pairText, List.length_append, List.length_cons] at hlen
    refine ⟨_, (Call.twoArguments_other_eq hne hid ?_ ?_).trans (Call.forward_eq hsprintf)⟩
    · show _ < 32
      omega
    · exact (⟨0, 0⟩ : NetThread).globalId_tdiv hslot
  · simp only [type, dispatch, Call.destroyCV, arguments] at hsprintf ⊢
    exact ⟨_, (Call.oneArgument_other_eq hslot hne hid).trans (Call.forward_eq hsprintf)⟩

theorem transparent_of_plain {k : ForwardKind} (hk : k.Plain) {other : ℤ} (hslot : slot < k.max)
    (hother : k.Proper other) (hf : f.uniqueGlobalID < 10000)
    (hne : f.uniqueGlobalID ≠ (⟨0, 0⟩ : NetThread).uniqueGlobalID) :
    Transparent k f ⟨0, 0⟩ slot other := by
  intro e group g hg
  have hsignal : k ≠ .signal := by rcases hk with rfl | rfl | rfl <;> decide
  obtain ⟨r, hr⟩ := ForwardKind.emits_plain (e := e) (g := g) hk group hslot hother hf hne
  have hbox : k.box f e (⟨0, 0⟩ : NetThread).uniqueGlobalID = 0 := by rcases hk with rfl | rfl | rfl <;> rfl
  have hsent : k.sent = k.type := by rcases hk with rfl | rfl | rfl <;> rfl
  refine ⟨r, _, (processMessage_requestText _ _ _ hg).trans hr, ForwardKind.emits other hsignal hslot hne hr,
    ?_, fun e' group' g' hg' => ?_⟩
  · rw [outgoing_dest, hbox]
    rfl
  · -- the headers of the message are those of the request at the owner
    have hcall : (⟨⟨0, 0⟩, e', ⟨(⟨0, 0⟩ : NetThread).uniqueGlobalID, f.machineID⟩,
        ⟨k.box f e (⟨0, 0⟩ : NetThread).uniqueGlobalID, f.mailID + 1⟩⟩ : Call) =
        f.user.call ⟨0, 0⟩ e' := by rw [hbox]; rfl
    have hlen := ForwardKind.length_arguments_le hk hslot hother
    have hid : (fmtInt ((⟨0, 0⟩ : NetThread).globalId k.max slot)).length < MaxMailSize := by
      show _ < 32
      rcases hk with rfl | rfl | rfl
      · exact hlen.trans_lt (by norm_num)
      · simp only [ForwardKind.arguments, pairText, List.length_append] at hlen
        omega
      · exact hlen.trans_lt (by norm_num)
    have hprefix := ForwardKind.dispatch_prefix (g := g') hk (c := f.user.call ⟨0, 0⟩ e') other
      group' (by simpa using (client_fits_iff f).mpr hf) hid
    rw [NetThread.user_call_client] at hprefix
    simp only [outgoing, Origin.text, hcall, hsent, forwardText]
    rw [processMessage_requestText _ _ _ hg', processMessage_requestText _ _ _ hg', hprefix]
    rfl

/-! ## The detour with a difference -/

theorem NetThread.eq_zero_of_uniqueGlobalID (h : o.uniqueGlobalID = o.machineID) : o = ⟨0, 0⟩ := by
  obtain ⟨m, b⟩ := o
  simp only [uniqueGlobalID, NetThread.mk.injEq] at *
  omega

/-- A client does not get a `SIGNAL` past the assertion. -/
theorem signal_refused {c : Call} {group : List NetThread} {id other : ℤ} :
    dispatch c group ForwardKind.signal.type (ForwardKind.signal.arguments id other) g =
      .error .assertion := by
  have hhead : (pairText id other).head? ≠ some '_' := by
    rw [pairText, List.head?_append_of_ne_nil _ (fmtInt_ne_nil id)]
    exact fmtInt_head? id
  simp only [ForwardKind.type, dispatch, Call.signal, ForwardKind.arguments]
  exact if_pos hhead

/-- A client number of more than four digits overflows the array of the owner. -/
theorem ForwardKind.dispatch_long {k : ForwardKind} (hk : k.Plain) {c : Call} {client : ℤ}
    {group : List NetThread} {args : Text} (hc : ¬ (fmtInt client).length < 5) :
    dispatch c group k.type ('_' :: fmtInt client ++ '_' :: args) g = .error .outOfBounds := by
  have hread : readField 5 (fmtInt client ++ '_' :: args) = .error .outOfBounds := by
    rw [readField, field_append (underscore_not_mem_fmtInt _)]
    exact if_neg hc
  rcases hk with rfl | rfl | rfl <;>
    simp only [type, dispatch, Call.destroyLock, Call.destroyCV, Call.broadcast, Call.oneArgument,
      readOne, readTwo, List.cons_append, hread, error_bind]

/-- Without objects the owner refuses the request itself. -/
theorem ForwardKind.dispatch_init {k : ForwardKind} (hk : k.Plain) {other : ℤ}
    {group : List NetThread} (hslot : slot < k.max) (hother : k.Proper other) :
    dispatch (f.user.call ⟨0, 0⟩ e) group k.type
        (k.arguments ((⟨0, 0⟩ : NetThread).globalId k.max slot) other) (.init 1) =
      .ok (.failed (.init 1)) := by
  have hlen := length_arguments_le hk hslot hother
  have hid : (⟨0, 0⟩ : NetThread).globalId k.max slot = slot := by
    simp [NetThread.globalId, NetThread.uniqueGlobalID]
  have hmax : k.max = 100 := by rcases hk with rfl | rfl | rfl <;> rfl
  have hdiv : (slot : ℤ).tdiv 100 = 0 := by
    rw [Int.tdiv_eq_ediv_of_nonneg (by omega)]; omega
  have hzero : (⟨0, 0⟩ : NetThread).uniqueGlobalID = 0 := rfl
  rw [hid] at hlen ⊢
  rcases hk with rfl | rfl | rfl
  · simp only [type, dispatch, Call.destroyLock, arguments, Call.oneArgument] at hlen ⊢
    rw [readOne_direct _ (hlen.trans_lt (by norm_num)) (fmtInt_ne_nil _) (fmtInt_head? _)]
    simp only [ok_bind, atoi_fmtInt, Origin.call_t, Nat.cast_ofNat, hdiv, hzero, ne_eq,
      not_true_eq_false, if_false, Network.destroyLock]
    split_ifs <;> rfl
  · have hlock : other.tdiv 100 = 0 ∨ 100 ≤ other := by
      have := (Created.bounds hother).1
      rw [Int.tdiv_eq_ediv_of_nonneg this]; omega
    simp only [arguments, pairText, List.length_append, List.length_cons] at hlen
    simp only [type, dispatch, Call.broadcast, arguments, readTwo_direct, readPair_pairText]
    rw [if_pos ⟨by show _ < 32; omega, by show _ < 32; omega⟩]
    simp only [ok_bind, Call.twoArguments, atoi_fmtInt, Origin.call_t, Nat.cast_ofNat, hdiv, hzero,
      ne_eq, not_true_eq_false, if_false, Network.broadcast]
    rcases hlock with hlock | hlock
    · simp only [hlock, and_self, if_true]
      split_ifs <;> rfl
    · rw [if_pos (Or.inr (by show other > 100 - 1; omega))]
  · simp only [type, dispatch, Call.destroyCV, arguments, Call.oneArgument] at hlen ⊢
    rw [readOne_direct _ (hlen.trans_lt (by norm_num)) (fmtInt_ne_nil _) (fmtInt_head? _)]
    simp only [ok_bind, atoi_fmtInt, Origin.call_t, Nat.cast_ofNat, hdiv, hzero, ne_eq,
      not_true_eq_false, if_false, Call.deleteCV]
    split_ifs <;> rfl

/-- A lock that client 5 holds and a new condition variable. -/
def waitExample (slot cvSlot : ℕ) : Globals :=
  ((Globals.init 1).setLock slot (some ((DistributedLock.new [] 0).give (0, 5)))).setCv cvSlot
    (some (.new [] 0))

/-- A `WAIT` that arrives as a `SIGNAL` is not a `WAIT`. -/
theorem wait_ne_signal {other : ℤ} (hslot : slot < MAX_DLOCK) (hother : Created MAX_DCV other) :
    ∃ g' : Globals, g'.serverCount = 1 ∧
      dispatch (f.user.call ⟨0, 0⟩ e) [⟨0, 0⟩] .signal
          ('_' :: fmtInt f.uniqueGlobalID ++ '_' :: pairText other slot) g' ≠
        dispatch (f.user.call ⟨0, 0⟩ e) [⟨0, 0⟩] .wait (pairText other slot) g' := by
  have hbounds := hother.bounds
  obtain ⟨o', cvSlot, ho', hcvSlot, rfl⟩ := hother
  have hid : (slot : ℤ) = (⟨0, 0⟩ : NetThread).globalId MAX_DLOCK slot := by
    simp [NetThread.globalId, NetThread.uniqueGlobalID]
  have hlen1 := length_fmtInt_le_of_nonneg (k := 5) (by norm_num) hbounds.1
    (hbounds.2.trans_le (by norm_num))
  have hlen2 := length_fmtInt_le_of_nonneg (n := slot) (k := 2) (by norm_num) (by omega)
    (by norm_num; have : slot < 100 := hslot; omega)
  -- the request at the owner, and the forwarded one if it is read at all
  have hwait (g' : Globals) : dispatch (f.user.call ⟨0, 0⟩ e) [⟨0, 0⟩] .wait
      (pairText (o'.globalId MAX_DCV cvSlot) slot) g' =
      wait ⟨0, 0⟩ e (o'.globalId MAX_DCV cvSlot) slot e.outPktHdr
        (f.user.call ⟨0, 0⟩ e).inMailHdr f.uniqueGlobalID g' := by
    have hmachine : (slot : ℤ).tdiv MAX_DLOCK = (⟨0, 0⟩ : NetThread).uniqueGlobalID := by
      rw [hid]; exact (⟨0, 0⟩ : NetThread).globalId_tdiv hslot
    simp only [dispatch, Call.wait, readTwo_direct, readPair_pairText]
    rw [if_pos ⟨hlen1.trans_lt (by norm_num), hlen2.trans_lt (by norm_num)⟩]
    simp only [ok_bind, Call.twoArguments, atoi_fmtInt, hmachine, Origin.call_t, Origin.call_e,
      ne_eq, not_true_eq_false, if_false, NetThread.user_call_client]
  have hsignal (g' : Globals) {r : Result} (h : dispatch (f.user.call ⟨0, 0⟩ e) [⟨0, 0⟩] .signal
      ('_' :: fmtInt f.uniqueGlobalID ++ '_' :: pairText (o'.globalId MAX_DCV cvSlot) slot) g' =
      .ok r) : (f.user.call ⟨0, 0⟩ e).twoArguments .signal (fun cv _ => cv.tdiv MAX_DCV)
        (f.user.call ⟨0, 0⟩ e).unsetBox (signal ⟨0, 0⟩ e · · e.outPktHdr
          (f.user.call ⟨0, 0⟩ e).inMailHdr ·)
        (f.uniqueGlobalID, fmtInt (o'.globalId MAX_DCV cvSlot), fmtInt slot) g' = .ok r := by
    by_cases hc : (fmtInt f.uniqueGlobalID).length < 5
    · rw [dispatch, Call.signal, if_neg (by simp), readTwo_forwarded hc, readPair_pairText,
        if_pos ⟨hlen1.trans_lt (by norm_num), hlen2.trans_lt (by norm_num)⟩] at h
      simpa using h
    · simp [dispatch, Call.signal, readTwo, readField, field_append, if_neg hc] at h
  have hcvDiv := o'.globalId_tdiv hcvSlot
  by_cases hzero : o'.uniqueGlobalID = 0
  · -- both objects are here: a `WAIT` queues the client, a `SIGNAL` does not
    refine ⟨waitExample slot cvSlot, rfl, fun heq => ?_⟩
    have hcvId : o'.globalId MAX_DCV cvSlot = (⟨0, 0⟩ : NetThread).globalId MAX_DCV cvSlot := by
      rw [NetThread.globalId, hzero]; rfl
    have hlock : (waitExample slot cvSlot).dlocks slot = some ((DistributedLock.new [] 0).give (0, 5)) := by
      simp [waitExample]
    have hcv : (waitExample slot cvSlot).cvs cvSlot = some (.new [] 0) := by simp [waitExample]
    obtain ⟨c, hc⟩ : ∃ c : ℕ, f.uniqueGlobalID = c := ⟨f.uniqueGlobalID.toNat, by
      have := f.uniqueGlobalID_nonneg; omega⟩
    have hsmall {max s : ℕ} (hs : s < max) :
        (⟨0, 0⟩ : NetThread).globalId max s ≤ MAX_NUM_GLOBAL_IDS * ((max : ℤ) - 1) := by
      simp only [NetThread.globalId, NetThread.uniqueGlobalID]
      push_cast
      omega
    obtain ⟨r, hr, hkeeps⟩ := wait_keeps (t := ⟨0, 0⟩) hslot hcvSlot hlock hcv (by decide)
      (hsmall hslot) (hsmall hcvSlot) e e.outPktHdr (f.user.call ⟨0, 0⟩ e).inMailHdr c
    rw [← hid, ← hcvId, ← hc] at hr
    rw [hwait, hr] at heq
    obtain ⟨r', hr', hkeeps'⟩ := (signal_keeps_iff (t := ⟨0, 0⟩) hslot hcvSlot hlock hcv (by decide)
      rfl e e.outPktHdr (f.user.call ⟨0, 0⟩ e).inMailHdr f.uniqueGlobalID).mpr rfl
    have hsig := hsignal _ heq
    simp only [Call.twoArguments, atoi_fmtInt, hcvDiv, hzero, Origin.call_t] at hsig
    rw [← hid, ← hcvId] at hr'
    cases hr'.symm.trans (hsig : signal _ _ _ _ _ _ _ _ = .ok r)
    have hm := hkeeps.monitor.symm.trans hkeeps'.monitor
    rw [monitorOf_eq_some hlock hcv] at hm
    simp [Monitor.wait, Monitor.signal, DistributedCV.new] at hm
  · -- the condition variable is elsewhere: the `SIGNAL` is forwarded
    refine ⟨.init 1, rfl, fun heq => ?_⟩
    have hfail : wait ⟨0, 0⟩ e (o'.globalId MAX_DCV cvSlot) slot e.outPktHdr
        (f.user.call ⟨0, 0⟩ e).inMailHdr f.uniqueGlobalID (.init 1) = .ok (.failed (.init 1)) := by
      have hdiv : (slot : ℤ).tdiv MAX_DLOCK = (⟨0, 0⟩ : NetThread).uniqueGlobalID := by
        rw [hid]; exact (⟨0, 0⟩ : NetThread).globalId_tdiv hslot
      rw [wait]
      split_ifs <;> rfl
    rw [hwait, hfail] at heq
    have hsig := hsignal _ heq
    simp only [Call.twoArguments, atoi_fmtInt, hcvDiv, Origin.call_t] at hsig
    rw [if_pos (show o'.uniqueGlobalID ≠ (⟨0, 0⟩ : NetThread).uniqueGlobalID from hzero)] at hsig
    exact absurd (Call.forward_eq_ok hsig) (by simp [Result.failed])

/-- **Forwarding is transparent** exactly for `DESTROYLOCK`, `BROADCAST` and
    `DESTROYCV`, to the first network thread of machine 0, for a client whose number
    has at most four digits. -/
theorem forwarding_transparent_iff {k : ForwardKind} {other : ℤ} (hslot : slot < k.max)
    (hother : k.Proper other) (hne : f.uniqueGlobalID ≠ o.uniqueGlobalID) :
    Transparent k f o slot other ↔
      (k = .destroyLock ∨ k = .broadcast ∨ k = .destroyCv) ∧ o = ⟨0, 0⟩ ∧
        f.uniqueGlobalID < 10000 := by
  constructor
  · intro h
    obtain ⟨r, msg, hr, hout, hdest, hsame⟩ := h (.clear ⟨0, 0⟩) [f] (.init 1) rfl
    rw [Origin.text, processMessage_requestText _ _ _ rfl] at hr
    have hk : k ≠ .signal := by
      rintro rfl
      cases signal_refused.symm.trans hr
    cases (List.cons.inj (hout.symm.trans (ForwardKind.emits other hk hslot hne hr))).1
    rw [outgoing_dest, NetThread.address, Prod.mk.injEq] at hdest
    obtain rfl := NetThread.eq_zero_of_uniqueGlobalID hdest.1
    have hbox := hdest.2
    have hplain : k.Plain ∨ k = .wait := by
      cases k with
      | signal => exact absurd rfl hk
      | destroyLock | broadcast | destroyCv => exact Or.inl (by decide)
      | wait => exact Or.inr rfl
      | acquire =>
        simp only [ForwardKind.box] at hbox
        omega
      | release | setMv | getMv | destroyMv =>
        simp only [ForwardKind.box, Ambient.clear] at hbox
        omega
    have hsame := hsame (.clear ⟨0, 0⟩) [⟨0, 0⟩]
    simp only [outgoing, forwardText] at hsame
    rcases hplain with hplain | rfl
    · refine ⟨hplain, rfl, ?_⟩
      by_contra hf
      have heq := hsame (.init 1) rfl
      have hsent : k.sent = k.type := by rcases hplain with rfl | rfl | rfl <;> rfl
      rw [processMessage_requestText _ _ _ rfl, hsent, ForwardKind.dispatch_long hplain
        (mt (client_fits_iff f).mp hf), Origin.text, processMessage_requestText _ _ _ rfl] at heq
      cases heq.trans (ForwardKind.dispatch_init hplain hslot hother)
    · exfalso
      obtain ⟨g', hg', hwait⟩ := wait_ne_signal (f := f) (e := .clear ⟨0, 0⟩) hslot hother
      have heq := hsame g' hg'
      rw [processMessage_requestText _ _ _ hg', Origin.text, processMessage_requestText _ _ _ hg'] at heq
      have hid : (⟨0, 0⟩ : NetThread).globalId ForwardKind.wait.max slot = slot := by
        simp [NetThread.globalId, NetThread.uniqueGlobalID]
      simp only [ForwardKind.arguments, hid] at heq
      exact hwait heq
  · rintro ⟨hk, rfl, hf⟩
    exact transparent_of_plain hk hslot hother hf hne

end

/-! ## Two requests -/

/-- A `DESTROYLOCK` from machine 1 for a lock of the thread `(0, 0)`. -/
theorem destroyLock_forwarded : Transparent .destroyLock ⟨1, 0⟩ ⟨0, 0⟩ 3 0 :=
  (forwarding_transparent_iff (k := .destroyLock) (by decide) trivial (by decide)).mpr
    ⟨Or.inl rfl, rfl, by decide⟩

/-- **An `ACQUIRE` that does not arrive**: from the user of `(2, 0)` for lock 10000 of
    `(1, 0)` it goes to machine 100, mailbox 1. -/
theorem acquire_not_forwarded :
    (∃ r, processMessage ((⟨2, 0⟩ : NetThread).user.call ⟨2, 0⟩ (.clear ⟨0, 0⟩)) "1_10000".toList
        [⟨2, 0⟩] (.init 1) = .ok r ∧ r.out.map Message.dest = [(100, 1)]) ∧
      (⟨1, 0⟩ : NetThread).globalId MAX_DLOCK 0 = 10000 ∧
      ¬ Transparent .acquire ⟨2, 0⟩ ⟨1, 0⟩ 0 0 := by
  refine ⟨⟨_, rfl, by decide +kernel⟩, by decide, fun h => ?_⟩
  obtain ⟨r, msg, hr, hout, hdest, -⟩ := h (.clear ⟨0, 0⟩) [⟨2, 0⟩] (.init 1) rfl
  rw [Origin.text, processMessage_requestText _ _ _ rfl] at hr
  have hemits := ForwardKind.emits (k := .acquire) (f := ⟨2, 0⟩) (o := ⟨1, 0⟩) 0 (by decide)
    (by decide) (by decide) hr
  cases (List.cons.inj (hout.symm.trans hemits)).1
  exact absurd hdest (by decide)

end Nachos.Network
