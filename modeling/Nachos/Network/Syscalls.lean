import Nachos.Network.Process

/-!
# The syscalls and the text of a request

The syscalls on locks, condition variables and monitor variables
(`userprog/exception.cc`, lines 302-718) print their arguments into a block of 16 bytes, and
`Request` (`network/netcall.cc`, line 182) puts the request type in front.

* `request_decoded_iff`: `processMessage` does with the text what the syscall asks for,
  exactly if the syscall is not `Signal` and its arguments fit into the block.
* `signal_not_decoded`: the request of `Signal` runs into `ASSERT(false)`.
-/

namespace Nachos.Network

open Nachos.Lib

/-! ## Printing -/

/-- The syscalls. `create` stands for `CreateLock_Syscall`, `CreateCondition_Syscall` and
    `CreateMV_Syscall`. -/
inductive Syscall
  | create (k : Kind) (name : Text)
  | acquire (index : ℤ)
  | release (index : ℤ)
  | destroyLock (index : ℤ)
  | destroyCondition (index : ℤ)
  | getMV (mv : ℤ)
  | destroyMV (mv : ℤ)
  | setMV (mv value : ℤ)
  | wait (cv lock : ℤ)
  | signal (cv lock : ℤ)
  | broadcast (cv lock : ℤ)
  deriving DecidableEq, Repr

namespace Syscall

/-- The request type. -/
def type : Syscall → RequestType
  | create k _ => k.request
  | acquire _ => .acquire
  | release _ => .release
  | destroyLock _ => .destroyLock
  | destroyCondition _ => .destroyCv
  | getMV _ => .getMv
  | destroyMV _ => .destroyMv
  | setMV _ _ => .setMv
  | wait _ _ => .wait
  | signal _ _ => .signal
  | broadcast _ _ => .broadcast

/-- The arguments as they are printed. -/
def arguments : Syscall → Text
  | create _ name => name
  | acquire index | release index | destroyLock index | destroyCondition index | getMV index
  | destroyMV index => fmtInt index
  | setMV a b | wait a b | signal a b | broadcast a b => pairText a b

/-- The data that the syscall passes to `Request`: the name, which is copied from user space, or
    the numbers, printed into `new char[16]`. -/
def data : Syscall → Except Fault Text
  | create _ name => .ok name
  | s => sprintf 16 s.arguments

/-- The text that `Request` sends. -/
def request (s : Syscall) : Except Fault Text := do
  let data ← s.data
  sprintf MaxMailSize (requestText s.type data)

/-- The numbers are `int`s, and a name fits the message. -/
def Legal : Syscall → Prop
  | create k name => (requestText k.request name).length < MaxMailSize
  | acquire index | release index | destroyLock index | destroyCondition index | getMV index
  | destroyMV index => IsInt index
  | setMV a b | wait a b | signal a b | broadcast a b => IsInt a ∧ IsInt b

end Syscall

/-! ## What a request asks for -/

/-- A request for an object: the owner handles it, any other thread forwards it. -/
def Call.atOwner (c : Call) (type : RequestType) (machine box clientNum : ℤ) (arguments : Text)
    (handle : Globals → Except Fault Result) (g : Globals) : Except Fault Result :=
  if machine ≠ c.t.uniqueGlobalID then c.forward type machine box clientNum arguments g
  else handle g

/-- What `processMessage` is to do for a client: the operation of the syscall on its arguments. -/
def Syscall.perform (c : Call) (clientNum : ℤ) (localNetThreadInfo : List NetThread) (g : Globals) :
    Syscall → Except Fault Result
  | create k name =>
    Network.create k c.t c.e ⟨c.inPktHdr.toMachine, clientNum / 100⟩
      ⟨c.inMailHdr.toBox, clientNum % 100 + 1⟩ name localNetThreadInfo g
  | acquire index =>
    c.atOwner .acquire (index.tdiv MAX_DLOCK) (c.inMailHdr.toBox + 1) clientNum (fmtInt index)
      (Network.acquire c.t (c.e.heapTail 0) index c.e.outPktHdr c.inPktHdr c.inMailHdr clientNum) g
  | release index =>
    c.atOwner .release (index.tdiv MAX_DLOCK) (c.e.outMailHdr.toBox + 1) clientNum (fmtInt index)
      (Network.release c.t c.e index c.e.outPktHdr clientNum) g
  | destroyLock index =>
    c.atOwner .destroyLock (index.tdiv MAX_DLOCK) (index.tdiv MAX_DLOCK) clientNum (fmtInt index)
      (Network.destroyLock c.t c.e index c.e.outPktHdr clientNum) g
  | destroyCondition index =>
    c.atOwner .destroyCv (index.tdiv MAX_DCV) (index.tdiv MAX_DCV) clientNum (fmtInt index)
      (c.deleteCV index clientNum) g
  | getMV mv =>
    c.atOwner .getMv (mv.tdiv MAX_DMV) (c.e.outMailHdr.toBox + 1) clientNum (fmtInt mv)
      (Network.getMV c.t c.e mv c.e.outPktHdr c.inPktHdr c.inMailHdr) g
  | destroyMV mv =>
    c.atOwner .destroyMv (mv.tdiv MAX_DMV) (c.e.outMailHdr.toBox + 1) clientNum (fmtInt mv)
      (Network.destroyMV c.t c.e mv c.e.outPktHdr clientNum) g
  | setMV mv value =>
    c.atOwner .setMv (mv.tdiv MAX_DMV) (c.e.outMailHdr.toBox + 1) clientNum (pairText mv value)
      (Network.setMV c.t mv value c.e.outPktHdr clientNum) g
  | wait cv lock =>
    c.atOwner .signal (lock.tdiv MAX_DLOCK) (lock.tdiv MAX_DLOCK) clientNum (pairText cv lock)
      (Network.wait c.t c.e cv lock c.e.outPktHdr c.inMailHdr clientNum) g
  | signal cv lock =>
    c.atOwner .signal (cv.tdiv MAX_DCV) (c.e.outMailHdr.toBox + 1) clientNum (pairText cv lock)
      (Network.signal c.t c.e cv lock c.e.outPktHdr c.inMailHdr clientNum) g
  | broadcast cv lock =>
    c.atOwner .broadcast (cv.tdiv MAX_DCV) (cv.tdiv MAX_DCV) clientNum (pairText cv lock)
      (Network.broadcast c.t c.e cv lock c.e.outPktHdr c.inPktHdr c.inMailHdr clientNum) g

/-- **Decoded**: in every state of the server, the text is processed as the request type with the
    arguments of the syscall for the client. -/
def Decoded (c : Call) (text : Text) (s : Syscall) (clientNum : ℤ) : Prop :=
  ∀ (localNetThreadInfo : List NetThread) (g : Globals), g.serverCount = localNetThreadInfo.length →
    processMessage c text localNetThreadInfo g = s.perform c clientNum localNetThreadInfo g

/-- The syscall of the user thread at a mailbox of a machine reaches the thread `t` and is
    decoded there. -/
def Understood (t : NetThread) (e : Ambient) (machine mailbox : ℕ) (s : Syscall) : Prop :=
  ∃ text, s.request = .ok text ∧
    Decoded ⟨t, e, ⟨t.machineID, machine⟩, ⟨t.mailID, mailbox⟩⟩ text s (100 * machine + mailbox - 1)

/-- A syscall whose request is understood: any but `Signal`, and two numbers leave room for the
    `_` and the NUL in the block. -/
def Syscall.Fits : Syscall → Prop
  | signal _ _ => False
  | setMV a b | wait a b | broadcast a b => (fmtInt a).length + (fmtInt b).length < 15
  | create _ _ | acquire _ | release _ | destroyLock _ | destroyCondition _ | getMV _ | destroyMV _ =>
    True

instance (s : Syscall) : Decidable s.Legal := by
  cases s <;> unfold Syscall.Legal <;> infer_instance

instance (s : Syscall) : Decidable s.Fits := by
  cases s <;> unfold Syscall.Fits <;> infer_instance

/-! ## The text -/

theorem Syscall.length_type (s : Syscall) : (fmtInt s.type.code).length ≤ 2 :=
  length_fmtInt_le_of_nonneg (by norm_num) s.type.code_bounds.1
    (by have := s.type.code_bounds.2; norm_num; omega)

/-- Numbers that fit into the block fit into the message. -/
theorem Syscall.request_eq {s : Syscall} (hdata : s.data = .ok s.arguments)
    (hlength : s.arguments.length < 16) : s.request = .ok (requestText s.type s.arguments) := by
  have htype := s.length_type
  rw [request, hdata, ok_bind]
  apply sprintf_eq
  simp only [requestText, List.length_append, List.length_cons]
  show _ < 32
  omega

/-- The text of a syscall with one number. -/
theorem Syscall.request_one {s : Syscall} {id : ℤ} (hargs : s.arguments = fmtInt id) (hid : IsInt id)
    (hdata : s.data = sprintf 16 s.arguments) : s.request = .ok (requestText s.type (fmtInt id)) := by
  have hlength := hid.length_le
  rw [← hargs]
  exact s.request_eq (by rw [hdata, sprintf_eq (by rw [hargs]; omega)]) (by rw [hargs]; omega)

/-- The text of a syscall with two numbers. -/
theorem Syscall.request_two {s : Syscall} {a b : ℤ} (hargs : s.arguments = pairText a b)
    (hdata : s.data = sprintf 16 s.arguments) (h : (fmtInt a).length + (fmtInt b).length < 15) :
    s.request = .ok (requestText s.type (pairText a b)) := by
  have hlength : s.arguments.length < 16 := by rw [hargs, length_pairText]; omega
  rw [← hargs]
  exact s.request_eq (by rw [hdata, sprintf_eq hlength]) hlength

/-- Two numbers that do not fit are written past the end of the block. -/
theorem Syscall.request_overflow {s : Syscall} {a b : ℤ} (hargs : s.arguments = pairText a b)
    (hdata : s.data = sprintf 16 s.arguments) (h : ¬ (fmtInt a).length + (fmtInt b).length < 15) :
    s.request = .error .outOfBounds := by
  have hlength : ¬ s.arguments.length < 16 := by rw [hargs, length_pairText]; omega
  rw [request, hdata, sprintf, if_neg hlength]
  rfl

/-! ## Decoding -/

section

variable {t : NetThread} {e : Ambient} {machine mailbox : ℕ}

/-- The call for a message from a mailbox of a machine. -/
abbrev callFrom (t : NetThread) (e : Ambient) (machine mailbox : ℕ) : Call :=
  ⟨t, e, ⟨t.machineID, machine⟩, ⟨t.mailID, mailbox⟩⟩

/-- One number that comes from the client itself is read as it was printed. -/
theorem oneArgument_direct {c : Call} {type : RequestType} {max : ℕ} {box : ℤ → ℤ}
    {handle : ℤ → ℤ → Globals → Except Fault Result} {id : ℤ} (hid : IsInt id) (g : Globals) :
    c.oneArgument type max box handle (fmtInt id) g =
      c.atOwner type (id.tdiv max) (box (id.tdiv max)) c.client (fmtInt id) (handle id c.client) g := by
  have hlength : (fmtInt id).length < MaxMailSize := by
    have := hid.length_le
    show _ < 32
    omega
  rw [Call.oneArgument, readOne_direct _ hlength (fmtInt_ne_nil _) (fmtInt_head? _)]
  simp only [ok_bind, atoi_fmtInt, Call.atOwner]

/-- So are two numbers. -/
theorem twoArguments_direct {c : Call} {size : ℕ} {tail : Text} {type : RequestType}
    {machine : ℤ → ℤ → ℤ} {box : ℤ → ℤ} {handle : ℤ → ℤ → ℤ → Globals → Except Fault Result} {a b : ℤ}
    (ha : IsInt a) (hb : IsInt b) (g : Globals) :
    (do
      let args ← readTwo size tail c.client (pairText a b)
      c.twoArguments type machine box handle args g) =
      c.atOwner type (machine a b) (box (machine a b)) c.client (pairText a b) (handle a b c.client) g := by
  have hfits : (fmtInt a).length < MaxMailSize ∧ (fmtInt b).length < MaxMailSize := by
    have := ha.length_le
    have := hb.length_le
    constructor <;> (show _ < 32; omega)
  rw [readTwo_direct, readPair_pairText, if_pos hfits]
  simp only [ok_bind, Call.twoArguments, atoi_fmtInt, Call.atOwner]
  rfl

/-- **Decoding**: the text of every syscall but `Signal` is read as it was printed. -/
theorem decoded {s : Syscall} (hlegal : s.Legal) (hsignal : s.type ≠ .signal) (h1 : 1 ≤ mailbox)
    (h99 : mailbox ≤ 99) : Decoded (callFrom t e machine mailbox) (requestText s.type s.arguments) s
      (100 * machine + mailbox - 1) := by
  intro localNetThreadInfo g hcount
  rw [processMessage_requestText _ _ _ hcount]
  cases s with
  | create k name =>
    have hmachine : (100 * machine + mailbox - 1 : ℤ) / 100 = machine := by omega
    have hmailbox : (100 * machine + mailbox - 1 : ℤ) % 100 + 1 = mailbox := by omega
    rw [Syscall.perform, hmachine, hmailbox]
    cases k <;> rfl
  | acquire index =>
    simp only [Syscall.type, Syscall.arguments, dispatch, Call.acquire]
    exact oneArgument_direct hlegal g
  | release index =>
    simp only [Syscall.type, Syscall.arguments, dispatch, Call.release]
    exact oneArgument_direct hlegal g
  | destroyLock index =>
    simp only [Syscall.type, Syscall.arguments, dispatch, Call.destroyLock]
    exact oneArgument_direct hlegal g
  | destroyCondition index =>
    simp only [Syscall.type, Syscall.arguments, dispatch, Call.destroyCV]
    exact oneArgument_direct hlegal g
  | getMV mv =>
    simp only [Syscall.type, Syscall.arguments, dispatch, Call.getMV]
    exact oneArgument_direct hlegal g
  | destroyMV mv =>
    simp only [Syscall.type, Syscall.arguments, dispatch, Call.destroyMV]
    exact oneArgument_direct hlegal g
  | setMV mv value =>
    simp only [Syscall.type, Syscall.arguments, dispatch, Call.setMV]
    exact twoArguments_direct hlegal.1 hlegal.2 g
  | wait cv lock =>
    simp only [Syscall.type, Syscall.arguments, dispatch, Call.wait]
    exact twoArguments_direct hlegal.1 hlegal.2 g
  | signal cv lock => exact absurd rfl hsignal
  | broadcast cv lock =>
    simp only [Syscall.type, Syscall.arguments, dispatch, Call.broadcast]
    exact twoArguments_direct hlegal.1 hlegal.2 g

end

/-! ## Requests of other network threads -/

namespace Origin

/-- The request comes from another network thread. -/
def Forwarded : Origin → Prop
  | user _ _ => False
  | forwarded _ _ _ => True

/-- The number of the client as it is read. `SETMV` leaves the digits of a forwarded request without
    a NUL. -/
def readClient (o : Origin) (e : Ambient) : Syscall → ℤ
  | .setMV _ _ =>
    match o with
    | user _ _ => o.client
    | forwarded _ _ client => atoi (fmtInt client ++ e.clientTail)
  | _ => o.client

end Origin

section

variable {t : NetThread} {e : Ambient} {o : Origin} {g : Globals} {id : ℤ} {type : RequestType}
  {box : ℤ → ℤ}

theorem length_client_lt {client : ℕ} (hclient : client < MAX_CLIENTS) :
    (fmtInt (client : ℤ)).length < 5 := by
  have := length_fmtInt_le_of_nonneg (n := (client : ℤ)) (k := 3) (by norm_num) (by omega)
    (by norm_num; omega)
  omega

/-- One number is read as it was printed, wherever the request comes from. -/
theorem oneArgument_origin {max : ℕ} {handle : ℤ → ℤ → Globals → Except Fault Result}
    (ho : o.client < MAX_CLIENTS) (hid : IsInt id) :
    (o.call t e).oneArgument type max box handle (o.body (fmtInt id)) g =
      (o.call t e).atOwner type (id.tdiv max) (box (id.tdiv max)) o.client (fmtInt id)
        (handle id o.client) g := by
  cases o with
  | user machine b =>
    rw [Origin.body, oneArgument_direct hid, Origin.call_client_user]
    rfl
  | forwarded pktHdr mailHdr client =>
    have hlength : (fmtInt id).length < MaxMailSize := by
      have := hid.length_le
      show _ < 32
      omega
    have hclient : client < MAX_CLIENTS := ho
    rw [Origin.body, Call.oneArgument, readOne_forwarded _ (length_client_lt hclient) hlength]
    simp only [ok_bind, atoi_fmtInt, Call.atOwner]
    rfl

/-- So are two. -/
theorem twoArguments_origin {a b : ℤ} {machine : ℤ → ℤ → ℤ}
    {handle : ℤ → ℤ → ℤ → Globals → Except Fault Result} (ho : o.client < MAX_CLIENTS) (ha : IsInt a)
    (hb : IsInt b) :
    (do
      let args ← readTwo 5 [] (o.call t e).client (o.body (pairText a b))
      (o.call t e).twoArguments type machine box handle args g) =
      (o.call t e).atOwner type (machine a b) (box (machine a b)) o.client (pairText a b)
        (handle a b o.client) g := by
  cases o with
  | user m n =>
    rw [Origin.body, twoArguments_direct ha hb, Origin.call_client_user]
    rfl
  | forwarded pktHdr mailHdr client =>
    have hfits : (fmtInt a).length < MaxMailSize ∧ (fmtInt b).length < MaxMailSize := by
      have := ha.length_le
      have := hb.length_le
      constructor <;> (show _ < 32; omega)
    have hclient : client < MAX_CLIENTS := ho
    rw [Origin.body, readTwo_forwarded (length_client_lt hclient), readPair_pairText, if_pos hfits]
    simp only [ok_bind, Call.twoArguments, atoi_fmtInt, Call.atOwner]
    rfl

/-- `SETMV` reads the numbers, but not always the client. -/
theorem setMV_origin {mv value : ℤ} (ho : o.client < MAX_CLIENTS) (hmv : IsInt mv)
    (hvalue : IsInt value) : (o.call t e).setMV (o.body (pairText mv value)) g =
      (Syscall.setMV mv value).perform (o.call t e) (o.readClient e (.setMV mv value)) [] g := by
  cases o with
  | user m n =>
    rw [Call.setMV, Origin.body, twoArguments_direct hmv hvalue, Origin.call_client_user]
    rfl
  | forwarded pktHdr mailHdr client =>
    have hfits : (fmtInt mv).length < MaxMailSize ∧ (fmtInt value).length < MaxMailSize := by
      have := hmv.length_le
      have := hvalue.length_le
      constructor <;> (show _ < 32; omega)
    have hclient : client < MAX_CLIENTS := ho
    have hlength := length_client_lt hclient
    have hread : readTwo 6 e.clientTail ((Origin.forwarded pktHdr mailHdr client).call t e).client
        ('_' :: fmtInt client ++ '_' :: pairText mv value) =
        .ok (atoi (fmtInt client ++ e.clientTail), fmtInt mv, fmtInt value) := by
      rw [List.cons_append, readTwo, readField_append (underscore_not_mem_fmtInt _) (by omega), ok_bind]
      exact (readPair_pairText _ _ _).trans (if_pos hfits)
    rw [Call.setMV, Origin.body, Origin.call_e, hread, ok_bind, Call.twoArguments]
    simp only [atoi_fmtInt]
    rfl

/-- A request is decoded, wherever it comes from; `SIGNAL` has to be forwarded. -/
theorem dispatch_origin {group : List NetThread} {s : Syscall} (ho : o.client < MAX_CLIENTS)
    (hlegal : s.Legal) (hcreate : ∀ k name, s ≠ .create k name) (hsignal : s.type = .signal → o.Forwarded) :
    dispatch (o.call t e) group s.type (o.body s.arguments) g =
      s.perform (o.call t e) (o.readClient e s) group g := by
  cases s with
  | create k name => exact absurd rfl (hcreate k name)
  | acquire id =>
    rw [Syscall.type, Syscall.arguments, dispatch, Call.acquire, oneArgument_origin ho hlegal]
    rfl
  | release id =>
    rw [Syscall.type, Syscall.arguments, dispatch, Call.release, oneArgument_origin ho hlegal]
    rfl
  | destroyLock id =>
    rw [Syscall.type, Syscall.arguments, dispatch, Call.destroyLock, oneArgument_origin ho hlegal]
    rfl
  | destroyCondition id =>
    rw [Syscall.type, Syscall.arguments, dispatch, Call.destroyCV, oneArgument_origin ho hlegal]
    rfl
  | getMV id =>
    rw [Syscall.type, Syscall.arguments, dispatch, Call.getMV, oneArgument_origin ho hlegal]
    rfl
  | destroyMV id =>
    rw [Syscall.type, Syscall.arguments, dispatch, Call.destroyMV, oneArgument_origin ho hlegal]
    rfl
  | setMV mv value => exact setMV_origin ho hlegal.1 hlegal.2
  | wait cv lock =>
    rw [Syscall.type, Syscall.arguments, dispatch, Call.wait, twoArguments_origin ho hlegal.1 hlegal.2]
    rfl
  | broadcast cv lock =>
    rw [Syscall.type, Syscall.arguments, dispatch, Call.broadcast,
      twoArguments_origin ho hlegal.1 hlegal.2]
    rfl
  | signal cv lock =>
    cases o with
    | user m n => exact absurd (hsignal rfl) id
    | forwarded pktHdr mailHdr client =>
      have hhead : ((Origin.forwarded pktHdr mailHdr client).body (pairText cv lock)).head? = some '_' := rfl
      have hread : readTwo 5 [] (-1) ((Origin.forwarded pktHdr mailHdr client).body (pairText cv lock)) =
        readTwo 5 [] ((Origin.forwarded pktHdr mailHdr client).call t e).client
          ((Origin.forwarded pktHdr mailHdr client).body (pairText cv lock)) := rfl
      rw [Syscall.type, Syscall.arguments, dispatch, Call.signal, if_neg (not_not.mpr hhead), hread,
        twoArguments_origin ho hlegal.1 hlegal.2]
      rfl

end

/-! ## Fitting requests -/

section

variable {t : NetThread} {e : Ambient} {machine mailbox : ℕ}

/-- A server without objects does not stop at a `Signal`. -/
theorem signal_init_ne (c : Call) (cv lock clientNum : ℤ) :
    (Syscall.signal cv lock).perform c clientNum [] (.init 0) ≠ .error .assertion := by
  simp only [Syscall.perform, Call.atOwner, Call.forward, sprintf, signal, Globals.init, index]
  split_ifs <;> simp [Result.failed]

/-- The request of `Signal` is not decoded. -/
theorem not_decoded_signal (cv lock clientNum : ℤ) :
    ¬ Decoded (callFrom t e machine mailbox) (requestText .signal (pairText cv lock))
      (.signal cv lock) clientNum := by
  intro h
  have hinit := h [] (.init 0) rfl
  have hassert : dispatch (callFrom t e machine mailbox) [] .signal (pairText cv lock) (.init 0) =
      .error .assertion := by
    rw [dispatch, Call.signal, if_pos (pairText_head? cv lock)]
  have hcount : (Globals.init 0).serverCount = ([] : List NetThread).length := rfl
  rw [processMessage_requestText _ _ _ hcount, hassert] at hinit
  exact signal_init_ne _ _ _ _ hinit.symm

/-- **Requests are understood exactly if they fit**: for every syscall with legal arguments and
    every mailbox of a user thread. -/
theorem request_decoded_iff (s : Syscall) (hlegal : s.Legal) (h1 : 1 ≤ mailbox) (h99 : mailbox ≤ 99) :
    Understood t e machine mailbox s ↔ s.Fits := by
  have hdecoded {s : Syscall} (hlegal : s.Legal) (hsignal : s.type ≠ .signal)
      (hrequest : s.request = .ok (requestText s.type s.arguments)) : Understood t e machine mailbox s :=
    ⟨_, hrequest, decoded hlegal hsignal h1 h99⟩
  cases s with
  | create k name =>
    have hrequest : (Syscall.create k name).request = .ok (requestText k.request name) :=
      sprintf_eq hlegal
    exact iff_of_true (hdecoded hlegal (by cases k <;> exact nofun) hrequest) trivial
  | acquire index | release index | destroyLock index | destroyCondition index | getMV index
  | destroyMV index =>
    exact iff_of_true (hdecoded hlegal nofun (Syscall.request_one rfl hlegal rfl)) trivial
  | setMV a b | wait a b | broadcast a b =>
    by_cases hfits : (fmtInt a).length + (fmtInt b).length < 15
    · exact iff_of_true (hdecoded hlegal nofun (Syscall.request_two rfl rfl hfits)) hfits
    · refine iff_of_false (fun ⟨text, htext, _⟩ => ?_) hfits
      rw [Syscall.request_overflow rfl rfl hfits] at htext
      cases htext
  | signal cv lock =>
    refine iff_of_false (fun ⟨text, htext, hdecoded⟩ => ?_) not_false
    rw [Syscall.request] at htext
    obtain ⟨data, hdata, htext⟩ := bind_eq_ok.mp htext
    obtain ⟨-, rfl⟩ := sprintf_eq_ok hdata
    obtain ⟨-, rfl⟩ := sprintf_eq_ok htext
    exact not_decoded_signal cv lock _ hdecoded

end

/-! ## Two syscalls -/

/-- `Acquire(5)` by the user thread of `(2, 0)` is understood. -/
theorem request_decoded_acquire : (Syscall.acquire 5).Legal ∧
    Understood ⟨0, 0⟩ (.clear ⟨0, 0⟩) 2 1 (.acquire 5) :=
  ⟨by decide, (request_decoded_iff (.acquire 5) (by decide) (by decide) (by decide)).mpr trivial⟩

/-- **`Signal` is not decoded**: `Signal(0, 0)` stops the server. -/
theorem signal_not_decoded : (Syscall.signal 0 0).Legal ∧
    (Syscall.signal 0 0).request = .ok "5_0_0".toList ∧
    (processMessage ⟨⟨0, 0⟩, .clear ⟨0, 0⟩, ⟨0, 2⟩, ⟨0, 1⟩⟩ "5_0_0".toList [⟨0, 0⟩] (.init 1)).toOption.isNone ∧
    ¬ Understood ⟨0, 0⟩ (.clear ⟨0, 0⟩) 2 1 (.signal 0 0) := by
  refine ⟨by decide, rfl, by decide +kernel, fun ⟨text, htext, hdecoded⟩ => ?_⟩
  cases htext
  exact not_decoded_signal 0 0 _ hdecoded

end Nachos.Network
