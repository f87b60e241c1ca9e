import Nachos.Mail.PostOffice
import Nachos.Network.ServerMessages
import Nachos.Network.Syscalls

/-!
# The length of the messages

The texts that are printed with `sprintf` by `Request`, `CreateVerify`, the syscalls, and the
answers, forwarding branches and replies of `processMessage` (`network/netcall.cc`,
`userprog/exception.cc`), and the counter that `PostOffice::Send` prints in front of them
(`network/post.cc`, lines 287-390).

* `message_fits_iff`: the exact condition under which a message stays inside of its buffers and
  passes the assertions of `Send`, for each kind of message, all fields and every counter.
* `setMV_overflows`: a `SetMV` whose arguments do not fit into their block.
-/

namespace Nachos.Network

open Nachos.Lib

/-! ## The messages -/

/-- `MAX_STR_LEN`, the length of a name in a user program. -/
abbrev MAX_STR_LEN : ℕ := 20

/-- A message, by the code that prints it: `Request`, which a syscall on an object calls, or
    `StartUserProgram_Syscall` with one byte that it has not written; the code for another server;
    the forwarding branches, with one id, with two, and that of `SETMV`; and the replies `"%i"`
    and `"SetMV[%d] = %d"`. -/
inductive Printed
  | request (s : Syscall)
  | start (data : Text)
  | server (m : ServerMessage) (pointer : ℤ)
  | forward (type : RequestType) (client id : ℤ)
  | forwardPair (type : RequestType) (client cv lock : ℤ)
  | forwardSetMv (client mv value : ℤ)
  | reply (id : ℤ)
  | setReply (id value : ℤ)
  deriving DecidableEq, Repr

namespace Printed

/-- The text. -/
def text : Printed → Text
  | request s => requestText s.type s.arguments
  | start data => requestText .startUserProgram data
  | server m pointer => m.text pointer
  | forward type client id => forwardText type client (fmtInt id)
  | forwardPair type client cv lock => forwardText type client (pairText cv lock)
  | forwardSetMv client mv value => forwardText .setMv client (pairText mv value)
  | reply id => fmtInt id
  | setReply id value => setMvText id value

/-- The `sprintf`s with their buffers: a syscall has a block of 16 bytes of its own for numbers,
    the reply of `SetMV` one of 24, and all others have `MaxMailSize` bytes. -/
def print : Printed → Except Fault Text
  | request s => s.request
  | setReply id value => sprintf 24 (setMvText id value)
  | m => sprintf MaxMailSize m.text

/-- An id of an object in a table of `max` slots, of a thread on one of ten machines. -/
def IsId (max : ℕ) (id : ℤ) : Prop := 0 ≤ id ∧ id < 1000 * max

instance (max : ℕ) (id : ℤ) : Decidable (IsId max id) := inferInstanceAs (Decidable (_ ∧ _))

/-- The number of a client. -/
def IsClient (client : ℤ) : Prop := 0 ≤ client ∧ client < MAX_CLIENTS

instance (client : ℤ) : Decidable (IsClient client) := inferInstanceAs (Decidable (_ ∧ _))

/-- A time stamp. -/
def IsTime (stamp : Timeval) : Prop :=
  (0 ≤ stamp.sec ∧ stamp.sec < 2 ^ 31) ∧ 0 ≤ stamp.usec ∧ stamp.usec < 1000000

instance (stamp : Timeval) : Decidable (IsTime stamp) := inferInstanceAs (Decidable (_ ∧ _))

/-- The fields of a message. The numbers of locks and condition variables that go from one owner
    to another have an offset of `uniqueGlobalID() * MAX_DLOCK`; -1 says that there is none. -/
def Legal : Printed → Prop
  | request (.create _ name) => name.length ≤ MAX_STR_LEN
  | request (.acquire id) | request (.release id) | request (.destroyLock id)
  | request (.destroyCondition id) => IsId MAX_DLOCK id
  | request (.getMV id) | request (.destroyMV id) => IsId MAX_DMV id
  | request (.setMV mv value) => IsId MAX_DMV mv ∧ IsInt value
  | request (.wait cv lock) | request (.signal cv lock) | request (.broadcast cv lock) =>
    IsId MAX_DCV cv ∧ IsId MAX_DLOCK lock
  | start data => data.length ≤ 1
  | server (.verify _ client name) _ => IsClient client ∧ name.length ≤ MAX_STR_LEN
  | server (.lockAnswer client .no) _ => IsClient client
  | server (.lockAnswer client (.maybe stamp)) _ => IsClient client ∧ IsTime stamp
  | server (.lockAnswer client (.yes id)) _ | server (.lockAnswer client (.elected id)) _ =>
    IsClient client ∧ IsId MAX_DLOCK id
  | server (.cvAnswer client id) _ => IsClient client ∧ (id = -1 ∨ IsId MAX_DCV id)
  | server (.mvAnswer client id) _ => IsClient client ∧ (id = -1 ∨ IsId MAX_DMV id)
  | server (.waitCv client cv lock) _ => IsClient client ∧ IsId MAX_DCV cv ∧ IsId MAX_DLOCK lock
  | server (.signalLock client lock) _ | server (.broadcastLock client lock) _ =>
    IsClient client ∧ IsId (2 * MAX_DLOCK) lock
  | server (.waitResponse _ id) pointer | server (.signalResponse _ id) pointer
  | server (.broadcastResponse _ id) pointer =>
    IsInt pointer ∧ (id = -1 ∨ IsId (2 * MAX_DLOCK) id)
  | forward type client id => IsClient client ∧
    (type ∈ [RequestType.acquire, .release, .destroyLock, .destroyCv] ∧ IsId MAX_DLOCK id ∨
      type ∈ [RequestType.getMv, .destroyMv] ∧ IsId MAX_DMV id)
  | forwardPair type client cv lock => IsClient client ∧
    type ∈ [RequestType.signal, .broadcast] ∧ IsId MAX_DCV cv ∧ IsId MAX_DLOCK lock
  | forwardSetMv client mv value => IsClient client ∧ IsId MAX_DMV mv ∧ IsInt value
  | reply id => id = -1 ∨ IsId MAX_DMV id
  | setReply id value => IsId MAX_DMV id ∧ IsInt value

instance (m : Printed) : Decidable m.Legal := by
  unfold Legal
  split <;> infer_instance

end Printed

/-! ## The property -/

/-- A text passes the assertions of `PostOffice::Send` as the message of a thread with a counter:
    one of the 100 mailboxes is addressed, and the message is a new one. -/
def PassesSend (counter : ℤ) (text : Text) : Prop :=
  ∀ (s : Mail.PostState) (thread : Mail.Address) (toMachine : ℤ) (mailHdr : MailHeader)
    (timeStamp : Timeval), 0 ≤ mailHdr.toBox → mailHdr.toBox < Mail.numBoxes →
    (s.unAckedMessages thread.1).any
      (·.key = (⟨toMachine, thread.1⟩, mailHdr, timeStamp)) = false →
    Mail.nextCounter s thread (toMachine, mailHdr.toBox) = counter →
    ∃ s', Mail.send s thread toMachine mailHdr timeStamp text true none = .ok s'

/-- **The message fits**: it is printed inside of its buffers, and sent with the counter. -/
def Printed.FitsWire (m : Printed) (counter : ℤ) : Prop :=
  ∃ text, m.print = .ok text ∧ PassesSend counter text

/-- The number of characters of a number. -/
def width (n : ℤ) : ℕ := (fmtInt n).length

/-- **The messages that fit.** The others always do. -/
def Printed.Short (m : Printed) (counter : ℤ) : Prop :=
  match m with
  | request (.create _ name) => width counter + name.length ≤ 27
  | request (.setMV mv value) => width mv + width value ≤ 14
  | server (.verify _ client name) _ => width counter + width client + name.length ≤ 25
  | server (.lockAnswer client (.maybe stamp)) _ =>
    width counter + width client + width stamp.sec + width stamp.usec ≤ 22
  | server (.waitResponse _ id) pointer | server (.signalResponse _ id) pointer
  | server (.broadcastResponse _ id) pointer => width counter + width pointer + width id ≤ 25
  | forwardSetMv client mv value => width counter + width client + width mv + width value ≤ 23
  | setReply id value => width id + width value ≤ 13 ∧ width counter + width id + width value ≤ 19
  | _ => True

instance (m : Printed) (counter : ℤ) : Decidable (m.Short counter) := by
  unfold Printed.Short
  split <;> infer_instance

/-! ## Sending -/

/-- **What `Send` accepts**: two characters are taken by the `_` and the NUL. -/
theorem passesSend_iff {counter : ℤ} (text : Text) :
    PassesSend counter text ↔ width counter + text.length ≤ 29 := by
  have hlength : (Mail.counterText counter text).length = width counter + 1 + text.length := by
    simp only [Mail.counterText, List.length_append, List.length_cons, width]
    omega
  constructor
  · intro h
    let s : Mail.PostState := { Mail.PostState.init with
      sendCounters := fun _ _ => if counter = 0 then none else some (counter - 1) }
    have hcounter : Mail.nextCounter s (0, 0) (0, 0) = counter := by
      simp only [Mail.nextCounter, s]
      split_ifs with hzero
      · exact hzero.symm
      · exact Int.sub_add_cancel counter 1
    obtain ⟨s', hs'⟩ := h s (0, 0) 0 ⟨0, 0⟩ ⟨0, 0⟩ (by decide) (by decide) rfl hcounter
    by_contra hlong
    have hassert : ¬ (Mail.counterText counter text).length + 1 < MaxMailSize := by
      rw [hlength]
      show ¬ _ < 32
      omega
    have hnew : (s.unAckedMessages (0, 0).1).any
        (·.key = (⟨0, (0, 0).1⟩, ⟨0, 0⟩, ⟨0, 0⟩)) = false := rfl
    rw [Mail.send] at hs'
    simp only [hnew, hcounter, Bool.false_eq_true, if_false, if_true, if_neg hassert] at hs'
    split_ifs at hs'
  · intro h s thread toMachine mailHdr timeStamp hbox0 hbox hnew hcounter
    have hdata : text.length + 1 ≤ MaxMailSize := by
      show _ ≤ 32
      omega
    have hshort : (Mail.counterText counter text).length + 1 < MaxMailSize := by
      rw [hlength]
      show _ < 32
      omega
    rw [Mail.send, if_pos ⟨hdata, hbox0, hbox⟩]
    simp only [hnew, Bool.false_eq_true, if_false, if_true, hcounter, if_pos hshort]
    exact ⟨_, rfl⟩

/-- What fits into the buffers has to be short enough for the counter. -/
theorem fitsWire_of_print {m : Printed} (hprint : m.print = .ok m.text) (counter : ℤ) :
    m.FitsWire counter ↔ width counter + m.text.length ≤ 29 := by
  rw [Printed.FitsWire, hprint]
  simp only [Except.ok.injEq, exists_eq_left', passesSend_iff]

/-- What passes the assertions fits into `MaxMailSize` bytes. -/
theorem fitsWire_of_buffer {m : Printed} (hprint : m.print = sprintf MaxMailSize m.text)
    (counter : ℤ) : m.FitsWire counter ↔ width counter + m.text.length ≤ 29 := by
  by_cases hfits : m.text.length < MaxMailSize
  · exact fitsWire_of_print (by rw [hprint, sprintf_eq hfits]) counter
  · refine iff_of_false ?_ (fun h => hfits (by show _ < 32; omega))
    rintro ⟨text, htext, -⟩
    rw [hprint, sprintf, if_neg hfits] at htext
    cases htext

/-! ## Lengths -/

section

variable {type : RequestType} {client id : ℤ}

theorem length_requestText (type : RequestType) (data : Text) :
    (requestText type data).length = width type.code + 1 + data.length := by
  simp only [requestText, List.length_append, List.length_cons, width]
  omega

theorem length_forwardText (type : RequestType) (client : ℤ) (data : Text) :
    (forwardText type client data).length = width type.code + 3 + width client + data.length := by
  simp only [forwardText, requestText, List.length_append, List.length_cons, width]
  omega

theorem length_setMvText (id value : ℤ) :
    (setMvText id value).length = 10 + width id + width value := by
  simp only [setMvText, List.length_append, List.length_cons, List.length_nil, width]
  omega

theorem length_clientText (client : ℤ) (data : Text) :
    (fmtInt client ++ '_' :: data).length = width client + 1 + data.length := by
  simp only [List.length_append, List.length_cons, width]
  omega

theorem width_client (h : Printed.IsClient client) : width client ≤ 3 := (client_fits h.1 h.2).2

theorem width_int (h : IsInt id) : width id ≤ 11 := h.length_le

/-- A lock or a condition variable has an id of five digits at most. -/
theorem width_lock (h : Printed.IsId 100 id) : width id ≤ 5 :=
  length_fmtInt_le_of_nonneg (by norm_num) h.1 (by have := h.2; norm_num at this ⊢; exact this)

/-- One with an offset has six. -/
theorem width_offset (h : id = -1 ∨ Printed.IsId 200 id) : width id ≤ 6 := by
  obtain rfl | h := h
  · decide
  · exact length_fmtInt_le_of_nonneg (by norm_num) h.1 (by have := h.2; norm_num at this ⊢; omega)

/-- So has a monitor variable. -/
theorem width_mv (h : Printed.IsId 500 id) : width id ≤ 6 :=
  length_fmtInt_le_of_nonneg (by norm_num) h.1 (by have := h.2; norm_num at this ⊢; omega)

/-- A counter has ten. -/
theorem width_counter {counter : ℤ} (h0 : 0 ≤ counter) (h : IsInt counter) : width counter ≤ 10 :=
  length_fmtInt_le_of_nonneg (by norm_num) h0 (by have := h.2; norm_num at this ⊢; omega)

/-- A request type has one or two. -/
theorem width_type (type : RequestType) : width type.code ≤ 2 :=
  length_fmtInt_le_of_nonneg (by norm_num) type.code_bounds.1
    (by have := type.code_bounds.2; norm_num; omega)

end

/-! ## The condition -/

section

variable {counter : ℤ} (h0 : 0 ≤ counter) (hint : IsInt counter)

include h0 hint

/-- **Requests**: the name decides, or the room in the block of 16 bytes. -/
theorem request_fits_iff (s : Syscall) (hlegal : (Printed.request s).Legal) :
    (Printed.request s).FitsWire counter ↔ (Printed.request s).Short counter := by
  have hcounter := width_counter h0 hint
  have htype := width_type s.type
  have hone {id : ℤ} (hargs : s.arguments = fmtInt id) (hdata : s.data = sprintf 16 s.arguments)
      (hid : IsInt id) : (Printed.request s).FitsWire counter := by
    have hwidth := width_int hid
    refine (fitsWire_of_print ?_ counter).mpr ?_
    · rw [Printed.print, Printed.text, s.request_one hargs hid hdata, hargs]
    · rw [Printed.text, length_requestText, hargs]
      show _ + (_ + 1 + width id) ≤ 29
      omega
  have htwo {a b : ℤ} (hargs : s.arguments = pairText a b)
      (hdata : s.data = sprintf 16 s.arguments) :
      (Printed.request s).FitsWire counter ↔ width a + width b ≤ 14 := by
    by_cases hfits : width a + width b ≤ 14
    · refine iff_of_true ((fitsWire_of_print ?_ counter).mpr ?_) hfits
      · rw [Printed.print, Printed.text, s.request_two hargs hdata (Nat.lt_succ_of_le hfits), hargs]
      · rw [Printed.text, length_requestText, hargs, length_pairText]
        show _ + (_ + 1 + (width a + width b + 1)) ≤ 29
        omega
    · refine iff_of_false (fun ⟨text, htext, _⟩ => ?_) hfits
      have hoverflow : s.request = .error .outOfBounds :=
        s.request_overflow hargs hdata (fun h => hfits (Nat.le_of_lt_succ h))
      rw [Printed.print, hoverflow] at htext
      cases htext
  have hpair {a b : ℤ} (hargs : s.arguments = pairText a b)
      (hdata : s.data = sprintf 16 s.arguments) (ha : Printed.IsId 100 a)
      (hb : Printed.IsId 100 b) :
      (Printed.request s).FitsWire counter := by
    have := width_lock ha
    have := width_lock hb
    exact (htwo hargs hdata).mpr (by omega)
  have hlock {id : ℤ} (h : Printed.IsId 100 id) : IsInt id := by
    obtain ⟨hid0, hid⟩ := h
    constructor <;> norm_num at hid ⊢ <;> omega
  have hmv {id : ℤ} (h : Printed.IsId 500 id) : IsInt id := by
    obtain ⟨hid0, hid⟩ := h
    constructor <;> norm_num at hid ⊢ <;> omega
  cases s with
  | create k name =>
    have hcode : width k.request.code = 1 := by cases k <;> decide
    rw [fitsWire_of_buffer rfl, Printed.text, length_requestText, Syscall.type, hcode]
    simp only [Syscall.arguments, Printed.Short]
    omega
  | acquire id | release id | destroyLock id | destroyCondition id =>
    exact iff_of_true (hone rfl rfl (hlock hlegal)) trivial
  | getMV id | destroyMV id => exact iff_of_true (hone rfl rfl (hmv hlegal)) trivial
  | setMV mv value => exact htwo rfl rfl
  | wait cv lock | signal cv lock | broadcast cv lock =>
    exact iff_of_true (hpair rfl rfl hlegal.1 hlegal.2) trivial

/-- **Messages to other servers**: a name, a time stamp or the address of an array decides. -/
theorem server_fits_iff (m : ServerMessage) (pointer : ℤ)
    (hlegal : (Printed.server m pointer).Legal) :
    (Printed.server m pointer).FitsWire counter ↔ (Printed.server m pointer).Short counter := by
  have hcounter := width_counter h0 hint
  rw [fitsWire_of_buffer rfl, Printed.text, ServerMessage.text, length_requestText]
  cases m with
  | verify k client name =>
    have hcode : width k.verify.code = 2 := by cases k <;> decide
    rw [ServerMessage.type, hcode, ServerMessage.body, length_clientText, Printed.Short]
    omega
  | lockAnswer client response =>
    have hcode : width RequestType.createLockAnswer.code = 2 := by decide
    have hno : (fmtInt CreationState.no.code).length = 1 := by decide
    have hmaybe : (fmtInt CreationState.maybe.code).length = 1 := by decide
    have hyes : (fmtInt CreationState.yes.code).length = 1 := by decide
    rw [ServerMessage.type, hcode, ServerMessage.body, length_clientText]
    cases response with
    | no =>
      have := width_client hlegal
      refine iff_of_true ?_ trivial
      rw [LockResponse.text, hno]
      omega
    | maybe stamp =>
      simp only [LockResponse.text, List.length_append, List.length_cons, hmaybe, length_pairText,
        Printed.Short, width]
      omega
    | yes id =>
      have := width_client hlegal.1
      have hid : (fmtInt id).length ≤ 5 := width_lock hlegal.2
      refine iff_of_true ?_ trivial
      rw [LockResponse.text, length_pairText, hyes]
      omega
    | elected id =>
      have := width_client hlegal.1
      have hid : (fmtInt id).length ≤ 5 := width_lock hlegal.2
      refine iff_of_true ?_ trivial
      simp only [LockResponse.text, List.length_append, List.length_cons, List.length_nil, hyes]
      omega
  | cvAnswer client id =>
    have hcode : width RequestType.createCvAnswer.code = 2 := by decide
    have := width_client hlegal.1
    have hid : (fmtInt id).length ≤ 6 := by
      obtain rfl | hid := hlegal.2
      · decide
      · exact (width_lock hid).trans (by norm_num)
    refine iff_of_true ?_ trivial
    rw [ServerMessage.type, hcode, ServerMessage.body, length_pairText]
    show _ + (_ + 1 + (width client + _ + 1)) ≤ 29
    omega
  | mvAnswer client id =>
    have hcode : width RequestType.createMvAnswer.code = 2 := by decide
    have := width_client hlegal.1
    have hid : (fmtInt id).length ≤ 6 := by
      obtain rfl | hid := hlegal.2
      · decide
      · exact width_mv hid
    refine iff_of_true ?_ trivial
    rw [ServerMessage.type, hcode, ServerMessage.body, length_pairText]
    show _ + (_ + 1 + (width client + _ + 1)) ≤ 29
    omega
  | waitCv client cv lock =>
    have hcode : width RequestType.waitCv.code = 2 := by decide
    have := width_client hlegal.1
    have hcv : (fmtInt cv).length ≤ 5 := width_lock hlegal.2.1
    have hlock : (fmtInt lock).length ≤ 5 := width_lock hlegal.2.2
    refine iff_of_true ?_ trivial
    rw [ServerMessage.type, hcode, ServerMessage.body, length_clientText, length_pairText]
    omega
  | signalLock client lock | broadcastLock client lock =>
    have htype := width_type (ServerMessage.signalLock client lock).type
    have htype' := width_type (ServerMessage.broadcastLock client lock).type
    have := width_client hlegal.1
    have hlock : (fmtInt lock).length ≤ 6 := width_offset (Or.inr hlegal.2)
    refine iff_of_true ?_ trivial
    rw [ServerMessage.body, length_pairText]
    show _ + (_ + 1 + (width client + _ + 1)) ≤ 29
    omega
  | waitResponse client id | signalResponse client id | broadcastResponse client id =>
    have hcode : (fmtInt RequestType.waitResponse.code).length = 2 := by decide
    have hcode' : (fmtInt RequestType.signalResponse.code).length = 2 := by decide
    have hcode'' : (fmtInt RequestType.broadcastResponse.code).length = 2 := by decide
    simp only [width, ServerMessage.type, hcode, hcode', hcode'', ServerMessage.body,
      length_pairText, Printed.Short]
    omega

/-- **A message fits exactly if it is short enough**: for every kind of message, all fields and
    every counter. -/
theorem message_fits_iff (m : Printed) (hlegal : m.Legal) :
    m.FitsWire counter ↔ m.Short counter := by
  have hcounter := width_counter h0 hint
  cases m with
  | request s => exact request_fits_iff h0 hint s hlegal
  | start data =>
    have htype := width_type .startUserProgram
    have hdata : data.length ≤ 1 := hlegal
    refine iff_of_true ?_ trivial
    rw [fitsWire_of_buffer rfl, Printed.text, length_requestText]
    omega
  | server m pointer => exact server_fits_iff h0 hint m pointer hlegal
  | forward type client id =>
    have htype := width_type type
    have := width_client hlegal.1
    have hid : (fmtInt id).length ≤ 6 := by
      obtain ⟨-, hid⟩ | ⟨-, hid⟩ := hlegal.2
      · exact (width_lock hid).trans (by norm_num)
      · exact width_mv hid
    refine iff_of_true ?_ trivial
    rw [fitsWire_of_buffer rfl, Printed.text, length_forwardText]
    omega
  | forwardPair type client cv lock =>
    have hcode : width type.code = 1 := by
      obtain rfl | rfl : type = .signal ∨ type = .broadcast := by simpa using hlegal.2.1
      · decide
      · decide
    have := width_client hlegal.1
    have hcv : (fmtInt cv).length ≤ 5 := width_lock hlegal.2.2.1
    have hlock : (fmtInt lock).length ≤ 5 := width_lock hlegal.2.2.2
    refine iff_of_true ?_ trivial
    rw [fitsWire_of_buffer rfl, Printed.text, length_forwardText, hcode, length_pairText]
    omega
  | forwardSetMv client mv value =>
    have hcode : width RequestType.setMv.code = 2 := by decide
    rw [fitsWire_of_buffer rfl, Printed.text, length_forwardText, hcode, length_pairText]
    simp only [Printed.Short, width]
    omega
  | reply id =>
    have hid : (fmtInt id).length ≤ 6 := by
      obtain rfl | hid := hlegal
      · decide
      · exact width_mv hid
    refine iff_of_true ?_ trivial
    rw [fitsWire_of_buffer rfl, Printed.text]
    omega
  | setReply id value =>
    rw [Printed.Short]
    by_cases hfits : width id + width value ≤ 13
    · have hprint : (Printed.setReply id value).print = .ok (Printed.setReply id value).text :=
        sprintf_eq (by rw [length_setMvText]; omega)
      rw [fitsWire_of_print hprint, Printed.text, length_setMvText]
      omega
    · refine iff_of_false (fun ⟨text, htext, _⟩ => ?_) (fun h => hfits h.1)
      rw [Printed.print, sprintf, if_neg (by rw [length_setMvText]; omega)] at htext
      cases htext

end

/-! ## Two messages -/

/-- The reply to a `SetMV` of monitor variable 2 to -5, the first message to its client. -/
theorem message_fits_setReply : (Printed.setReply 2 (-5)).Legal ∧
    (Printed.setReply 2 (-5)).text = "SetMV[2] = -5".toList ∧
    (Printed.setReply 2 (-5)).FitsWire 0 :=
  ⟨by decide, by decide +kernel,
    (message_fits_iff (by decide) (by decide) (.setReply 2 (-5)) (by decide)).mpr (by decide)⟩

/-- **A `SetMV` overflows its block**: monitor variable 50000 is the first of the network thread
    (1, 0). -/
theorem setMV_overflows :
    let m : Printed := .request (.setMV 50000 (-2147483648))
    m.Legal ∧ m.text = "10_50000_-2147483648".toList ∧ m.print = .error .outOfBounds ∧
      ¬ m.FitsWire 0 := by
  intro m
  have hprint : m.print = .error .outOfBounds := by decide +kernel
  refine ⟨by decide, by decide +kernel, hprint, fun ⟨text, htext, _⟩ => ?_⟩
  rw [hprint] at htext
  cases htext

end Nachos.Network
