import Nachos.Lib.Decimal
import Nachos.Lib.Run

/-!
# Messages, addresses and request types

The vocabulary of `network/netcall.h`, `network/post.h` and
`machine/network.h`: packet and mail headers, time stamps, the request types in
the order of their `enum`, the table sizes, and the numbering of threads and
clients.

C `int`s are `ℤ`; `/` and `%` of C are `Int.tdiv` and `Int.tmod`. A C string is
the `List Char` up to its NUL. The `length` fields of the headers are left out:
every sender sets them to `strlen(text) + 1` and `PostOffice::Send` computes
them again from the text.
-/

namespace Nachos.Network

open Nachos.Lib

/-- A C string, without the terminating NUL. -/
abbrev Text := List Char

/-! ## Constants -/

/-- `MAX_CLIENTS` (netcall.h:19). -/
abbrev MAX_CLIENTS : ℕ := 1000
/-- `MAX_DLOCK` (netcall.h:20). -/
abbrev MAX_DLOCK : ℕ := 100
/-- `MAX_DMV` (netcall.h:21). -/
abbrev MAX_DMV : ℕ := 500
/-- `MAX_DCV` (netcall.h:22). -/
abbrev MAX_DCV : ℕ := 100
/-- `MAX_NUM_GLOBAL_IDS` (netcall.h:24). -/
abbrev MAX_NUM_GLOBAL_IDS : ℕ := 1000
/-- `MaxMailSize` (post.h:56) of the 32-bit build: 64 bytes on the wire less
    three headers of 12, 12 and 8 bytes. -/
abbrev MaxMailSize : ℕ := 32

/-- A C `int`. -/
def IsInt (n : ℤ) : Prop := -2 ^ 31 ≤ n ∧ n < 2 ^ 31

instance (n : ℤ) : Decidable (IsInt n) := inferInstanceAs (Decidable (_ ∧ _))

theorem IsInt.length_le {n : ℤ} (h : IsInt n) : (fmtInt n).length ≤ 11 :=
  length_fmtInt_le (k := 10) (by norm_num) (by have := h.1; norm_num; omega)
    (by have := h.2; norm_num; omega)

/-- What stops a thread: a failed `ASSERT`, or an operation that C++ leaves
    undefined (a null dereference, an access outside an array, the use of a
    value that was never written). -/
inductive Fault
  | assertion
  | nullPointer
  | outOfBounds
  | uninitialised
  | halt
  deriving DecidableEq, Repr

/-! ## Time stamps -/

/-- `struct timeval`. -/
structure Timeval where
  sec : ℤ
  usec : ℤ
  deriving DecidableEq, Repr

namespace Timeval

/-- The comparison the code spells out wherever it orders two time stamps:
    `a.tv_sec < b.tv_sec || (a.tv_sec == b.tv_sec && a.tv_usec < b.tv_usec)`. -/
instance : LT Timeval := ⟨fun a b => a.sec < b.sec ∨ a.sec = b.sec ∧ a.usec < b.usec⟩

/-- The same with `<=` on the microseconds. -/
instance : LE Timeval := ⟨fun a b => a.sec < b.sec ∨ a.sec = b.sec ∧ a.usec ≤ b.usec⟩

theorem lt_def {a b : Timeval} : a < b ↔ a.sec < b.sec ∨ a.sec = b.sec ∧ a.usec < b.usec := Iff.rfl

theorem le_def {a b : Timeval} : a ≤ b ↔ a.sec < b.sec ∨ a.sec = b.sec ∧ a.usec ≤ b.usec := Iff.rfl

instance (a b : Timeval) : Decidable (a < b) := decidable_of_iff _ lt_def.symm

instance (a b : Timeval) : Decidable (a ≤ b) := decidable_of_iff _ le_def.symm

instance : LinearOrder Timeval where
  le_refl a := by rw [le_def]; omega
  le_trans a b c := by simp only [le_def]; omega
  lt_iff_le_not_ge a b := by simp only [le_def, lt_def]; omega
  le_antisymm a b := by
    obtain ⟨s, u⟩ := a
    obtain ⟨s', u'⟩ := b
    simp only [le_def, mk.injEq]
    omega
  le_total a b := by simp only [le_def]; omega
  toDecidableLE := inferInstance
  toDecidableLT := inferInstance

end Timeval

/-! ## Request types -/

/-- `enum RequestType` (netcall.h:26-32). -/
inductive RequestType
  | createLock | acquire | release | destroyLock | createCv | signal | broadcast | wait
  | destroyCv | createMv | setMv | getMv | destroyMv | createLockVerify | createCvVerify
  | createMvVerify | createLockAnswer | createCvAnswer | createMvAnswer | signalLock
  | signalResponse | broadcastLock | broadcastResponse | waitCv | waitResponse
  | startUserProgram | regNetThread | regNetThreadResponse | groupInfo | ack | timestamp
  | invalidType
  deriving DecidableEq, Repr

namespace RequestType

/-- The enumerators in their order; the position is the number in a message. -/
def all : List RequestType :=
  [createLock, acquire, release, destroyLock, createCv, signal, broadcast, wait, destroyCv,
    createMv, setMv, getMv, destroyMv, createLockVerify, createCvVerify, createMvVerify,
    createLockAnswer, createCvAnswer, createMvAnswer, signalLock, signalResponse, broadcastLock,
    broadcastResponse, waitCv, waitResponse, startUserProgram, regNetThread,
    regNetThreadResponse, groupInfo, ack, timestamp, invalidType]

/-- The value of an enumerator. -/
def code (r : RequestType) : ℤ := all.idxOf r

/-- The enumerator that a number in a message stands for, if any. -/
def ofCode (n : ℤ) : Option RequestType := if n < 0 then none else all[n.toNat]?

@[simp] theorem ofCode_code (r : RequestType) : ofCode r.code = some r := by
  cases r <;> decide

theorem code_bounds (r : RequestType) : 0 ≤ r.code ∧ r.code < 32 := by
  cases r <;> decide

theorem code_of_ofCode {n : ℤ} {r : RequestType} (h : ofCode n = some r) : r.code = n := by
  unfold ofCode at h
  split_ifs at h with hn
  obtain ⟨hlt, hget⟩ := List.getElem?_eq_some_iff.mp h
  have hidx : all.idxOf r = n.toNat := by
    rw [← hget]
    exact List.Nodup.idxOf_getElem (by decide) _ hlt
  rw [code, hidx]
  omega

end RequestType

/-! ## Headers and messages -/

/-- `PacketHeader` (machine/network.h): the `to` and `from` machine ids. -/
structure PacketHeader where
  toMachine : ℤ
  fromMachine : ℤ
  deriving DecidableEq, Repr

/-- `MailHeader` (post.h:41): the `to` and `from` mailboxes. -/
structure MailHeader where
  toBox : ℤ
  fromBox : ℤ
  deriving DecidableEq, Repr

/-- `Message` (netcall.h:54): two headers and a text. It is both what is passed
    to `PostOffice::Send` and what waits in the queue of a lock or a condition
    variable. -/
structure Message where
  pktHdr : PacketHeader
  mailHdr : MailHeader
  data : Text
  deriving DecidableEq, Repr

/-- Machine and mailbox a message is addressed to. -/
def Message.dest (m : Message) : ℤ × ℤ := (m.pktHdr.toMachine, m.mailHdr.toBox)

/-! ## Threads and clients -/

/-- A network thread: the machine id of its post office and its mailbox. Its
    user thread has the next mailbox (`userprog/exception.cc:438-439`). -/
structure NetThread where
  machineID : ℕ
  mailID : ℕ
  deriving DecidableEq, Repr

namespace NetThread

/-- `uniqueGlobalID` (netcall.cc:257). -/
def uniqueGlobalID (t : NetThread) : ℤ := t.machineID * 100 + t.mailID

/-- The address of the thread's own mailbox. -/
def address (t : NetThread) : ℤ × ℤ := (t.machineID, t.mailID)

/-- The address of the mailbox of its user thread. -/
def userAddress (t : NetThread) : ℤ × ℤ := (t.machineID, t.mailID + 1)

/-- Mailboxes are numbered below 100 (`system.cc`: `new PostOffice(netname, rely, 100)`),
    those of the user threads included. -/
def Valid (t : NetThread) : Prop := t.mailID < 99

instance (t : NetThread) : Decidable t.Valid := inferInstanceAs (Decidable (_ < _))

theorem uniqueGlobalID_nonneg (t : NetThread) : 0 ≤ t.uniqueGlobalID := by
  unfold uniqueGlobalID; omega

end NetThread

/-- The global id that a thread gives to the object in a slot of a table of `max`
    slots: `(uniqueGlobalID() * MAX_DLOCK) + createDLockIndex` and the like. -/
def NetThread.globalId (t : NetThread) (max slot : ℕ) : ℤ := t.uniqueGlobalID * max + slot

namespace NetThread

variable (t : NetThread) {max slot : ℕ}

theorem globalId_nonneg : 0 ≤ t.globalId max slot := by
  have := t.uniqueGlobalID_nonneg
  unfold globalId
  positivity

/-- The owner of an object is read off its id. -/
theorem globalId_tdiv (h : slot < max) : (t.globalId max slot).tdiv max = t.uniqueGlobalID := by
  rw [Int.tdiv_eq_ediv_of_nonneg t.globalId_nonneg, globalId, add_comm,
    Int.add_mul_ediv_right _ _ (by omega), Int.ediv_eq_zero_of_lt (by omega) (by omega), zero_add]

/-- So is its slot. -/
theorem globalId_tmod (h : slot < max) : (t.globalId max slot).tmod max = slot := by
  rw [Int.tmod_eq_emod_of_nonneg t.globalId_nonneg, globalId, add_comm, Int.add_mul_emod_self_right,
    Int.emod_eq_of_lt (by omega) (by omega)]

/-- The range checks of the operations refuse the ids of threads whose own id is not
    below `MAX_NUM_GLOBAL_IDS`. -/
theorem globalId_refused_iff (h : slot < max) :
    (t.globalId max slot < 0 ∨ t.globalId max slot > (MAX_NUM_GLOBAL_IDS : ℤ) * max - 1) ↔
      (MAX_NUM_GLOBAL_IDS : ℤ) ≤ t.uniqueGlobalID := by
  have h0 : 0 ≤ t.globalId max slot := t.globalId_nonneg
  unfold globalId at h0 ⊢
  constructor
  · intro hid
    by_contra hlt
    have : (t.uniqueGlobalID + 1) * max ≤ (MAX_NUM_GLOBAL_IDS : ℤ) * max := by gcongr; omega
    rw [add_mul] at this
    omega
  · intro hle
    have : (MAX_NUM_GLOBAL_IDS : ℤ) * max ≤ t.uniqueGlobalID * max := by gcongr
    omega

theorem globalId_lt (h : slot < max) (ht : t.uniqueGlobalID < (MAX_NUM_GLOBAL_IDS : ℤ)) :
    t.globalId max slot < (MAX_NUM_GLOBAL_IDS : ℤ) * max := by
  have := mt (t.globalId_refused_iff h).mp (not_le.mpr ht)
  omega

end NetThread

/-- The client number of a request: `100*(inPktHdr.from)+inMailHdr.from - 1`. -/
def clientOf (inPktHdr : PacketHeader) (inMailHdr : MailHeader) : ℤ :=
  100 * inPktHdr.fromMachine + inMailHdr.fromBox - 1

/-- `clientNum/100`. -/
def clientMachine (clientNum : ℤ) : ℤ := clientNum.tdiv 100

/-- `(clientNum+100)%100`. -/
def clientBox (clientNum : ℤ) : ℤ := (clientNum + 100).tmod 100

theorem clientMachine_of_nonneg {c : ℤ} (h : 0 ≤ c) : clientMachine c = c / 100 :=
  Int.tdiv_eq_ediv_of_nonneg h

theorem clientBox_of_nonneg {c : ℤ} (h : 0 ≤ c) : clientBox c = c % 100 := by
  rw [clientBox, Int.tmod_eq_emod_of_nonneg (by omega)]
  omega

/-- The address that a client number is decoded to: that of the client's
    network thread. -/
def clientAddress (clientNum : ℤ) : ℤ × ℤ := (clientMachine clientNum, clientBox clientNum)

theorem clientAddress_of_nonneg {c : ℤ} (h : 0 ≤ c) : clientAddress c = (c / 100, c % 100) := by
  rw [clientAddress, clientMachine_of_nonneg h, clientBox_of_nonneg h]

/-- The client number that an address is decoded to. -/
def addressClient (address : ℤ × ℤ) : ℤ := 100 * address.1 + address.2

theorem addressClient_clientAddress {c : ℤ} (h : 0 ≤ c) : addressClient (clientAddress c) = c := by
  rw [clientAddress_of_nonneg h, addressClient]
  omega

@[simp] theorem clientAddress_uniqueGlobalID {t : NetThread} (h : t.Valid) :
    clientAddress t.uniqueGlobalID = t.address := by
  rw [clientAddress_of_nonneg t.uniqueGlobalID_nonneg]
  unfold NetThread.uniqueGlobalID NetThread.address NetThread.Valid at *
  rw [Prod.mk.injEq]
  omega

end Nachos.Network
