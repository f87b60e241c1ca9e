import Nachos.Network.Itoa

/-!
# Distributed objects and the globals of a Nachos process

The classes of `network/netcall.h` and the file-scope variables of
`network/netcall.cc`. All network threads of one Nachos process share one
`Globals`.

Left out: the variables that no code reads (`cvCreationStates`,
`mvCreationStates`, their time stamps, `waitingForCreateLock`, the owner pair of
a condition variable), and the headers that `sendError` would use, which nothing
calls.
-/

namespace Nachos.Network

open Nachos.Lib

/-! ## Objects -/

/-- `#define FREE true`, `#define BUSY false` (netcall.h:66). -/
abbrev FREE : Bool := true
abbrev BUSY : Bool := false

/-- `class DistributedLock` (netcall.h:71). -/
structure DistributedLock where
  name : Text
  lockState : Bool
  waitQueue : List Message
  ownerMachID : ℤ
  ownerMailID : ℤ
  globalId : ℤ
  deriving DecidableEq, Repr

/-- `class DistributedMV` (netcall.h:97). -/
structure DistributedMV where
  value : ℤ
  globalId : ℤ
  name : Text
  deriving DecidableEq, Repr

/-- `class DistributedCV` (netcall.h:115). -/
structure DistributedCV where
  globalId : ℤ
  firstLock : ℤ
  name : Text
  waitQueue : List Message
  deriving DecidableEq, Repr

namespace DistributedLock

/-- `new DistributedLock(name)` with `SetGlobalId(id)` (netcall.cc:15). -/
def new (name : Text) (id : ℤ) : DistributedLock :=
  { name, lockState := FREE, waitQueue := [], ownerMachID := -1, ownerMailID := -1, globalId := id }

/-- `setOwner(-1, -1); setLockState(true);`. -/
def free (l : DistributedLock) : DistributedLock :=
  { l with ownerMachID := -1, ownerMailID := -1, lockState := FREE }

/-- `setOwner(machID, mailID); setLockState(false);`. -/
def give (l : DistributedLock) (owner : ℤ × ℤ) : DistributedLock :=
  { l with ownerMachID := owner.1, ownerMailID := owner.2, lockState := BUSY }

/-- `QueueReply(reply)`. -/
def queueReply (l : DistributedLock) (reply : Message) : DistributedLock :=
  { l with waitQueue := l.waitQueue ++ [reply] }

/-- The pair of `getOwnerMachID` and `getOwnerMailID`. -/
def owner (l : DistributedLock) : ℤ × ℤ := (l.ownerMachID, l.ownerMailID)

end DistributedLock

/-- `new DistributedCV(name)` with `SetGlobalId(id)` (netcall.cc:43); `firstLock`
    is initialised with `NULL`. -/
def DistributedCV.new (name : Text) (id : ℤ) : DistributedCV :=
  { globalId := id, firstLock := 0, name, waitQueue := [] }

/-- `new DistributedMV(name)` with `SetGlobalId(id)` (netcall.cc:39). The
    constructor leaves the value as the memory has it. -/
def DistributedMV.new (name : Text) (id value : ℤ) : DistributedMV := { value, globalId := id, name }

/-- `enum CreationState` (netcall.cc:60). -/
inductive CreationState
  | no | maybe | yes
  deriving DecidableEq, Repr

/-- The value of an enumerator. -/
def CreationState.code : CreationState → ℤ
  | no => 0
  | maybe => 1
  | yes => 2

/-! ## Globals -/

/-- The file-scope variables of `netcall.cc` and `serverCount` of `system.cc`.
    `verifyBuffer[MAX_CLIENTS][4][5]` is one block of memory. -/
structure Globals where
  verifyBuffer : ℕ → Char
  lockName : ℕ → Text
  verifyResponses : ℕ → ℤ
  localLockIndex : ℕ → ℤ
  lockCreationStates : ℕ → CreationState
  lockCreationTimeStamps : ℕ → Timeval
  waitingForSignalCvs : ℕ → ℤ
  waitingForBroadcastCvs : ℕ → ℤ
  waitingForWaitLocks : ℕ → ℤ
  mvs : ℕ → Option DistributedMV
  cvs : ℕ → Option DistributedCV
  dlocks : ℕ → Option DistributedLock
  createDLockIndex : ℤ
  createDCVIndex : ℤ
  createDMVIndex : ℤ
  serverCount : ℤ

/-- The globals of a process that has just started, with `serverCount` as the
    registration leaves it. -/
def Globals.init (serverCount : ℤ) : Globals where
  verifyBuffer _ := nul
  lockName _ := []
  verifyResponses _ := 0
  localLockIndex _ := 0
  lockCreationStates _ := .no
  lockCreationTimeStamps _ := ⟨0, 0⟩
  waitingForSignalCvs _ := 0
  waitingForBroadcastCvs _ := 0
  waitingForWaitLocks _ := 0
  mvs _ := none
  cvs _ := none
  dlocks _ := none
  createDLockIndex := 0
  createDCVIndex := 0
  createDMVIndex := 0
  serverCount := serverCount

namespace Globals

/-- Store into a slot of `dlocks`. -/
def setLock (g : Globals) (slot : ℕ) (l : Option DistributedLock) : Globals :=
  { g with dlocks := Function.update g.dlocks slot l }

/-- Store into a slot of `cvs`. -/
def setCv (g : Globals) (slot : ℕ) (cv : Option DistributedCV) : Globals :=
  { g with cvs := Function.update g.cvs slot cv }

/-- Store into a slot of `mvs`. -/
def setMv (g : Globals) (slot : ℕ) (mv : Option DistributedMV) : Globals :=
  { g with mvs := Function.update g.mvs slot mv }

variable (g : Globals) (slot : ℕ)

@[simp] theorem setLock_dlocks (l : Option DistributedLock) :
    (g.setLock slot l).dlocks = Function.update g.dlocks slot l := rfl

@[simp] theorem setLock_cvs (l : Option DistributedLock) : (g.setLock slot l).cvs = g.cvs := rfl

@[simp] theorem setLock_mvs (l : Option DistributedLock) : (g.setLock slot l).mvs = g.mvs := rfl

@[simp] theorem setLock_serverCount (l : Option DistributedLock) :
    (g.setLock slot l).serverCount = g.serverCount := rfl

@[simp] theorem setCv_serverCount (cv : Option DistributedCV) :
    (g.setCv slot cv).serverCount = g.serverCount := rfl

@[simp] theorem setMv_serverCount (mv : Option DistributedMV) :
    (g.setMv slot mv).serverCount = g.serverCount := rfl

@[simp] theorem setCv_dlocks (cv : Option DistributedCV) : (g.setCv slot cv).dlocks = g.dlocks := rfl

@[simp] theorem setCv_cvs (cv : Option DistributedCV) :
    (g.setCv slot cv).cvs = Function.update g.cvs slot cv := rfl

@[simp] theorem setCv_mvs (cv : Option DistributedCV) : (g.setCv slot cv).mvs = g.mvs := rfl

@[simp] theorem setMv_dlocks (mv : Option DistributedMV) : (g.setMv slot mv).dlocks = g.dlocks := rfl

@[simp] theorem setMv_cvs (mv : Option DistributedMV) : (g.setMv slot mv).cvs = g.cvs := rfl

@[simp] theorem setMv_mvs (mv : Option DistributedMV) :
    (g.setMv slot mv).mvs = Function.update g.mvs slot mv := rfl

end Globals

/-! ## One call of `processMessage` -/

/-- What a call of `processMessage` finds in its surroundings: the clock, and the
    contents of memory that it reads before writing it. -/
structure Ambient where
  /-- `gettimeofday`. -/
  now : Timeval
  /-- The local `outPktHdr`. -/
  outPktHdr : PacketHeader
  /-- The local `outMailHdr`. -/
  outMailHdr : MailHeader
  /-- The local `int a`. -/
  a : ℤ
  /-- The text in the fresh block `localLockName`. -/
  localLockName : Text
  /-- The text behind the `k`-th heap block passed to `itoa`. -/
  heapTail : ℕ → Text
  /-- The bytes of `client` behind the digits, where the code stores no NUL. -/
  clientTail : Text
  /-- The address of the local array `client`, as `(int)client`. -/
  client : ℤ
  /-- The `value` of a fresh `DistributedMV`. -/
  mvValue : ℤ

/-- All memory clear. -/
def Ambient.clear (now : Timeval) : Ambient where
  now := now
  outPktHdr := ⟨0, 0⟩
  outMailHdr := ⟨0, 0⟩
  a := 0
  localLockName := []
  heapTail _ := []
  clientTail := []
  client := 0
  mvValue := 0

/-- The effect of a call: the globals it leaves, the messages it passes to
    `PostOffice::Send` in their order, and the value it returns. -/
structure Result where
  state : Globals
  out : List Message
  success : Bool

/-- An error return: no message, `return false`. -/
def Result.failed (g : Globals) : Result := ⟨g, [], false⟩

@[simp] theorem Result.failed_state (g : Globals) : (Result.failed g).state = g := rfl

/-- The message that a call `postOffice->Send(pktHdr, mailHdr, data)` passes on, the
    sending machine filled in. Whether `Send` takes it is up to `Mail.send`, where the
    messages of a call are sent (`serve`). -/
def outgoing (t : NetThread) (pktHdr : PacketHeader) (mailHdr : MailHeader) (data : Text) : Message :=
  ⟨{ pktHdr with fromMachine := t.machineID }, mailHdr, data⟩

@[simp] theorem outgoing_dest (t : NetThread) (pktHdr : PacketHeader) (mailHdr : MailHeader) (data : Text) :
    (outgoing t pktHdr mailHdr data).dest = (pktHdr.toMachine, mailHdr.toBox) := rfl

@[simp] theorem outgoing_data (t : NetThread) (pktHdr : PacketHeader) (mailHdr : MailHeader) (data : Text) :
    (outgoing t pktHdr mailHdr data).data = data := rfl

/-- The index of an array of `size` elements. -/
def index (size : ℕ) (i : ℤ) : Except Fault ℕ :=
  if 0 ≤ i ∧ i < size then .ok i.toNat else .error .outOfBounds

theorem index_eq_ok {size : ℕ} {i : ℤ} (h0 : 0 ≤ i) (h : i < size) : index size i = .ok i.toNat :=
  if_pos ⟨h0, h⟩

theorem index_natCast {size i : ℕ} (h : i < size) : index size (i : ℤ) = .ok i :=
  if_pos ⟨by omega, by omega⟩

end Nachos.Network
