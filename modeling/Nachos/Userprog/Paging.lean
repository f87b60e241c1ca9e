import Nachos.Lib.Run
import Nachos.Userprog.AddrSpace
import Nachos.Userprog.BitMap

/-!
# Demand paging

The kernel with a TLB (`USE_TLB`): address translation (`machine/translate.cc`), the page faults
(`userprog/exception.cc`), the swap file (`userprog/swapfile.cc`) and where `Scheduler::Run`, `Fork`
and `Exec` empty the TLB. A process is the number of its address space; no address space is ever
deleted. A page fault is handled without preemption, so the locks are left out.

A step stops with a fault if Nachos stops, or if it uses a page table outside its bounds.

* `pagingStep`: a step, with the events that it adds to the history.
-/

namespace Nachos.Userprog

open Nachos.Lib

/-! ## The tables -/

/-- The machine and the flags of the command line. -/
structure PagingConfig where
  numPhysPages : ℕ
  tlbSize : ℕ
  useRandomPageEviction : Bool
  numPhysPages_pos : 0 < numPhysPages
  tlbSize_pos : 0 < tlbSize

/-- `class TranslationEntry` (translate.h), in the TLB. -/
structure TranslationEntry where
  virtualPage : ℤ
  physicalPage : ℕ
  valid : Bool
  readOnly : Bool
  use : Bool
  dirty : Bool

/-- `class IPTEntry` (IPT.h). -/
structure IPTEntry where
  virtualPage : ℤ
  physicalPage : ℕ
  valid : Bool
  use : Bool
  dirty : Bool
  readOnly : Bool
  /-- The number of the address space; `none` for `NULL`. -/
  processID : Option ℕ

/-- swapfile.h:41. -/
abbrev MAX_SWAP_PAGES : ℕ := 16000

/-- `class SwapFile` (swapfile.h). -/
structure SwapFile where
  swap : File
  pageMap : BitMap

/-- What stops a step. -/
inductive PagingFault
  /-- `interrupt->Halt()` after an exception. -/
  | halt
  /-- `GetSwapPageIndex` halts: no slot is left. -/
  | swapFull
  /-- A page table is used outside its bounds. -/
  | outside
  /-- `ASSERT`, in the kernel or in `Lseek`. -/
  | assertion
  /-- `ppnQueue->Remove()` waits for an element. -/
  | blocked
  /-- `NULL` is used. -/
  | null
  /-- The environment cannot take this step. -/
  | impossible
  deriving DecidableEq

/-- The globals. -/
structure VirtualMemory where
  /-- The bytes of each frame. -/
  mainMemory : ℕ → Page
  tlb : ℕ → TranslationEntry
  currentTLBIndex : ℕ
  ipt : ℕ → IPTEntry
  ppnInUseBitMap : BitMap
  ppnQueue : List ℕ
  swapFile : SwapFile
  spaces : ℕ → AddrSpace
  /-- The number of address spaces. -/
  numSpaces : ℕ
  /-- `currentThread->space`. -/
  space : Option ℕ

/-- What happens, for the history. -/
inductive PagingEvent
  /-- `new AddrSpace(executable)`. -/
  | created (executable : File)
  /-- The page of the process is stored in the swap file, with the bytes taken from memory. -/
  | stored (process : ℕ) (vpn : ℤ) (bytes : Page)
  /-- The page of the process is brought into the frame, from the location. The frame had the old
      bytes, and it has the new ones. -/
  | loaded (process : ℕ) (vpn : ℤ) (ppn : ℕ) (location : Location) (old new : Page)

namespace SwapFile

/-- The constructor (swapfile.cc:27). -/
def new : SwapFile := ⟨.empty, .new MAX_SWAP_PAGES⟩

/-- `GetSwapPageIndex` (swapfile.cc:62). -/
def getSwapPageIndex (f : SwapFile) : Except PagingFault (ℤ × SwapFile) :=
  match f.pageMap.find with
  | none => .error .swapFull
  | some (i, pageMap) => .ok (i, { f with pageMap := pageMap })

/-- `Load` (swapfile.cc:81), into a frame with the bytes. -/
def load (f : SwapFile) (index : ℤ) (into : Page) : Page :=
  f.swap.readAt into (index.toNat * PageSize)

/-- `Store` (swapfile.cc:102) of the bytes of a frame. -/
def store (f : SwapFile) (index : ℤ) (bytes : Page) : SwapFile :=
  { f with swap := f.swap.writeAt bytes (index.toNat * PageSize) }

/-- The slot of a page: the one it has, or a new one (exception.cc:806). -/
def slotFor (f : SwapFile) (e : PageTableEntry) : Except PagingFault (ℤ × SwapFile) :=
  if e.swapPageIndex < 0 then f.getSwapPageIndex else .ok (e.swapPageIndex, f)

/-- `isValidIndex` (swapfile.cc:151). -/
def IsValidIndex (f : SwapFile) (index : ℤ) : Prop :=
  0 ≤ index ∧ index < MAX_SWAP_PAGES ∧ f.pageMap.map index.toNat = true

end SwapFile

namespace VirtualMemory

/-- `Initialize` (system.cc:866) and the constructor of the machine. -/
def new (c : PagingConfig) : VirtualMemory where
  mainMemory _ _ := 0
  tlb _ := ⟨0, 0, false, false, false, false⟩
  currentTLBIndex := 0
  ipt i := ⟨-1, i, false, false, false, false, none⟩
  ppnInUseBitMap := .new c.numPhysPages
  ppnQueue := []
  swapFile := .new
  spaces _ := ⟨[]⟩
  numSpaces := 0
  space := none

/-! ## Page faults -/

/-- `findIPTIndex` (exception.cc:744). -/
def findIPTIndex (c : PagingConfig) (s : VirtualMemory) (vpn : ℤ) : Option ℕ :=
  (List.range c.numPhysPages).find? fun i =>
    (s.ipt i).valid && (s.ipt i).virtualPage == vpn && (s.ipt i).processID == s.space

/-- The frame that `evictAPage` (exception.cc:760) chooses. The number is what `Random` returns. -/
def chooseVictim (c : PagingConfig) (s : VirtualMemory) (random : ℕ) :
    Except PagingFault (ℕ × VirtualMemory) :=
  if c.useRandomPageEviction then .ok (random % c.numPhysPages, s)
  else
    match s.ppnQueue with
    | [] => .error .blocked
    | ppn :: queue => .ok (ppn, { s with ppnQueue := queue })

/-- The first TLB entry of the frame becomes invalid, if the page is one of the running process
    (exception.cc:786). -/
def invalidate (c : PagingConfig) (s : VirtualMemory) (ppn : ℕ) : VirtualMemory :=
  if (s.ipt ppn).processID = s.space then
    match (List.range c.tlbSize).find? fun i =>
        (s.tlb i).valid && (s.tlb i).physicalPage == ppn with
    | none => s
    | some i => { s with tlb := Function.update s.tlb i { s.tlb i with valid := false } }
  else s

/-- A page that is dirty goes to the swap file (exception.cc:802). -/
def writeBack (s : VirtualMemory) (ppn : ℕ) :
    Except PagingFault (VirtualMemory × List PagingEvent) :=
  if (s.ipt ppn).dirty then
    match (s.ipt ppn).processID with
    | none => .error .null
    | some p =>
      match (s.spaces p).lookup (s.ipt ppn).virtualPage with
      | none => .error .outside
      | some e => do
        let (index, swapFile) ← s.swapFile.slotFor e
        return ({ s with
            swapFile := swapFile.store index (s.mainMemory ppn)
            spaces := Function.update s.spaces p ((s.spaces p).set (s.ipt ppn).virtualPage
              { e with swapPageIndex := index, location := .inSwapFile }) },
          [.stored p (s.ipt ppn).virtualPage (s.mainMemory ppn)])
  else return (s, [])

/-- `evictAPage` (exception.cc:760). -/
def evictAPage (c : PagingConfig) (s : VirtualMemory) (random : ℕ) :
    Except PagingFault (ℕ × VirtualMemory × List PagingEvent) := do
  let (ppn, s) ← s.chooseVictim c random
  let (s, events) ← (s.invalidate c ppn).writeBack ppn
  return (ppn, s, events)

/-- The frame goes to the end of the queue (exception.cc:835). -/
def enqueue (c : PagingConfig) (s : VirtualMemory) (ppn : ℕ) : VirtualMemory :=
  if c.useRandomPageEviction then s else { s with ppnQueue := s.ppnQueue ++ [ppn] }

/-- The frame for a page, free or evicted (exception.cc:826). -/
def takeFrame (c : PagingConfig) (s : VirtualMemory) (random : ℕ) :
    Except PagingFault (ℕ × VirtualMemory × List PagingEvent) :=
  match s.ppnInUseBitMap.find with
  | some (ppn, bitMap) => .ok (ppn, { s with ppnInUseBitMap := bitMap }, [])
  | none => s.evictAPage c random

/-- The bytes of the page, in a frame with the old bytes (exception.cc:845). -/
def readPage (s : VirtualMemory) (e : PageTableEntry) (old : Page) : Except PagingFault Page :=
  match e.location with
  | .inExecutable =>
    match e.executable with
    | none => .error .null
    | some executable =>
      if 0 ≤ e.byteOffset then .ok (executable.readAt old e.byteOffset.toNat)
      else .error .assertion
  | .inSwapFile =>
    if 0 ≤ e.swapPageIndex then .ok (s.swapFile.load e.swapPageIndex old)
    else .error .assertion
  | .neither => .ok fun _ => 0

/-- The page of the process is in the frame (exception.cc:868). -/
def populate (s : VirtualMemory) (ppn p : ℕ) (vpn : ℤ) (bytes : Page) : VirtualMemory :=
  { s with
    mainMemory := Function.update s.mainMemory ppn bytes
    ipt := Function.update s.ipt ppn ⟨vpn, ppn, true, false, false, false, some p⟩ }

/-- `loadPageIntoIPT` (exception.cc:822). -/
def loadPageIntoIPT (c : PagingConfig) (s : VirtualMemory) (vpn : ℤ) (random : ℕ) :
    Except PagingFault (ℕ × VirtualMemory × List PagingEvent) := do
  let (ppn, s, events) ← s.takeFrame c random
  match s.space with
  | none => .error .null
  | some p =>
    match (s.spaces p).lookup vpn with
    | none => .error .outside
    | some e => do
      let bytes ← s.readPage e (s.mainMemory ppn)
      return (ppn, (s.enqueue c ppn).populate ppn p vpn bytes,
        events ++ [.loaded p vpn ppn e.location (s.mainMemory ppn) bytes])

/-- The dirty bit of the TLB entry goes to its frame, if the entry is valid. -/
def propagate (s : VirtualMemory) (i : ℕ) : VirtualMemory :=
  if (s.tlb i).valid then
    { s with
      ipt := Function.update s.ipt (s.tlb i).physicalPage
        { s.ipt (s.tlb i).physicalPage with dirty := (s.tlb i).dirty } }
  else s

/-- The TLB entry takes the fields of the frame, and the next entry is the next to be used
    (exception.cc:893). -/
def refill (c : PagingConfig) (s : VirtualMemory) (ppn : ℕ) : VirtualMemory :=
  { s with
    tlb := Function.update s.tlb s.currentTLBIndex
      { virtualPage := (s.ipt ppn).virtualPage
        physicalPage := (s.ipt ppn).physicalPage
        valid := (s.ipt ppn).valid
        readOnly := (s.ipt ppn).readOnly
        use := (s.ipt ppn).use
        dirty := (s.ipt ppn).dirty }
    currentTLBIndex := (s.currentTLBIndex + 1) % c.tlbSize }

/-- `updateTLBFromIPT` (exception.cc:883). -/
def updateTLBFromIPT (c : PagingConfig) (s : VirtualMemory) (ppn : ℕ) : VirtualMemory :=
  (s.propagate s.currentTLBIndex).refill c ppn

/-- `HandlePageFault` (exception.cc:908). -/
def handlePageFault (c : PagingConfig) (s : VirtualMemory) (badVAddr : ℤ) (random : ℕ) :
    Except PagingFault (VirtualMemory × List PagingEvent) :=
  match s.findIPTIndex c (badVAddr.tdiv PageSize) with
  | some ppn => .ok (s.updateTLBFromIPT c ppn, [])
  | none => do
    let (ppn, s, events) ← s.loadPageIntoIPT c (badVAddr.tdiv PageSize) random
    return (s.updateTLBFromIPT c ppn, events)

/-! ## Loads and stores -/

/-- The bytes of a load or a store. -/
inductive Width
  | byte
  | half
  | word
  deriving DecidableEq

/-- `size`. -/
def Width.size : Width → ℕ
  | .byte => 1
  | .half => 2
  | .word => 4

/-- machine.h. -/
inductive ExceptionType
  | pageFaultException
  | readOnlyException
  | busErrorException
  | addressErrorException
  deriving DecidableEq

/-- The loop of `Translate` over the TLB. -/
def findTLBIndex (c : PagingConfig) (s : VirtualMemory) (vpn : ℕ) : Option ℕ :=
  (List.range c.tlbSize).find? fun i =>
    (s.tlb i).valid && (s.tlb i).virtualPage % 2 ^ 32 == (vpn : ℤ)

/-- `Translate` (translate.cc:197): the frame. -/
def translate (c : PagingConfig) (s : VirtualMemory) (virtAddr : BitVec 32) (size : Width)
    (writing : Bool) : Except ExceptionType (ℕ × VirtualMemory) :=
  if virtAddr.toNat % size.size ≠ 0 then .error .addressErrorException
  else
    match s.findTLBIndex c (virtAddr.toNat / PageSize) with
    | none => .error .pageFaultException
    | some i =>
      if (s.tlb i).readOnly && writing then .error .readOnlyException
      else if c.numPhysPages ≤ (s.tlb i).physicalPage then .error .busErrorException
      else .ok ((s.tlb i).physicalPage,
        { s with
          tlb := Function.update s.tlb i
            { s.tlb i with use := true, dirty := (s.tlb i).dirty || writing } })

/-- What a user program does with an address. An instruction fetch is a load of a word. -/
inductive Access
  | load (size : Width)
  | store (size : Width) (value : BitVec 32)

namespace Access

def size : Access → Width
  | .load size => size
  | .store size _ => size

def writing : Access → Bool
  | .load _ => false
  | .store .. => true

/-- The page after the access. The bytes in memory are in the order of the machine. -/
def apply (virtAddr : BitVec 32) (page : Page) : Access → Page
  | .load _ => page
  | .store size value => fun k =>
    if virtAddr.toNat % PageSize ≤ k ∧ k < virtAddr.toNat % PageSize + size.size then
      UInt8.ofNat (value.toNat / 256 ^ (k - virtAddr.toNat % PageSize))
    else page k

end Access

/-- `ReadMem` and `WriteMem` (translate.cc:88, 142), with the handler of the exception. -/
def accessMem (c : PagingConfig) (s : VirtualMemory) (virtAddr : BitVec 32) (a : Access)
    (random : ℕ) : Except PagingFault (VirtualMemory × List PagingEvent) :=
  match s.translate c virtAddr a.size a.writing with
  | .ok (ppn, s) =>
    .ok ({ s with mainMemory :=
      Function.update s.mainMemory ppn (a.apply virtAddr (s.mainMemory ppn)) }, [])
  | .error .pageFaultException => s.handlePageFault c virtAddr.toInt random
  | .error _ => .error .halt

/-! ## Threads and processes -/

/-- Every entry of the TLB becomes invalid (exception.cc:449, 509). -/
def invalidateTLB (s : VirtualMemory) : VirtualMemory :=
  { s with tlb := fun i => { s.tlb i with valid := false } }

/-- The loop of `Scheduler::Run` (scheduler.cc:106), with the entries below `n`. -/
def flush (s : VirtualMemory) : ℕ → VirtualMemory
  | 0 => s
  | n + 1 => (s.flush n).propagate n

/-- `Scheduler::Run`: the next thread belongs to the process, if any. -/
def switch (c : PagingConfig) (s : VirtualMemory) (next : Option ℕ) :
    Except PagingFault (VirtualMemory × List PagingEvent) :=
  if ∀ p ∈ next, p < s.numSpaces then
    .ok ({ (s.flush c.tlbSize).invalidateTLB with space := next }, [])
  else .error .impossible

/-- `new AddrSpace(executable)`. -/
def newSpace (s : VirtualMemory) (executable : File) :
    Except PagingFault (VirtualMemory × List PagingEvent) :=
  match AddrSpace.new executable with
  | none => .error .assertion
  | some a =>
    .ok ({ s with
      spaces := Function.update s.spaces s.numSpaces a
      numSpaces := s.numSpaces + 1 }, [.created executable])

/-- `StartProcess` (progtest.cc:26), by the thread of `main`. -/
def startProcess (s : VirtualMemory) (executable : File) :
    Except PagingFault (VirtualMemory × List PagingEvent) :=
  match s.space with
  | some _ => .error .impossible
  | none => do
    let (s', events) ← s.newSpace executable
    return ({ s' with space := some s.numSpaces }, events)

/-- `Exec_Syscall` (exception.cc:401), once the file is open. -/
def exec_Syscall (s : VirtualMemory) (executable : File) :
    Except PagingFault (VirtualMemory × List PagingEvent) := do
  let (s, events) ← s.newSpace executable
  return (s.invalidateTLB, events)

/-- `AllocateStack`, for a process. -/
def allocateStack (s : VirtualMemory) (p : ℕ) : VirtualMemory :=
  { s with spaces := Function.update s.spaces p (s.spaces p).allocateStack }

/-- `Fork_Syscall` (exception.cc:487). -/
def fork_Syscall (c : PagingConfig) (s : VirtualMemory) (functionPtr : ℕ) :
    Except PagingFault (VirtualMemory × List PagingEvent) :=
  if functionPtr = 0 ∨ PageSize * c.numPhysPages ≤ functionPtr then .ok (s, [])
  else
    match s.space with
    | none => .error .null
    | some p =>
      .ok ((s.allocateStack p).invalidateTLB, [])

end VirtualMemory

/-! ## Runs -/

/-- What happens next, with what `Random` returns. -/
inductive PagingLabel
  /-- The running process uses an address; an access that faults is tried again in a later step. -/
  | access (virtAddr : BitVec 32) (a : VirtualMemory.Access) (random : ℕ)
  | switch (next : Option ℕ)
  | startProcess (executable : File)
  | exec (executable : File)
  | fork (functionPtr : BitVec 32)

open VirtualMemory

/-- A step, with its events. -/
def pagingStep (c : PagingConfig) (s : VirtualMemory) :
    PagingLabel → Except PagingFault (VirtualMemory × List PagingEvent)
  | .access virtAddr a random => s.accessMem c virtAddr a random
  | .switch next => s.switch c next
  | .startProcess executable => s.startProcess executable
  | .exec executable => s.exec_Syscall executable
  | .fork functionPtr => s.fork_Syscall c functionPtr.toNat

/-- A step that adds its events to the history. -/
def historyStep (c : PagingConfig) (s : VirtualMemory × List PagingEvent) (l : PagingLabel) :
    Except PagingFault (VirtualMemory × List PagingEvent) := do
  let (s', events) ← pagingStep c s.1 l
  return (s', s.2 ++ events)

end Nachos.Userprog
