import Nachos.Userprog.Paging

/-!
# The stacks of the threads of a process

`AllocateStack` with every field of the page table entries, `Fork_Syscall`, `Fork_Kernel_Thread` and
`InitRegisters` (`userprog/addrspace.cc`, `userprog/exception.cc`, `USE_TLB`). The threads of all
processes run in any order; page faults change the entries of a page table between any two steps.
`forkLock` is held from the allocation of a stack to its use.

* `allocateStack_old`, `allocateStack_fresh`: the new page table.
* `stacks_disjoint`: the threads of a process have disjoint stacks.
-/

namespace Nachos.Userprog

open Nachos.Lib

/-! ## Page tables with every field -/

/-- `class PageTableEntry` (pagetableentry.h). -/
structure FullEntry extends PageTableEntry where
  virtualPage : ℤ
  physicalPage : ℤ
  valid : Bool
  use : Bool
  dirty : Bool
  readOnly : Bool

/-- `pageTable` and `numPages` of `class AddrSpace`: the entries from `numPages` on are not there. -/
structure FullSpace where
  pageTable : ℕ → FullEntry
  numPages : ℕ

namespace FullEntry

/-- The fields that the constructor and `AllocateStack` give to a new entry. -/
def unloaded (e : PageTableEntry) (vpn : ℕ) : FullEntry :=
  { e with
    virtualPage := vpn, physicalPage := -1, valid := false, use := false, dirty := false
    readOnly := false }

/-- One round of the deep copy. -/
def copyFrom (new old : FullEntry) : FullEntry :=
  { new with
    virtualPage := old.virtualPage
    physicalPage := old.physicalPage
    valid := old.valid
    use := old.use
    dirty := old.dirty
    readOnly := old.readOnly
    location := old.location
    executable := old.executable
    byteOffset := old.byteOffset
    swapPageIndex := old.swapPageIndex }

end FullEntry

namespace FullSpace

/-- The constructor (addrspace.cc:130), see `AddrSpace.new`. -/
def new (executable : File) : Option FullSpace :=
  (AddrSpace.new executable).map fun a =>
    { pageTable := fun vpn => .unloaded (a.pageTable.getD vpn .neither) vpn
      numPages := a.numPages }

/-- The deep copy of the first `n` entries. -/
def copyTable (old : ℕ → FullEntry) : ℕ → (ℕ → FullEntry) → ℕ → FullEntry
  | 0, new => new
  | n + 1, new =>
    let new := copyTable old n new
    Function.update new n ((new n).copyFrom (old n))

/-- The entries of a new stack, `n` of them from `first` on. -/
def stackTable (first : ℕ) : ℕ → (ℕ → FullEntry) → ℕ → FullEntry
  | 0, new => new
  | n + 1, new =>
    Function.update (stackTable first n new) (first + n) (.unloaded .neither (first + n))

/-- `AllocateStack` (addrspace.cc:365), with what is in the memory of the new table. -/
def allocateStack (a : FullSpace) (memory : ℕ → FullEntry) : FullSpace where
  pageTable :=
    stackTable a.numPages AddrSpace.numStackPages (copyTable a.pageTable a.numPages memory)
  numPages := a.numPages + AddrSpace.numStackPages

theorem copyTable_of_lt (old memory : ℕ → FullEntry) {n vpn : ℕ} (h : vpn < n) :
    copyTable old n memory vpn = old vpn := by
  induction n with
  | zero => omega
  | succ n ih =>
    rw [copyTable]
    by_cases hvpn : vpn = n
    · subst hvpn
      rw [Function.update_self]
      rfl
    · rw [Function.update_of_ne hvpn, ih (by omega)]

theorem stackTable_of_lt (new : ℕ → FullEntry) {first vpn : ℕ} (n : ℕ) (h : vpn < first) :
    stackTable first n new vpn = new vpn := by
  induction n with
  | zero => rfl
  | succ n ih => rw [stackTable, Function.update_of_ne (by omega), ih]

theorem stackTable_fresh (new : ℕ → FullEntry) {first n vpn : ℕ} (h : first ≤ vpn)
    (h' : vpn < first + n) : stackTable first n new vpn = .unloaded .neither vpn := by
  induction n with
  | zero => omega
  | succ n ih =>
    rw [stackTable]
    by_cases hvpn : vpn = first + n
    · subst hvpn
      rw [Function.update_self]
    · rw [Function.update_of_ne hvpn, ih (by omega)]

variable (a : FullSpace) (memory : ℕ → FullEntry)

/-- **The old entries are kept**, every field of them. -/
theorem allocateStack_old {vpn : ℕ} (h : vpn < a.numPages) :
    (a.allocateStack memory).pageTable vpn = a.pageTable vpn := by
  show stackTable a.numPages _ (copyTable a.pageTable a.numPages memory) vpn = _
  rw [stackTable_of_lt _ _ h, copyTable_of_lt _ _ h]

/-- **The entries of the stack are fresh.** -/
theorem allocateStack_fresh {vpn : ℕ} (h : a.numPages ≤ vpn)
    (h' : vpn < (a.allocateStack memory).numPages) :
    (a.allocateStack memory).pageTable vpn = .unloaded .neither vpn :=
  stackTable_fresh _ h h'

theorem numPages_allocateStack :
    (a.allocateStack memory).numPages = a.numPages + AddrSpace.numStackPages := rfl

/-- The page table without the fields that nothing reads. -/
def toAddrSpace : AddrSpace :=
  ⟨(List.range a.numPages).map fun vpn => (a.pageTable vpn).toPageTableEntry⟩

/-- It is `AddrSpace.allocateStack`. -/
theorem toAddrSpace_allocateStack :
    (a.allocateStack memory).toAddrSpace = a.toAddrSpace.allocateStack := by
  have hlen := numPages_allocateStack a memory
  unfold toAddrSpace AddrSpace.allocateStack
  congr 1
  apply List.ext_getElem
  · simp [hlen]
  · intro vpn h₁ h₂
    rw [List.getElem_map, List.getElem_range]
    rw [List.length_map, List.length_range] at h₁
    by_cases hlt : vpn < a.numPages
    · rw [allocateStack_old a memory hlt, List.getElem_append_left (by simpa using hlt)]
      simp
    · rw [allocateStack_fresh a memory (Nat.not_lt.mp hlt) h₁,
        List.getElem_append_right (by simpa using hlt), List.getElem_replicate]
      rfl

theorem toAddrSpace_new {executable : File} {a : FullSpace} (h : new executable = some a) :
    AddrSpace.new executable = some a.toAddrSpace := by
  obtain ⟨b, hb, rfl⟩ := Option.map_eq_some_iff.mp h
  rw [hb]
  congr 1
  unfold toAddrSpace
  cases b with
  | mk table =>
    congr 1
    apply List.ext_getElem
    · simp [AddrSpace.numPages]
    · intro vpn h₁ h₂
      rw [List.getElem_map, List.getElem_range]
      simp only [FullEntry.unloaded]
      exact (List.getD_eq_getElem _ _ h₁).symm

/-- The program and one stack. -/
theorem numPages_new {executable : File} {noffH : NoffHeader} {a : FullSpace}
    (hheader : executable.noffHeader = some noffH) (h : new executable = some a) :
    (a.numPages : ℤ) = noffH.programPages + AddrSpace.numStackPages := by
  obtain ⟨b, hb, rfl⟩ := Option.map_eq_some_iff.mp h
  unfold AddrSpace.new at hb
  simp only [hheader] at hb
  split_ifs at hb with hpages
  cases hb
  simp only [AddrSpace.numPages, List.length_map, List.length_range]
  omega

end FullSpace

/-! ## Threads -/

/-- A thread of a user program. -/
structure UserThread where
  /-- What `AllocateStack` returned; `none` for the first thread. -/
  stackStartIndex : Option ℕ
  /-- The stack register that the thread starts with, once it has started. -/
  stackReg : Option (BitVec 32)
  deriving DecidableEq

/-- A process, with its threads in the order in which they are created. -/
structure UserProcess where
  space : FullSpace
  /-- The pages of the program, without a stack. -/
  programPages : ℤ
  threads : List UserThread

/-- The processes and `forkLock`. -/
structure ThreadSystem where
  processes : ℕ → UserProcess
  numProcesses : ℕ
  /-- The process for which `Fork_Syscall` has allocated a stack, while it holds `forkLock`. -/
  forking : Option ℕ

/-- Nothing runs yet. -/
def ThreadSystem.new : ThreadSystem where
  processes _ := ⟨⟨fun vpn => .unloaded .neither vpn, 0⟩, 0, []⟩
  numProcesses := 0
  forking := none

/-- `pages * PageSize - 16`, as a register. -/
def stackRegister (pages : ℕ) : BitVec 32 := BitVec.ofNat 32 pages * BitVec.ofNat 32 PageSize - 16

inductive ThreadLabel
  /-- `new AddrSpace(executable)`, for a thread of its own. -/
  | new (executable : File)
  /-- A thread starts: with `InitRegisters` if it is the first one, or else with
      `Fork_Kernel_Thread`. -/
  | start (p k : ℕ)
  /-- `Fork_Syscall` up to the release of `ppnInUseLock`, with what is in the new memory. -/
  | fork (p : ℕ) (functionPtr : BitVec 32) (memory : ℕ → FullEntry)
  /-- The rest of `Fork_Syscall`. -/
  | forked
  /-- A page fault of some thread changes an entry. -/
  | evict (p vpn : ℕ) (swapPageIndex : ℤ) (location : Location)

namespace ThreadSystem

variable (s : ThreadSystem)

/-- Process `p` becomes `x`. -/
def setProcess (p : ℕ) (x : UserProcess) : ThreadSystem :=
  { s with processes := Function.update s.processes p x }

/-- `StartProcess` and `Exec_Syscall`. -/
def newProcess (executable : File) : Except PagingFault ThreadSystem :=
  match executable.noffHeader, FullSpace.new executable with
  | some noffH, some space =>
    .ok { s.setProcess s.numProcesses ⟨space, noffH.programPages, [⟨none, none⟩]⟩ with
      numProcesses := s.numProcesses + 1 }
  | _, _ => .error .assertion

/-- `InitRegisters` (addrspace.cc:308), or `Fork_Kernel_Thread` (exception.cc:472), which waits for
    `forkLock`. -/
def start (p k : ℕ) : Except PagingFault ThreadSystem :=
  match (s.processes p).threads[k]? with
  | some ⟨none, none⟩ =>
    .ok (s.setProcess p { s.processes p with
      threads := (s.processes p).threads.set k
        ⟨none, some (stackRegister (s.processes p).space.numPages)⟩ })
  | some ⟨some index, none⟩ =>
    if s.forking = none then
      .ok (s.setProcess p { s.processes p with
        threads := (s.processes p).threads.set k ⟨some index, some (stackRegister index)⟩ })
    else .error .blocked
  | _ => .error .impossible

/-- `Fork_Syscall` (exception.cc:487) of a thread that runs, up to the end of `AllocateStack`. -/
def fork (c : PagingConfig) (p functionPtr : ℕ) (memory : ℕ → FullEntry) :
    Except PagingFault ThreadSystem :=
  if s.forking ≠ none then .error .blocked
  else if ∀ t ∈ (s.processes p).threads, t.stackReg = none then .error .impossible
  else if functionPtr = 0 ∨ PageSize * c.numPhysPages ≤ functionPtr then .ok s
  else
    .ok { s.setProcess p { s.processes p with
        space := (s.processes p).space.allocateStack memory } with
      forking := some p }

/-- The return value of `AllocateStack` goes to the new thread. -/
def forked : Except PagingFault ThreadSystem :=
  match s.forking with
  | none => .error .impossible
  | some p =>
    .ok { s.setProcess p { s.processes p with
        threads := (s.processes p).threads ++
          [⟨some (s.processes p).space.numPages, none⟩] } with
      forking := none }

/-- `evictAPage` (exception.cc:806, 815). -/
def evict (p vpn : ℕ) (swapPageIndex : ℤ) (location : Location) : Except PagingFault ThreadSystem :=
  if p < s.numProcesses ∧ vpn < (s.processes p).space.numPages then
    .ok (s.setProcess p { s.processes p with
      space := { (s.processes p).space with
        pageTable := Function.update (s.processes p).space.pageTable vpn
          { (s.processes p).space.pageTable vpn with
            swapPageIndex := swapPageIndex, location := location } } })
  else .error .impossible

end ThreadSystem

/-- A step. -/
def threadStep (c : PagingConfig) (s : ThreadSystem) : ThreadLabel → Except PagingFault ThreadSystem
  | .new executable => s.newProcess executable
  | .start p k => s.start p k
  | .fork p functionPtr memory => s.fork c p functionPtr.toNat memory
  | .forked => s.forked
  | .evict p vpn swapPageIndex location => s.evict p vpn swapPageIndex location

/-! ## Stacks -/

/-- `addr` is an address of the page; addresses have 32 bits. -/
def InPage (page : ℤ) (addr : BitVec 32) : Prop :=
  ∃ k : ℕ, k < PageSize ∧ addr = BitVec.ofInt 32 (page * PageSize + k)

/-- A page inside the 32 bits is found by division. -/
theorem InPage.div {page : ℤ} {addr : BitVec 32} (h : InPage page addr) (h₀ : 0 ≤ page)
    (h₁ : page < 2 ^ 25) : ((addr.toNat / PageSize : ℕ) : ℤ) = page := by
  obtain ⟨k, hk, rfl⟩ := h
  unfold PageSize at *
  rw [BitVec.toNat_ofInt]
  omega

/-- The stack register points into the last page. -/
theorem inPage_stackRegister (pages : ℕ) : InPage (pages - 1) (stackRegister pages) := by
  refine ⟨112, by decide, ?_⟩
  apply BitVec.eq_of_toNat_eq
  unfold stackRegister PageSize
  rw [BitVec.toNat_ofInt, BitVec.toNat_sub, BitVec.toNat_mul, BitVec.toNat_ofNat,
    BitVec.toNat_ofNat]
  show (2 ^ 32 - 16 + _) % 2 ^ 32 = _
  omega

theorem numStackPages_eq : AddrSpace.numStackPages = 8 := by decide

namespace UserThread

/-- The page after the stack. The stack of the first thread is behind the program. -/
def stackEnd (t : UserThread) (programPages : ℤ) : ℤ :=
  match t.stackStartIndex with
  | none => programPages + AddrSpace.numStackPages
  | some index => index

/-- The pages of the stack. -/
def stackPages (t : UserThread) (programPages : ℤ) : Set ℤ :=
  Set.Ico (t.stackEnd programPages - AddrSpace.numStackPages) (t.stackEnd programPages)

end UserThread

/-- The stacks of the process follow each other, in the order of the threads. -/
structure UserProcess.Laid (x : UserProcess) (forking : Prop) : Prop where
  stackEnd : ∀ (k : ℕ) t, x.threads[k]? = some t →
    t.stackEnd x.programPages = x.programPages + 8 * (k + 1)
  first : ∀ (k : ℕ) t, x.threads[k]? = some t → (t.stackStartIndex = none ↔ k = 0)
  numPages : (forking ∧ (x.space.numPages : ℤ) = x.programPages + 8 * (x.threads.length + 1)) ∨
    (¬forking ∧ (x.space.numPages : ℤ) = x.programPages + 8 * x.threads.length)
  stackReg : ∀ t ∈ x.threads, ∀ r ∈ t.stackReg,
    ∃ n : ℕ, (n : ℤ) = t.stackEnd x.programPages ∧ r = stackRegister n
  alone : (∃ t, x.threads[0]? = some t ∧ t.stackReg ≠ none) ∨ (x.threads.length = 1 ∧ ¬forking)

/-- Every process is so. -/
structure ThreadSystem.Laid (s : ThreadSystem) : Prop where
  processes : ∀ p < s.numProcesses, (s.processes p).Laid (s.forking = some p)
  unborn : ∀ p, s.numProcesses ≤ p → (s.processes p).threads = []
  forking : ∀ p, s.forking = some p → p < s.numProcesses

namespace UserProcess.Laid

variable {x : UserProcess} {forking : Prop}

/-- A process that has just been created. -/
theorem of_new {executable : File} {noffH : NoffHeader} {space : FullSpace}
    (hheader : executable.noffHeader = some noffH) (hspace : FullSpace.new executable = some space) :
    (UserProcess.mk space noffH.programPages [⟨none, none⟩]).Laid False := by
  have hpages := FullSpace.numPages_new hheader hspace
  constructor
  · intro k t ht
    obtain ⟨hk, rfl⟩ := List.getElem?_eq_some_iff.mp ht
    simp only [List.length_singleton, Nat.lt_one_iff] at hk
    subst hk
    simp [UserThread.stackEnd, numStackPages_eq]
  · intro k t ht
    obtain ⟨hk, rfl⟩ := List.getElem?_eq_some_iff.mp ht
    simp only [List.length_singleton, Nat.lt_one_iff] at hk
    subst hk
    simp
  · exact .inr ⟨not_false, by simpa [numStackPages_eq] using hpages⟩
  · simp
  · exact .inr ⟨rfl, not_false⟩

/-- Nothing depends on the entries of the page table. -/
theorem evict (h : x.Laid forking) (table : ℕ → FullEntry) :
    ({ x with space := { x.space with pageTable := table } } : UserProcess).Laid forking :=
  ⟨h.stackEnd, h.first, h.numPages, h.stackReg, h.alone⟩

/-- A new stack, after the last one. -/
theorem fork (h : x.Laid forking) (hforking : ¬forking) (hstarted : ∃ t ∈ x.threads, t.stackReg ≠ none)
    (memory : ℕ → FullEntry) :
    ({ x with space := x.space.allocateStack memory } : UserProcess).Laid True := by
  refine ⟨h.stackEnd, h.first, .inl ⟨trivial, ?_⟩, h.stackReg, .inl ?_⟩
  · have hpages : (x.space.allocateStack memory).numPages = x.space.numPages + 8 := by
      rw [FullSpace.numPages_allocateStack, numStackPages_eq]
    rcases h.numPages with ⟨hf, -⟩ | ⟨-, hn⟩
    · exact absurd hf hforking
    · show ((x.space.allocateStack memory).numPages : ℤ) = x.programPages + 8 * (x.threads.length + 1)
      omega
  · rcases h.alone with hmain | ⟨hlen, -⟩
    · exact hmain
    · obtain ⟨t, ht, hreg⟩ := hstarted
      obtain ⟨main, hmain⟩ := List.length_eq_one_iff.mp hlen
      rw [hmain, List.mem_singleton] at ht
      subst ht
      exact ⟨t, by rw [hmain]; rfl, hreg⟩

/-- The new thread gets the new stack. -/
theorem forked (h : x.Laid True) :
    ({ x with threads := x.threads ++ [⟨some x.space.numPages, none⟩] } : UserProcess).Laid False := by
  have hmain : ∃ t, x.threads[0]? = some t ∧ t.stackReg ≠ none := by
    simpa using h.alone
  have hpages : (x.space.numPages : ℤ) = x.programPages + 8 * (x.threads.length + 1) := by
    simpa using h.numPages
  have hpos : 0 < x.threads.length := by
    obtain ⟨t, ht, -⟩ := hmain
    exact (List.getElem?_eq_some_iff.mp ht).1
  have hcases (k : ℕ) (t : UserThread)
      (ht : (x.threads ++ [⟨some x.space.numPages, none⟩])[k]? = some t) :
      x.threads[k]? = some t ∨ k = x.threads.length ∧ t = ⟨some x.space.numPages, none⟩ := by
    rcases Nat.lt_or_ge k x.threads.length with hk | hk
    · rw [List.getElem?_append_left hk] at ht
      exact .inl ht
    · rw [List.getElem?_append_right hk, List.getElem?_singleton] at ht
      split_ifs at ht with hk'
      exact .inr ⟨by omega, (Option.some.inj ht).symm⟩
  constructor
  · intro k t ht
    rcases hcases k t ht with hold | ⟨rfl, rfl⟩
    · exact h.stackEnd k t hold
    · exact hpages
  · intro k t ht
    rcases hcases k t ht with hold | ⟨rfl, rfl⟩
    · exact h.first k t hold
    · simp only [reduceCtorEq, false_iff]
      omega
  · refine .inr ⟨not_false, ?_⟩
    rw [List.length_append, List.length_singleton]
    push_cast
    exact hpages
  · intro t ht r hr
    rcases List.mem_append.mp ht with hold | hnew
    · exact h.stackReg t hold r hr
    · rw [List.mem_singleton.mp hnew] at hr
      cases hr
  · obtain ⟨t, ht, hreg⟩ := hmain
    exact .inl ⟨t, by rw [List.getElem?_append_left hpos, ht], hreg⟩

/-- A thread starts, with the stack register at the end of its stack. -/
theorem start (h : x.Laid forking) {k n : ℕ} {t : UserThread} (ht : x.threads[k]? = some t)
    (hn : (n : ℤ) = t.stackEnd x.programPages) :
    ({ x with threads := x.threads.set k ⟨t.stackStartIndex, some (stackRegister n)⟩ } :
      UserProcess).Laid forking := by
  have hcases (j : ℕ) (u : UserThread)
      (hu : (x.threads.set k ⟨t.stackStartIndex, some (stackRegister n)⟩)[j]? = some u) :
      ∃ v, x.threads[j]? = some v ∧ u.stackStartIndex = v.stackStartIndex ∧
        (u.stackReg = v.stackReg ∨ j = k ∧ u.stackReg = some (stackRegister n)) := by
    by_cases hjk : k = j
    · subst hjk
      rw [List.getElem?_set_self (List.getElem?_eq_some_iff.mp ht).1] at hu
      cases hu
      exact ⟨t, ht, rfl, .inr ⟨rfl, rfl⟩⟩
    · rw [List.getElem?_set_ne hjk] at hu
      exact ⟨u, hu, rfl, .inl rfl⟩
  have hend {u v : UserThread} (huv : u.stackStartIndex = v.stackStartIndex) :
      u.stackEnd x.programPages = v.stackEnd x.programPages := by
    unfold UserThread.stackEnd
    rw [huv]
  constructor
  · intro j u hu
    obtain ⟨v, hv, huv, -⟩ := hcases j u hu
    exact (hend huv).trans (h.stackEnd j v hv)
  · intro j u hu
    obtain ⟨v, hv, huv, -⟩ := hcases j u hu
    rw [huv]
    exact h.first j v hv
  · rw [List.length_set]
    exact h.numPages
  · intro u hu r hr
    obtain ⟨j, hj⟩ := List.getElem?_of_mem hu
    obtain ⟨v, hv, huv, hreg | ⟨rfl, hreg⟩⟩ := hcases j u hj
    · rw [hreg] at hr
      obtain ⟨m, hm, rfl⟩ := h.stackReg v (List.mem_of_getElem? hv) r hr
      exact ⟨m, hm.trans (hend huv).symm, rfl⟩
    · rw [hreg, Option.mem_some_iff] at hr
      subst hr
      cases ht.symm.trans hv
      exact ⟨n, hn.trans (hend huv).symm, rfl⟩
  · rcases h.alone with ⟨main, hmain, hreg⟩ | hlen
    · refine .inl ?_
      by_cases hk : k = 0
      · subst hk
        exact ⟨_, List.getElem?_set_self (List.getElem?_eq_some_iff.mp ht).1, by simp⟩
      · exact ⟨main, by rw [List.getElem?_set_ne hk, hmain], hreg⟩
    · rw [List.length_set]
      exact .inr hlen

end UserProcess.Laid

namespace ThreadSystem

variable {s s' : ThreadSystem} {p : ℕ}

/-- One process changes, and perhaps `forking` for it. -/
theorem Laid.setProcess (h : s.Laid) {x : UserProcess} {forking : Option ℕ}
    (hp : p < s.numProcesses) (hforking : ∀ q ≠ p, (forking = some q ↔ s.forking = some q))
    (hx : x.Laid (forking = some p)) : ({ s.setProcess p x with forking := forking }).Laid := by
  constructor
  · intro q hq
    by_cases hqp : q = p
    · subst hqp
      simpa [ThreadSystem.setProcess] using hx
    · simpa [ThreadSystem.setProcess, hqp, hforking q hqp] using h.processes q hq
  · intro q hq
    have hqp : q ≠ p := by
      rintro rfl
      exact absurd hp (Nat.not_lt.mpr hq)
    simpa [ThreadSystem.setProcess, hqp] using h.unborn q hq
  · intro q hq
    by_cases hqp : q = p
    · subst hqp
      exact hp
    · exact h.forking q ((hforking q hqp).mp hq)

/-- A process with a thread is one of the processes. -/
theorem Laid.lt (h : s.Laid) {t : UserThread} (ht : t ∈ (s.processes p).threads) :
    p < s.numProcesses := by
  by_contra hp
  rw [h.unborn p (Nat.not_lt.mp hp)] at ht
  exact List.not_mem_nil ht

theorem laid_new : ThreadSystem.new.Laid :=
  ⟨nofun, fun _ _ => rfl, nofun⟩

theorem Laid.newProcess (h : s.Laid) {executable : File} (hs : s.newProcess executable = .ok s') :
    s'.Laid := by
  unfold ThreadSystem.newProcess at hs
  split at hs
  · rename_i noffH space hheader hspace
    cases hs
    constructor
    · intro q hq
      by_cases hqn : q = s.numProcesses
      · subst hqn
        have hnot : ¬s.forking = some s.numProcesses :=
          fun hf => Nat.lt_irrefl _ (h.forking _ hf)
        simpa [ThreadSystem.setProcess, hnot] using UserProcess.Laid.of_new hheader hspace
      · have hlt : q < s.numProcesses := by
          change q < s.numProcesses + 1 at hq
          omega
        simpa [ThreadSystem.setProcess, hqn] using h.processes q hlt
    · intro q hq
      change s.numProcesses + 1 ≤ q at hq
      have hqn : q ≠ s.numProcesses := by omega
      simpa [ThreadSystem.setProcess, hqn] using h.unborn q (by omega)
    · intro q hq
      exact Nat.lt_succ_of_lt (h.forking q hq)
  · cases hs

theorem Laid.start (h : s.Laid) {k : ℕ} (hs : s.start p k = .ok s') : s'.Laid := by
  unfold ThreadSystem.start at hs
  split at hs
  · rename_i ht
    cases hs
    have hp := h.lt (List.mem_of_getElem? ht)
    have hx := h.processes p hp
    have hk : k = 0 := (hx.first k _ ht).mp rfl
    subst hk
    -- The first thread starts before any other is created.
    have hlen : (s.processes p).threads.length = 1 ∧ ¬s.forking = some p := by
      rcases hx.alone with ⟨t, ht', hreg⟩ | hlen
      · cases ht.symm.trans ht'
        exact absurd rfl hreg
      · exact hlen
    have hpages : ((s.processes p).space.numPages : ℤ) =
        (s.processes p).programPages + 8 * (s.processes p).threads.length := by
      rcases hx.numPages with ⟨hf, -⟩ | ⟨-, hn⟩
      · exact absurd hf hlen.2
      · exact hn
    refine h.setProcess hp (fun _ _ => Iff.rfl) (hx.start ht ?_)
    rw [hpages, hlen.1]
    rfl
  · rename_i index ht
    split_ifs at hs
    cases hs
    have hp := h.lt (List.mem_of_getElem? ht)
    exact h.setProcess hp (fun _ _ => Iff.rfl) ((h.processes p hp).start ht rfl)
  · cases hs

theorem Laid.fork (h : s.Laid) {c : PagingConfig} {functionPtr : ℕ} {memory : ℕ → FullEntry}
    (hs : s.fork c p functionPtr memory = .ok s') : s'.Laid := by
  unfold ThreadSystem.fork at hs
  split_ifs at hs with hforking hstarted
  · cases hs
    exact h
  · cases hs
    rw [not_not] at hforking
    push Not at hstarted
    obtain ⟨t, ht, hreg⟩ := hstarted
    have hp := h.lt ht
    refine h.setProcess hp ?_ ?_
    · intro q hq
      simp [hforking, hq.symm]
    · simpa using (h.processes p hp).fork (by simp [hforking]) ⟨t, ht, hreg⟩ memory

theorem Laid.forked (h : s.Laid) (hs : s.forked = .ok s') : s'.Laid := by
  unfold ThreadSystem.forked at hs
  split at hs
  · cases hs
  · rename_i p hforking
    cases hs
    have hp := h.forking p hforking
    have hx := h.processes p hp
    refine h.setProcess hp ?_ ?_
    · intro q hq
      simp [hforking, hq.symm]
    · simpa using UserProcess.Laid.forked (by simpa [hforking] using hx)

theorem Laid.evict (h : s.Laid) {vpn : ℕ} {swapPageIndex : ℤ} {location : Location}
    (hs : s.evict p vpn swapPageIndex location = .ok s') : s'.Laid := by
  unfold ThreadSystem.evict at hs
  split_ifs at hs with hp
  cases hs
  exact h.setProcess hp.1 (fun _ _ => Iff.rfl) ((h.processes p hp.1).evict _)

end ThreadSystem

/-- **Step lemma.** Every step keeps the layout. -/
theorem laid_step {c : PagingConfig} (s : ThreadSystem) (l : ThreadLabel) (s' : ThreadSystem)
    (h : s.Laid) (hs : threadStep c s l = .ok s') : s'.Laid := by
  cases l with
  | new executable => exact h.newProcess hs
  | start p k => exact h.start hs
  | fork p functionPtr memory => exact h.fork hs
  | forked => exact h.forked hs
  | evict p vpn swapPageIndex location => exact h.evict hs

/-- The stacks of a process are behind each other, behind the program and inside the table. -/
theorem UserProcess.Laid.stacks {x : UserProcess} {forking : Prop} (h : x.Laid forking) :
    (x.threads.Pairwise fun t u =>
      Disjoint (t.stackPages x.programPages) (u.stackPages x.programPages)) ∧
    ∀ t ∈ x.threads,
      Disjoint (t.stackPages x.programPages) (Set.Ico 0 x.programPages) ∧
      t.stackPages x.programPages ⊆ Set.Iio (x.space.numPages : ℤ) ∧
      ∀ r ∈ t.stackReg, InPage (t.stackEnd x.programPages - 1) r ∧
        (t.stackEnd x.programPages ∈ Set.Ioc 0 (2 ^ 25) →
          (r.toNat / PageSize : ℕ) = t.stackEnd x.programPages - 1) := by
  constructor
  · rw [List.pairwise_iff_getElem]
    intro j k hj hk hjk
    have hj := h.stackEnd j _ (List.getElem?_eq_getElem hj)
    have hk := h.stackEnd k _ (List.getElem?_eq_getElem hk)
    rw [Set.disjoint_left]
    unfold UserThread.stackPages
    rw [hj, hk, numStackPages_eq]
    rintro page ⟨-, hlt⟩ ⟨hge, -⟩
    omega
  · intro t ht
    obtain ⟨k, hk⟩ := List.getElem?_of_mem ht
    have hend := h.stackEnd k t hk
    have hlt := (List.getElem?_eq_some_iff.mp hk).1
    refine ⟨?_, ?_, ?_⟩
    · rw [Set.disjoint_left]
      unfold UserThread.stackPages
      rw [hend, numStackPages_eq]
      rintro page ⟨hge, -⟩ ⟨-, hpage⟩
      omega
    · unfold UserThread.stackPages
      rw [hend]
      rintro page ⟨-, hpage⟩
      have hpages := h.numPages
      rw [Set.mem_Iio]
      omega
    · intro r hr
      obtain ⟨n, hn, rfl⟩ := h.stackReg t ht r hr
      rw [← hn]
      have hpage := inPage_stackRegister n
      exact ⟨hpage, fun hlt => hpage.div (by have := hlt.1; omega) (by have := hlt.2; omega)⟩

/-- **The stacks of the threads are disjoint.** In every run the stacks of the threads of a process
    are disjoint from each other and from the program, and a thread starts in the last page of its
    own. A new stack keeps every field of every entry, and its own entries are fresh. -/
theorem stacks_disjoint (c : PagingConfig) {l : List ThreadLabel} {s : ThreadSystem}
    (h : exec (threadStep c) .new l = .ok s) :
    (∀ p < s.numProcesses,
      ((s.processes p).threads.Pairwise fun t u =>
        Disjoint (t.stackPages (s.processes p).programPages)
          (u.stackPages (s.processes p).programPages)) ∧
      ∀ t ∈ (s.processes p).threads,
        Disjoint (t.stackPages (s.processes p).programPages)
          (Set.Ico 0 (s.processes p).programPages) ∧
        t.stackPages (s.processes p).programPages ⊆
          Set.Iio ((s.processes p).space.numPages : ℤ) ∧
        ∀ r ∈ t.stackReg, InPage (t.stackEnd (s.processes p).programPages - 1) r ∧
          (t.stackEnd (s.processes p).programPages ∈ Set.Ioc 0 (2 ^ 25) →
            (r.toNat / PageSize : ℕ) = t.stackEnd (s.processes p).programPages - 1)) ∧
    ∀ (a : FullSpace) (memory : ℕ → FullEntry),
      (a.allocateStack memory).numPages = a.numPages + AddrSpace.numStackPages ∧
      (∀ vpn < a.numPages, (a.allocateStack memory).pageTable vpn = a.pageTable vpn) ∧
      ∀ vpn, a.numPages ≤ vpn → vpn < (a.allocateStack memory).numPages →
        (a.allocateStack memory).pageTable vpn = .unloaded .neither vpn := by
  constructor
  · have hlaid := exec_preserves laid_step ThreadSystem.laid_new h
    intro p hp
    exact (hlaid.processes p hp).stacks
  · intro a memory
    exact ⟨a.numPages_allocateStack memory, fun _ => a.allocateStack_old memory,
      fun _ => a.allocateStack_fresh memory⟩

/-- A program that forks: two stacks behind one page. -/
theorem stacks_disjoint_forked :
    ∃ s, exec (threadStep ⟨32, 4, false, by decide, by decide⟩) .new
        [.new oneInstruction, .start 0 0, .fork 0 4 fun vpn => .unloaded .neither vpn, .forked,
          .start 0 1] = .ok s ∧
      (s.processes 0).threads = [⟨none, some 1136⟩, ⟨some 17, some 2160⟩] ∧
      Disjoint ((UserThread.mk none (some 1136)).stackPages (s.processes 0).programPages)
        ((UserThread.mk (some 17) (some 2160)).stackPages (s.processes 0).programPages) := by
  have hrun : Ends (threadStep ⟨32, 4, false, by decide, by decide⟩) .new
      [.new oneInstruction, .start 0 0, .fork 0 4 fun vpn => .unloaded .neither vpn, .forked,
        .start 0 1]
      fun s => s.numProcesses = 1 ∧
        (s.processes 0).threads = [⟨none, some 1136⟩, ⟨some 17, some 2160⟩] := by
    decide +kernel
  obtain ⟨s, hs, hnum, hthreads⟩ := hrun
  refine ⟨s, hs, hthreads, ?_⟩
  have hstacks := ((stacks_disjoint _ hs).1 0 (by omega)).1
  rw [hthreads, List.pairwise_pair] at hstacks
  exact hstacks

end Nachos.Userprog
