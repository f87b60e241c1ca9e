import Nachos.Userprog.Paging

/-!
# What the paging functions do

* `writeBack_cases`, `takeFrame_cases`, `handlePageFault_cases`: how each can succeed.
* `switch_eq_ok`, `newSpace_eq_ok`, `fork_Syscall_cases`: the same for threads and processes.
-/

namespace Nachos.Userprog

open Nachos.Lib

namespace VirtualMemory

variable {c : PagingConfig} {s s' : VirtualMemory} {events : List PagingEvent} {vpn : ℤ}
  {ppn i random : ℕ}

/-! ## Lookups -/

theorem findIPTIndex_eq_some (h : s.findIPTIndex c vpn = some ppn) :
    ppn < c.numPhysPages ∧ (s.ipt ppn).valid = true ∧ (s.ipt ppn).virtualPage = vpn ∧
      (s.ipt ppn).processID = s.space := by
  have hlt := List.mem_range.mp (List.mem_of_find?_eq_some h)
  have hfound := List.find?_some h
  simp only [Bool.and_eq_true, beq_iff_eq] at hfound
  exact ⟨hlt, hfound.1.1, hfound.1.2, hfound.2⟩

theorem findIPTIndex_eq_none (h : s.findIPTIndex c vpn = none) (hlt : ppn < c.numPhysPages)
    (hvalid : (s.ipt ppn).valid = true) (hvpn : (s.ipt ppn).virtualPage = vpn) :
    (s.ipt ppn).processID ≠ s.space := by
  have hnot := List.find?_eq_none.mp h ppn (List.mem_range.mpr hlt)
  simpa [hvalid, hvpn] using hnot

theorem findTLBIndex_eq_some {n : ℕ} (h : s.findTLBIndex c n = some i) :
    i < c.tlbSize ∧ (s.tlb i).valid = true ∧ (s.tlb i).virtualPage % 2 ^ 32 = n := by
  have hlt := List.mem_range.mp (List.mem_of_find?_eq_some h)
  have hfound := List.find?_some h
  simp only [Bool.and_eq_true, beq_iff_eq] at hfound
  exact ⟨hlt, hfound.1, hfound.2⟩

theorem findTLBIndex_eq_none {n : ℕ} (h : s.findTLBIndex c n = none) (hlt : i < c.tlbSize)
    (hvalid : (s.tlb i).valid = true) : (s.tlb i).virtualPage % 2 ^ 32 ≠ n := by
  have hnot := List.find?_eq_none.mp h i (List.mem_range.mpr hlt)
  simpa [hvalid] using hnot

/-! ## The cases of each function -/

/-- `translate` finds the first entry, and changes its bits. -/
theorem translate_eq_ok {virtAddr : BitVec 32} {size : Width} {writing : Bool}
    (h : s.translate c virtAddr size writing = .ok (ppn, s')) :
    ∃ i, s.findTLBIndex c (virtAddr.toNat / PageSize) = some i ∧ ppn = (s.tlb i).physicalPage ∧
      s' = { s with
        tlb := Function.update s.tlb i
          { s.tlb i with use := true, dirty := (s.tlb i).dirty || writing } } := by
  unfold translate at h
  split_ifs at h
  split at h
  · cases h
  · rename_i i hi
    split_ifs at h
    cases h
    exact ⟨i, hi, rfl, rfl⟩

/-- A page fault is a miss. -/
theorem translate_eq_pageFault {virtAddr : BitVec 32} {size : Width} {writing : Bool}
    (h : s.translate c virtAddr size writing = .error .pageFaultException) :
    s.findTLBIndex c (virtAddr.toNat / PageSize) = none := by
  unfold translate at h
  split_ifs at h
  · cases h
  · split at h
    · rename_i hnone
      exact hnone
    · split_ifs at h
      all_goals cases h

theorem slotFor_cases {f f' : SwapFile} {e : PageTableEntry} {index : ℤ}
    (h : f.slotFor e = .ok (index, f')) :
    (0 ≤ e.swapPageIndex ∧ index = e.swapPageIndex ∧ f' = f) ∨
      (e.swapPageIndex < 0 ∧ ∃ k b, f.pageMap.find = some (k, b) ∧ index = k ∧
        f' = { f with pageMap := b }) := by
  unfold SwapFile.slotFor at h
  split_ifs at h with hneg
  · unfold SwapFile.getSwapPageIndex at h
    split at h
    · cases h
    · rename_i k b hfind
      cases h
      exact .inr ⟨hneg, k, b, hfind, rfl, rfl⟩
  · cases h
    exact .inl ⟨by omega, rfl, rfl⟩

/-- What `writeBack` leaves of a page that is dirty. -/
def wroteBack (s : VirtualMemory) (ppn p : ℕ) (vpn : ℤ) (e : PageTableEntry) (index : ℤ)
    (swapFile : SwapFile) : VirtualMemory :=
  { s with
    swapFile := swapFile.store index (s.mainMemory ppn)
    spaces := Function.update s.spaces p
      ((s.spaces p).set vpn { e with swapPageIndex := index, location := .inSwapFile }) }

theorem writeBack_cases (h : s.writeBack ppn = .ok (s', events)) :
    ((s.ipt ppn).dirty = false ∧ s' = s ∧ events = []) ∨
      ((s.ipt ppn).dirty = true ∧ ∃ p e index swapFile, (s.ipt ppn).processID = some p ∧
        (s.spaces p).lookup (s.ipt ppn).virtualPage = some e ∧
        s.swapFile.slotFor e = .ok (index, swapFile) ∧
        s' = s.wroteBack ppn p (s.ipt ppn).virtualPage e index swapFile ∧
        events = [.stored p (s.ipt ppn).virtualPage (s.mainMemory ppn)]) := by
  unfold writeBack at h
  split_ifs at h with hdirty
  · split at h
    · cases h
    · rename_i p hp
      split at h
      · cases h
      · rename_i e he
        obtain ⟨⟨index, swapFile⟩, hslot, hret⟩ := bind_eq_ok.mp h
        cases hret
        exact .inr ⟨hdirty, p, e, index, swapFile, hp, he, hslot, rfl, rfl⟩
  · cases h
    exact .inl ⟨by simpa using hdirty, rfl, rfl⟩

/-- `evictAPage` gives up the frame that it has chosen. -/
theorem evictAPage_eq_ok (h : s.evictAPage c random = .ok (ppn, s', events)) :
    ∃ s₀, s.chooseVictim c random = .ok (ppn, s₀) ∧
      (s₀.invalidate c ppn).writeBack ppn = .ok (s', events) := by
  obtain ⟨⟨f, s₀⟩, hchoose, hrest⟩ := bind_eq_ok.mp h
  obtain ⟨⟨s₁, events₁⟩, hback, hret⟩ := bind_eq_ok.mp hrest
  cases hret
  exact ⟨s₀, hchoose, hback⟩

theorem chooseVictim_cases (h : s.chooseVictim c random = .ok (ppn, s')) :
    (c.useRandomPageEviction = true ∧ ppn = random % c.numPhysPages ∧ s' = s) ∨
      (c.useRandomPageEviction = false ∧ ∃ queue, s.ppnQueue = ppn :: queue ∧
        s' = { s with ppnQueue := queue }) := by
  unfold chooseVictim at h
  split_ifs at h with hrandom
  · cases h
    exact .inl ⟨hrandom, rfl, rfl⟩
  · split at h
    · cases h
    · rename_i f queue hqueue
      cases h
      exact .inr ⟨by simpa using hrandom, queue, hqueue, rfl⟩

/-- The frame is free, or it is evicted when no frame is free. -/
theorem takeFrame_cases (h : s.takeFrame c random = .ok (ppn, s', events)) :
    (∃ b, s.ppnInUseBitMap.find = some (ppn, b) ∧ s' = { s with ppnInUseBitMap := b } ∧
      events = []) ∨
      (s.ppnInUseBitMap.find = none ∧ s.evictAPage c random = .ok (ppn, s', events)) := by
  unfold takeFrame at h
  split at h
  · rename_i f b hfind
    cases h
    exact .inl ⟨b, hfind, rfl, rfl⟩
  · rename_i hfind
    exact .inr ⟨hfind, h⟩

theorem loadPageIntoIPT_eq_ok (h : s.loadPageIntoIPT c vpn random = .ok (ppn, s', events)) :
    ∃ s₁ events₁ p e bytes, s.takeFrame c random = .ok (ppn, s₁, events₁) ∧ s₁.space = some p ∧
      (s₁.spaces p).lookup vpn = some e ∧ s₁.readPage e (s₁.mainMemory ppn) = .ok bytes ∧
      s' = (s₁.enqueue c ppn).populate ppn p vpn bytes ∧
      events = events₁ ++ [.loaded p vpn ppn e.location (s₁.mainMemory ppn) bytes] := by
  obtain ⟨⟨f, s₁, events₁⟩, htake, hrest⟩ := bind_eq_ok.mp h
  simp only at hrest
  split at hrest
  · cases hrest
  · rename_i p hp
    split at hrest
    · cases hrest
    · rename_i e he
      obtain ⟨bytes, hread, hret⟩ := bind_eq_ok.mp hrest
      cases hret
      exact ⟨s₁, events₁, p, e, bytes, htake, hp, he, hread, rfl, rfl⟩

/-- A page fault finds the page in a frame, or loads it. -/
theorem handlePageFault_cases {badVAddr : ℤ}
    (h : s.handlePageFault c badVAddr random = .ok (s', events)) :
    (∃ ppn, s.findIPTIndex c (badVAddr.tdiv PageSize) = some ppn ∧ s' = s.updateTLBFromIPT c ppn ∧
      events = []) ∨
      (s.findIPTIndex c (badVAddr.tdiv PageSize) = none ∧
        ∃ ppn s₁, s.loadPageIntoIPT c (badVAddr.tdiv PageSize) random = .ok (ppn, s₁, events) ∧
          s' = s₁.updateTLBFromIPT c ppn) := by
  unfold handlePageFault at h
  split at h
  · rename_i ppn hfind
    cases h
    exact .inl ⟨ppn, hfind, rfl, rfl⟩
  · rename_i hfind
    obtain ⟨⟨ppn, s₁, events₁⟩, hload, hret⟩ := bind_eq_ok.mp h
    cases hret
    exact .inr ⟨hfind, ppn, s₁, hload, rfl⟩

/-- An access is done, or it is a page fault. -/
theorem accessMem_cases {virtAddr : BitVec 32} {a : Access}
    (h : s.accessMem c virtAddr a random = .ok (s', events)) :
    (∃ ppn s₁, s.translate c virtAddr a.size a.writing = .ok (ppn, s₁) ∧
      s' = { s₁ with mainMemory :=
        Function.update s₁.mainMemory ppn (a.apply virtAddr (s₁.mainMemory ppn)) } ∧
      events = []) ∨
      (s.findTLBIndex c (virtAddr.toNat / PageSize) = none ∧
        s.handlePageFault c virtAddr.toInt random = .ok (s', events)) := by
  unfold accessMem at h
  split at h
  · rename_i ppn s₁ htranslate
    cases h
    exact .inl ⟨ppn, s₁, htranslate, rfl, rfl⟩
  · rename_i hfault
    exact .inr ⟨translate_eq_pageFault hfault, h⟩
  · cases h

theorem switch_eq_ok {next : Option ℕ} (h : s.switch c next = .ok (s', events)) :
    (∀ p ∈ next, p < s.numSpaces) ∧
      s' = { (s.flush c.tlbSize).invalidateTLB with space := next } ∧ events = [] := by
  unfold switch at h
  split_ifs at h with hnext
  cases h
  exact ⟨hnext, rfl, rfl⟩

theorem newSpace_eq_ok {executable : File} (h : s.newSpace executable = .ok (s', events)) :
    ∃ a, AddrSpace.new executable = some a ∧
      s' = { s with
        spaces := Function.update s.spaces s.numSpaces a
        numSpaces := s.numSpaces + 1 } ∧ events = [.created executable] := by
  unfold newSpace at h
  split at h
  · cases h
  · rename_i a ha
    cases h
    exact ⟨a, ha, rfl, rfl⟩

theorem startProcess_eq_ok {executable : File}
    (h : s.startProcess executable = .ok (s', events)) :
    s.space = none ∧ ∃ s₁, s.newSpace executable = .ok (s₁, events) ∧
      s' = { s₁ with space := some s.numSpaces } := by
  unfold startProcess at h
  split at h
  · cases h
  · rename_i hspace
    obtain ⟨⟨s₁, events₁⟩, hnew, hret⟩ := bind_eq_ok.mp h
    cases hret
    exact ⟨hspace, s₁, hnew, rfl⟩

theorem exec_Syscall_eq_ok {executable : File}
    (h : s.exec_Syscall executable = .ok (s', events)) :
    ∃ s₁, s.newSpace executable = .ok (s₁, events) ∧ s' = s₁.invalidateTLB := by
  obtain ⟨⟨s₁, events₁⟩, hnew, hret⟩ := bind_eq_ok.mp h
  cases hret
  exact ⟨s₁, hnew, rfl⟩

/-- `Fork` refuses a bad pointer, or the running process gets a stack. -/
theorem fork_Syscall_cases {functionPtr : ℕ}
    (h : s.fork_Syscall c functionPtr = .ok (s', events)) :
    events = [] ∧ (s' = s ∨ ∃ p, s.space = some p ∧ s' = (s.allocateStack p).invalidateTLB) := by
  unfold fork_Syscall at h
  split_ifs at h
  · cases h
    exact ⟨rfl, .inl rfl⟩
  · split at h
    · cases h
    · rename_i p hp
      cases h
      exact ⟨rfl, .inr ⟨p, hp, rfl⟩⟩

end VirtualMemory

end Nachos.Userprog
