import Nachos.Userprog.Translations

/-!
# Addresses outside the process

`HandlePageFault` does not compare the page number with the size of the page table, as `Translate`
does without a TLB.

* `fault_stays_inside_iff`: when an access does not make the kernel read outside a page table.
-/

namespace Nachos.Userprog

open Nachos.Lib

namespace VirtualMemory

variable {c : PagingConfig} {s s' : VirtualMemory} {events history : List PagingEvent} {vpn : ℤ}
  {ppn p random : ℕ}

/-! ## Taking a frame -/

/-- No frame is free, and the page that is evicted needs a slot of a swap file that is full. -/
def SwapFileEnds (c : PagingConfig) (s : VirtualMemory) (random : ℕ) : Prop :=
  s.ppnInUseBitMap.find = none ∧ ∃ ppn s₀, s.chooseVictim c random = .ok (ppn, s₀) ∧
    (s.ipt ppn).dirty = true ∧ ∃ p e, (s.ipt ppn).processID = some p ∧
      (s.spaces p).lookup (s.ipt ppn).virtualPage = some e ∧ e.swapPageIndex < 0 ∧
        s.swapFile.pageMap.find = none

theorem spaces_invalidate : (s.invalidate c ppn).spaces = s.spaces := by
  unfold invalidate
  split_ifs
  · split <;> rfl
  · rfl

theorem swapFile_invalidate : (s.invalidate c ppn).swapFile = s.swapFile := by
  unfold invalidate
  split_ifs
  · split <;> rfl
  · rfl

/-- The choice of a victim changes the queue only. -/
theorem tables_chooseVictim (h : s.chooseVictim c random = .ok (ppn, s')) :
    s'.spaces = s.spaces ∧ s'.swapFile = s.swapFile := by
  obtain ⟨-, -, rfl⟩ | ⟨-, queue, -, rfl⟩ := chooseVictim_cases h
  · exact ⟨rfl, rfl⟩
  · exact ⟨rfl, rfl⟩

/-- A dirty page can be written unless the swap file is full. -/
theorem writeBack_ok_or (hb : Paged c s) (ppn : ℕ) :
    (∃ x, s.writeBack ppn = .ok x) ∨ (s.writeBack ppn = .error .swapFull ∧
      (s.ipt ppn).dirty = true ∧ ∃ p e, (s.ipt ppn).processID = some p ∧
        (s.spaces p).lookup (s.ipt ppn).virtualPage = some e ∧ e.swapPageIndex < 0 ∧
          s.swapFile.pageMap.find = none) := by
  by_cases hdirty : (s.ipt ppn).dirty = true
  · obtain ⟨p, hp, -, hpos, hlt, -⟩ := hb.page ppn (hb.dirty ppn hdirty)
    obtain ⟨e, he⟩ := AddrSpace.lookup_isSome_iff.mpr ⟨hpos, hlt⟩
    unfold writeBack
    rw [if_pos hdirty, hp]
    simp only [he]
    unfold SwapFile.slotFor SwapFile.getSwapPageIndex
    split_ifs with hslot
    · cases hfind : s.swapFile.pageMap.find with
      | none => exact .inr ⟨rfl, hdirty, p, e, rfl, he, hslot, rfl⟩
      | some x => exact .inl ⟨_, rfl⟩
    · exact .inl ⟨_, rfl⟩
  · unfold writeBack
    rw [if_neg hdirty]
    exact .inl ⟨_, rfl⟩

/-- If no frame is free, there is one to evict. -/
theorem chooseVictim_ok (hb : Paged c s) (hq : Queued c s history)
    (hfind : s.ppnInUseBitMap.find = none) (random : ℕ) : ∃ x, s.chooseVictim c random = .ok x := by
  unfold chooseVictim
  split_ifs with hrandom
  · exact ⟨_, rfl⟩
  · have hmem : 0 ∈ s.ppnQueue := by
      rw [hq.queue (by simpa using hrandom), List.mem_dedup, ← hq.inUse]
      exact inUse_of_find_eq_none hb hfind c.numPhysPages_pos
    split
    · rename_i hnil
      rw [hnil] at hmem
      cases hmem
    · exact ⟨_, rfl⟩

/-- **A frame can be taken**, or else the swap file is full. -/
theorem takeFrame_ok_or (hb : Paged c s) (hq : Queued c s history) (random : ℕ) :
    (∃ x, s.takeFrame c random = .ok x) ∨
      (s.takeFrame c random = .error .swapFull ∧ SwapFileEnds c s random) := by
  unfold takeFrame
  split
  · exact .inl ⟨_, rfl⟩
  · rename_i hfind
    obtain ⟨⟨ppn, s₀⟩, hchoose⟩ := chooseVictim_ok hb hq hfind random
    have hkeeps := (keeps_chooseVictim hchoose).trans (keeps_invalidate c s₀ ppn)
    obtain ⟨hspaces, hswap⟩ := tables_chooseVictim hchoose
    have hb' : Paged c (s₀.invalidate c ppn) := by
      apply hb.of_keeps hkeeps
      · rw [bitMap_invalidate, bitMap_chooseVictim hchoose]
      · intro f hf
        rw [ppnQueue_invalidate] at hf
        obtain ⟨-, -, rfl⟩ | ⟨-, queue, hqueue, rfl⟩ := chooseVictim_cases hchoose
        · exact hb.queue f hf
        · exact hb.queue f (by rw [hqueue]; exact List.mem_cons_of_mem _ hf)
    unfold evictAPage
    rw [hchoose]
    obtain ⟨x, hx⟩ | ⟨herror, hends⟩ := writeBack_ok_or hb' ppn
    · simp only [ok_bind, hx]
      exact .inl ⟨_, rfl⟩
    · simp only [ok_bind, herror]
      rw [hkeeps.ipt, spaces_invalidate, swapFile_invalidate, hspaces, hswap] at hends
      exact .inr ⟨rfl, hfind, ppn, s₀, hchoose, hends⟩

/-- A full swap file stops the kernel before a frame is taken. -/
theorem takeFrame_eq_error (hends : SwapFileEnds c s random) :
    s.takeFrame c random = .error .swapFull := by
  obtain ⟨hfind, ppn, s₀, hchoose, hdirty, p, e, hp, he, hslot, hfull⟩ := hends
  have hkeeps := (keeps_chooseVictim hchoose).trans (keeps_invalidate c s₀ ppn)
  obtain ⟨hspaces, hswap⟩ := tables_chooseVictim hchoose
  unfold takeFrame
  rw [hfind]
  simp only [evictAPage, hchoose, ok_bind]
  have herror : (s₀.invalidate c ppn).writeBack ppn = .error .swapFull := by
    unfold writeBack SwapFile.slotFor SwapFile.getSwapPageIndex
    rw [hkeeps.ipt, spaces_invalidate, swapFile_invalidate, hspaces, hswap, if_pos hdirty, hp]
    simp only [he, if_pos hslot, hfull, error_bind]
  rw [herror, error_bind]

/-- The page tables keep their size. -/
theorem numPages_takeFrame (h : s.takeFrame c random = .ok (ppn, s', events)) (p : ℕ) :
    (s'.spaces p).numPages = (s.spaces p).numPages := by
  obtain ⟨b, -, rfl, -⟩ | ⟨-, hevict⟩ := takeFrame_cases h
  · rfl
  · obtain ⟨s₀, hchoose, hback⟩ := evictAPage_eq_ok hevict
    have hspaces := (tables_chooseVictim hchoose).1
    obtain ⟨-, rfl, -⟩ | ⟨-, q, e, index, swapFile, -, -, -, rfl, -⟩ := writeBack_cases hback
    · rw [spaces_invalidate, hspaces]
    · by_cases hpq : p = q
      · subst hpq
        simp [wroteBack, spaces_invalidate, hspaces]
      · simp [wroteBack, spaces_invalidate, hspaces, hpq]

/-! ## The page number -/

/-- The address, as an `int`, is above the page before the first one, and below the end of the
    process. The division rounds to zero, so the last 127 addresses count as the first page. -/
def Within (s : VirtualMemory) (p : ℕ) (virtAddr : BitVec 32) : Prop :=
  (s.spaces p).numPages ≠ 0 ∧ -PageSize < virtAddr.toInt ∧
    virtAddr.toInt < (s.spaces p).numPages * PageSize

theorem within_iff {virtAddr : BitVec 32} : s.Within p virtAddr ↔
    0 ≤ virtAddr.toInt.tdiv PageSize ∧ virtAddr.toInt.tdiv PageSize < (s.spaces p).numPages := by
  unfold Within
  rw [tdiv_pageSize]
  show _ ∧ -(128 : ℤ) < _ ∧ _ < _ * (128 : ℤ) ↔ _
  split_ifs <;> omega

/-- A page that a valid translation has is one of the process. -/
theorem Paged.within_of_findTLBIndex (hb : Paged c s) (hp : s.space = some p)
    {virtAddr : BitVec 32} {i : ℕ}
    (h : s.findTLBIndex c (virtAddr.toNat / PageSize) = some i) : s.Within p virtAddr := by
  obtain ⟨hi, hvalid, hpage⟩ := findTLBIndex_eq_some h
  obtain ⟨-, q, hq, -, hpos, hlt, hint⟩ := hb.tlb i hi hvalid
  rw [hp] at hq
  cases hq
  rw [Int.emod_eq_of_lt hpos (by omega)] at hpage
  have hsmall : virtAddr.toNat / 128 < 2 ^ 24 := by
    have : ((virtAddr.toNat / 128 : ℕ) : ℤ) < 2 ^ 24 := by
      rw [← hpage]
      exact hint
    omega
  have hcast : virtAddr.toInt = virtAddr.toNat := by
    rw [BitVec.toInt_eq_toNat_cond, if_pos (by omega)]
  rw [within_iff, tdiv_pageSize, hcast, if_pos (by omega)]
  have hpage' : (s.tlb i).virtualPage = ((virtAddr.toNat / 128 : ℕ) : ℤ) := hpage
  omega

theorem Paged.within_of_findIPTIndex (hb : Paged c s) (hp : s.space = some p)
    {virtAddr : BitVec 32} (h : s.findIPTIndex c (virtAddr.toInt.tdiv PageSize) = some ppn) :
    s.Within p virtAddr := by
  obtain ⟨-, hvalid, hpage, hspace⟩ := findIPTIndex_eq_some h
  obtain ⟨q, hq, -, hpos, hlt, -⟩ := hb.page ppn hvalid
  rw [hspace, hp] at hq
  cases hq
  rw [within_iff, ← hpage]
  exact ⟨hpos, hlt⟩

/-! ## The fault path -/

theorem readPage_ne_outside (e : PageTableEntry) (old : Page) :
    s.readPage e old ≠ .error .outside := by
  unfold readPage
  split
  · split
    · exact nofun
    · split_ifs
      · exact nofun
      · exact nofun
  · split_ifs
    · exact nofun
    · exact nofun
  · exact nofun

/-- A page of the process is loaded without a use outside a page table. -/
theorem loadPageIntoIPT_ne_outside (hb : Paged c s) (hq : Queued c s history)
    (hp : s.space = some p) (hvpn : 0 ≤ vpn ∧ vpn < (s.spaces p).numPages)
    (random : ℕ) : s.loadPageIntoIPT c vpn random ≠ .error .outside := by
  unfold loadPageIntoIPT
  obtain ⟨⟨ppn, s₁, events⟩, htake⟩ | ⟨herror, -⟩ := takeFrame_ok_or hb hq random
  · rw [htake, ok_bind]
    simp only [(keeps_takeFrame htake).space, hp]
    rw [← numPages_takeFrame htake p] at hvpn
    obtain ⟨e, he⟩ := AddrSpace.lookup_isSome_iff.mpr hvpn
    simp only [he]
    cases hread : s₁.readPage e (s₁.mainMemory ppn) with
    | ok bytes => exact nofun
    | error f =>
      rw [error_bind]
      intro heq
      cases heq
      exact readPage_ne_outside e _ hread
  · rw [herror, error_bind]
    exact nofun

/-- Any other page number makes the kernel read outside the table, if it gets a frame. -/
theorem loadPageIntoIPT_eq_outside (hb : Paged c s) (hq : Queued c s history)
    (hp : s.space = some p) (hvpn : ¬(0 ≤ vpn ∧ vpn < (s.spaces p).numPages))
    (hends : ¬SwapFileEnds c s random) : s.loadPageIntoIPT c vpn random = .error .outside := by
  unfold loadPageIntoIPT
  obtain ⟨⟨ppn, s₁, events⟩, htake⟩ | ⟨-, hfull⟩ := takeFrame_ok_or hb hq random
  · rw [htake, ok_bind]
    simp only [(keeps_takeFrame htake).space, hp]
    rw [← numPages_takeFrame htake p, ← AddrSpace.lookup_eq_none_iff] at hvpn
    simp only [hvpn]
  · exact absurd hfull hends

/-- An access that is aligned is a page fault, or it is done in the process. -/
theorem accessMem_of_aligned {virtAddr : BitVec 32} {a : Access} (hb : Paged c s)
    (hp : s.space = some p) (haligned : virtAddr.toNat % a.size.size = 0) (random : ℕ) :
    (s.Within p virtAddr ∧ s.accessMem c virtAddr a random ≠ .error .outside) ∨
      s.accessMem c virtAddr a random = s.handlePageFault c virtAddr.toInt random := by
  unfold accessMem translate
  rw [if_neg (by simpa using haligned)]
  cases hfind : s.findTLBIndex c (virtAddr.toNat / PageSize) with
  | none => exact .inr rfl
  | some i =>
    refine .inl ⟨hb.within_of_findTLBIndex hp hfind, ?_⟩
    simp only
    split_ifs
    · exact nofun
    · exact nofun
    · exact nofun

/-- When an access stays inside the page tables. -/
theorem accessMem_ne_outside_iff (hb : Paged c s) (hq : Queued c s history)
    (hp : s.space = some p) {virtAddr : BitVec 32} {a : Access} :
    s.accessMem c virtAddr a random ≠ .error .outside ↔
      virtAddr.toNat % a.size.size ≠ 0 ∨ s.Within p virtAddr ∨ SwapFileEnds c s random := by
  by_cases haligned : virtAddr.toNat % a.size.size = 0
  · simp only [haligned, ne_eq, not_true_eq_false, false_or]
    obtain ⟨hwithin, hok⟩ | hfault := accessMem_of_aligned hb hp haligned random
    · exact ⟨fun _ => .inl hwithin, fun _ => hok⟩
    · rw [hfault, within_iff]
      unfold handlePageFault
      cases hfind : s.findIPTIndex c (virtAddr.toInt.tdiv PageSize) with
      | some ppn =>
        have hwithin := within_iff.mp (hb.within_of_findIPTIndex hp hfind)
        exact ⟨fun _ => .inl hwithin, fun _ => nofun⟩
      | none =>
        constructor
        · intro hok
          by_contra hnot
          obtain ⟨hvpn, hends⟩ := not_or.mp hnot
          simp only [loadPageIntoIPT_eq_outside hb hq hp hvpn hends] at hok
          exact hok rfl
        · rintro (hvpn | hends)
          · have hload := loadPageIntoIPT_ne_outside hb hq hp hvpn random
            cases hx : s.loadPageIntoIPT c (virtAddr.toInt.tdiv PageSize) random with
            | ok x => exact nofun
            | error e =>
              rw [hx] at hload
              exact fun heq => hload (by cases heq; rfl)
          · simp only [loadPageIntoIPT, takeFrame_eq_error hends, error_bind]
            exact nofun
  · have hhalt : s.accessMem c virtAddr a random = .error .halt := by
      unfold accessMem VirtualMemory.translate
      rw [if_pos haligned]
    rw [hhalt]
    exact ⟨fun _ => .inl haligned, fun _ => nofun⟩

end VirtualMemory

open VirtualMemory

/-- **An access makes the kernel read a page table inside its bounds if and only if** it is not
    aligned, or its address is inside the process (where the last 127 addresses count as the first
    page), or else the eviction for it ends in a full swap file. -/
theorem fault_stays_inside_iff (c : PagingConfig) {l : List PagingLabel} {s : VirtualMemory}
    {history : List PagingEvent} (h : exec (historyStep c) (new c, []) l = .ok (s, history)) {p : ℕ}
    (hp : s.space = some p) (virtAddr : BitVec 32) (a : Access) (random : ℕ) :
    pagingStep c s (.access virtAddr a random) ≠ .error .outside ↔
      virtAddr.toNat % a.size.size ≠ 0 ∨ s.Within p virtAddr ∨ SwapFileEnds c s random := by
  obtain ⟨hb, hq⟩ := paged_of_run h
  exact accessMem_ne_outside_iff hb hq hp

/-- A small machine: the 32 frames of the branch of machine.h that is compiled out (line 33; the other
    one has 1048576), and its TLB. -/
def nachosMachine : PagingConfig := ⟨32, 4, false, by decide, by decide⟩

/-- The program has nine pages, and the last byte of its stack is at 1151. -/
theorem fault_stays_inside_iff_stack :
    ∃ s history, exec (historyStep nachosMachine) (new nachosMachine, [])
        [.startProcess oneInstruction] = .ok (s, history) ∧
      pagingStep nachosMachine s (.access 1151 (.load .byte) 0) ≠ .error .outside := by
  have hrun : Ends (historyStep nachosMachine) (new nachosMachine, [])
      [.startProcess oneInstruction] fun x => x.1.space = some 0 ∧
        (x.1.spaces 0).numPages = 9 := by
    decide +kernel
  obtain ⟨⟨s, history⟩, h, hp, hpages⟩ := hrun
  refine ⟨s, history, h, (fault_stays_inside_iff nachosMachine h hp _ _ _).mpr ?_⟩
  refine .inr (.inl ⟨?_, by decide, ?_⟩)
  · simp only at hpages
    omega
  · simp only at hpages
    rw [hpages]
    decide

/-- The next address makes the kernel read behind the page table. -/
theorem fault_reads_outside :
    ∃ s history, exec (historyStep nachosMachine) (new nachosMachine, [])
        [.startProcess oneInstruction] = .ok (s, history) ∧ (s.spaces 0).numPages = 9 ∧
      pagingStep nachosMachine s (.access 1152 (.load .byte) 0) = .error .outside := by
  have hrun : Ends (historyStep nachosMachine) (new nachosMachine, [])
      [.startProcess oneInstruction] fun x => x.1.space = some 0 ∧
        (x.1.spaces 0).numPages = 9 ∧ x.1.ppnInUseBitMap.find.isSome = true := by
    decide +kernel
  obtain ⟨⟨s, history⟩, h, hp, hpages, hfree⟩ := hrun
  refine ⟨s, history, h, hpages, ?_⟩
  obtain ⟨hb, hq⟩ := paged_of_run h
  by_contra hinside
  obtain haligned | ⟨-, -, hlt⟩ | ⟨hfind, -⟩ := (accessMem_ne_outside_iff hb hq hp).mp hinside
  · exact haligned (Nat.mod_one _)
  · simp only at hpages
    rw [hpages] at hlt
    exact absurd hlt (by decide)
  · simp only [hfind] at hfree
    cases hfree

end Nachos.Userprog
