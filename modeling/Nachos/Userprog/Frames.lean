import Nachos.Userprog.PagingSteps

/-!
# Frames

What holds of the frame bitmap, the inverted page table and the TLB, whatever addresses the programs
use.

* `Keeps`: what a function leaves alone that only takes translations away.
* `Paged`: a frame that is in use holds a page of a process, and the TLB names such frames.
* `paged_of_pagingStep`: every step keeps that.
-/

namespace Nachos.Userprog

open Nachos.Lib

namespace VirtualMemory

variable {c : PagingConfig} {s s' s'' : VirtualMemory} {events : List PagingEvent} {vpn : ℤ}
  {ppn i p random : ℕ}

/-! ## What takes translations away -/

/-- The frames hold the same pages, the TLB has no new translation, and no page table is shorter. -/
structure Keeps (s s' : VirtualMemory) : Prop where
  ipt : s'.ipt = s.ipt
  tlb : ∀ i, (s'.tlb i).valid = true → s'.tlb i = s.tlb i
  index : s'.currentTLBIndex = s.currentTLBIndex
  space : s'.space = s.space
  numSpaces : s.numSpaces ≤ s'.numSpaces
  numPages : ∀ p < s.numSpaces, (s.spaces p).numPages ≤ (s'.spaces p).numPages

theorem Keeps.refl (s : VirtualMemory) : Keeps s s :=
  ⟨rfl, fun _ _ => rfl, rfl, rfl, le_rfl, fun _ _ => le_rfl⟩

theorem Keeps.trans (h : Keeps s s') (h' : Keeps s' s'') : Keeps s s'' where
  ipt := by rw [h'.ipt, h.ipt]
  tlb i hi := by
    have hi' := h'.tlb i hi
    rw [hi', h.tlb i (by rw [← hi', hi])]
  index := by rw [h'.index, h.index]
  space := by rw [h'.space, h.space]
  numSpaces := le_trans h.numSpaces h'.numSpaces
  numPages p hp := le_trans (h.numPages p hp) (h'.numPages p (lt_of_lt_of_le hp h.numSpaces))

theorem keeps_chooseVictim (h : s.chooseVictim c random = .ok (ppn, s')) : Keeps s s' := by
  obtain ⟨-, -, rfl⟩ | ⟨-, queue, -, rfl⟩ := chooseVictim_cases h
  · exact .refl _
  · exact ⟨rfl, fun _ _ => rfl, rfl, rfl, le_rfl, fun _ _ => le_rfl⟩

theorem keeps_invalidate (c : PagingConfig) (s : VirtualMemory) (ppn : ℕ) :
    Keeps s (s.invalidate c ppn) := by
  unfold invalidate
  split_ifs
  · split
    · exact .refl _
    · rename_i i hi
      refine ⟨rfl, ?_, rfl, rfl, le_rfl, fun _ _ => le_rfl⟩
      intro j hj
      by_cases hji : j = i
      · subst hji
        simp at hj
      · simp [hji]
  · exact .refl _

theorem keeps_writeBack (h : s.writeBack ppn = .ok (s', events)) : Keeps s s' := by
  obtain ⟨-, rfl, -⟩ | ⟨-, p, e, index, swapFile, -, -, -, rfl, -⟩ := writeBack_cases h
  · exact .refl _
  · refine ⟨rfl, fun _ _ => rfl, rfl, rfl, le_rfl, ?_⟩
    intro q hq
    by_cases hqp : q = p
    · subst hqp
      simp [wroteBack]
    · simp [wroteBack, hqp]

theorem keeps_evictAPage (h : s.evictAPage c random = .ok (ppn, s', events)) : Keeps s s' := by
  obtain ⟨s₀, hchoose, hback⟩ := evictAPage_eq_ok h
  exact (keeps_chooseVictim hchoose).trans
    ((keeps_invalidate c s₀ ppn).trans (keeps_writeBack hback))

theorem keeps_takeFrame (h : s.takeFrame c random = .ok (ppn, s', events)) : Keeps s s' := by
  obtain ⟨b, -, rfl, -⟩ | ⟨-, hevict⟩ := takeFrame_cases h
  · exact ⟨rfl, fun _ _ => rfl, rfl, rfl, le_rfl, fun _ _ => le_rfl⟩
  · exact keeps_evictAPage hevict

theorem keeps_enqueue (c : PagingConfig) (s : VirtualMemory) (ppn : ℕ) :
    Keeps s (s.enqueue c ppn) := by
  unfold enqueue
  split_ifs
  · exact .refl _
  · exact ⟨rfl, fun _ _ => rfl, rfl, rfl, le_rfl, fun _ _ => le_rfl⟩

theorem keeps_invalidateTLB : Keeps s s.invalidateTLB :=
  ⟨rfl, fun _ hi => absurd hi Bool.false_ne_true, rfl, rfl, le_rfl, fun _ _ => le_rfl⟩

theorem keeps_newSpace {executable : File} (h : s.newSpace executable = .ok (s', events)) :
    Keeps s s' := by
  obtain ⟨a, -, rfl, -⟩ := newSpace_eq_ok h
  refine ⟨rfl, fun _ _ => rfl, rfl, rfl, Nat.le_succ _, ?_⟩
  intro p hp
  simp [hp.ne]

theorem keeps_allocateStack : Keeps s (s.allocateStack p) := by
  refine ⟨rfl, fun _ _ => rfl, rfl, rfl, le_rfl, ?_⟩
  intro q hq
  by_cases hqp : q = p
  · subst hqp
    simpa [allocateStack] using AddrSpace.numPages_le_allocateStack
  · simp [allocateStack, hqp]

/-! ## The invariant -/

/-- The process has the page, and an address in it is an `int`. -/
def Mapped (s : VirtualMemory) (p : ℕ) (vpn : ℤ) : Prop :=
  p < s.numSpaces ∧ 0 ≤ vpn ∧ vpn < (s.spaces p).numPages ∧ vpn < 2 ^ 24

theorem Mapped.of_keeps (hk : Keeps s s') (h : s.Mapped p vpn) : s'.Mapped p vpn := by
  obtain ⟨hp, hvpn, hlt, hint⟩ := h
  have := hk.numPages p hp
  exact ⟨lt_of_lt_of_le hp hk.numSpaces, hvpn, by omega, hint⟩

/-- The frame is in use. -/
def InUse (s : VirtualMemory) (f : ℕ) : Prop := s.ppnInUseBitMap.map f = true

/-- A frame that is in use holds a page of a process, and the TLB names such frames. -/
structure Paged (c : PagingConfig) (s : VirtualMemory) : Prop where
  numBits : s.ppnInUseBitMap.numBits = c.numPhysPages
  inUse : ∀ f, s.InUse f ↔ (s.ipt f).valid = true
  lt : ∀ f, s.InUse f → f < c.numPhysPages
  physicalPage : ∀ f, (s.ipt f).valid = true → (s.ipt f).physicalPage = f
  page : ∀ f, (s.ipt f).valid = true →
    ∃ p, (s.ipt f).processID = some p ∧ s.Mapped p (s.ipt f).virtualPage
  dirty : ∀ f, (s.ipt f).dirty = true → (s.ipt f).valid = true
  tlb : ∀ i < c.tlbSize, (s.tlb i).valid = true → (s.ipt (s.tlb i).physicalPage).valid = true ∧
    ∃ p, s.space = some p ∧ s.Mapped p (s.tlb i).virtualPage
  index : s.currentTLBIndex < c.tlbSize
  space : ∀ p, s.space = some p → p < s.numSpaces
  queue : ∀ f ∈ s.ppnQueue, f < c.numPhysPages

theorem paged_new (c : PagingConfig) : Paged c (new c) where
  numBits := rfl
  inUse f := Iff.rfl
  lt f h := by cases h
  physicalPage f h := by cases h
  page f h := by cases h
  dirty f h := by cases h
  tlb i _ h := by cases h
  index := c.tlbSize_pos
  space p h := by cases h
  queue f h := by cases h

/-- What takes translations away, and keeps the bitmap, keeps the invariant. -/
theorem Paged.of_keeps (hb : Paged c s) (hk : Keeps s s')
    (hbit : s'.ppnInUseBitMap = s.ppnInUseBitMap)
    (hqueue : ∀ f ∈ s'.ppnQueue, f < c.numPhysPages) : Paged c s' where
  numBits := by rw [hbit, hb.numBits]
  inUse f := by
    unfold InUse
    rw [hbit, hk.ipt]
    exact hb.inUse f
  lt f hf := by
    apply hb.lt f
    unfold InUse at *
    rwa [← hbit]
  physicalPage f hf := by
    rw [hk.ipt] at hf ⊢
    exact hb.physicalPage f hf
  page f hf := by
    rw [hk.ipt] at hf ⊢
    obtain ⟨p, hp, hmapped⟩ := hb.page f hf
    exact ⟨p, hp, hmapped.of_keeps hk⟩
  dirty f hf := by
    rw [hk.ipt] at hf ⊢
    exact hb.dirty f hf
  tlb i hi hvalid := by
    have htlb := hk.tlb i hvalid
    rw [htlb] at hvalid ⊢
    rw [hk.ipt, hk.space]
    obtain ⟨hframe, p, hp, hmapped⟩ := hb.tlb i hi hvalid
    exact ⟨hframe, p, hp, hmapped.of_keeps hk⟩
  index := by rw [hk.index]; exact hb.index
  space p hp := by
    rw [hk.space] at hp
    exact lt_of_lt_of_le (hb.space p hp) hk.numSpaces
  queue := hqueue

/-! ## Taking a frame -/

/-- The frame is taken, and no other. -/
structure Takes (c : PagingConfig) (s s' : VirtualMemory) (ppn : ℕ) : Prop where
  keeps : Keeps s s'
  lt : ppn < c.numPhysPages
  numBits : s'.ppnInUseBitMap.numBits = s.ppnInUseBitMap.numBits
  inUse : ∀ f, s'.InUse f ↔ f = ppn ∨ s.InUse f
  queue : ∀ f ∈ s'.ppnQueue, f < c.numPhysPages

theorem bitMap_chooseVictim (h : s.chooseVictim c random = .ok (ppn, s')) :
    s'.ppnInUseBitMap = s.ppnInUseBitMap := by
  obtain ⟨-, -, rfl⟩ | ⟨-, queue, -, rfl⟩ := chooseVictim_cases h <;> rfl

theorem bitMap_invalidate : (s.invalidate c ppn).ppnInUseBitMap = s.ppnInUseBitMap := by
  unfold invalidate
  split_ifs
  · split <;> rfl
  · rfl

theorem bitMap_writeBack (h : s.writeBack ppn = .ok (s', events)) :
    s'.ppnInUseBitMap = s.ppnInUseBitMap := by
  obtain ⟨-, rfl, -⟩ | ⟨-, p, e, index, swapFile, -, -, -, rfl, -⟩ := writeBack_cases h <;> rfl

theorem ppnQueue_invalidate : (s.invalidate c ppn).ppnQueue = s.ppnQueue := by
  unfold invalidate
  split_ifs
  · split <;> rfl
  · rfl

theorem ppnQueue_writeBack (h : s.writeBack ppn = .ok (s', events)) :
    s'.ppnQueue = s.ppnQueue := by
  obtain ⟨-, rfl, -⟩ | ⟨-, p, e, index, swapFile, -, -, -, rfl, -⟩ := writeBack_cases h <;> rfl

theorem bitMap_evictAPage (h : s.evictAPage c random = .ok (ppn, s', events)) :
    s'.ppnInUseBitMap = s.ppnInUseBitMap := by
  obtain ⟨s₀, hchoose, hback⟩ := evictAPage_eq_ok h
  rw [bitMap_writeBack hback, bitMap_invalidate, bitMap_chooseVictim hchoose]

/-- The frame that is evicted is one of the machine, and the queue has no others. -/
theorem evictAPage_lt (hb : Paged c s) (h : s.evictAPage c random = .ok (ppn, s', events)) :
    ppn < c.numPhysPages ∧ ∀ f ∈ s'.ppnQueue, f < c.numPhysPages := by
  obtain ⟨s₀, hchoose, hback⟩ := evictAPage_eq_ok h
  rw [ppnQueue_writeBack hback, ppnQueue_invalidate]
  obtain ⟨-, rfl, rfl⟩ | ⟨-, queue, hqueue, rfl⟩ := chooseVictim_cases hchoose
  · exact ⟨Nat.mod_lt _ c.numPhysPages_pos, hb.queue⟩
  · have hlt := hb.queue
    rw [hqueue] at hlt
    exact ⟨hlt ppn List.mem_cons_self, fun f hf => hlt f (List.mem_cons_of_mem _ hf)⟩

/-- If no frame is free, all are in use. -/
theorem inUse_of_find_eq_none (hb : Paged c s) (h : s.ppnInUseBitMap.find = none)
    (hlt : ppn < c.numPhysPages) : s.InUse ppn :=
  BitMap.find_eq_none h (by rw [hb.numBits]; exact hlt)

theorem takes_takeFrame (hb : Paged c s) (h : s.takeFrame c random = .ok (ppn, s', events)) :
    Takes c s s' ppn := by
  have hkeeps := keeps_takeFrame h
  obtain ⟨b, hfind, rfl, -⟩ | ⟨hfind, hevict⟩ := takeFrame_cases h
  · obtain ⟨hlt, hclear, -, rfl⟩ := BitMap.find_eq_some hfind
    refine ⟨hkeeps, by rw [← hb.numBits]; exact hlt, rfl, ?_, hb.queue⟩
    intro f
    unfold InUse
    by_cases hf : f = ppn
    · subst hf
      simp
    · simp [hf, BitMap.map_mark_of_ne hf]
  · have hlt := evictAPage_lt hb hevict
    have hbit := bitMap_evictAPage hevict
    refine ⟨hkeeps, hlt.1, by rw [hbit], ?_, hlt.2⟩
    intro f
    have hinUse := inUse_of_find_eq_none hb hfind hlt.1
    unfold InUse at *
    rw [hbit]
    constructor
    · exact .inr
    · rintro (rfl | hf)
      · exact hinUse
      · exact hf

/-! ## Steps -/

/-- The frame that was taken gets a page of the running process. -/
theorem Paged.of_populate {s₁ : VirtualMemory} {bytes : Page} (hb : Paged c s)
    (ht : Takes c s s₁ ppn) (hmapped : s₁.Mapped p vpn) :
    Paged c ((s₁.enqueue c ppn).populate ppn p vpn bytes) := by
  have hk : Keeps s (s₁.enqueue c ppn) := ht.keeps.trans (keeps_enqueue c s₁ ppn)
  have hbit : (s₁.enqueue c ppn).ppnInUseBitMap = s₁.ppnInUseBitMap := by
    unfold enqueue
    split_ifs <;> rfl
  have hmapped' : (s₁.enqueue c ppn).Mapped p vpn := hmapped.of_keeps (keeps_enqueue c s₁ ppn)
  generalize hs₂ : s₁.enqueue c ppn = s₂ at *
  have hipt : ∀ f, ((s₂.populate ppn p vpn bytes).ipt f).valid = true ↔
      f = ppn ∨ (s.ipt f).valid = true := by
    intro f
    by_cases hf : f = ppn
    · subst hf
      simp [populate]
    · simp [populate, hf, hk.ipt]
  have hold : ∀ f, f ≠ ppn → (s₂.populate ppn p vpn bytes).ipt f = s.ipt f := by
    intro f hf
    simp [populate, hf, hk.ipt]
  have hinUse : ∀ f, (s₂.populate ppn p vpn bytes).InUse f ↔ f = ppn ∨ s.InUse f := by
    intro f
    rw [← ht.inUse f]
    show s₂.ppnInUseBitMap.map f = true ↔ _
    rw [hbit]
    rfl
  constructor
  · show s₂.ppnInUseBitMap.numBits = _
    rw [hbit, ht.numBits, hb.numBits]
  · intro f
    rw [hinUse, hipt, hb.inUse]
  · intro f hf
    obtain rfl | hf := (hinUse f).mp hf
    · exact ht.lt
    · exact hb.lt f hf
  · intro f hf
    by_cases hfp : f = ppn
    · subst hfp
      simp [populate]
    · rw [hold f hfp] at hf ⊢
      exact hb.physicalPage f hf
  · intro f hf
    by_cases hfp : f = ppn
    · subst hfp
      exact ⟨p, by simp [populate], by simpa [populate, Mapped] using hmapped'⟩
    · rw [hold f hfp] at hf ⊢
      obtain ⟨q, hq, hq'⟩ := hb.page f hf
      exact ⟨q, hq, show s₂.Mapped q _ from hq'.of_keeps hk⟩
  · intro f hf
    by_cases hfp : f = ppn
    · subst hfp
      simp [populate] at hf
    · rw [hold f hfp] at hf ⊢
      exact hb.dirty f hf
  · intro i hi hvalid
    have htlb := hk.tlb i hvalid
    obtain ⟨hframe, q, hq, hq'⟩ := hb.tlb i hi (by rw [← htlb]; exact hvalid)
    constructor
    · show ((s₂.populate ppn p vpn bytes).ipt (s₂.tlb i).physicalPage).valid = true
      rw [hipt, htlb]
      exact .inr hframe
    · refine ⟨q, ?_, ?_⟩
      · show s₂.space = some q
        rw [hk.space, hq]
      · show s₂.Mapped q (s₂.tlb i).virtualPage
        rw [htlb]
        exact hq'.of_keeps hk
  · show s₂.currentTLBIndex < _
    rw [hk.index]
    exact hb.index
  · intro q hq
    exact lt_of_lt_of_le (hb.space q (by rw [← hk.space]; exact hq)) hk.numSpaces
  · intro f hf
    have hf' : f ∈ s₂.ppnQueue := hf
    rw [← hs₂] at hf'
    unfold enqueue at hf'
    split_ifs at hf'
    · exact ht.queue f hf'
    · obtain hf' | hf' := List.mem_append.mp hf'
      · exact ht.queue f hf'
      · rw [List.mem_singleton.mp hf']
        exact ht.lt

/-- Only the dirty bit of a frame that is in use changes. -/
theorem Paged.propagate (hb : Paged c s) (hi : i < c.tlbSize) : Paged c (s.propagate i) := by
  unfold VirtualMemory.propagate
  split_ifs with hvalid
  · have hframe := (hb.tlb i hi hvalid).1
    have hipt : ∀ f, ∃ d, (Function.update s.ipt (s.tlb i).physicalPage
        { s.ipt (s.tlb i).physicalPage with dirty := (s.tlb i).dirty }) f =
          { s.ipt f with dirty := d } ∧ (d = true → (s.ipt f).valid = true) := by
      intro f
      by_cases hf : f = (s.tlb i).physicalPage
      · subst hf
        exact ⟨(s.tlb i).dirty, by simp, fun _ => hframe⟩
      · exact ⟨(s.ipt f).dirty, by simp [hf], hb.dirty f⟩
    constructor
    · exact hb.numBits
    · intro f
      obtain ⟨d, hd, -⟩ := hipt f
      simp only [hd]
      exact hb.inUse f
    · exact hb.lt
    · intro f hf
      obtain ⟨d, hd, -⟩ := hipt f
      simp only [hd] at hf ⊢
      exact hb.physicalPage f hf
    · intro f hf
      obtain ⟨d, hd, -⟩ := hipt f
      simp only [hd] at hf ⊢
      exact hb.page f hf
    · intro f hf
      obtain ⟨d, hd, hdirty⟩ := hipt f
      simp only [hd] at hf ⊢
      exact hdirty hf
    · intro j hj hjvalid
      obtain ⟨d, hd, -⟩ := hipt (s.tlb j).physicalPage
      simp only [hd]
      exact hb.tlb j hj hjvalid
    · exact hb.index
    · exact hb.space
    · exact hb.queue
  · exact hb

theorem space_propagate : (s.propagate i).space = s.space := by
  unfold propagate
  split_ifs <;> rfl

/-- A frame keeps its page. -/
theorem ipt_propagate (f : ℕ) :
    ∃ d, (s.propagate i).ipt f = { s.ipt f with dirty := d } := by
  unfold propagate
  split_ifs
  · by_cases hf : f = (s.tlb i).physicalPage
    · subst hf
      exact ⟨(s.tlb i).dirty, by simp⟩
    · exact ⟨(s.ipt f).dirty, by simp [hf]⟩
  · exact ⟨(s.ipt f).dirty, rfl⟩

theorem Paged.refill (hb : Paged c s) (hvalid : (s.ipt ppn).valid = true)
    (hspace : (s.ipt ppn).processID = s.space) : Paged c (s.refill c ppn) := by
  refine ⟨hb.numBits, hb.inUse, hb.lt, hb.physicalPage, hb.page, hb.dirty, ?_,
    Nat.mod_lt _ c.tlbSize_pos, hb.space, hb.queue⟩
  intro i hi hi'
  by_cases hik : i = s.currentTLBIndex
  · subst hik
    obtain ⟨p, hp, hmapped⟩ := hb.page ppn hvalid
    have hframe := hb.physicalPage ppn hvalid
    simp only [VirtualMemory.refill, Function.update_self, hframe]
    exact ⟨hvalid, p, by rw [← hspace, hp], hmapped⟩
  · simp only [VirtualMemory.refill, Function.update_of_ne hik] at hi' ⊢
    exact hb.tlb i hi hi'

theorem Paged.updateTLBFromIPT (hb : Paged c s) (hvalid : (s.ipt ppn).valid = true)
    (hspace : (s.ipt ppn).processID = s.space) : Paged c (s.updateTLBFromIPT c ppn) := by
  obtain ⟨d, hd⟩ := ipt_propagate (s := s) (i := s.currentTLBIndex) ppn
  apply (hb.propagate hb.index).refill
  · rw [hd]
    exact hvalid
  · rw [hd, space_propagate]
    exact hspace

theorem Paged.flush (hb : Paged c s) {n : ℕ} (hn : n ≤ c.tlbSize) : Paged c (s.flush n) := by
  induction n with
  | zero => exact hb
  | succ n ih => exact (ih (by omega)).propagate (by omega)

theorem numSpaces_propagate : (s.propagate i).numSpaces = s.numSpaces := by
  unfold propagate
  split_ifs <;> rfl

theorem numSpaces_flush (n : ℕ) : (s.flush n).numSpaces = s.numSpaces := by
  induction n with
  | zero => rfl
  | succ n ih =>
    show ((s.flush n).propagate n).numSpaces = _
    rw [numSpaces_propagate, ih]

/-- The bits of a TLB entry, and the bytes of a frame, do not matter. -/
theorem Paged.of_translate {virtAddr : BitVec 32} {size : Width} {writing : Bool}
    (hb : Paged c s) (h : s.translate c virtAddr size writing = .ok (ppn, s')) : Paged c s' := by
  obtain ⟨i, -, -, rfl⟩ := translate_eq_ok h
  refine ⟨hb.numBits, hb.inUse, hb.lt, hb.physicalPage, hb.page, hb.dirty, ?_, hb.index, hb.space,
    hb.queue⟩
  intro j hj hj'
  by_cases hji : j = i
  · subst hji
    simp only [Function.update_self] at hj' ⊢
    exact hb.tlb j hj hj'
  · simp only [Function.update_of_ne hji] at hj' ⊢
    exact hb.tlb j hj hj'

theorem Paged.of_mainMemory (hb : Paged c s) (mainMemory : ℕ → Page) :
    Paged c { s with mainMemory := mainMemory } :=
  ⟨hb.numBits, hb.inUse, hb.lt, hb.physicalPage, hb.page, hb.dirty, hb.tlb, hb.index, hb.space,
    hb.queue⟩

/-- The page number of an address. -/
theorem tdiv_pageSize_lt (virtAddr : BitVec 32) : virtAddr.toInt.tdiv PageSize < 2 ^ 24 := by
  have := virtAddr.toInt_lt
  rw [tdiv_pageSize]
  split_ifs <;> omega

/-- The frame that is loaded holds a page of the running process. -/
theorem Paged.of_loadPageIntoIPT (hb : Paged c s) (hvpn : vpn < 2 ^ 24)
    (h : s.loadPageIntoIPT c vpn random = .ok (ppn, s', events)) :
    Paged c s' ∧ (s'.ipt ppn).valid = true ∧ (s'.ipt ppn).virtualPage = vpn ∧
      (s'.ipt ppn).processID = s'.space := by
  obtain ⟨s₁, events₁, p, e, bytes, htake, hp, he, -, rfl, -⟩ := loadPageIntoIPT_eq_ok h
  have ht := takes_takeFrame hb htake
  have hlookup := AddrSpace.lookup_isSome_iff.mp ⟨e, he⟩
  have hmapped : s₁.Mapped p vpn := by
    refine ⟨lt_of_lt_of_le (hb.space p ?_) ht.keeps.numSpaces, hlookup.1, hlookup.2, hvpn⟩
    rw [← ht.keeps.space, hp]
  refine ⟨hb.of_populate ht hmapped, by simp [populate], by simp [populate], ?_⟩
  simp only [populate, Function.update_self]
  rw [(keeps_enqueue c s₁ ppn).space, hp]

theorem Paged.of_handlePageFault (hb : Paged c s) {virtAddr : BitVec 32}
    (h : s.handlePageFault c virtAddr.toInt random = .ok (s', events)) : Paged c s' := by
  obtain ⟨ppn, hfind, rfl, -⟩ | ⟨-, ppn, s₁, hload, rfl⟩ := handlePageFault_cases h
  · obtain ⟨-, hvalid, -, hspace⟩ := findIPTIndex_eq_some hfind
    exact hb.updateTLBFromIPT hvalid hspace
  · obtain ⟨hb', hvalid, -, hspace⟩ := hb.of_loadPageIntoIPT (tdiv_pageSize_lt virtAddr) hload
    exact hb'.updateTLBFromIPT hvalid hspace

theorem Paged.of_accessMem (hb : Paged c s) {virtAddr : BitVec 32} {a : Access}
    (h : s.accessMem c virtAddr a random = .ok (s', events)) : Paged c s' := by
  obtain ⟨ppn, s₁, htranslate, rfl, -⟩ | ⟨-, hfault⟩ := accessMem_cases h
  · exact (hb.of_translate htranslate).of_mainMemory _
  · exact hb.of_handlePageFault hfault

theorem Paged.newSpace (hb : Paged c s) {executable : File}
    (h : s.newSpace executable = .ok (s', events)) : Paged c s' := by
  have hkeeps := keeps_newSpace h
  obtain ⟨a, -, rfl, -⟩ := newSpace_eq_ok h
  exact hb.of_keeps hkeeps rfl hb.queue

/-- With no valid translation, the next thread may belong to any process. -/
theorem Paged.with_space (hb : Paged c s) {next : Option ℕ} (hnext : ∀ p ∈ next, p < s.numSpaces)
    (htlb : ∀ i < c.tlbSize, (s.tlb i).valid = false) : Paged c { s with space := next } := by
  refine ⟨hb.numBits, hb.inUse, hb.lt, hb.physicalPage, hb.page, hb.dirty, ?_, hb.index, hnext,
    hb.queue⟩
  intro i hi hvalid
  rw [htlb i hi] at hvalid
  cases hvalid

/-- While no process runs, no translation is valid. -/
theorem Paged.tlb_invalid (hb : Paged c s) (h : s.space = none) (hi : i < c.tlbSize) :
    (s.tlb i).valid = false := by
  by_contra hvalid
  obtain ⟨-, p, hp, -⟩ := hb.tlb i hi (by simpa using hvalid)
  rw [h] at hp
  cases hp

end VirtualMemory

open VirtualMemory

variable {c : PagingConfig} {s s' : VirtualMemory} {events : List PagingEvent}

/-- **Every step keeps the invariant**, whatever address it uses. -/
theorem paged_of_pagingStep {l : PagingLabel} (hb : Paged c s)
    (h : pagingStep c s l = .ok (s', events)) : Paged c s' := by
  cases l with
  | access virtAddr a random => exact hb.of_accessMem h
  | switch next =>
    obtain ⟨hnext, rfl, -⟩ := switch_eq_ok h
    have hflush := hb.flush (le_refl c.tlbSize)
    have hb' : Paged c (s.flush c.tlbSize).invalidateTLB :=
      hflush.of_keeps keeps_invalidateTLB rfl hflush.queue
    apply hb'.with_space
    · intro p hp
      show p < (s.flush c.tlbSize).numSpaces
      rw [numSpaces_flush]
      exact hnext p hp
    · intro i _
      rfl
  | startProcess executable =>
    obtain ⟨hspace, s₁, hnew, rfl⟩ := startProcess_eq_ok h
    have hb' := hb.newSpace hnew
    have hkeeps := keeps_newSpace hnew
    apply hb'.with_space
    · intro p hp
      cases hp
      obtain ⟨a, -, rfl, -⟩ := newSpace_eq_ok hnew
      exact Nat.lt_succ_self _
    · intro i hi
      exact hb'.tlb_invalid (by rw [hkeeps.space, hspace]) hi
  | exec executable =>
    obtain ⟨s₁, hnew, rfl⟩ := exec_Syscall_eq_ok h
    have hb' := hb.newSpace hnew
    exact hb'.of_keeps keeps_invalidateTLB rfl hb'.queue
  | fork functionPtr =>
    obtain ⟨-, rfl | ⟨p, -, rfl⟩⟩ := fork_Syscall_cases h
    · exact hb
    · exact hb.of_keeps (keeps_allocateStack.trans keeps_invalidateTLB) rfl hb.queue

end Nachos.Userprog
