import Nachos.Userprog.Frames

/-!
# Page table, TLB and eviction queue

* `paging_consistent`: in every run in which the programs use addresses of their processes, a page
  is in one frame, the TLB agrees with the inverted page table, and under FIFO the queue has the
  frames in use in the order in which they were loaded.
-/

namespace Nachos.Userprog

open Nachos.Lib

namespace VirtualMemory

variable {c : PagingConfig} {s s' s₁ : VirtualMemory} {events : List PagingEvent} {vpn : ℤ}
  {ppn i p random : ℕ}

/-! ## The TLB and the inverted page table -/

/-- Each page of a process is in one frame, and the valid TLB entries have different pages, each in
    the frame that the inverted page table gives to the running process. -/
structure Consistent (c : PagingConfig) (s : VirtualMemory) : Prop where
  once : ∀ f g, (s.ipt f).valid = true → (s.ipt g).valid = true →
    (s.ipt f).processID = (s.ipt g).processID → (s.ipt f).virtualPage = (s.ipt g).virtualPage →
    f = g
  distinct : ∀ i < c.tlbSize, ∀ j < c.tlbSize, (s.tlb i).valid = true → (s.tlb j).valid = true →
    (s.tlb i).virtualPage = (s.tlb j).virtualPage → i = j
  names : ∀ i < c.tlbSize, (s.tlb i).valid = true →
    (s.ipt (s.tlb i).physicalPage).processID = s.space ∧
      (s.ipt (s.tlb i).physicalPage).virtualPage = (s.tlb i).virtualPage

theorem consistent_new (c : PagingConfig) : Consistent c (new c) where
  once f g hf := by cases hf
  distinct i _ j _ hi := by cases hi
  names i _ hi := by cases hi

/-- The frames may have other dirty bits, and translations may go away. -/
theorem Consistent.of_ipt (hc : Consistent c s)
    (hipt : ∀ f, ∃ d, s'.ipt f = { s.ipt f with dirty := d })
    (htlb : ∀ i, (s'.tlb i).valid = true → (s.tlb i).valid = true ∧
      (s'.tlb i).virtualPage = (s.tlb i).virtualPage ∧
      (s'.tlb i).physicalPage = (s.tlb i).physicalPage)
    (hspace : s'.space = s.space) : Consistent c s' where
  once f g hf hg hp hv := by
    obtain ⟨d, hd⟩ := hipt f
    obtain ⟨d', hd'⟩ := hipt g
    simp only [hd, hd'] at hf hg hp hv
    exact hc.once f g hf hg hp hv
  distinct i hi j hj hvi hvj hv := by
    obtain ⟨hvi, hpi, -⟩ := htlb i hvi
    obtain ⟨hvj, hpj, -⟩ := htlb j hvj
    exact hc.distinct i hi j hj hvi hvj (by rw [← hpi, ← hpj, hv])
  names i hi hv := by
    obtain ⟨hv, hpage, hframe⟩ := htlb i hv
    obtain ⟨d, hd⟩ := hipt (s.tlb i).physicalPage
    rw [hframe, hpage, hd, hspace]
    exact hc.names i hi hv

theorem Consistent.of_keeps (hc : Consistent c s) (hk : Keeps s s') : Consistent c s' := by
  apply hc.of_ipt _ _ hk.space
  · intro f
    exact ⟨(s.ipt f).dirty, by rw [hk.ipt]⟩
  · intro i hi
    have htlb := hk.tlb i hi
    rw [← htlb]
    exact ⟨hi, rfl, rfl⟩

theorem tlb_propagate : (s.propagate i).tlb = s.tlb := by
  unfold propagate
  split_ifs <;> rfl

theorem Consistent.propagate (hc : Consistent c s) : Consistent c (s.propagate i) := by
  apply hc.of_ipt ipt_propagate _ space_propagate
  intro j hj
  rw [tlb_propagate] at hj ⊢
  exact ⟨hj, rfl, rfl⟩

theorem Consistent.flush (hc : Consistent c s) (n : ℕ) : Consistent c (s.flush n) := by
  induction n with
  | zero => exact hc
  | succ n ih => exact ih.propagate

/-- The entry that is replaced may have had any page, and no other has the page of the frame. -/
theorem Consistent.refill (hc : Consistent c s) (hb : Paged c s)
    (hvalid : (s.ipt ppn).valid = true) (hspace : (s.ipt ppn).processID = s.space)
    (hmiss : ∀ i < c.tlbSize, (s.tlb i).valid = true →
      (s.tlb i).virtualPage ≠ (s.ipt ppn).virtualPage) : Consistent c (s.refill c ppn) := by
  have hself : (s.refill c ppn).tlb s.currentTLBIndex =
      ⟨(s.ipt ppn).virtualPage, ppn, (s.ipt ppn).valid, (s.ipt ppn).readOnly, (s.ipt ppn).use,
        (s.ipt ppn).dirty⟩ := by
    simp [VirtualMemory.refill, hb.physicalPage ppn hvalid]
  have hother : ∀ i, i ≠ s.currentTLBIndex → (s.refill c ppn).tlb i = s.tlb i := by
    intro i hi
    simp [VirtualMemory.refill, hi]
  constructor
  · exact hc.once
  · intro i hi j hj hvi hvj hv
    by_cases hik : i = s.currentTLBIndex <;> by_cases hjk : j = s.currentTLBIndex
    · rw [hik, hjk]
    · subst hik
      rw [hself, hother j hjk] at hv
      rw [hother j hjk] at hvj
      exact absurd hv.symm (hmiss j hj hvj)
    · subst hjk
      rw [hself, hother i hik] at hv
      rw [hother i hik] at hvi
      exact absurd hv (hmiss i hi hvi)
    · rw [hother i hik] at hv hvi
      rw [hother j hjk] at hv hvj
      exact hc.distinct i hi j hj hvi hvj hv
  · intro i hi hv
    by_cases hik : i = s.currentTLBIndex
    · subst hik
      rw [hself]
      exact ⟨hspace, rfl⟩
    · rw [hother i hik] at hv ⊢
      exact hc.names i hi hv

theorem Consistent.updateTLBFromIPT (hc : Consistent c s) (hb : Paged c s)
    (hvalid : (s.ipt ppn).valid = true) (hspace : (s.ipt ppn).processID = s.space)
    (hmiss : ∀ i < c.tlbSize, (s.tlb i).valid = true →
      (s.tlb i).virtualPage ≠ (s.ipt ppn).virtualPage) :
    Consistent c (s.updateTLBFromIPT c ppn) := by
  obtain ⟨d, hd⟩ := ipt_propagate (s := s) (i := s.currentTLBIndex) ppn
  apply hc.propagate.refill (hb.propagate hb.index)
  · rw [hd]
    exact hvalid
  · rw [hd, space_propagate]
    exact hspace
  · intro i hi
    rw [tlb_propagate, hd]
    exact hmiss i hi

/-! ## A page fault -/

/-- No translation names the frame. -/
def Unnamed (c : PagingConfig) (s : VirtualMemory) (ppn : ℕ) : Prop :=
  ∀ i < c.tlbSize, (s.tlb i).valid = true → (s.tlb i).physicalPage ≠ ppn

theorem Unnamed.of_keeps (h : Unnamed c s ppn) (hk : Keeps s s') : Unnamed c s' ppn := by
  intro i hi hv
  have htlb := hk.tlb i hv
  rw [htlb]
  exact h i hi (by rw [← htlb]; exact hv)

/-- The one translation that names the frame goes away. -/
theorem unnamed_invalidate (hc : Consistent c s) : Unnamed c (s.invalidate c ppn) ppn := by
  intro i hi hv hframe
  have htlb := (keeps_invalidate c s ppn).tlb i hv
  rw [htlb] at hv hframe
  have hnames := hc.names i hi hv
  rw [hframe] at hnames
  unfold invalidate at htlb
  rw [if_pos hnames.1] at htlb
  split at htlb
  · rename_i hnone
    have := List.find?_eq_none.mp hnone i (List.mem_range.mpr hi)
    simp [hv, hframe] at this
  · rename_i j hj
    have hlt := List.mem_range.mp (List.mem_of_find?_eq_some hj)
    have hfound := List.find?_some hj
    simp only [Bool.and_eq_true, beq_iff_eq] at hfound
    have hij : i = j := by
      apply hc.distinct i hi j hlt hv hfound.1
      rw [← hnames.2, ← (hc.names j hlt hfound.1).2, hfound.2]
    subst hij
    simp only [Function.update_self] at htlb
    rw [← htlb] at hv
    cases hv

/-- **No translation names the frame that is taken.** -/
theorem unnamed_takeFrame (hb : Paged c s) (hc : Consistent c s)
    (h : s.takeFrame c random = .ok (ppn, s', events)) : Unnamed c s' ppn := by
  obtain ⟨b, hfind, rfl, -⟩ | ⟨-, hevict⟩ := takeFrame_cases h
  · intro i hi hv hframe
    obtain ⟨-, hclear, -, -⟩ := BitMap.find_eq_some hfind
    have hvalid := (hb.tlb i hi hv).1
    rw [hframe, ← hb.inUse] at hvalid
    unfold InUse at hvalid
    rw [hclear] at hvalid
    cases hvalid
  · obtain ⟨s₀, hchoose, hback⟩ := evictAPage_eq_ok hevict
    have hc₀ := hc.of_keeps (keeps_chooseVictim hchoose)
    exact (unnamed_invalidate hc₀).of_keeps (keeps_writeBack hback)

/-- The page of the running process is in no frame, and gets the one that was taken. -/
theorem Consistent.of_populate (hc : Consistent c s) (bytes : Page) (hb : Paged c s)
    (hk : Keeps s s₁) (hunnamed : Unnamed c s₁ ppn) (hspace : s₁.space = some p)
    (hfind : s.findIPTIndex c vpn = none) : Consistent c (s₁.populate ppn p vpn bytes) := by
  have hc₁ := hc.of_keeps hk
  have hold : ∀ f, f ≠ ppn → (s₁.populate ppn p vpn bytes).ipt f = s₁.ipt f := by
    intro f hf
    simp [populate, hf]
  have hself : (s₁.populate ppn p vpn bytes).ipt ppn =
      ⟨vpn, ppn, true, false, false, false, some p⟩ :=
    Function.update_self ..
  have hnot : ∀ f, (s₁.ipt f).valid = true → (s₁.ipt f).processID = some p →
      (s₁.ipt f).virtualPage ≠ vpn := by
    intro f hf hp hv
    rw [hk.ipt] at hf hp hv
    have hlt := hb.lt f ((hb.inUse f).mpr hf)
    apply findIPTIndex_eq_none hfind hlt hf hv
    rw [hp, ← hspace, hk.space]
  constructor
  · intro f g hf hg hp hv
    by_cases hfp : f = ppn <;> by_cases hgp : g = ppn
    · rw [hfp, hgp]
    · subst hfp
      rw [hself, hold g hgp] at hp hv
      rw [hold g hgp] at hg
      exact absurd hv.symm (hnot g hg hp.symm)
    · subst hgp
      rw [hself, hold f hfp] at hp hv
      rw [hold f hfp] at hf
      exact absurd hv (hnot f hf hp)
    · rw [hold f hfp] at hf hp hv
      rw [hold g hgp] at hg hp hv
      exact hc₁.once f g hf hg hp hv
  · exact hc₁.distinct
  · intro i hi hv
    have hframe := hunnamed i hi hv
    show ((s₁.populate ppn p vpn bytes).ipt (s₁.tlb i).physicalPage).processID = _ ∧
      ((s₁.populate ppn p vpn bytes).ipt (s₁.tlb i).physicalPage).virtualPage = _
    rw [hold _ hframe]
    exact hc₁.names i hi hv

/-- The page fault is at an address of the running process. -/
def FaultInside (c : PagingConfig) (s : VirtualMemory) (virtAddr : BitVec 32) : Prop :=
  s.findTLBIndex c (virtAddr.toNat / PageSize) = none →
    ∃ p ∈ s.space, 0 ≤ virtAddr.toInt ∧ virtAddr.toInt < (s.spaces p).numPages * PageSize

instance (c : PagingConfig) (s : VirtualMemory) (virtAddr : BitVec 32) :
    Decidable (FaultInside c s virtAddr) := by
  unfold FaultInside
  infer_instance

/-- The page number of a nonnegative address. -/
theorem tdiv_pageSize_of_nonneg {virtAddr : BitVec 32} (h : 0 ≤ virtAddr.toInt) :
    virtAddr.toInt.tdiv PageSize % 2 ^ 32 = (virtAddr.toNat / PageSize : ℕ) := by
  have hlt := virtAddr.toInt_lt
  have hcast : virtAddr.toInt = virtAddr.toNat := by
    rw [BitVec.toInt_eq_toNat_cond] at h ⊢
    split_ifs at h ⊢
    · rfl
    · omega
  rw [tdiv_pageSize, if_pos h]
  show _ = ((virtAddr.toNat / 128 : ℕ) : ℤ)
  omega

/-- No valid translation has the page that was missed. -/
theorem missed {virtAddr : BitVec 32} (h : 0 ≤ virtAddr.toInt)
    (hmiss : s.findTLBIndex c (virtAddr.toNat / PageSize) = none) (hk : Keeps s s')
    (hi : i < c.tlbSize) (hv : (s'.tlb i).valid = true) :
    (s'.tlb i).virtualPage ≠ virtAddr.toInt.tdiv PageSize := by
  have htlb := hk.tlb i hv
  rw [htlb] at hv ⊢
  intro heq
  apply findTLBIndex_eq_none hmiss hi hv
  rw [heq, tdiv_pageSize_of_nonneg h]

theorem Consistent.of_loadPageIntoIPT {vpn : ℤ} (hc : Consistent c s) (hb : Paged c s)
    (hfind : s.findIPTIndex c vpn = none)
    (h : s.loadPageIntoIPT c vpn random = .ok (ppn, s', events)) : Consistent c s' := by
  obtain ⟨s₁, events₁, p, e, bytes, htake, hp, -, -, rfl, -⟩ := loadPageIntoIPT_eq_ok h
  have hk : Keeps s (s₁.enqueue c ppn) := (keeps_takeFrame htake).trans (keeps_enqueue c s₁ ppn)
  have hunnamed := (unnamed_takeFrame hb hc htake).of_keeps (keeps_enqueue c s₁ ppn)
  exact hc.of_populate bytes hb hk hunnamed (by rw [(keeps_enqueue c s₁ ppn).space, hp]) hfind

theorem Consistent.of_handlePageFault (hc : Consistent c s) (hb : Paged c s)
    {virtAddr : BitVec 32} (hinside : 0 ≤ virtAddr.toInt)
    (hmiss : s.findTLBIndex c (virtAddr.toNat / PageSize) = none)
    (h : s.handlePageFault c virtAddr.toInt random = .ok (s', events)) : Consistent c s' := by
  obtain ⟨ppn, hfind, rfl, -⟩ | ⟨hfind, ppn, s₁, hload, rfl⟩ := handlePageFault_cases h
  · obtain ⟨-, hvalid, hvpn, hspace⟩ := findIPTIndex_eq_some hfind
    apply hc.updateTLBFromIPT hb hvalid hspace
    intro i hi hv
    rw [hvpn]
    exact missed hinside hmiss (.refl s) hi hv
  · obtain ⟨hb', hvalid, hvpn, hspace⟩ := hb.of_loadPageIntoIPT (tdiv_pageSize_lt virtAddr) hload
    apply (hc.of_loadPageIntoIPT hb hfind hload).updateTLBFromIPT hb' hvalid hspace
    obtain ⟨s₂, events₁, p, e, bytes, htake, -, -, -, rfl, -⟩ := loadPageIntoIPT_eq_ok hload
    have hk : Keeps s (s₂.enqueue c ppn) := (keeps_takeFrame htake).trans (keeps_enqueue c s₂ ppn)
    intro i hi hv
    have hne := missed hinside hmiss hk hi hv
    rw [hvpn]
    exact hne

/-- With no valid translation, the next thread may belong to any process. -/
theorem Consistent.with_space (hc : Consistent c s) {next : Option ℕ}
    (htlb : ∀ i < c.tlbSize, (s.tlb i).valid = false) :
    Consistent c { s with space := next } := by
  refine ⟨hc.once, hc.distinct, ?_⟩
  intro i hi hv
  rw [htlb i hi] at hv
  cases hv

theorem Consistent.of_translate {virtAddr : BitVec 32} {size : Width} {writing : Bool}
    (hc : Consistent c s) (h : s.translate c virtAddr size writing = .ok (ppn, s')) :
    Consistent c s' := by
  obtain ⟨i, -, -, rfl⟩ := translate_eq_ok h
  refine hc.of_ipt (fun f => ⟨(s.ipt f).dirty, rfl⟩) ?_ ?_
  · intro j hj
    by_cases hji : j = i
    · subst hji
      simpa using hj
    · simpa [hji] using hj
  · rfl

end VirtualMemory

/-- The frame that a page was loaded into. -/
def PagingEvent.frame : PagingEvent → Option ℕ
  | .loaded _ _ ppn _ _ _ => some ppn
  | _ => none

/-- The frames of the loads, oldest load first. -/
def loads (history : List PagingEvent) : List ℕ := history.filterMap PagingEvent.frame

theorem loads_append (h h' : List PagingEvent) : loads (h ++ h') = loads h ++ loads h' :=
  List.filterMap_append

/-- Of the elements that occur more than once, the last one counts. -/
theorem dedup_concat {α : Type} [DecidableEq α] (l : List α) (a : α) :
    (l ++ [a]).dedup = l.dedup.filter (· ≠ a) ++ [a] := by
  induction l with
  | nil => rfl
  | cons b l ih =>
    rw [List.cons_append, List.dedup_cons, List.dedup_cons]
    by_cases hb : b ∈ l
    · rw [if_pos (List.mem_append_left _ hb), if_pos hb, ih]
    · by_cases hba : b = a
      · subst hba
        rw [if_pos (by simp), if_neg hb, ih, List.filter_cons_of_neg (by simp)]
      · rw [if_neg (by simp [hb, hba]), if_neg hb, ih, List.filter_cons_of_pos (by simp [hba])]
        rfl

namespace VirtualMemory

/-- The frames in use are those of the loads, and the queue has each of them at its last load. -/
structure Queued (c : PagingConfig) (s : VirtualMemory) (history : List PagingEvent) : Prop where
  inUse : ∀ f, s.InUse f ↔ f ∈ loads history
  queue : c.useRandomPageEviction = false → s.ppnQueue = (loads history).dedup

variable {c : PagingConfig} {s s' : VirtualMemory} {history events : List PagingEvent}
  {ppn i random : ℕ}

theorem queued_new (c : PagingConfig) : Queued c (new c) [] where
  inUse _ := ⟨fun h => absurd h Bool.false_ne_true, fun h => absurd h List.not_mem_nil⟩
  queue _ := rfl

theorem Queued.of_eq (hq : Queued c s history) (hbit : s'.ppnInUseBitMap = s.ppnInUseBitMap)
    (hqueue : s'.ppnQueue = s.ppnQueue) (hloads : loads events = []) :
    Queued c s' (history ++ events) where
  inUse f := by
    unfold InUse
    rw [hbit, loads_append, hloads, List.append_nil]
    exact hq.inUse f
  queue hfifo := by
    rw [hqueue, loads_append, hloads, List.append_nil]
    exact hq.queue hfifo

/-- A write to the swap file is no load. -/
theorem loads_takeFrame (h : s.takeFrame c random = .ok (ppn, s', events)) : loads events = [] := by
  obtain ⟨b, -, rfl, rfl⟩ | ⟨-, hevict⟩ := takeFrame_cases h
  · rfl
  · obtain ⟨s₀, -, hback⟩ := evictAPage_eq_ok hevict
    obtain ⟨-, -, rfl⟩ | ⟨-, p, e, index, swapFile, -, -, -, -, rfl⟩ := writeBack_cases hback
    · rfl
    · rfl

/-- Under FIFO, a free frame was never loaded, and the frame that is evicted was loaded first. -/
theorem queue_takeFrame (hq : Queued c s history) (hfifo : c.useRandomPageEviction = false)
    (h : s.takeFrame c random = .ok (ppn, s', events)) :
    s'.ppnQueue ++ [ppn] = (loads history ++ [ppn]).dedup := by
  rw [dedup_concat, ← hq.queue hfifo]
  obtain ⟨b, hfind, rfl, -⟩ | ⟨-, hevict⟩ := takeFrame_cases h
  · obtain ⟨-, hclear, -, -⟩ := BitMap.find_eq_some hfind
    have hnot : ppn ∉ s.ppnQueue := by
      rw [hq.queue hfifo, List.mem_dedup, ← hq.inUse]
      unfold InUse
      rw [hclear]
      exact Bool.false_ne_true
    rw [List.filter_eq_self.mpr]
    intro f hf
    simp only [ne_eq, decide_eq_true_eq]
    rintro rfl
    exact hnot hf
  · obtain ⟨s₀, hchoose, hback⟩ := evictAPage_eq_ok hevict
    rw [ppnQueue_writeBack hback, ppnQueue_invalidate]
    obtain ⟨hrandom, -, -⟩ | ⟨-, queue, hqueue, rfl⟩ := chooseVictim_cases hchoose
    · rw [hfifo] at hrandom
      cases hrandom
    · have hnodup : (ppn :: queue).Nodup := by
        rw [← hqueue, hq.queue hfifo]
        exact List.nodup_dedup _
      have hnot := (List.nodup_cons.mp hnodup).1
      rw [hqueue, List.filter_cons_of_neg (by simp), List.filter_eq_self.mpr]
      intro f hf
      simp only [ne_eq, decide_eq_true_eq]
      rintro rfl
      exact hnot hf

theorem ppnQueue_propagate : (s.propagate i).ppnQueue = s.ppnQueue := by
  unfold propagate
  split_ifs <;> rfl

theorem bitMap_propagate : (s.propagate i).ppnInUseBitMap = s.ppnInUseBitMap := by
  unfold propagate
  split_ifs <;> rfl

theorem Queued.of_handlePageFault (hq : Queued c s history) (hb : Paged c s) {badVAddr : ℤ}
    (h : s.handlePageFault c badVAddr random = .ok (s', events)) :
    Queued c s' (history ++ events) := by
  obtain ⟨ppn, -, rfl, rfl⟩ | ⟨-, ppn, s₁, hload, rfl⟩ := handlePageFault_cases h
  · exact hq.of_eq bitMap_propagate ppnQueue_propagate rfl
  · obtain ⟨s₂, events₁, p, e, bytes, htake, -, -, -, rfl, rfl⟩ := loadPageIntoIPT_eq_ok hload
    have ht := takes_takeFrame hb htake
    have hloads : loads (history ++ (events₁ ++
        [.loaded p (badVAddr.tdiv PageSize) ppn e.location (s₂.mainMemory ppn) bytes])) =
          loads history ++ [ppn] := by
      rw [loads_append, loads_append, loads_takeFrame htake]
      rfl
    constructor
    · intro f
      show (VirtualMemory.propagate _ _).ppnInUseBitMap.map f = true ↔ _
      rw [bitMap_propagate, hloads, List.mem_append, List.mem_singleton, ← hq.inUse, or_comm,
        ← ht.inUse]
      show (s₂.enqueue c ppn).ppnInUseBitMap.map f = true ↔ _
      unfold enqueue
      split_ifs <;> rfl
    · intro hfifo
      show (VirtualMemory.propagate _ _).ppnQueue = _
      rw [ppnQueue_propagate, hloads, ← queue_takeFrame hq hfifo htake]
      show (s₂.enqueue c ppn).ppnQueue = _
      unfold enqueue
      rw [if_neg (by rw [hfifo]; exact Bool.false_ne_true)]

theorem bitMap_flush (n : ℕ) : (s.flush n).ppnInUseBitMap = s.ppnInUseBitMap := by
  induction n with
  | zero => rfl
  | succ n ih =>
    show ((s.flush n).propagate n).ppnInUseBitMap = _
    rw [bitMap_propagate, ih]

theorem ppnQueue_flush (n : ℕ) : (s.flush n).ppnQueue = s.ppnQueue := by
  induction n with
  | zero => rfl
  | succ n ih =>
    show ((s.flush n).propagate n).ppnQueue = _
    rw [ppnQueue_propagate, ih]

theorem Queued.newSpace (hq : Queued c s history) {executable : File}
    (h : s.newSpace executable = .ok (s', events)) : Queued c s' (history ++ events) := by
  obtain ⟨a, -, rfl, rfl⟩ := newSpace_eq_ok h
  exact hq.of_eq rfl rfl rfl

end VirtualMemory

open VirtualMemory

variable {c : PagingConfig} {s s' : VirtualMemory} {history events : List PagingEvent}

/-! ## Runs -/

theorem historyStep_eq_ok {x x' : VirtualMemory × List PagingEvent} {l : PagingLabel}
    (h : historyStep c x l = .ok x') :
    ∃ events, pagingStep c x.1 l = .ok (x'.1, events) ∧ x'.2 = x.2 ++ events := by
  obtain ⟨⟨s', events⟩, hstep, hret⟩ := bind_eq_ok.mp h
  cases hret
  exact ⟨events, hstep, rfl⟩

/-- Every step keeps the queue. -/
theorem queued_of_pagingStep {l : PagingLabel} (hb : Paged c s) (hq : Queued c s history)
    (h : pagingStep c s l = .ok (s', events)) : Queued c s' (history ++ events) := by
  cases l with
  | access virtAddr a random =>
    obtain ⟨ppn, s₁, htranslate, rfl, rfl⟩ | ⟨-, hfault⟩ := accessMem_cases h
    · obtain ⟨i, -, -, rfl⟩ := translate_eq_ok htranslate
      exact hq.of_eq rfl rfl rfl
    · exact hq.of_handlePageFault hb hfault
  | switch next =>
    obtain ⟨-, rfl, rfl⟩ := switch_eq_ok h
    exact hq.of_eq (bitMap_flush c.tlbSize) (ppnQueue_flush c.tlbSize) rfl
  | startProcess executable =>
    obtain ⟨-, s₁, hnew, rfl⟩ := startProcess_eq_ok h
    exact ⟨(hq.newSpace hnew).inUse, (hq.newSpace hnew).queue⟩
  | exec executable =>
    obtain ⟨s₁, hnew, rfl⟩ := exec_Syscall_eq_ok h
    exact ⟨(hq.newSpace hnew).inUse, (hq.newSpace hnew).queue⟩
  | fork functionPtr =>
    obtain ⟨rfl, rfl | ⟨p, -, rfl⟩⟩ := fork_Syscall_cases h
    · exact hq.of_eq rfl rfl rfl
    · exact hq.of_eq rfl rfl rfl

/-- The page faults of the step are at addresses of the running process. -/
def FaultsInside (c : PagingConfig) (s : VirtualMemory) : PagingLabel → Prop
  | .access virtAddr _ _ => FaultInside c s virtAddr
  | _ => True

instance (c : PagingConfig) (s : VirtualMemory) (l : PagingLabel) :
    Decidable (FaultsInside c s l) := by
  cases l <;> unfold FaultsInside <;> infer_instance

/-- Such a step keeps the TLB and the inverted page table consistent. -/
theorem consistent_of_pagingStep {l : PagingLabel} (hb : Paged c s) (hc : Consistent c s)
    (hl : FaultsInside c s l) (h : pagingStep c s l = .ok (s', events)) : Consistent c s' := by
  cases l with
  | access virtAddr a random =>
    obtain ⟨ppn, s₁, htranslate, rfl, -⟩ | ⟨hmiss, hfault⟩ := accessMem_cases h
    · have hc₁ := hc.of_translate htranslate
      exact ⟨hc₁.once, hc₁.distinct, hc₁.names⟩
    · obtain ⟨p, -, hinside, -⟩ := hl hmiss
      exact hc.of_handlePageFault hb hinside hmiss hfault
  | switch next =>
    obtain ⟨-, rfl, -⟩ := switch_eq_ok h
    exact ((hc.flush c.tlbSize).of_keeps keeps_invalidateTLB).with_space fun _ _ => rfl
  | startProcess executable =>
    obtain ⟨hspace, s₁, hnew, rfl⟩ := startProcess_eq_ok h
    have hkeeps := keeps_newSpace hnew
    apply (hc.of_keeps hkeeps).with_space
    intro i hi
    exact (hb.newSpace hnew).tlb_invalid (by rw [hkeeps.space, hspace]) hi
  | exec executable =>
    obtain ⟨s₁, hnew, rfl⟩ := exec_Syscall_eq_ok h
    exact (hc.of_keeps (keeps_newSpace hnew)).of_keeps keeps_invalidateTLB
  | fork functionPtr =>
    obtain ⟨-, rfl | ⟨p, -, rfl⟩⟩ := fork_Syscall_cases h
    · exact hc
    · exact hc.of_keeps (keeps_allocateStack.trans keeps_invalidateTLB)

/-- What is known in every run, whatever addresses the programs use. -/
theorem paged_of_run {l : List PagingLabel}
    (h : exec (historyStep c) (new c, []) l = .ok (s, history)) :
    Paged c s ∧ Queued c s history := by
  have hstep : ∀ x i x', Paged c x.1 ∧ Queued c x.1 x.2 → historyStep c x i = .ok x' →
      Paged c x'.1 ∧ Queued c x'.1 x'.2 := by
    intro x i x' ⟨hb, hq⟩ hstep
    obtain ⟨events, hstep, hhistory⟩ := historyStep_eq_ok hstep
    rw [hhistory]
    exact ⟨paged_of_pagingStep hb hstep, queued_of_pagingStep hb hq hstep⟩
  exact exec_preserves hstep ⟨paged_new c, queued_new c⟩ h

/-- **Page table, TLB and eviction queue stay consistent.** The pages of the processes are in one
    frame each, the valid TLB entries have different pages, each in a frame that the inverted page
    table gives to the running process and that page, and under FIFO the queue has each frame in use
    once, oldest load first. -/
theorem paging_consistent (c : PagingConfig) {l : List PagingLabel} {s : VirtualMemory}
    {history : List PagingEvent}
    (hl : Guarded (historyStep c) (fun x => FaultsInside c x.1) (new c, []) l)
    (h : exec (historyStep c) (new c, []) l = .ok (s, history)) :
    (∀ f < c.numPhysPages, ∀ g < c.numPhysPages, (s.ipt f).valid = true → (s.ipt g).valid = true →
      (s.ipt f).processID = (s.ipt g).processID → (s.ipt f).virtualPage = (s.ipt g).virtualPage →
      f = g) ∧
    (∀ i < c.tlbSize, ∀ j < c.tlbSize, (s.tlb i).valid = true → (s.tlb j).valid = true →
      (s.tlb i).virtualPage = (s.tlb j).virtualPage → i = j) ∧
    (∀ i < c.tlbSize, (s.tlb i).valid = true → (s.tlb i).physicalPage < c.numPhysPages ∧
      (s.ipt (s.tlb i).physicalPage).valid = true ∧
      (s.ipt (s.tlb i).physicalPage).processID = s.space ∧
      (s.ipt (s.tlb i).physicalPage).virtualPage = (s.tlb i).virtualPage ∧ s.space ≠ none) ∧
    (c.useRandomPageEviction = false → s.ppnQueue = (loads history).dedup ∧ s.ppnQueue.Nodup ∧
      ∀ f, f ∈ s.ppnQueue ↔ s.InUse f) := by
  obtain ⟨hb, hq⟩ := paged_of_run h
  have hstep : ∀ x i x', Paged c x.1 ∧ Consistent c x.1 → FaultsInside c x.1 i →
      historyStep c x i = .ok x' → Paged c x'.1 ∧ Consistent c x'.1 := by
    intro x i x' ⟨hb, hc⟩ hi hstep
    obtain ⟨events, hstep, -⟩ := historyStep_eq_ok hstep
    exact ⟨paged_of_pagingStep hb hstep, consistent_of_pagingStep hb hc hi hstep⟩
  have hc : Consistent c s := (exec_inv hstep ⟨paged_new c, consistent_new c⟩ hl h).2
  refine ⟨fun f _ g _ => hc.once f g, hc.distinct, ?_, ?_⟩
  · intro i hi hv
    obtain ⟨hvalid, p, hp, -⟩ := hb.tlb i hi hv
    obtain ⟨hspace, hpage⟩ := hc.names i hi hv
    refine ⟨hb.lt _ ((hb.inUse _).mpr hvalid), hvalid, hspace, hpage, ?_⟩
    rw [hp]
    exact Option.some_ne_none p
  · intro hfifo
    have hqueue := hq.queue hfifo
    refine ⟨hqueue, ?_, ?_⟩
    · rw [hqueue]
      exact List.nodup_dedup _
    · intro f
      rw [hqueue, List.mem_dedup, hq.inUse]

/-- A machine with one frame and two TLB entries. -/
def oneFrame : PagingConfig := ⟨1, 2, false, by decide, by decide⟩

/-- A process stores to its stack, and starts another one, which takes the frame. -/
def storeThenSwitch : List PagingLabel :=
  [.startProcess oneInstruction, .access 0 (.load .word) 0, .access 0 (.load .word) 0,
    .access 128 (.store .word 7) 0, .access 128 (.store .word 7) 0, .fork 4, .exec oneInstruction,
    .switch (some 1), .access 0 (.load .word) 0]

theorem paging_consistent_oneFrame :
    ∃ s history, exec (historyStep oneFrame) (new oneFrame, []) storeThenSwitch = .ok (s, history) ∧
      s.space = some 1 ∧ loads history = [0, 0, 0] ∧ s.ppnQueue = (loads history).dedup ∧
      (s.ipt (s.tlb 0).physicalPage).processID = s.space ∧
      (s.ipt (s.tlb 0).physicalPage).virtualPage = (s.tlb 0).virtualPage := by
  have hl : Guarded (historyStep oneFrame) (fun x => FaultsInside oneFrame x.1) (new oneFrame, [])
      storeThenSwitch := by
    decide +kernel
  have hrun : Ends (historyStep oneFrame) (new oneFrame, []) storeThenSwitch fun x =>
      (x.1.tlb 0).valid = true ∧ x.1.space = some 1 ∧ loads x.2 = [0, 0, 0] := by
    decide +kernel
  obtain ⟨⟨s, history⟩, h, hvalid, hspace, hloads⟩ := hrun
  obtain ⟨-, -, htlb, hqueue⟩ := paging_consistent oneFrame hl h
  obtain ⟨-, -, hprocess, hpage, -⟩ := htlb 0 (by decide) hvalid
  exact ⟨s, history, h, hspace, hloads, (hqueue rfl).1, hprocess, hpage⟩

end Nachos.Userprog
