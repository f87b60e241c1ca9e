import Nachos.Userprog.UserMemory

/-!
# Virtual memory coherence

An eviction, `Fork` and `Exec` drop the dirty bit of a translation, and a page that runs past the
end of the executable shows the old bytes of the frame.

* `loads_coherent`: in every run that has none of these, each load gets what the process stored
  last, or the first bytes of the page.
-/

namespace Nachos.Userprog

open Nachos.Lib

/-- The bytes that a load gets from a page, in the order of the machine. -/
def loadBytes (virtAddr : BitVec 32) (size : VirtualMemory.Width) (page : Page) : List UInt8 :=
  (List.range size.size).map fun i => page (Fin.ofNat PageSize (virtAddr.toNat + i))

namespace VirtualMemory

variable {c : PagingConfig} {s s' s₁ : VirtualMemory} {history events : List PagingEvent}
  {m : UserMemory} {ppn p q i f random : ℕ} {vpn w : ℤ} {e e' : PageTableEntry}

/-- **Coherence**: a load that can be done gets the bytes of the memory. -/
def Coherent (c : PagingConfig) (s : VirtualMemory) (m : UserMemory) : Prop :=
  ∀ p virtAddr size ppn s', s.space = some p → s.translate c virtAddr size false = .ok (ppn, s') →
    loadBytes virtAddr size (s.mainMemory ppn) =
      loadBytes virtAddr size (m p (pageNumber virtAddr))

/-- A load that was a page fault is done when it is tried again. -/
def DoneNext (c : PagingConfig) (s : VirtualMemory) : Prop :=
  ∀ virtAddr size random s' events, FaultInside c s virtAddr →
    s.findTLBIndex c (virtAddr.toNat / PageSize) = none →
    s.accessMem c virtAddr (.load size) random = .ok (s', events) →
      ∃ r, s'.translate c virtAddr size false = .ok r

/-! ## Accesses that are done -/

/-- The page of a translation that is found. -/
theorem page_of_findTLBIndex (hc : Consistent c s) (hb : Paged c s) {virtAddr : BitVec 32}
    (hp : s.space = some p) (h : s.findTLBIndex c (virtAddr.toNat / PageSize) = some i) :
    s.Valid (s.tlb i).physicalPage ∧ (s.ipt (s.tlb i).physicalPage).processID = some p ∧
      (s.ipt (s.tlb i).physicalPage).virtualPage = pageNumber virtAddr ∧
      s.Mapped p (pageNumber virtAddr) := by
  obtain ⟨hi, hv, hpage⟩ := findTLBIndex_eq_some h
  obtain ⟨hvalid, q, hq, hmapped⟩ := hb.tlb i hi hv
  obtain ⟨hprocess, hvirtual⟩ := hc.names i hi hv
  rw [hp] at hq
  cases hq
  have hnumber : (s.tlb i).virtualPage = pageNumber virtAddr := by
    rw [Int.emod_eq_of_lt hmapped.2.1 (by have := hmapped.2.2.2; omega)] at hpage
    exact hpage
  rw [hnumber] at hvirtual hmapped
  exact ⟨hvalid, by rw [hprocess, hp], hvirtual, hmapped⟩

theorem Cached.coherent (hm : Cached c s m s.Valid) (hc : Consistent c s) (hb : Paged c s) :
    Coherent c s m := by
  intro p virtAddr size ppn s' hp h
  obtain ⟨i, hfind, rfl, -⟩ := translate_eq_ok h
  obtain ⟨hvalid, hprocess, hvirtual, -⟩ := page_of_findTLBIndex hc hb hp hfind
  rw [hm.frame _ p hvalid hprocess, hvirtual]

/-- The state after an access that is done through a translation. -/
def accessed (s : VirtualMemory) (i : ℕ) (virtAddr : BitVec 32) (a : Access) : VirtualMemory :=
  { s with
    tlb := Function.update s.tlb i
      { s.tlb i with use := true, dirty := (s.tlb i).dirty || a.writing }
    mainMemory := Function.update s.mainMemory (s.tlb i).physicalPage
      (a.apply virtAddr (s.mainMemory (s.tlb i).physicalPage)) }

/-- **A store** changes the frame and the memory alike, and makes the translation dirty. -/
theorem Cached.accessed (hm : Cached c s m s.Valid) (hc : Consistent c s) (hb : Paged c s)
    {virtAddr : BitVec 32} (a : Access) (hp : s.space = some p)
    (h : s.findTLBIndex c (virtAddr.toNat / PageSize) = some i) :
    Cached c (s.accessed i virtAddr a)
      (setPage m p (pageNumber virtAddr) (a.apply virtAddr (m p (pageNumber virtAddr))))
      s.Valid := by
  obtain ⟨hvalid, hprocess, hvirtual, -, -, hlt, -⟩ := page_of_findTLBIndex hc hb hp h
  obtain ⟨hi, hv, -⟩ := findTLBIndex_eq_some h
  have hother : ∀ f q, s.Valid f → (s.ipt f).processID = some q → f ≠ (s.tlb i).physicalPage →
      ¬(q = p ∧ (s.ipt f).virtualPage = pageNumber virtAddr) := by
    intro f q hf hq hne ⟨hqp, hw⟩
    exact hne (hc.once f _ hf hvalid (by rw [hq, hprocess, hqp]) (by rw [hw, hvirtual]))
  have hclean : ∀ f, CleanInTLB c (s.accessed i virtAddr a) f → CleanInTLB c s f ∧
      (f = (s.tlb i).physicalPage → a.writing = false) := by
    intro f hclean
    have hself : f = (s.tlb i).physicalPage → ((s.tlb i).dirty || a.writing) = false := by
      intro hf
      have := hclean i hi
      simpa [VirtualMemory.accessed, hv, hf] using this
    constructor
    · intro j hj hvj hframe
      by_cases hji : j = i
      · subst hji
        exact (Bool.or_eq_false_iff.mp (hself hframe.symm)).1
      · have := hclean j hj
        simpa [VirtualMemory.accessed, hji, hvj, hframe] using this
    · intro hf
      exact (Bool.or_eq_false_iff.mp (hself hf)).2
  constructor
  · intro f q hf hq
    show (Function.update _ _ _) f = _
    by_cases hfp : f = (s.tlb i).physicalPage
    · subst hfp
      have hq' : (s.ipt (s.tlb i).physicalPage).processID = some q := hq
      rw [hprocess] at hq'
      cases hq'
      show _ = setPage m p _ _ p (s.ipt (s.tlb i).physicalPage).virtualPage
      rw [Function.update_self, hvirtual, setPage_self, hm.frame _ p hvalid hprocess, hvirtual]
    · show _ = setPage m p _ _ q (s.ipt f).virtualPage
      rw [Function.update_of_ne hfp, setPage_of_ne m _ (hother f q hf hq hfp)]
      exact hm.frame f q hf hq
  · intro f q e hf hq he hdirty hcl
    obtain ⟨hcl, hwriting⟩ := hclean f hcl
    have hback := hm.clean f q e hf hq he hdirty hcl
    show s.backing e = setPage m p _ _ q (s.ipt f).virtualPage
    by_cases hfp : f = (s.tlb i).physicalPage
    · -- Nothing is dirty, so the access is a load.
      subst hfp
      have hq' : (s.ipt (s.tlb i).physicalPage).processID = some q := hq
      rw [hprocess] at hq'
      cases hq'
      rw [hback, hvirtual, setPage_self]
      cases a with
      | load size => rfl
      | store size value => exact absurd (hwriting rfl) Bool.true_eq_false.mp
    · rw [hback, setPage_of_ne m _ (hother f q hf hq hfp)]
  · intro q w e he hnot
    have hne : ¬(q = p ∧ w = pageNumber virtAddr) := by
      intro ⟨hq, hw⟩
      apply hnot _ hvalid
      rw [hq, hw]
      exact ⟨hprocess, hvirtual⟩
    rw [setPage_of_ne m _ hne]
    exact hm.away q w e he hnot
  · intro j hj hvj hdirty
    by_cases hji : j = i
    · subst hji
      simp only [VirtualMemory.accessed, Function.update_self] at hdirty ⊢
      rw [hm.dirty j hj hv hdirty, Bool.true_or]
    · simp only [VirtualMemory.accessed, Function.update_of_ne hji] at hvj hdirty ⊢
      exact hm.dirty j hj hvj hdirty
  · intro q hq w hle
    have hne : ¬(q = p ∧ w = pageNumber virtAddr) := by
      intro ⟨hqp, hw⟩
      have hle' : ((s.spaces q).numPages : ℤ) ≤ w := hle
      rw [hqp, hw] at hle'
      omega
    rw [setPage_of_ne m _ hne]
    exact hm.beyond q hq w hle

/-! ## Page faults -/

/-- The frame of a page fault keeps its bytes until the page is read into it. -/
theorem mainMemory_takeFrame (h : s.takeFrame c random = .ok (ppn, s', events)) :
    s'.mainMemory = s.mainMemory := by
  obtain ⟨b, -, rfl, -⟩ | ⟨-, hevict⟩ := takeFrame_cases h
  · rfl
  · obtain ⟨s₀, hchoose, hback⟩ := evictAPage_eq_ok hevict
    have hsame : (s₀.invalidate c ppn).mainMemory = s.mainMemory := by
      rw [invalidate_eq]
      obtain ⟨-, -, rfl⟩ | ⟨-, queue, -, rfl⟩ := chooseVictim_cases hchoose <;> rfl
    obtain ⟨-, rfl, -⟩ | ⟨-, p, e, index, g, -, -, -, rfl, -⟩ := writeBack_cases hback
    · exact hsame
    · exact hsame

/-- A page that is in no frame keeps its entry. -/
theorem pageEntry_takeFrame (hb : Paged c s)
    (hnot : ∀ f, s.Valid f → ¬((s.ipt f).processID = some p ∧ (s.ipt f).virtualPage = vpn))
    (h : s.takeFrame c random = .ok (ppn, s', events)) (he : s'.pageEntry p vpn = some e) :
    s.pageEntry p vpn = some e := by
  obtain ⟨b, -, rfl, -⟩ | ⟨-, hevict⟩ := takeFrame_cases h
  · exact he
  · obtain ⟨s₀, hchoose, hback⟩ := evictAPage_eq_ok hevict
    have hipt : (s₀.invalidate c ppn).ipt = s.ipt := by
      rw [(keeps_invalidate c s₀ ppn).ipt, (keeps_chooseVictim hchoose).ipt]
    have hentry : ∀ q w, (s₀.invalidate c ppn).pageEntry q w = s.pageEntry q w := by
      intro q w
      unfold pageEntry
      rw [spaces_invalidate, (tables_chooseVictim hchoose).1]
    obtain ⟨-, rfl, -⟩ | ⟨hdirty, q, e', index, g, hq, he', -, rfl, -⟩ := writeBack_cases hback
    · rw [← hentry]
      exact he
    · obtain ⟨hp, hw, -⟩ | ⟨-, hold⟩ := pageEntry_wroteBack he' he
      · rw [hipt] at hdirty hq hw
        rw [hp] at hnot
        exact absurd ⟨hq, hw.symm⟩ (hnot ppn (hb.dirty ppn hdirty))
      · rw [← hentry]
        exact hold

/-- The frame has zeros where the file of a page ends. -/
def ZerosBehind (s : VirtualMemory) (ppn : ℕ) (e : PageTableEntry) : Prop :=
  e.location = .inExecutable → ∀ executable ∈ e.executable, ∀ k : Fin PageSize,
    executable.size ≤ e.byteOffset.toNat + k → s.mainMemory ppn k = 0

instance (s : VirtualMemory) (ppn : ℕ) (e : PageTableEntry) : Decidable (s.ZerosBehind ppn e) := by
  unfold ZerosBehind
  infer_instance

/-- A page is read from its place. -/
theorem readPage_eq_backing (hs : Swapped s history) (he : s.pageEntry p vpn = some e)
    (hzero : s.ZerosBehind ppn e) {bytes : Page}
    (h : s.readPage e (s.mainMemory ppn) = .ok bytes) : bytes = s.backing e := by
  unfold readPage at h
  unfold backing
  cases hloc : e.location with
  | inExecutable =>
    simp only [hloc] at h ⊢
    cases hexecutable : e.executable with
    | none =>
      simp only [hexecutable] at h
      cases h
    | some executable =>
      simp only [hexecutable] at h ⊢
      split_ifs at h
      cases h
      funext k
      by_cases hk : e.byteOffset.toNat + k < executable.size
      · rw [File.readAt_of_lt hk, File.readAt_of_lt hk]
      · rw [File.readAt_of_le (by omega), File.readAt_of_le (by omega)]
        exact hzero hloc executable hexecutable k (by omega)
  | inSwapFile =>
    simp only [hloc] at h ⊢
    split_ifs at h
    cases h
    obtain ⟨stored, -, -, hload⟩ := hs.holds p vpn e he hloc
    rw [hload, hload]
  | neither =>
    simp only [hloc] at h ⊢
    cases h
    rfl

/-- The frame for the page has told its dirty bit, and the page is read from its place. -/
def LoadsPage (c : PagingConfig) (s : VirtualMemory) (vpn : ℤ) (random : ℕ) : Prop :=
  ∀ ppn ∈ s.nextFrame c random, ToldFrame c s ppn ∧
    ∀ p ∈ s.space, ∀ e ∈ s.pageEntry p vpn, s.ZerosBehind ppn e

instance (c : PagingConfig) (s : VirtualMemory) (vpn : ℤ) (random : ℕ) :
    Decidable (LoadsPage c s vpn random) := by
  unfold LoadsPage ToldFrame
  infer_instance

/-- **A page that is loaded** has the bytes of the memory. -/
theorem Cached.loadPageIntoIPT (hm : Cached c s m s.Valid) (hc : Consistent c s)
    (hs : Swapped s history) (hb : Paged c s) (hloads : LoadsPage c s vpn random)
    (hfind : s.findIPTIndex c vpn = none)
    (h : s.loadPageIntoIPT c vpn random = .ok (ppn, s', events)) : Cached c s' m s'.Valid := by
  obtain ⟨s₁, events₁, p, e, bytes, htake, hp, he, hread, rfl, -⟩ := loadPageIntoIPT_eq_ok h
  obtain ⟨htold, hzero⟩ := hloads ppn (nextFrame_of_takeFrame htake)
  have hkeeps := keeps_takeFrame htake
  have hspace : s.space = some p := by rw [← hkeeps.space, hp]
  have hnot : ∀ f, s.Valid f → ¬((s.ipt f).processID = some p ∧ (s.ipt f).virtualPage = vpn) := by
    intro f hf ⟨hprocess, hpage⟩
    apply findIPTIndex_eq_none hfind (hb.lt f ((hb.inUse f).mpr hf)) hf hpage
    rw [hprocess, hspace]
  have hm₁ := hm.of_takeFrame hc hs hb htold htake
  have hback : s₁.backing e = m p vpn := by
    apply hm₁.away p vpn e he
    intro f hf
    have hf' : s.Valid f := by
      unfold Valid
      rw [← hkeeps.ipt]
      exact hf.1
    rw [hkeeps.ipt]
    exact hnot f hf'
  have hzero₁ : s₁.ZerosBehind ppn e := by
    unfold ZerosBehind
    rw [mainMemory_takeFrame htake]
    exact hzero p hspace e (pageEntry_takeFrame hb hnot htake he)
  have hbytes := readPage_eq_backing (hs.takeFrame htake) he hzero₁ hread
  have hm₂ : Cached c (s₁.enqueue c ppn) m ((s₁.enqueue c ppn).ValidBut ppn) ∧
      (s₁.enqueue c ppn).pageEntry p vpn = some e ∧
      (s₁.enqueue c ppn).backing e = s₁.backing e := by
    unfold enqueue
    split_ifs
    · exact ⟨hm₁, he, rfl⟩
    · exact ⟨⟨hm₁.frame, hm₁.clean, hm₁.away, hm₁.dirty, hm₁.beyond⟩, he, rfl⟩
  obtain ⟨hm₂, he₂, hback₂⟩ := hm₂
  apply hm₂.populate _ he₂ (by rw [hbytes, hback]) (by rw [hback₂, hback])
  exact (unnamed_takeFrame hb hc htake).of_keeps (keeps_enqueue c s₁ ppn)

theorem valid_updateTLBFromIPT : (s.updateTLBFromIPT c ppn).Valid = s.Valid := by
  funext f
  obtain ⟨d, hd⟩ := ipt_propagate (s := s) (i := s.currentTLBIndex) f
  show (((s.propagate s.currentTLBIndex).ipt f).valid = true) = _
  rw [hd]
  rfl

theorem valid_flush (n : ℕ) : (s.flush n).Valid = s.Valid := by
  induction n with
  | zero => rfl
  | succ n ih =>
    rw [← ih]
    funext f
    obtain ⟨d, hd⟩ := ipt_propagate (s := s.flush n) (i := n) f
    show ((((s.flush n).propagate n).ipt f).valid = true) = _
    rw [hd]
    rfl

theorem Cached.handlePageFault (hm : Cached c s m s.Valid) (hc : Consistent c s)
    (hs : Swapped s history) (hb : Paged c s) {virtAddr : BitVec 32}
    (hloads : s.findIPTIndex c (virtAddr.toInt.tdiv PageSize) = none →
      LoadsPage c s (virtAddr.toInt.tdiv PageSize) random)
    (h : s.handlePageFault c virtAddr.toInt random = .ok (s', events)) :
    Cached c s' m s'.Valid := by
  obtain ⟨ppn, hfind, rfl, -⟩ | ⟨hfind, ppn, s₁, hload, rfl⟩ := handlePageFault_cases h
  · obtain ⟨-, hvalid, -, -⟩ := findIPTIndex_eq_some hfind
    rw [valid_updateTLBFromIPT]
    exact hm.updateTLBFromIPT hc hb hvalid
  · obtain ⟨hb', hvalid, -, -⟩ := hb.of_loadPageIntoIPT (tdiv_pageSize_lt virtAddr) hload
    have hm₁ := hm.loadPageIntoIPT hc hs hb (hloads hfind) hfind hload
    rw [valid_updateTLBFromIPT]
    exact hm₁.updateTLBFromIPT (hc.of_loadPageIntoIPT hb hfind hload) hb' hvalid

/-- The TLB has a translation of the page that a fault has brought. -/
theorem findTLBIndex_updateTLBFromIPT (hb : Paged c s) {virtAddr : BitVec 32}
    (hinside : 0 ≤ virtAddr.toInt) (hvalid : (s.ipt ppn).valid = true)
    (hvpn : (s.ipt ppn).virtualPage = virtAddr.toInt.tdiv PageSize) :
    (s.updateTLBFromIPT c ppn).findTLBIndex c (virtAddr.toNat / PageSize) ≠ none := by
  intro hnone
  obtain ⟨d, hd⟩ := ipt_propagate (s := s) (i := s.currentTLBIndex) ppn
  have hindex : (s.propagate s.currentTLBIndex).currentTLBIndex = s.currentTLBIndex := by
    unfold propagate
    split_ifs <;> rfl
  have hself : (s.updateTLBFromIPT c ppn).tlb s.currentTLBIndex =
      ⟨virtAddr.toInt.tdiv PageSize, (s.ipt ppn).physicalPage, true, (s.ipt ppn).readOnly,
        (s.ipt ppn).use, d⟩ := by
    simp [updateTLBFromIPT, refill, hindex, hd, hvalid, hvpn]
  apply findTLBIndex_eq_none hnone hb.index
  · rw [hself]
  · rw [hself]
    exact tdiv_pageSize_of_nonneg hinside

theorem doneNext (hb : Paged c s) : DoneNext c s := by
  intro virtAddr size random s' events hinside hmiss h
  have hb' := hb.of_accessMem h
  obtain ⟨p, -, hinside, -⟩ := hinside hmiss
  have haligned : virtAddr.toNat % size.size = 0 := by
    by_contra hne
    have herror : s.translate c virtAddr size false = .error .addressErrorException := if_pos hne
    have h' := h
    unfold accessMem Access.size Access.writing at h'
    simp only [herror] at h'
    cases h'
  have hfound : s'.findTLBIndex c (virtAddr.toNat / PageSize) ≠ none := by
    obtain ⟨ppn, s₁, htranslate, -⟩ | ⟨-, hfault⟩ := accessMem_cases h
    · obtain ⟨i, hfind, -⟩ := translate_eq_ok htranslate
      rw [hmiss] at hfind
      cases hfind
    · obtain ⟨ppn, hfind, rfl, -⟩ | ⟨-, ppn, s₁, hload, rfl⟩ := handlePageFault_cases hfault
      · obtain ⟨-, hvalid, hvpn, -⟩ := findIPTIndex_eq_some hfind
        exact findTLBIndex_updateTLBFromIPT hb hinside hvalid hvpn
      · obtain ⟨hb₁, hvalid, hvpn, -⟩ := hb.of_loadPageIntoIPT (tdiv_pageSize_lt virtAddr) hload
        exact findTLBIndex_updateTLBFromIPT hb₁ hinside hvalid hvpn
  obtain ⟨i, hi⟩ := Option.ne_none_iff_exists'.mp hfound
  obtain ⟨hlt, hv, -⟩ := findTLBIndex_eq_some hi
  have hframe := hb'.lt _ ((hb'.inUse _).mpr (hb'.tlb i hlt hv).1)
  unfold translate
  rw [if_neg (by simpa using haligned)]
  simp only [hi, Bool.and_false, Bool.false_eq_true, if_false, if_neg (Nat.not_le.mpr hframe)]
  exact ⟨_, rfl⟩

/-! ## New pages -/

/-- The pages of a new address space are loaded with the bytes of the program. -/
theorem backing_of_new {executable : File} {a : AddrSpace} (h : AddrSpace.new executable = some a)
    (he : a.lookup vpn = some e) : s.backing e = initialPage executable vpn := by
  have hpos := (AddrSpace.lookup_isSome_iff.mp ⟨e, he⟩).1
  obtain ⟨noffH, hheader, rfl⟩ := AddrSpace.lookup_new h he
  unfold initialPage AddrSpace.firstEntry NoffHeader.firstBytes
  simp only [hheader]
  rw [Int.toNat_of_nonneg hpos]
  split_ifs
  · rfl
  · rfl

theorem initialPage_of_le {executable : File} {a : AddrSpace}
    (h : AddrSpace.new executable = some a) (hle : (a.numPages : ℤ) ≤ vpn) :
    initialPage executable vpn = fun _ => 0 := by
  obtain ⟨noffH, hheader, himage⟩ := AddrSpace.imagePages_le_of_new h
  unfold initialPage NoffHeader.firstBytes
  simp only [hheader]
  rw [if_neg (by omega)]

theorem Cached.newSpace (hm : Cached c s m s.Valid) (hb : Paged c s) {executable : File}
    (h : s.newSpace executable = .ok (s', events)) :
    Cached c s' (Function.update m s.numSpaces (initialPage executable)) s'.Valid := by
  obtain ⟨a, ha, rfl, -⟩ := newSpace_eq_ok h
  have hold : ∀ f q, s.Valid f → (s.ipt f).processID = some q → q ≠ s.numSpaces := by
    intro f q hf hq
    obtain ⟨p, hp, hlt, -⟩ := hb.page f hf
    rw [hp] at hq
    cases hq
    omega
  constructor
  · intro f q hf hq
    rw [Function.update_of_ne (hold f q hf hq)]
    exact hm.frame f q hf hq
  · intro f q e hf hq he hdirty hclean
    have hne := hold f q hf hq
    unfold pageEntry at he
    simp only [Function.update_of_ne hne] at he ⊢
    exact hm.clean f q e hf hq he hdirty hclean
  · intro q w e he hnot
    unfold pageEntry at he
    by_cases hq : q = s.numSpaces
    · subst hq
      simp only [Function.update_self] at he ⊢
      exact backing_of_new ha he
    · simp only [Function.update_of_ne hq] at he ⊢
      exact hm.away q w e he hnot
  · exact hm.dirty
  · intro q hlt w hle
    by_cases hq : q = s.numSpaces
    · subst hq
      simp only [Function.update_self] at hle ⊢
      exact initialPage_of_le ha hle
    · simp only [Function.update_of_ne hq] at hle ⊢
      exact hm.beyond q (by have : q < s.numSpaces + 1 := hlt; omega) w hle

/-- A new stack is zero, and so is the memory behind the last page. -/
theorem Cached.allocateStack (hm : Cached c s m s.Valid) (hb : Paged c s) (hp : p < s.numSpaces) :
    Cached c (s.allocateStack p) m (s.allocateStack p).Valid := by
  have hentry : ∀ q w e, (s.allocateStack p).pageEntry q w = some e →
      s.pageEntry q w = some e ∨
        q = p ∧ ¬w < (s.spaces p).numPages ∧ e = .neither := by
    intro q w e he
    unfold pageEntry VirtualMemory.allocateStack at he
    by_cases hq : q = p
    · subst hq
      simp only [Function.update_self] at he
      obtain he | ⟨hge, rfl⟩ := AddrSpace.lookup_allocateStack he
      · exact .inl he
      · exact .inr ⟨rfl, hge, rfl⟩
    · simp only [Function.update_of_ne hq] at he
      exact .inl he
  refine ⟨hm.frame, ?_, ?_, hm.dirty, ?_⟩
  · intro f q e hf hq he hdirty hclean
    obtain he | ⟨rfl, hge, -⟩ := hentry _ _ _ he
    · exact hm.clean f q e hf hq he hdirty hclean
    · obtain ⟨p', hp', -, -, hlt, -⟩ := hb.page f hf
      have hq' : (s.ipt f).processID = some q := hq
      rw [hp'] at hq'
      cases hq'
      exact absurd hlt hge
  · intro q w e he hnot
    obtain he | ⟨rfl, hge, rfl⟩ := hentry _ _ _ he
    · exact hm.away q w e he hnot
    · rw [hm.beyond q hp w (by omega)]
      rfl
  · intro q hq w hle
    apply hm.beyond q hq w
    by_cases hqp : q = p
    · subst hqp
      have hgrow := AddrSpace.numPages_le_allocateStack (a := s.spaces q)
      simp only [VirtualMemory.allocateStack, Function.update_self] at hle
      omega
    · simpa [VirtualMemory.allocateStack, hqp] using hle

end VirtualMemory

open VirtualMemory

variable {c : PagingConfig} {s s' : VirtualMemory} {history events : List PagingEvent}
  {m : UserMemory}

/-! ## Runs -/

/-- A step of the kernel and of the memory that it implements. -/
def memoryStep (c : PagingConfig) (x : (VirtualMemory × List PagingEvent) × UserMemory)
    (l : PagingLabel) : Except PagingFault ((VirtualMemory × List PagingEvent) × UserMemory) := do
  let y ← historyStep c x.1 l
  return (y, userStep c x.1.1 x.2 l)

/-- No dirty bit is lost: a page is loaded as in `LoadsPage`, and `Fork` and `Exec` empty the TLB
    when every dirty bit is in the inverted page table. -/
def KeepsMemory (c : PagingConfig) (s : VirtualMemory) : PagingLabel → Prop
  | .access virtAddr _ random =>
    FaultInside c s virtAddr ∧ (s.findTLBIndex c (virtAddr.toNat / PageSize) = none →
      s.findIPTIndex c (virtAddr.toInt.tdiv PageSize) = none →
        LoadsPage c s (virtAddr.toInt.tdiv PageSize) random)
  | .exec _ => ToldDirty c s
  | .fork functionPtr =>
    ¬(functionPtr.toNat = 0 ∨ PageSize * c.numPhysPages ≤ functionPtr.toNat) → ToldDirty c s
  | .switch _ | .startProcess _ => True

instance (c : PagingConfig) (s : VirtualMemory) : Decidable (ToldDirty c s) :=
  inferInstanceAs (Decidable (∀ i < c.tlbSize, _ → _ → _))

instance (c : PagingConfig) (s : VirtualMemory) : (l : PagingLabel) →
    Decidable (KeepsMemory c s l)
  | .access _ _ _ => inferInstanceAs (Decidable (_ ∧ (_ → _ → _)))
  | .exec _ => inferInstanceAs (Decidable (ToldDirty c s))
  | .fork _ => inferInstanceAs (Decidable (_ → _))
  | .switch _ | .startProcess _ => isTrue trivial

theorem KeepsMemory.faultsInside {l : PagingLabel} (h : KeepsMemory c s l) :
    FaultsInside c s l := by
  cases l with
  | access virtAddr a random => exact h.1
  | switch next => trivial
  | startProcess executable => trivial
  | exec executable => trivial
  | fork functionPtr => trivial

/-- **Such a step** keeps the memory. -/
theorem cached_of_pagingStep {l : PagingLabel} (hb : Paged c s) (hc : Consistent c s)
    (hs : Swapped s history) (hm : Cached c s m s.Valid) (hl : KeepsMemory c s l)
    (h : pagingStep c s l = .ok (s', events)) : Cached c s' (userStep c s m l) s'.Valid := by
  cases l with
  | access virtAddr a random =>
    obtain ⟨ppn, s₁, htranslate, rfl, -⟩ | ⟨hmiss, hfault⟩ := accessMem_cases h
    · obtain ⟨i, hfind, rfl, rfl⟩ := translate_eq_ok htranslate
      obtain ⟨hi, hv, -⟩ := findTLBIndex_eq_some hfind
      obtain ⟨-, p, hp, -⟩ := hb.tlb i hi hv
      have hstore : userStep c s m (.access virtAddr a random) =
          setPage m p (pageNumber virtAddr) (a.apply virtAddr (m p (pageNumber virtAddr))) := by
        unfold userStep
        simp only [htranslate]
        rw [hp]
      rw [hstore]
      exact hm.accessed hc hb a hp hfind
    · have hsame : userStep c s m (.access virtAddr a random) = m := by
        unfold userStep
        simp only
        split
        · rename_i htranslate
          obtain ⟨i, hfind, -⟩ := translate_eq_ok htranslate
          rw [hmiss] at hfind
          cases hfind
        · rfl
      rw [hsame]
      exact hm.handlePageFault hc hs hb (hl.2 hmiss) hfault
  | switch next =>
    obtain ⟨-, rfl, -⟩ := switch_eq_ok h
    have hflush := hm.flush hc (le_refl c.tlbSize)
    have hinvalid := hflush.invalidateTLB (toldDirty_flush hc)
    rw [← valid_flush c.tlbSize] at hinvalid
    exact ⟨hinvalid.frame, hinvalid.clean, hinvalid.away, hinvalid.dirty, hinvalid.beyond⟩
  | startProcess executable =>
    obtain ⟨-, s₁, hnew, rfl⟩ := startProcess_eq_ok h
    have hm₁ := hm.newSpace hb hnew
    exact ⟨hm₁.frame, hm₁.clean, hm₁.away, hm₁.dirty, hm₁.beyond⟩
  | exec executable =>
    obtain ⟨s₁, hnew, rfl⟩ := exec_Syscall_eq_ok h
    apply (hm.newSpace hb hnew).invalidateTLB
    obtain ⟨a, -, rfl, -⟩ := newSpace_eq_ok hnew
    exact hl
  | fork functionPtr =>
    by_cases hrefused : functionPtr.toNat = 0 ∨ PageSize * c.numPhysPages ≤ functionPtr.toNat
    · have h' : s.fork_Syscall c functionPtr.toNat = .ok (s', events) := h
      unfold fork_Syscall at h'
      rw [if_pos hrefused] at h'
      cases h'
      exact hm
    · obtain ⟨-, rfl | ⟨p, hp, rfl⟩⟩ := fork_Syscall_cases h
      · exact hm
      · apply (hm.allocateStack hb (hb.space p hp)).invalidateTLB
        exact hl hrefused

theorem memoryStep_eq_ok {x x' : (VirtualMemory × List PagingEvent) × UserMemory} {l : PagingLabel}
    (h : memoryStep c x l = .ok x') :
    historyStep c x.1 l = .ok x'.1 ∧ x'.2 = userStep c x.1.1 x.2 l := by
  obtain ⟨y, hstep, hret⟩ := bind_eq_ok.mp h
  cases hret
  exact ⟨hstep, rfl⟩

/-- **Virtual memory coherence.** In every run whose steps lose no dirty bit, each load that is done
    gets the bytes that the process stored last, or the first bytes of the page; and a load that was
    a page fault is done when it is tried again. -/
theorem loads_coherent (c : PagingConfig) {l : List PagingLabel} {s : VirtualMemory}
    {history : List PagingEvent} {m : UserMemory}
    (hl : Guarded (memoryStep c) (fun x => KeepsMemory c x.1.1) ((new c, []), fun _ _ _ => 0) l)
    (h : exec (memoryStep c) ((new c, []), fun _ _ _ => 0) l = .ok ((s, history), m)) :
    Coherent c s m ∧ DoneNext c s := by
  have hstep : ∀ x i x', (Paged c x.1.1 ∧ Consistent c x.1.1 ∧ Swapped x.1.1 x.1.2 ∧
      Cached c x.1.1 x.2 x.1.1.Valid) → KeepsMemory c x.1.1 i → memoryStep c x i = .ok x' →
      Paged c x'.1.1 ∧ Consistent c x'.1.1 ∧ Swapped x'.1.1 x'.1.2 ∧
        Cached c x'.1.1 x'.2 x'.1.1.Valid := by
    intro x i x' ⟨hb, hc, hs, hm⟩ hi hstep
    obtain ⟨hhistory, hmemory⟩ := memoryStep_eq_ok hstep
    obtain ⟨events, hpaging, hevents⟩ := historyStep_eq_ok hhistory
    rw [hevents, hmemory]
    exact ⟨paged_of_pagingStep hb hpaging, consistent_of_pagingStep hb hc hi.faultsInside hpaging,
      swapped_of_pagingStep hs hpaging, cached_of_pagingStep hb hc hs hm hi hpaging⟩
  obtain ⟨hb, hc, -, hm⟩ := exec_inv hstep
    ⟨paged_new c, consistent_new c, swapped_new c, cached_new c _⟩ hl h
  exact ⟨hm.coherent hc hb, doneNext hb⟩

/-- A process stores 7 to its stack, starts another one, which takes the frame, and comes back. -/
theorem loads_coherent_store :
    ∃ s history m, exec (memoryStep oneFrame) ((new oneFrame, []), fun _ _ _ => 0) storeAndReturn =
        .ok ((s, history), m) ∧
      ∃ ppn s', s.translate oneFrame 128 .word false = .ok (ppn, s') ∧
        loadBytes 128 .word (s.mainMemory ppn) = [7, 0, 0, 0] := by
  have hl : Guarded (memoryStep oneFrame) (fun x => KeepsMemory oneFrame x.1.1)
      ((new oneFrame, []), fun _ _ _ => 0) storeAndReturn := by
    decide +kernel
  have hrun : Ends (memoryStep oneFrame) ((new oneFrame, []), fun _ _ _ => 0) storeAndReturn
      fun x => x.1.1.space = some 0 ∧ loadBytes 128 .word (x.2 0 1) = [7, 0, 0, 0] ∧
        Gives (x.1.1.translate oneFrame 128 .word false) fun _ => True := by
    decide +kernel
  obtain ⟨⟨⟨s, history⟩, m⟩, h, hspace, hbytes, ⟨ppn, s'⟩, htranslate, -⟩ := hrun
  refine ⟨s, history, m, h, ppn, s', htranslate, ?_⟩
  rw [(loads_coherent oneFrame hl h).1 0 128 .word ppn s' hspace htranslate]
  exact hbytes

/-- A process stores 7 to its stack, and its next instruction takes the only frame. The translation
    was dirty and the frame was not, so the stack is zero again. -/
theorem load_loses_store :
    ∃ s history m, exec (memoryStep oneFrame) ((new oneFrame, []), fun _ _ _ => 0)
        [.startProcess oneInstruction, .access 128 (.load .word) 0, .access 128 (.store .word 7) 0,
          .access 0 (.load .word) 0, .access 128 (.load .word) 0] = .ok ((s, history), m) ∧
      ¬Coherent oneFrame s m := by
  have hrun : Ends (memoryStep oneFrame) ((new oneFrame, []), fun _ _ _ => 0)
      [.startProcess oneInstruction, .access 128 (.load .word) 0, .access 128 (.store .word 7) 0,
        .access 0 (.load .word) 0, .access 128 (.load .word) 0] fun x =>
      x.1.1.space = some 0 ∧ loadBytes 128 .word (x.2 0 1) = [7, 0, 0, 0] ∧
        Gives (x.1.1.translate oneFrame 128 .word false) fun y =>
          loadBytes 128 .word (x.1.1.mainMemory y.1) = [0, 0, 0, 0] := by
    decide +kernel
  obtain ⟨⟨⟨s, history⟩, m⟩, h, hspace, hstored, ⟨ppn, s'⟩, htranslate, hloaded⟩ := hrun
  refine ⟨s, history, m, h, ?_⟩
  intro hcoherent
  have hsame := hcoherent 0 128 .word ppn s' hspace htranslate
  rw [hloaded] at hsame
  have hpage : pageNumber 128 = 1 := by decide
  rw [hpage, hstored] at hsame
  cases hsame

end Nachos.Userprog
