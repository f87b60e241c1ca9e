import Nachos.Userprog.FirstTouch

/-!
# The memory that a program sees

The programs see one page of bytes for each page of a process: at first the image of the program and
zeros, and then what the process stores. Frames, swap file, page tables and TLB implement it.

* `userStep`: what a step does to this memory.
* `Cached`: the frames have its pages, and so has the place from which a clean page is loaded again.
* `Cached.of_takeFrame`: an eviction keeps that, if the dirty bit has reached the inverted page
  table.
-/

namespace Nachos.Userprog

open Nachos.Lib

/-! ## The specification -/

/-- The bytes of each page of each process. -/
abbrev UserMemory : Type := ℕ → ℤ → Page

/-- The page of a new process. -/
def initialPage (executable : File) (vpn : ℤ) : Page :=
  match executable.noffHeader with
  | none => fun _ => 0
  | some noffH => noffH.firstBytes executable vpn fun _ => 0

/-- The page number of an address. -/
def pageNumber (virtAddr : BitVec 32) : ℤ := (virtAddr.toNat / PageSize : ℕ)

/-- One page has other bytes. -/
def setPage (m : UserMemory) (p : ℕ) (vpn : ℤ) (page : Page) : UserMemory :=
  Function.update m p (Function.update (m p) vpn page)

@[simp] theorem setPage_self (m : UserMemory) (p : ℕ) (vpn : ℤ) (page : Page) :
    setPage m p vpn page p vpn = page := by
  simp [setPage]

theorem setPage_of_ne (m : UserMemory) {p q : ℕ} {vpn w : ℤ} (page : Page)
    (h : ¬(q = p ∧ w = vpn)) : setPage m p vpn page q w = m q w := by
  unfold setPage
  by_cases hq : q = p
  · subst hq
    rw [Function.update_self, Function.update_of_ne fun hw => h ⟨rfl, hw⟩]
  · rw [Function.update_of_ne hq]

/-- A store that is done changes the page, and a new process has its first pages. -/
def userStep (c : PagingConfig) (s : VirtualMemory) (m : UserMemory) : PagingLabel → UserMemory
  | .access virtAddr a _ =>
    match s.space, s.translate c virtAddr a.size a.writing with
    | some p, .ok _ =>
      setPage m p (pageNumber virtAddr) (a.apply virtAddr (m p (pageNumber virtAddr)))
    | _, _ => m
  | .startProcess executable | .exec executable =>
    Function.update m s.numSpaces (initialPage executable)
  | _ => m

namespace VirtualMemory

variable {c : PagingConfig} {s s' s₁ : VirtualMemory} {history events : List PagingEvent}
  {m m' : UserMemory} {ppn p q i f random : ℕ} {vpn w : ℤ} {e e' : PageTableEntry}

/-! ## The place of a page -/

/-- The bytes that a page is loaded with, into a frame of zeros. -/
def backing (s : VirtualMemory) (e : PageTableEntry) : Page :=
  match e.location with
  | .inExecutable =>
    match e.executable with
    | none => fun _ => 0
    | some executable => executable.readAt (fun _ => 0) e.byteOffset.toNat
  | .inSwapFile => s.swapFile.load e.swapPageIndex fun _ => 0
  | .neither => fun _ => 0

/-- In the swap file, it is what was stored last. -/
theorem lastStored_eq_backing (hs : Swapped s history) (he : s.pageEntry p vpn = some e)
    (hloc : e.location = .inSwapFile) : lastStored p vpn history = some (s.backing e) := by
  obtain ⟨bytes, hlast, -, hload⟩ := hs.holds p vpn e he hloc
  unfold backing
  rw [hlast, hloc]
  simp only [hload]

/-- The page that is written back has its bytes in the swap file. -/
theorem backing_wroteBack_self {index : ℤ} {g : SwapFile} :
    (s.wroteBack ppn p vpn e index g).backing
      { e with swapPageIndex := index, location := .inSwapFile } = s.mainMemory ppn := by
  show (g.store index (s.mainMemory ppn)).load index _ = _
  exact File.readAt_writeAt_self _

/-- The other pages keep theirs. -/
theorem backing_wroteBack_of_ne (hs : Swapped s history) (he : s.pageEntry p vpn = some e)
    {index : ℤ} {g : SwapFile} (h : s.swapFile.slotFor e = .ok (index, g))
    (he' : s.pageEntry q w = some e') (hne : ¬(q = p ∧ w = vpn)) :
    (s.wroteBack ppn p vpn e index g).backing e' = s.backing e' := by
  cases hloc : e'.location with
  | inExecutable => simp only [backing, hloc]
  | neither => simp only [backing, hloc]
  | inSwapFile =>
    have hs' : Swapped (s.wroteBack ppn p vpn e index g)
        (history ++ [.stored p vpn (s.mainMemory ppn)]) := hs.wroteBack he h
    have hentry : (s.wroteBack ppn p vpn e index g).pageEntry q w = some e' := by
      unfold pageEntry VirtualMemory.wroteBack at *
      by_cases hq : q = p
      · subst hq
        simp only [Function.update_self]
        rw [AddrSpace.lookup_set_of_ne (AddrSpace.lookup_isSome_iff.mp ⟨e, he⟩).1
          fun hw => hne ⟨rfl, hw⟩, he']
      · simp only [Function.update_of_ne hq, he']
    have hnew := lastStored_eq_backing hs' hentry hloc
    rw [lastStored_stored_of_ne fun heq => hne ⟨heq.1.symm, heq.2.symm⟩,
      lastStored_eq_backing hs he' hloc] at hnew
    exact (Option.some.inj hnew).symm

/-! ## The invariant -/

/-- No valid translation says that the frame is dirty. -/
def CleanInTLB (c : PagingConfig) (s : VirtualMemory) (f : ℕ) : Prop :=
  ∀ i < c.tlbSize, (s.tlb i).valid = true → (s.tlb i).physicalPage = f → (s.tlb i).dirty = false

/-- The frames `L` have the pages of the memory; a page that is clean, and a page that is in none of
    these frames, can be loaded again. -/
structure Cached (c : PagingConfig) (s : VirtualMemory) (m : UserMemory) (L : ℕ → Prop) : Prop where
  frame : ∀ f p, L f → (s.ipt f).processID = some p → s.mainMemory f = m p (s.ipt f).virtualPage
  clean : ∀ f p e, L f → (s.ipt f).processID = some p →
    s.pageEntry p (s.ipt f).virtualPage = some e → (s.ipt f).dirty = false → CleanInTLB c s f →
    s.backing e = m p (s.ipt f).virtualPage
  away : ∀ p vpn e, s.pageEntry p vpn = some e →
    (∀ f, L f → ¬((s.ipt f).processID = some p ∧ (s.ipt f).virtualPage = vpn)) →
    s.backing e = m p vpn
  dirty : ∀ i < c.tlbSize, (s.tlb i).valid = true → (s.ipt (s.tlb i).physicalPage).dirty = true →
    (s.tlb i).dirty = true
  beyond : ∀ p < s.numSpaces, ∀ vpn : ℤ, (s.spaces p).numPages ≤ vpn → m p vpn = fun _ => 0

/-- The frame holds a page. -/
def Valid (s : VirtualMemory) (f : ℕ) : Prop := (s.ipt f).valid = true

theorem cached_new (c : PagingConfig) (m : UserMemory) : Cached c (new c) m (new c).Valid where
  frame f p h := by cases h
  clean f p e h := by cases h
  away p vpn e h := by
    unfold pageEntry AddrSpace.lookup at h
    split_ifs at h
    cases h
  dirty i _ h := by cases h
  beyond p h := by cases h

/-- Translations may go away if their dirty bits are not needed. -/
theorem Cached.of_tlb {L : ℕ → Prop} (hm : Cached c s m L) {tlb : ℕ → TranslationEntry}
    (htlb : ∀ i, (tlb i).valid = true → tlb i = s.tlb i)
    (hlost : ∀ f, L f → (s.ipt f).dirty = false → CleanInTLB c { s with tlb := tlb } f →
      CleanInTLB c s f) : Cached c { s with tlb := tlb } m L where
  frame := hm.frame
  clean f p e hf hp he hdirty hclean := hm.clean f p e hf hp he hdirty (hlost f hf hdirty hclean)
  away := hm.away
  dirty i hi hv hdirty := by
    have heq := htlb i hv
    simp only at hv hdirty ⊢
    rw [heq] at hv hdirty ⊢
    exact hm.dirty i hi hv hdirty
  beyond := hm.beyond

/-- Every translation that is dirty has told its frame. -/
def ToldDirty (c : PagingConfig) (s : VirtualMemory) : Prop :=
  ∀ i < c.tlbSize, (s.tlb i).valid = true → (s.tlb i).dirty = true →
    (s.ipt (s.tlb i).physicalPage).dirty = true

theorem Cached.invalidateTLB {L : ℕ → Prop} (hm : Cached c s m L) (htold : ToldDirty c s) :
    Cached c s.invalidateTLB m L := by
  apply hm.of_tlb
  · intro i hv
    cases hv
  · intro f _ hdirty _ i hi hv hframe
    by_contra hnot
    have := htold i hi hv (by simpa using hnot)
    rw [hframe, hdirty] at this
    cases this

/-- The translation that goes away is one of the frame. -/
theorem tlb_invalidate (c : PagingConfig) (s : VirtualMemory) (ppn i : ℕ) :
    (s.invalidate c ppn).tlb i = s.tlb i ∨ (s.tlb i).physicalPage = ppn := by
  unfold invalidate
  split_ifs
  · split
    · exact .inl rfl
    · rename_i j hj
      have hfound := List.find?_some hj
      simp only [Bool.and_eq_true, beq_iff_eq] at hfound
      by_cases hij : i = j
      · rw [hij]
        exact .inr hfound.2
      · exact .inl (Function.update_of_ne hij _ _)
  · exact .inl rfl

theorem invalidate_eq (c : PagingConfig) (s : VirtualMemory) (ppn : ℕ) :
    s.invalidate c ppn = { s with tlb := (s.invalidate c ppn).tlb } := by
  unfold invalidate
  split_ifs
  · split <;> rfl
  · rfl

/-- A translation of the frame that is dirty has told it. -/
def ToldFrame (c : PagingConfig) (s : VirtualMemory) (ppn : ℕ) : Prop :=
  ∀ i < c.tlbSize, (s.tlb i).valid = true → (s.tlb i).physicalPage = ppn →
    (s.tlb i).dirty = true → (s.ipt ppn).dirty = true

theorem Cached.invalidate {L : ℕ → Prop} (hm : Cached c s m L) (htold : ToldFrame c s ppn) :
    Cached c (s.invalidate c ppn) m L := by
  have hkeeps := keeps_invalidate c s ppn
  rw [invalidate_eq]
  apply hm.of_tlb hkeeps.tlb
  intro f _ hdirty hclean i hi hv hframe
  obtain heq | hppn := tlb_invalidate c s ppn i
  · rw [← heq]
    apply hclean i hi
    · show ((s.invalidate c ppn).tlb i).valid = true
      rw [heq, hv]
    · show ((s.invalidate c ppn).tlb i).physicalPage = f
      rw [heq, hframe]
  · by_contra hnot
    have := htold i hi hv hppn (by simpa using hnot)
    rw [← hppn, hframe, hdirty] at this
    cases this

/-! ## A page fault -/

/-- The frames that hold a page, but for one. -/
def ValidBut (s : VirtualMemory) (ppn f : ℕ) : Prop := (s.ipt f).valid = true ∧ f ≠ ppn

/-- **A page that is evicted can be loaded again**, if the inverted page table knows that it is
    dirty. -/
theorem Cached.writeBack (hm : Cached c s m s.Valid) (hc : Consistent c s) (hs : Swapped s history)
    (hb : Paged c s) (hunnamed : Unnamed c s ppn) (hvalid : s.Valid ppn)
    (h : s.writeBack ppn = .ok (s', events)) : Cached c s' m (s.ValidBut ppn) := by
  obtain ⟨p, hp, -⟩ := hb.page ppn hvalid
  obtain ⟨hclean, rfl, -⟩ | ⟨-, p', e, index, g, hp', he, hslot, rfl, -⟩ := writeBack_cases h
  · refine ⟨fun f q hf => hm.frame f q hf.1, fun f q e hf => hm.clean f q e hf.1, ?_, hm.dirty,
      hm.beyond⟩
    intro q vpn e he hnot
    by_cases hheld : (s'.ipt ppn).processID = some q ∧ (s'.ipt ppn).virtualPage = vpn
    · obtain ⟨hq, rfl⟩ := hheld
      apply hm.clean ppn q e hvalid hq he hclean
      intro i hi hv hframe
      exact absurd hframe (hunnamed i hi hv)
    · apply hm.away q vpn e he
      intro f hf
      by_cases hfp : f = ppn
      · rwa [hfp]
      · exact hnot f ⟨hf, hfp⟩
  · rw [hp] at hp'
    cases hp'
    -- The page that is written back is the one of the frame, and the others keep their entries.
    have hback : ∀ q vpn e', (s.wroteBack ppn p (s.ipt ppn).virtualPage e index g).pageEntry q vpn =
        some e' → ((q = p ∧ vpn = (s.ipt ppn).virtualPage) ∧
          (s.wroteBack ppn p (s.ipt ppn).virtualPage e index g).backing e' = m q vpn) ∨
        (¬(q = p ∧ vpn = (s.ipt ppn).virtualPage) ∧ s.pageEntry q vpn = some e' ∧
          (s.wroteBack ppn p (s.ipt ppn).virtualPage e index g).backing e' = s.backing e') := by
      intro q vpn e' he'
      obtain ⟨rfl, rfl, rfl⟩ | ⟨hne, hold⟩ := pageEntry_wroteBack he he'
      · exact .inl ⟨⟨rfl, rfl⟩, by rw [backing_wroteBack_self, hm.frame ppn q hvalid hp]⟩
      · exact .inr ⟨hne, hold, backing_wroteBack_of_ne hs he hslot hold hne⟩
    refine ⟨fun f q hf => hm.frame f q hf.1, ?_, ?_, hm.dirty, ?_⟩
    · intro f q e' hf hq he' hdirty hclean
      obtain ⟨⟨rfl, hpage⟩, -⟩ | ⟨-, hold, heq⟩ := hback q _ e' he'
      · exact absurd (hc.once f ppn hf.1 hvalid (by rw [hp]; exact hq) hpage) hf.2
      · rw [heq]
        exact hm.clean f q e' hf.1 hq hold hdirty hclean
    · intro q vpn e' he' hnot
      obtain ⟨-, heq⟩ | ⟨hne, hold, heq⟩ := hback q vpn e' he'
      · exact heq
      · rw [heq]
        apply hm.away q vpn e' hold
        intro f hf hheld
        by_cases hfp : f = ppn
        · subst hfp
          rw [hp] at hheld
          exact hne ⟨(Option.some.inj hheld.1).symm, hheld.2.symm⟩
        · exact hnot f ⟨hf, hfp⟩ hheld
    · intro q hq vpn hle
      apply hm.beyond q hq vpn
      by_cases hqp : q = p
      · subst hqp
        simpa [VirtualMemory.wroteBack] using hle
      · simpa [VirtualMemory.wroteBack, hqp] using hle

/-- The frame that the next page gets. -/
def nextFrame (c : PagingConfig) (s : VirtualMemory) (random : ℕ) : Option ℕ :=
  match s.ppnInUseBitMap.find with
  | some (ppn, _) => some ppn
  | none => ((s.chooseVictim c random).map Prod.fst).toOption

theorem nextFrame_of_takeFrame (h : s.takeFrame c random = .ok (ppn, s', events)) :
    s.nextFrame c random = some ppn := by
  unfold nextFrame
  obtain ⟨b, hfind, -, -⟩ | ⟨hfind, hevict⟩ := takeFrame_cases h
  · rw [hfind]
  · obtain ⟨s₀, hchoose, -⟩ := evictAPage_eq_ok hevict
    rw [hfind, hchoose]
    rfl

/-- Before the frame is taken, and after. -/
theorem Cached.of_takeFrame (hm : Cached c s m s.Valid) (hc : Consistent c s)
    (hs : Swapped s history) (hb : Paged c s) (htold : ToldFrame c s ppn)
    (h : s.takeFrame c random = .ok (ppn, s', events)) : Cached c s' m (s'.ValidBut ppn) := by
  have hipt := (keeps_takeFrame h).ipt
  have hbut : s'.ValidBut ppn = s.ValidBut ppn := by
    unfold ValidBut
    rw [hipt]
  rw [hbut]
  obtain ⟨b, hfind, rfl, -⟩ | ⟨hfind, hevict⟩ := takeFrame_cases h
  · -- A free frame holds no page.
    obtain ⟨-, hclear, -, -⟩ := BitMap.find_eq_some hfind
    have hnot : ¬s.Valid ppn := by
      intro hvalid
      have hbit := (hb.inUse ppn).mpr hvalid
      unfold InUse at hbit
      rw [hclear] at hbit
      cases hbit
    refine ⟨fun f q hf => hm.frame f q hf.1, fun f q e hf => hm.clean f q e hf.1, ?_, hm.dirty,
      hm.beyond⟩
    intro q vpn e he hheld
    apply hm.away q vpn e he
    intro f hf
    exact hheld f ⟨hf, fun hfp => hnot (hfp ▸ hf)⟩
  · obtain ⟨s₀, hchoose, hback⟩ := evictAPage_eq_ok hevict
    have hvalid : s.Valid ppn :=
      (hb.inUse ppn).mp (inUse_of_find_eq_none hb hfind (evictAPage_lt hb hevict).1)
    have hk₀ := keeps_chooseVictim hchoose
    obtain ⟨hspaces, hswap⟩ := tables_chooseVictim hchoose
    have hm₀ : Cached c s₀ m s₀.Valid ∧ Paged c s₀ ∧ ToldFrame c s₀ ppn := by
      obtain ⟨-, -, rfl⟩ | ⟨-, queue, hqueue, rfl⟩ := chooseVictim_cases hchoose
      · exact ⟨hm, hb, htold⟩
      · refine ⟨⟨hm.frame, hm.clean, hm.away, hm.dirty, hm.beyond⟩, hb.of_keeps hk₀ rfl ?_, htold⟩
        intro f hf
        exact hb.queue f (by rw [hqueue]; exact List.mem_cons_of_mem _ hf)
    obtain ⟨hm₀, hb₀, htold₀⟩ := hm₀
    have hk₁ := keeps_invalidate c s₀ ppn
    have hvalid₁ : (s₀.invalidate c ppn).Valid = s₀.Valid := by
      unfold Valid
      rw [hk₁.ipt]
    have hvalidBut : (s₀.invalidate c ppn).ValidBut ppn = s.ValidBut ppn := by
      unfold ValidBut
      rw [hk₁.ipt, hk₀.ipt]
    have hm₁ : Cached c (s₀.invalidate c ppn) m (s₀.invalidate c ppn).Valid := by
      rw [hvalid₁]
      exact hm₀.invalidate htold₀
    have hs₁ : Swapped (s₀.invalidate c ppn) history := by
      apply hs.of_eq
      · rw [swapFile_invalidate, hswap]
      · rw [spaces_invalidate, hspaces]
    have hb₁ : Paged c (s₀.invalidate c ppn) := by
      apply hb₀.of_keeps hk₁ bitMap_invalidate
      rw [ppnQueue_invalidate]
      exact hb₀.queue
    have hc₀ := hc.of_keeps hk₀
    rw [← hvalidBut]
    apply hm₁.writeBack (hc₀.of_keeps hk₁) hs₁ hb₁ (unnamed_invalidate hc₀) _ hback
    rw [hvalid₁]
    unfold Valid at hvalid ⊢
    rw [hk₀.ipt, hvalid]

/-- The page gets the frame that was taken, with its bytes. -/
theorem Cached.populate {bytes : Page} (hm : Cached c s m (s.ValidBut ppn))
    (hunnamed : Unnamed c s ppn) (he : s.pageEntry p vpn = some e) (hbytes : bytes = m p vpn)
    (hback : s.backing e = m p vpn) :
    Cached c (s.populate ppn p vpn bytes) m (s.populate ppn p vpn bytes).Valid := by
  have hself : (s.populate ppn p vpn bytes).ipt ppn =
      ⟨vpn, ppn, true, false, false, false, some p⟩ := Function.update_self ..
  have hold : ∀ f, f ≠ ppn → (s.populate ppn p vpn bytes).ipt f = s.ipt f := by
    intro f hf
    simp [VirtualMemory.populate, hf]
  constructor
  · intro f q hf hq
    by_cases hfp : f = ppn
    · subst hfp
      rw [hself] at hq ⊢
      cases hq
      simpa [VirtualMemory.populate] using hbytes
    · unfold Valid at hf
      rw [hold f hfp] at hf hq ⊢
      rw [← hm.frame f q ⟨hf, hfp⟩ hq]
      simp [VirtualMemory.populate, hfp]
  · intro f q e' hf hq he' hdirty hclean
    by_cases hfp : f = ppn
    · subst hfp
      rw [hself] at hq he' ⊢
      cases hq
      have he'' : s.pageEntry p vpn = some e' := he'
      rw [he] at he''
      cases he''
      exact hback
    · unfold Valid at hf
      rw [hold f hfp] at hf hq he' hdirty ⊢
      exact hm.clean f q e' ⟨hf, hfp⟩ hq he' hdirty hclean
  · intro q w e' he' hnot
    apply hm.away q w e' he'
    rintro f ⟨hf, hfp⟩ hheld
    apply hnot f
    · unfold Valid
      rw [hold f hfp, hf]
    · rw [hold f hfp]
      exact hheld
  · intro i hi hv hdirty
    have hframe := hunnamed i hi hv
    have hdirty' : ((s.populate ppn p vpn bytes).ipt (s.tlb i).physicalPage).dirty = true := hdirty
    rw [hold _ hframe] at hdirty'
    exact hm.dirty i hi hv hdirty'
  · exact hm.beyond

/-- The dirty bit of a translation goes to its frame. -/
theorem Cached.propagate {L : ℕ → Prop} (hm : Cached c s m L) (hc : Consistent c s)
    (hi : i < c.tlbSize) : Cached c (s.propagate i) m L := by
  unfold VirtualMemory.propagate
  split_ifs with hv
  · have hold : ∀ f, ∃ d, (Function.update s.ipt (s.tlb i).physicalPage
        { s.ipt (s.tlb i).physicalPage with dirty := (s.tlb i).dirty }) f =
          { s.ipt f with dirty := d } ∧
        (d = (s.ipt f).dirty ∨ (s.tlb i).physicalPage = f ∧ d = (s.tlb i).dirty) := by
      intro f
      by_cases hf : f = (s.tlb i).physicalPage
      · subst hf
        exact ⟨_, Function.update_self .., .inr ⟨rfl, rfl⟩⟩
      · exact ⟨_, Function.update_of_ne hf _ _, .inl rfl⟩
    constructor
    · intro f p hf hp
      obtain ⟨d, hd, -⟩ := hold f
      simp only [hd] at hp ⊢
      exact hm.frame f p hf hp
    · intro f p e hf hp he hdirty hclean
      obtain ⟨d, hd, hwhich⟩ := hold f
      simp only [hd] at hp he hdirty ⊢
      apply hm.clean f p e hf hp he _ hclean
      obtain heq | ⟨hframe, heq⟩ := hwhich
      · rw [← heq, hdirty]
      · -- The translation is clean, and it is dirty if the frame is.
        by_contra hnot
        have htlb := hm.dirty i hi hv (by rw [hframe]; simpa using hnot)
        rw [← heq, hdirty] at htlb
        cases htlb
    · intro p vpn e he hnot
      apply hm.away p vpn e he
      intro f hf hheld
      apply hnot f hf
      obtain ⟨d, hd, -⟩ := hold f
      simp only [hd]
      exact hheld
    · intro j hj hvj hdirty
      obtain ⟨d, hd, hwhich⟩ := hold (s.tlb j).physicalPage
      simp only [hd] at hdirty
      obtain heq | ⟨hframe, heq⟩ := hwhich
      · exact hm.dirty j hj hvj (by rw [← heq, hdirty])
      · have hpage : (s.tlb i).virtualPage = (s.tlb j).virtualPage := by
          rw [← (hc.names i hi hv).2, ← (hc.names j hj hvj).2, hframe]
        rw [← hc.distinct i hi j hj hv hvj hpage, ← heq, hdirty]
    · exact hm.beyond
  · exact hm

theorem dirty_propagate (hv : (s.tlb i).valid = true) :
    ((s.propagate i).ipt (s.tlb i).physicalPage).dirty = (s.tlb i).dirty := by
  unfold propagate
  rw [if_pos hv]
  simp

/-- The translation that is replaced has told its frame. -/
theorem Cached.refill {L : ℕ → Prop} (hm : Cached c s m L)
    (hframe : (s.ipt ppn).physicalPage = ppn)
    (htold : (s.tlb s.currentTLBIndex).valid = true → (s.tlb s.currentTLBIndex).dirty = true →
      (s.ipt (s.tlb s.currentTLBIndex).physicalPage).dirty = true) :
    Cached c (s.refill c ppn) m L := by
  have hother : ∀ i, i ≠ s.currentTLBIndex → (s.refill c ppn).tlb i = s.tlb i := by
    intro i hi
    simp [VirtualMemory.refill, hi]
  refine ⟨hm.frame, ?_, hm.away, ?_, hm.beyond⟩
  · intro f p e hf hp he hdirty hclean
    apply hm.clean f p e hf hp he hdirty
    intro i hi hv hfi
    by_cases hik : i = s.currentTLBIndex
    · subst hik
      by_contra hnot
      have hdirty' : (s.ipt f).dirty = false := hdirty
      have := htold hv (by simpa using hnot)
      rw [hfi, hdirty'] at this
      cases this
    · have heq := hother i hik
      rw [← heq]
      exact hclean i hi (by rw [heq, hv]) (by rw [heq, hfi])
  · intro i hi hv hdirty
    by_cases hik : i = s.currentTLBIndex
    · subst hik
      simp only [VirtualMemory.refill, Function.update_self, hframe] at hdirty ⊢
      exact hdirty
    · rw [hother i hik] at hv hdirty ⊢
      exact hm.dirty i hi hv hdirty

theorem Cached.updateTLBFromIPT {L : ℕ → Prop} (hm : Cached c s m L) (hc : Consistent c s)
    (hb : Paged c s) (hvalid : s.Valid ppn) : Cached c (s.updateTLBFromIPT c ppn) m L := by
  obtain ⟨d, hd⟩ := ipt_propagate (s := s) (i := s.currentTLBIndex) ppn
  have hindex : (s.propagate s.currentTLBIndex).currentTLBIndex = s.currentTLBIndex := by
    unfold VirtualMemory.propagate
    split_ifs <;> rfl
  apply (hm.propagate hc hb.index).refill
  · rw [hd]
    exact hb.physicalPage ppn hvalid
  · rw [hindex, tlb_propagate]
    intro hv hdirty
    rw [dirty_propagate hv, hdirty]

/-- After the loop of `Scheduler::Run` every translation has told its frame. -/
theorem Cached.flush {L : ℕ → Prop} (hm : Cached c s m L) (hc : Consistent c s) {n : ℕ}
    (hn : n ≤ c.tlbSize) : Cached c (s.flush n) m L := by
  induction n with
  | zero => exact hm
  | succ n ih => exact (ih (by omega)).propagate (hc.flush n) (by omega)

theorem tlb_flush (n : ℕ) : (s.flush n).tlb = s.tlb := by
  induction n with
  | zero => rfl
  | succ n ih =>
    show ((s.flush n).propagate n).tlb = _
    rw [tlb_propagate, ih]

theorem dirty_flush (hc : Consistent c s) {n : ℕ} (hn : n ≤ c.tlbSize) (hi : i < n)
    (hv : (s.tlb i).valid = true) :
    ((s.flush n).ipt (s.tlb i).physicalPage).dirty = (s.tlb i).dirty := by
  induction n with
  | zero => omega
  | succ n ih =>
    show (((s.flush n).propagate n).ipt (s.tlb i).physicalPage).dirty = _
    by_cases hin : i = n
    · subst hin
      have htlb : (s.flush i).tlb i = s.tlb i := by rw [tlb_flush]
      rw [← htlb] at hv ⊢
      exact dirty_propagate hv
    · have hrest := ih (by omega) (by omega)
      unfold VirtualMemory.propagate
      split_ifs with hvn
      · rw [tlb_flush] at hvn ⊢
        have hne : (s.tlb i).physicalPage ≠ (s.tlb n).physicalPage := by
          intro heq
          apply hin
          apply hc.distinct i (by omega) n (by omega) hv hvn
          rw [← (hc.names i (by omega) hv).2, ← (hc.names n (by omega) hvn).2, heq]
        simp only [Function.update_of_ne hne]
        exact hrest
      · exact hrest

theorem toldDirty_flush (hc : Consistent c s) : ToldDirty c (s.flush c.tlbSize) := by
  intro i hi hv hdirty
  rw [tlb_flush] at hv hdirty ⊢
  rw [dirty_flush hc le_rfl hi hv, hdirty]

end VirtualMemory

end Nachos.Userprog
