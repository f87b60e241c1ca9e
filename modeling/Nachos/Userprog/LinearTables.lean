import Nachos.Userprog.Paging

/-!
# Linear page tables

The constructor of `class AddrSpace` and `AllocateStack` (`userprog/addrspace.cc`) without `USE_TLB`:
every page has a frame from the start, which `Find` takes from a bitmap for all processes. Both hold
`ppnInUseLock`. What lies outside a page table or the memory belongs to no process.

* `frames_not_shared_iff`: exactly when every page of every process has a frame of its own.
-/

namespace Nachos.Userprog.Linear

open Nachos.Lib

/-! ## The tables -/

/-- `class TranslationEntry` (translate.h). -/
structure Entry where
  virtualPage : ℕ
  physicalPage : ℤ
  valid : Bool
  use : Bool
  dirty : Bool
  readOnly : Bool
  deriving DecidableEq

/-- `class AddrSpace`. An entry is `none` until something is written to it. -/
structure Space where
  pageTable : ℕ → Option Entry
  numPages : ℕ

/-- The globals. -/
structure Kernel where
  /-- The bytes of each frame. Frame -1 lies before the memory. -/
  mainMemory : ℤ → Page
  ppnInUseBitMap : BitMap
  spaces : ℕ → Space
  /-- The number of address spaces. -/
  numSpaces : ℕ

inductive Label
  /-- `new AddrSpace(executable)`. -/
  | new (executable : File)
  /-- `AllocateStack`, for a process. -/
  | allocateStack (p : ℕ)

/-- What the loops of `AllocateStack` and of the constructor write. -/
def Entry.loaded (vpn : ℕ) (ppn : ℤ) : Entry := ⟨vpn, ppn, true, false, false, false⟩

namespace Kernel

/-- `Initialize` (system.cc:866), with `n` frames. -/
def new (n : ℕ) : Kernel where
  mainMemory _ _ := 0
  ppnInUseBitMap := .new n
  spaces _ := ⟨fun _ => none, 0⟩
  numSpaces := 0

/-- The next frame gets new bytes. -/
def takeFrame (s : Kernel) (contents : Page → Page) : ℤ × Kernel :=
  let (ppn, bitMap) := s.ppnInUseBitMap.findInt
  (ppn, { s with
    mainMemory := Function.update s.mainMemory ppn (contents (s.mainMemory ppn))
    ppnInUseBitMap := bitMap })

/-- A loop over `n` pages from `vpn` on, each with a frame of its own. -/
def fillPages (contents : ℕ → Page → Page) :
    ℕ → ℕ → Kernel × (ℕ → Option Entry) → Kernel × (ℕ → Option Entry)
  | _, 0, x => x
  | vpn, n + 1, (s, table) =>
    let (ppn, s) := s.takeFrame (contents vpn)
    fillPages contents (vpn + 1) n (s, Function.update table vpn (some (.loaded vpn ppn)))

/-- The pages that the constructor needs. -/
def pagesOf (noffH : NoffHeader) : ℕ := (noffH.programPages + AddrSpace.numStackPages).toNat

/-- The loops of the constructor: the pages that are read from the executable, and the others. -/
def loadPages (s : Kernel) (executable : File) (noffH : NoffHeader) :
    Kernel × (ℕ → Option Entry) :=
  fillPages (fun _ _ _ => 0) noffH.imagePages.toNat (pagesOf noffH - noffH.imagePages.toNat)
    (fillPages
      (fun vpn old => executable.readAt old (noffH.code.inFileAddr + vpn * PageSize).toNat)
      0 noffH.imagePages.toNat (s, fun _ => none))

/-- The constructor (addrspace.cc:130), on a machine with `numPhysPages` frames. -/
def newSpace (numPhysPages : ℕ) (s : Kernel) (executable : File) : Except PagingFault Kernel :=
  match executable.noffHeader with
  | none => .error .assertion
  | some noffH =>
    if noffH.programPages + AddrSpace.numStackPages < 0 ∨
        numPhysPages < noffH.programPages + AddrSpace.numStackPages then .error .assertion
    else if noffH.imagePages < 0 ∨
        noffH.programPages + AddrSpace.numStackPages < noffH.imagePages ∨
        2 ^ 31 ≤ noffH.size then .error .outside
    else if 0 < noffH.imagePages ∧ noffH.code.inFileAddr < 0 then .error .assertion
    else
      let x := s.loadPages executable noffH
      .ok { x.1 with
        spaces := Function.update x.1.spaces x.1.numSpaces ⟨x.2, pagesOf noffH⟩
        numSpaces := x.1.numSpaces + 1 }

/-- The deep copy of the first `n` entries. -/
def copyTable (old : ℕ → Option Entry) : ℕ → ℕ → Option Entry
  | 0 => fun _ => none
  | n + 1 => Function.update (copyTable old n) n (old n)

/-- `AllocateStack` (addrspace.cc:365). The entries for the stack go to the old table, past its
    end, and not to the new one. -/
def allocateStack (s : Kernel) (p : ℕ) : Except PagingFault Kernel :=
  if p < s.numSpaces then
    let pageTable := (s.spaces p).pageTable
    let numPages := (s.spaces p).numPages
    let newPageTable := copyTable pageTable numPages
    let (s, _) := fillPages (fun _ _ _ => 0) numPages AddrSpace.numStackPages (s, pageTable)
    .ok { s with
      spaces := Function.update s.spaces p ⟨newPageTable, numPages + AddrSpace.numStackPages⟩ }
  else .error .impossible

end Kernel

/-- A step. -/
def linearStep (numPhysPages : ℕ) (s : Kernel) : Label → Except PagingFault Kernel
  | .new executable => s.newSpace numPhysPages executable
  | .allocateStack p => s.allocateStack p

/-! ## The loops -/

namespace Kernel

variable {s s' : Kernel} {contents : ℕ → Page → Page} {x : Kernel × (ℕ → Option Entry)}
  {vpn n p : ℕ}

theorem fillPages_succ : fillPages contents vpn (n + 1) x =
    fillPages contents (vpn + 1) n ((x.1.takeFrame (contents vpn)).2,
      Function.update x.2 vpn (some (.loaded vpn (x.1.takeFrame (contents vpn)).1))) := rfl

@[simp] theorem fillPages_spaces : (fillPages contents vpn n x).1.spaces = x.1.spaces := by
  induction n generalizing vpn x with
  | zero => rfl
  | succ n ih =>
    rw [fillPages_succ]
    exact ih

@[simp] theorem fillPages_numSpaces :
    (fillPages contents vpn n x).1.numSpaces = x.1.numSpaces := by
  induction n generalizing vpn x with
  | zero => rfl
  | succ n ih =>
    rw [fillPages_succ]
    exact ih

/-- The frames are those of `n` calls of `Find`. -/
theorem fillPages_ppnInUseBitMap :
    (fillPages contents vpn n x).1.ppnInUseBitMap =
      (BitMap.findMany n x.1.ppnInUseBitMap).2 := by
  induction n generalizing vpn x with
  | zero => rfl
  | succ n ih =>
    rw [fillPages_succ]
    exact ih

theorem fillPages_table (k : ℕ) :
    (fillPages contents vpn n x).2 k =
      if vpn ≤ k ∧ k < vpn + n then
        some (.loaded k ((BitMap.findMany n x.1.ppnInUseBitMap).1.getD (k - vpn) (-1)))
      else x.2 k := by
  induction n generalizing vpn x with
  | zero =>
    rw [if_neg (by omega)]
    rfl
  | succ n ih =>
    rw [fillPages_succ]
    refine ih.trans ?_
    by_cases hk : k = vpn
    · subst hk
      rw [if_neg (by omega), if_pos (by omega), Nat.sub_self]
      exact Function.update_self ..
    · show (if _ then _ else Function.update x.2 vpn _ k) = _
      rw [Function.update_of_ne hk]
      by_cases hin : vpn ≤ k ∧ k < vpn + (n + 1)
      · rw [if_pos hin, if_pos (by omega), show k - vpn = k - (vpn + 1) + 1 by omega]
        rfl
      · rw [if_neg hin, if_neg (by omega)]

theorem copyTable_succ {old : ℕ → Option Entry} :
    copyTable old (n + 1) = Function.update (copyTable old n) n (old n) := rfl

theorem copyTable_of_lt {old : ℕ → Option Entry} (h : vpn < n) :
    copyTable old n vpn = old vpn := by
  induction n with
  | zero => omega
  | succ n ih =>
    rw [copyTable_succ]
    by_cases hvpn : vpn = n
    · rw [hvpn, Function.update_self]
    · rw [Function.update_of_ne hvpn, ih (by omega)]

theorem copyTable_of_le {old : ℕ → Option Entry} (h : n ≤ vpn) : copyTable old n vpn = none := by
  induction n with
  | zero => rfl
  | succ n ih =>
    rw [copyTable_succ, Function.update_of_ne (by omega), ih (by omega)]

section

variable {executable : File} {noffH : NoffHeader}

@[simp] theorem loadPages_spaces : (s.loadPages executable noffH).1.spaces = s.spaces := by
  simp [loadPages]

@[simp] theorem loadPages_numSpaces : (s.loadPages executable noffH).1.numSpaces = s.numSpaces := by
  simp [loadPages]

variable (h : noffH.imagePages.toNat ≤ pagesOf noffH)

include h

theorem loadPages_ppnInUseBitMap : (s.loadPages executable noffH).1.ppnInUseBitMap =
    (BitMap.findMany (pagesOf noffH) s.ppnInUseBitMap).2 := by
  obtain ⟨n, hn⟩ := Nat.exists_eq_add_of_le h
  unfold loadPages
  rw [hn, BitMap.findMany_add, Nat.add_sub_cancel_left, fillPages_ppnInUseBitMap,
    fillPages_ppnInUseBitMap]

theorem loadPages_table {vpn : ℕ} (hvpn : vpn < pagesOf noffH) :
    (s.loadPages executable noffH).2 vpn =
      some (.loaded vpn ((BitMap.findMany (pagesOf noffH) s.ppnInUseBitMap).1.getD vpn (-1))) := by
  obtain ⟨n, hn⟩ := Nat.exists_eq_add_of_le h
  unfold loadPages
  rw [hn, BitMap.findMany_add, Nat.add_sub_cancel_left, fillPages_table, fillPages_table,
    fillPages_ppnInUseBitMap]
  by_cases hlt : vpn < noffH.imagePages.toNat
  · rw [if_neg (by omega), if_pos (by omega), Nat.sub_zero,
      List.getD_append _ _ _ _ (by rwa [BitMap.length_findMany])]
  · rw [if_pos (by omega), List.getD_append_right _ _ _ _ (by rw [BitMap.length_findMany]; omega),
      BitMap.length_findMany]

end

/-- **What the constructor does.** -/
theorem newSpace_ok {numPhysPages : ℕ} {executable : File}
    (h : s.newSpace numPhysPages executable = .ok s') :
    ∃ noffH, executable.noffHeader = some noffH ∧ s'.numSpaces = s.numSpaces + 1 ∧
      s'.ppnInUseBitMap = (BitMap.findMany (pagesOf noffH) s.ppnInUseBitMap).2 ∧
      ∃ table, s'.spaces = Function.update s.spaces s.numSpaces ⟨table, pagesOf noffH⟩ ∧
        ∀ vpn < pagesOf noffH, table vpn =
          some (.loaded vpn
            ((BitMap.findMany (pagesOf noffH) s.ppnInUseBitMap).1.getD vpn (-1))) := by
  unfold newSpace at h
  split at h
  · cases h
  · rename_i noffH hheader
    split_ifs at h with hassert houtside
    obtain rfl := Except.ok.inj h
    have hle : noffH.imagePages.toNat ≤ pagesOf noffH := by
      unfold pagesOf
      omega
    refine ⟨noffH, hheader, by simp, loadPages_ppnInUseBitMap hle,
      (s.loadPages executable noffH).2, ?_, ?_⟩
    · simp only [loadPages_spaces, loadPages_numSpaces]
    · intro vpn
      exact loadPages_table hle

/-- **What `AllocateStack` does.** The entries that are there are kept, and those of the stack are
    not written. -/
theorem allocateStack_ok (h : s.allocateStack p = .ok s') :
    p < s.numSpaces ∧ s'.numSpaces = s.numSpaces ∧
      ∃ table, s'.spaces =
          Function.update s.spaces p ⟨table, (s.spaces p).numPages + AddrSpace.numStackPages⟩ ∧
        (∀ vpn < (s.spaces p).numPages, table vpn = (s.spaces p).pageTable vpn) ∧
        ∀ vpn, (s.spaces p).numPages ≤ vpn → table vpn = none := by
  unfold allocateStack at h
  split_ifs at h with hp
  cases h
  exact ⟨hp, by simp, _, by simp, fun _ => copyTable_of_lt, fun _ => copyTable_of_le⟩

end Kernel

/-! ## Frames of processes -/

/-- Every page of every process has a frame of its own. -/
structure FramesOwned (numPhysPages : ℕ) (s : Kernel) : Prop where
  valid : ∀ p < s.numSpaces, ∀ vpn < (s.spaces p).numPages,
    ∃ e, (s.spaces p).pageTable vpn = some e ∧ e.valid = true ∧
      0 ≤ e.physicalPage ∧ e.physicalPage < numPhysPages
  distinct : ∀ p < s.numSpaces, ∀ q < s.numSpaces, ∀ vpn < (s.spaces p).numPages,
    ∀ w < (s.spaces q).numPages, ∀ e ∈ (s.spaces p).pageTable vpn,
      ∀ e' ∈ (s.spaces q).pageTable w, e.physicalPage = e'.physicalPage → p = q ∧ vpn = w

/-- As many frames are free as the step needs. -/
def EnoughFree (s : Kernel) : Label → Prop
  | .new executable =>
    ∀ noffH ∈ executable.noffHeader, Kernel.pagesOf noffH ≤ s.ppnInUseBitMap.numClear
  | .allocateStack _ => AddrSpace.numStackPages ≤ s.ppnInUseBitMap.numClear

instance (s : Kernel) : DecidablePred (EnoughFree s)
  | .new executable =>
    inferInstanceAs (Decidable (∀ noffH ∈ executable.noffHeader,
      Kernel.pagesOf noffH ≤ s.ppnInUseBitMap.numClear))
  | .allocateStack _ =>
    inferInstanceAs (Decidable (AddrSpace.numStackPages ≤ s.ppnInUseBitMap.numClear))

/-- The step keeps the entries that are there, and all page tables if not enough frames are free. -/
def KeepsTables (numPhysPages : ℕ) (s : Kernel) (i : Label) : Prop :=
  ∀ s', linearStep numPhysPages s i = .ok s' →
    (∀ p < s.numSpaces, ∀ vpn < (s.spaces p).numPages,
      (s'.spaces p).pageTable vpn = (s.spaces p).pageTable vpn) ∧
    (¬EnoughFree s i → s'.spaces = s.spaces ∧ s'.numSpaces = s.numSpaces)

/-- The step constructs an address space for which enough frames are free. -/
def Fits (s : Kernel) : Label → Prop
  | .new executable => EnoughFree s (.new executable)
  | .allocateStack _ => False

instance (s : Kernel) : DecidablePred (Fits s)
  | .new executable => inferInstanceAs (Decidable (EnoughFree s (.new executable)))
  | .allocateStack _ => instDecidableFalse

/-- The bitmap knows the frames that are used. -/
structure Marked (numPhysPages : ℕ) (s : Kernel) : Prop extends FramesOwned numPhysPages s where
  numBits : s.ppnInUseBitMap.numBits = numPhysPages
  marked : ∀ p < s.numSpaces, ∀ vpn < (s.spaces p).numPages,
    ∀ e ∈ (s.spaces p).pageTable vpn, s.ppnInUseBitMap.map e.physicalPage.toNat = true

theorem marked_new (n : ℕ) : Marked n (.new n) :=
  ⟨⟨nofun, nofun⟩, rfl, nofun⟩

section

variable {n p : ℕ} {s s' : Kernel} {executable : File}

/-- The constructor keeps the other page tables. -/
theorem newSpace_keeps (h : s.newSpace n executable = .ok s') (hp : p < s.numSpaces) :
    s'.spaces p = s.spaces p := by
  obtain ⟨_, -, -, -, _, hspaces, -⟩ := Kernel.newSpace_ok h
  rw [hspaces, Function.update_of_ne (by omega)]

/-- **With enough free frames** the constructor gives the new process frames of its own. -/
theorem Marked.newSpace (hs : Marked n s) (hfree : EnoughFree s (.new executable))
    (h : s.newSpace n executable = .ok s') : Marked n s' := by
  have hkeeps {p : ℕ} (hp : p < s.numSpaces) := newSpace_keeps h hp
  obtain ⟨noffH, hheader, hnum, hbits, table, hspaces, htable⟩ := Kernel.newSpace_ok h
  obtain ⟨is, hfind, hnodup, his, hnumBits, hmap⟩ := BitMap.findMany_of_le (hfree noffH hheader)
  have hlen : is.length = Kernel.pagesOf noffH := by
    rw [← List.length_map (Nat.cast : ℕ → ℤ), ← hfind, BitMap.length_findMany]
  have hpages : (s'.spaces s.numSpaces).numPages = Kernel.pagesOf noffH := by
    rw [hspaces, Function.update_self]
  have hnew : (s'.spaces s.numSpaces).pageTable = table := by
    rw [hspaces, Function.update_self]
  -- The frames of the new process are those that `Find` has returned.
  have hentry (vpn : ℕ) (hvpn : vpn < is.length) :
      table vpn = some (.loaded vpn (is.get ⟨vpn, hvpn⟩ : ℕ)) := by
    rw [htable vpn (by omega), hfind, List.getD_eq_getElem _ _ (by simpa using hvpn),
      List.getElem_map]
    rfl
  have hget (vpn : ℕ) (hvpn : vpn < is.length) := his _ (List.get_mem is ⟨vpn, hvpn⟩)
  have hcases {p vpn : ℕ} (hp : p < s'.numSpaces) (hvpn : vpn < (s'.spaces p).numPages) {e : Entry}
      (he : e ∈ (s'.spaces p).pageTable vpn) :
      (p < s.numSpaces ∧ s'.spaces p = s.spaces p ∧
          s.ppnInUseBitMap.map e.physicalPage.toNat = true) ∨
        p = s.numSpaces ∧ ∃ h : vpn < is.length, e = .loaded vpn (is.get ⟨vpn, h⟩ : ℕ) := by
    rcases Nat.lt_or_ge p s.numSpaces with hlt | hge
    · rw [hkeeps hlt] at hvpn he
      exact .inl ⟨hlt, hkeeps hlt, hs.marked p hlt vpn hvpn e he⟩
    · obtain rfl : p = s.numSpaces := by omega
      rw [hpages] at hvpn
      rw [hnew] at he
      have hlt : vpn < is.length := by rwa [hlen]
      rw [hentry vpn hlt] at he
      exact .inr ⟨rfl, hlt, (Option.some.inj he).symm⟩
  -- A frame of an old process is not one that is found.
  have hapart {e : Entry} {vpn : ℕ} (hvpn : vpn < is.length)
      (he : s.ppnInUseBitMap.map e.physicalPage.toNat = true) :
      e.physicalPage ≠ (is.get ⟨vpn, hvpn⟩ : ℕ) := by
    intro heq
    rw [heq, Int.toNat_natCast, (hget vpn hvpn).2] at he
    cases he
  constructor
  · constructor
    · intro p hp vpn hvpn
      rcases Nat.lt_or_ge p s.numSpaces with hlt | hge
      · rw [hkeeps hlt] at hvpn ⊢
        exact hs.valid p hlt vpn hvpn
      · obtain rfl : p = s.numSpaces := by omega
        rw [hpages] at hvpn
        rw [hnew]
        have hlt : vpn < is.length := by rwa [hlen]
        refine ⟨_, hentry vpn hlt, rfl, Int.natCast_nonneg _, ?_⟩
        rw [← hs.numBits]
        exact Int.ofNat_lt.mpr (hget vpn hlt).1
    · intro p hp q hq vpn hvpn w hw e he e' he' heq
      rcases hcases hp hvpn he with ⟨hp, hpe, hmark⟩ | ⟨rfl, hlt, rfl⟩ <;>
        rcases hcases hq hw he' with ⟨hq, hqe, hmark'⟩ | ⟨rfl, hlt', rfl⟩
      · rw [hpe] at hvpn he
        rw [hqe] at hw he'
        exact hs.distinct p hp q hq vpn hvpn w hw e he e' he' heq
      · exact absurd heq (hapart hlt' hmark)
      · exact absurd heq.symm (hapart hlt hmark')
      · have hinj := hnodup.injective_get (Int.natCast_inj.mp heq)
        exact ⟨rfl, Fin.mk.inj hinj⟩
  · rw [hbits, hnumBits, hs.numBits]
  · intro p hp vpn hvpn e he
    rw [hbits, hmap]
    rcases hcases hp hvpn he with ⟨-, -, hmark⟩ | ⟨-, hlt, rfl⟩
    · exact .inl hmark
    · exact .inr (List.get_mem is ⟨vpn, hlt⟩)

/-- **Without enough free frames** a page of the new process gets frame -1. -/
theorem not_framesOwned_newSpace (hfree : ¬EnoughFree s (.new executable))
    (h : s.newSpace n executable = .ok s') : ¬FramesOwned n s' := by
  obtain ⟨noffH, hheader, hnum, -, table, hspaces, htable⟩ := Kernel.newSpace_ok h
  have hlt : s.ppnInUseBitMap.numClear < Kernel.pagesOf noffH := by
    simpa [EnoughFree, hheader] using hfree
  obtain ⟨vpn, hvpn, hget⟩ := List.getElem_of_mem (BitMap.findMany_of_lt hlt)
  rw [BitMap.length_findMany] at hvpn
  intro howned
  have hpages : (s'.spaces s.numSpaces).numPages = Kernel.pagesOf noffH := by
    rw [hspaces, Function.update_self]
  have hnew : (s'.spaces s.numSpaces).pageTable = table := by
    rw [hspaces, Function.update_self]
  obtain ⟨e, he, -, hpos, -⟩ := howned.valid s.numSpaces (by omega) vpn (by rwa [hpages])
  rw [hnew, htable vpn hvpn, List.getD_eq_getElem _ _ (by simpa using hvpn), hget] at he
  obtain rfl := Option.some.inj he
  exact absurd hpos (by simp [Entry.loaded])

/-- **A new stack** has no frames. -/
theorem not_framesOwned_allocateStack (h : s.allocateStack p = .ok s') : ¬FramesOwned n s' := by
  obtain ⟨hp, hnum, table, hspaces, -, hfresh⟩ := Kernel.allocateStack_ok h
  intro howned
  have hpos : 0 < AddrSpace.numStackPages := by decide
  have hpages : (s.spaces p).numPages < (s'.spaces p).numPages := by
    rw [hspaces, Function.update_self]
    exact Nat.lt_add_of_pos_right hpos
  have hnew : (s'.spaces p).pageTable = table := by
    rw [hspaces, Function.update_self]
  obtain ⟨e, he, -⟩ := howned.valid p (by omega) (s.spaces p).numPages hpages
  rw [hnew, hfresh _ (Nat.le_refl _)] at he
  cases he

/-- A construction that fits keeps the page tables. -/
theorem Fits.keeps {i : Label} (hi : Fits s i) : KeepsTables n s i := by
  intro s' h
  cases i with
  | new executable =>
    refine ⟨?_, fun hfree => absurd hi hfree⟩
    intro p hp vpn hvpn
    rw [newSpace_keeps h hp]
  | allocateStack p => exact hi.elim

end

/-- **No frame is shared** in exactly the runs without `AllocateStack` in which every address space
    is constructed while enough frames are free. -/
theorem frames_not_shared_iff {n : ℕ} {l : List Label} {t : Kernel}
    (h : exec (linearStep n) (.new n) l = .ok t) :
    Throughout (linearStep n) (FramesOwned n) (.new n) l ∧
        Guarded (linearStep n) (KeepsTables n) (.new n) l ↔
      Guarded (linearStep n) Fits (.new n) l := by
  have hiff : Throughout (linearStep n) (FramesOwned n) (.new n) l ↔
      Guarded (linearStep n) Fits (.new n) l := by
    refine throughout_iff_guarded_of_exec (fun _ => Marked.toFramesOwned) ?_ ?_ (marked_new n) h
    · intro s i s' hs hi hstep
      cases i with
      | new executable => exact hs.newSpace hi hstep
      | allocateStack p => exact hi.elim
    · intro s i s' _ hi hstep
      cases i with
      | new executable => exact not_framesOwned_newSpace hi hstep
      | allocateStack p => exact not_framesOwned_allocateStack hstep
  rw [hiff, and_iff_left_iff_imp]
  exact Guarded.mono fun _ _ => Fits.keeps

/-- Two processes on a machine with 32 frames. -/
theorem frames_not_shared_two :
    ∃ t, exec (linearStep 32) (.new 32) [.new oneInstruction, .new oneInstruction] = .ok t ∧
      FramesOwned 32 t := by
  have hrun : Ends (linearStep 32) (Kernel.new 32)
      [Label.new oneInstruction, Label.new oneInstruction] fun s => s.numSpaces = 2 := by
    decide +kernel
  have hfits : Guarded (linearStep 32) Fits (Kernel.new 32)
      [Label.new oneInstruction, Label.new oneInstruction] := by
    decide +kernel
  obtain ⟨t, ht, -⟩ := hrun
  exact ⟨t, ht, ((frames_not_shared_iff ht).mpr hfits).1.of_exec ht⟩

/-- The entries of a new stack are not written, and the fourth process finds only five frames. -/
theorem frames_not_owned :
    (∃ t, exec (linearStep 32) (.new 32) [.new oneInstruction, .allocateStack 0] = .ok t ∧
      (t.spaces 0).pageTable 9 = none ∧ ¬FramesOwned 32 t) ∧
    ∃ t, exec (linearStep 32) (.new 32) (List.replicate 4 (.new oneInstruction)) = .ok t ∧
      (t.spaces 3).pageTable 8 = some (.loaded 8 (-1)) ∧ ¬FramesOwned 32 t := by
  constructor
  · have hrun : Ends (linearStep 32) (Kernel.new 32)
        [Label.new oneInstruction, Label.allocateStack 0] fun s =>
        s.numSpaces = 1 ∧ (s.spaces 0).numPages = 17 ∧ (s.spaces 0).pageTable 9 = none := by
      decide +kernel
    obtain ⟨t, ht, hnum, hpages, hnone⟩ := hrun
    refine ⟨t, ht, hnone, fun howned => ?_⟩
    obtain ⟨e, he, -⟩ := howned.valid 0 (by omega) 9 (by omega)
    simp [hnone] at he
  · have hrun : Ends (linearStep 32) (Kernel.new 32)
        (List.replicate 4 (Label.new oneInstruction)) fun s =>
        s.numSpaces = 4 ∧ (s.spaces 3).numPages = 9 ∧
          (s.spaces 3).pageTable 8 = some (Entry.loaded 8 (-1)) := by
      decide +kernel
    obtain ⟨t, ht, hnum, hpages, hentry⟩ := hrun
    refine ⟨t, ht, hentry, fun howned => ?_⟩
    obtain ⟨e, he, -, hpos, -⟩ := howned.valid 3 (by omega) 8 (by omega)
    rw [hentry] at he
    obtain rfl := Option.some.inj he
    exact absurd hpos (by simp [Entry.loaded])

end Nachos.Userprog.Linear
