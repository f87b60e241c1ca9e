import Nachos.Userprog.Swap

/-!
# The first load of a page

A page of the executable is read whole. The last one runs past the initialised data: what follows in
the file, or the old bytes of the frame where the file ends, becomes the beginning of the
uninitialised data.

* `first_touch_shows_image_iff`: when the first load of a page shows the image of the program.
-/

namespace Nachos.Userprog

open Nachos.Lib

/-! ## The image of a program -/

/-- The address lies in the segment. -/
def Segment.Contains (g : Segment) (a : ℤ) : Prop := g.virtualAddr ≤ a ∧ a < g.virtualAddr + g.size

instance (g : Segment) (a : ℤ) : Decidable (g.Contains a) := by
  unfold Segment.Contains
  infer_instance

/-- The byte of the segment at the address, in the file. -/
def Segment.imageByte (g : Segment) (f : File) (a : ℤ) : UInt8 :=
  f.byte (g.inFileAddr + (a - g.virtualAddr)).toNat

namespace NoffHeader

/-- Code and initialised data are contiguous, in the file and in memory from the address 0. -/
def Contiguous (noffH : NoffHeader) (f : File) : Prop :=
  0 ≤ noffH.code.size ∧ 0 ≤ noffH.initData.size ∧ 0 ≤ noffH.uninitData.size ∧
  noffH.code.virtualAddr = 0 ∧ 0 ≤ noffH.code.inFileAddr ∧
  (noffH.initData.size ≠ 0 → noffH.initData.virtualAddr = noffH.code.size ∧
    noffH.initData.inFileAddr = noffH.code.inFileAddr + noffH.code.size) ∧
  noffH.code.inFileAddr + noffH.code.size + noffH.initData.size ≤ f.size

instance (noffH : NoffHeader) (f : File) : Decidable (noffH.Contiguous f) := by
  unfold Contiguous
  infer_instance

/-- The page has the bytes of the image in code and initialised data, and zeros in uninitialised
    data and stacks. -/
def Shows (noffH : NoffHeader) (f : File) (vpn : ℤ) (page : Page) : Prop :=
  ∀ k : Fin PageSize,
    (noffH.code.Contains (vpn * PageSize + k) →
      page k = noffH.code.imageByte f (vpn * PageSize + k)) ∧
    (noffH.initData.Contains (vpn * PageSize + k) →
      page k = noffH.initData.imageByte f (vpn * PageSize + k)) ∧
    (noffH.uninitData.Contains (vpn * PageSize + k) → page k = 0) ∧
    (noffH.programPages * PageSize ≤ vpn * PageSize + k → page k = 0)

/-- What is read behind the image for the uninitialised data is zero: the bytes of the file, and the
    old bytes of the frame where the file ends. -/
def TailZero (noffH : NoffHeader) (f : File) (vpn : ℤ) (old : Page) : Prop :=
  ∀ k : Fin PageSize, vpn < noffH.imagePages →
    noffH.uninitData.Contains (vpn * PageSize + k) →
    if noffH.code.inFileAddr + (vpn * PageSize + k) < f.size then
      f.byte (noffH.code.inFileAddr + (vpn * PageSize + k)).toNat = 0
    else old k = 0

/-- The bytes that the first load puts into a frame. -/
def firstBytes (noffH : NoffHeader) (f : File) (vpn : ℤ) (old : Page) : Page :=
  if vpn < noffH.imagePages then
    f.readAt old (noffH.code.inFileAddr + vpn * PageSize).toNat
  else fun _ => 0

variable {noffH : NoffHeader} {f : File} {vpn : ℤ} {old : Page}

theorem divRoundUp_of_nonneg {n : ℤ} (h : 0 ≤ n) : divRoundUp n PageSize = (n + 127) / 128 := by
  unfold divRoundUp
  rw [Int.tdiv_eq_ediv_of_nonneg h, Int.tmod_eq_emod_of_nonneg h]
  show n / 128 + (if 0 < n % 128 then 1 else 0) = _
  split_ifs <;> omega

/-- The pages of the image cover it, and they are pages of the program. -/
theorem imagePages_bounds (h : noffH.Contiguous f) :
    noffH.code.size + noffH.initData.size ≤ noffH.imagePages * 128 ∧
      noffH.imagePages ≤ noffH.programPages := by
  obtain ⟨hcode, hinit, huninit, -⟩ := h
  unfold imagePages programPages size
  rw [divRoundUp_of_nonneg (by omega), divRoundUp_of_nonneg (by omega)]
  constructor <;> omega

theorem firstBytes_of_lt (f : File) (old : Page) (hfile : 0 ≤ noffH.code.inFileAddr)
    (hpos : 0 ≤ vpn) (hvpn : vpn < noffH.imagePages) (k : Fin PageSize) :
    noffH.firstBytes f vpn old k =
      if noffH.code.inFileAddr + (vpn * PageSize + k) < f.size then
        f.byte (noffH.code.inFileAddr + (vpn * PageSize + k)).toNat
      else old k := by
  have hindex : (noffH.code.inFileAddr + vpn * PageSize).toNat + k =
      (noffH.code.inFileAddr + (vpn * PageSize + k)).toNat := by
    show (noffH.code.inFileAddr + vpn * 128).toNat + k =
      (noffH.code.inFileAddr + (vpn * 128 + k)).toNat
    omega
  unfold firstBytes File.readAt
  rw [if_pos hvpn, hindex]
  have hiff : (noffH.code.inFileAddr + (vpn * PageSize + k)).toNat < f.size ↔
      noffH.code.inFileAddr + (vpn * PageSize + k) < f.size := by
    show (noffH.code.inFileAddr + (vpn * 128 + k)).toNat < f.size ↔
      noffH.code.inFileAddr + (vpn * 128 + k) < f.size
    omega
  simp only [hiff]

/-- The first load shows the code. -/
theorem firstBytes_code (h : noffH.Contiguous f) (hpos : 0 ≤ vpn) (old : Page) {k : Fin PageSize}
    (hk : noffH.code.Contains (vpn * PageSize + k)) :
    noffH.firstBytes f vpn old k = noffH.code.imageByte f (vpn * PageSize + k) := by
  obtain ⟨hcover, -⟩ := imagePages_bounds h
  obtain ⟨hcode, hinit, -, hvirtual, hfile, -, hin⟩ := h
  have hlt : vpn * 128 + k < noffH.code.virtualAddr + noffH.code.size := hk.2
  rw [firstBytes_of_lt f old hfile hpos (by omega), if_pos (by
    show _ + (vpn * 128 + (k : ℤ)) < _
    omega)]
  unfold Segment.imageByte
  rw [hvirtual, sub_zero]

/-- And the initialised data. -/
theorem firstBytes_initData (h : noffH.Contiguous f) (hpos : 0 ≤ vpn) (old : Page) {k : Fin PageSize}
    (hk : noffH.initData.Contains (vpn * PageSize + k)) :
    noffH.firstBytes f vpn old k = noffH.initData.imageByte f (vpn * PageSize + k) := by
  obtain ⟨hcover, -⟩ := imagePages_bounds h
  obtain ⟨hcode, hinit, -, -, hfile, hcont, hin⟩ := h
  have hle : noffH.initData.virtualAddr ≤ vpn * 128 + k := hk.1
  have hlt : vpn * 128 + k < noffH.initData.virtualAddr + noffH.initData.size := hk.2
  obtain ⟨hv, hf⟩ := hcont (by omega)
  rw [firstBytes_of_lt f old hfile hpos (by omega), if_pos (by
    show _ + (vpn * 128 + (k : ℤ)) < _
    omega)]
  unfold Segment.imageByte
  rw [hv, hf]
  congr 2
  ring

/-- **The first load shows the image if and only if** the bytes behind it are zero. -/
theorem shows_firstBytes_iff (h : noffH.Contiguous f) (hpos : 0 ≤ vpn) :
    noffH.Shows f vpn (noffH.firstBytes f vpn old) ↔ noffH.TailZero f vpn old := by
  have hprogram := (imagePages_bounds h).2
  have hshown (k : Fin PageSize) := And.intro (firstBytes_code h hpos old (k := k))
    (firstBytes_initData h hpos old (k := k))
  by_cases hvpn : vpn < noffH.imagePages
  · have hbyte := firstBytes_of_lt f old h.2.2.2.2.1 hpos hvpn
    constructor
    · intro hshows k _ hk
      have hzero := (hshows k).2.2.1 hk
      rw [hbyte] at hzero
      split_ifs at hzero ⊢ with hlt
      · exact hzero
      · exact hzero
    · intro htail k
      refine ⟨(hshown k).1, (hshown k).2, ?_, ?_⟩
      · intro hk
        have hzero := htail k hvpn hk
        rw [hbyte]
        split_ifs at hzero ⊢ with hlt
        · exact hzero
        · exact hzero
      · intro hk
        have hstack : noffH.programPages * 128 ≤ vpn * 128 + k := hk
        have hoffset : (k : ℕ) < 128 := k.isLt
        omega
  · have hzero (k : Fin PageSize) : noffH.firstBytes f vpn old k = 0 := by
      unfold firstBytes
      rw [if_neg hvpn]
    exact iff_of_true (fun k => ⟨(hshown k).1, (hshown k).2, fun _ => hzero k, fun _ => hzero k⟩)
      fun k hlt => absurd hlt hvpn

end NoffHeader

/-! ## The history -/

/-- The page that an event loads. -/
def PagingEvent.page : PagingEvent → Option (ℕ × ℤ)
  | .loaded p vpn _ _ _ _ => some (p, vpn)
  | _ => none

/-- The pages that have been loaded. -/
def touched (history : List PagingEvent) : List (ℕ × ℤ) := history.filterMap PagingEvent.page

/-- The program of an event. -/
def PagingEvent.program : PagingEvent → Option File
  | .created executable => some executable
  | _ => none

/-- The programs of the processes, in their order. -/
def programs (history : List PagingEvent) : List File := history.filterMap PagingEvent.program

theorem touched_append (h h' : List PagingEvent) : touched (h ++ h') = touched h ++ touched h' :=
  List.filterMap_append

theorem programs_append (h h' : List PagingEvent) :
    programs (h ++ h') = programs h ++ programs h' :=
  List.filterMap_append

/-- The first load of a page has the bytes that the header gives it. -/
def FirstLoads (history : List PagingEvent) : Prop :=
  ∀ pre post p vpn ppn location old new,
    history = pre ++ .loaded p vpn ppn location old new :: post → (p, vpn) ∉ touched pre →
    0 ≤ vpn ∧ ∃ f noffH, (programs pre)[p]? = some f ∧ f.noffHeader = some noffH ∧
      new = noffH.firstBytes f vpn old

section

variable {history : List PagingEvent} {e : PagingEvent}

theorem FirstLoads.concat (h : FirstLoads history)
    (he : ∀ p vpn ppn location old new, e = .loaded p vpn ppn location old new →
      (p, vpn) ∉ touched history → 0 ≤ vpn ∧ ∃ f noffH, (programs history)[p]? = some f ∧
        f.noffHeader = some noffH ∧ new = noffH.firstBytes f vpn old) :
    FirstLoads (history ++ [e]) := by
  intro pre post p vpn ppn location old new heq
  obtain rfl | ⟨post, x, rfl⟩ := List.eq_nil_or_concat post
  · obtain ⟨rfl, hlast⟩ := List.append_inj' heq rfl
    cases hlast
    exact he p vpn ppn location old new rfl
  · rw [List.concat_eq_append, ← List.cons_append, ← List.append_assoc] at heq
    exact h pre post p vpn ppn location old new (List.append_inj' heq rfl).1

end

namespace VirtualMemory

variable {c : PagingConfig} {s s' : VirtualMemory} {history events : List PagingEvent}
  {ppn p q i random : ℕ} {vpn w : ℤ} {e e' : PageTableEntry}

/-- The entry is the one that the constructor makes for the page. -/
def IsFirstEntry (history : List PagingEvent) (p : ℕ) (vpn : ℤ) (e : PageTableEntry) : Prop :=
  ∃ f noffH, (programs history)[p]? = some f ∧ f.noffHeader = some noffH ∧
    e = AddrSpace.firstEntry f noffH vpn.toNat

/-- The entry of a page that has not been loaded is the first one. -/
structure Untouched (s : VirtualMemory) (history : List PagingEvent) : Prop where
  length : (programs history).length = s.numSpaces
  header : ∀ p f, (programs history)[p]? = some f →
    ∃ noffH : NoffHeader, f.noffHeader = some noffH ∧ noffH.imagePages ≤ (s.spaces p).numPages
  frame : ∀ f p, (s.ipt f).valid = true → (s.ipt f).processID = some p →
    (p, (s.ipt f).virtualPage) ∈ touched history
  entry : ∀ p vpn e, s.pageEntry p vpn = some e → (p, vpn) ∉ touched history →
    IsFirstEntry history p vpn e
  firstLoads : FirstLoads history

theorem untouched_new (c : PagingConfig) : Untouched (new c) [] where
  length := rfl
  header p f h := by
    simp [programs] at h
  frame f p h := by cases h
  entry p vpn e h := by
    unfold pageEntry AddrSpace.lookup at h
    split_ifs at h
    cases h
  firstLoads := by
    intro pre post p vpn ppn location old new h
    simp at h

/-- The first entry is read as the header says. -/
theorem readPage_firstEntry {f : File} {noffH : NoffHeader} {old new : Page} (hpos : 0 ≤ vpn)
    (h : s.readPage (AddrSpace.firstEntry f noffH vpn.toNat) old = .ok new) :
    new = noffH.firstBytes f vpn old := by
  unfold AddrSpace.firstEntry at h
  rw [Int.toNat_of_nonneg hpos] at h
  unfold NoffHeader.firstBytes
  split_ifs at h ⊢ with hvpn
  · unfold readPage PageTableEntry.inExecutable at h
    simp only at h
    split_ifs at h
    cases h
    rfl
  · unfold readPage PageTableEntry.neither at h
    cases h
    rfl

/-- No process and no load is new. -/
theorem Untouched.of_tables (hu : Untouched s history) (hprograms : programs events = [])
    (htouched : touched events = []) (hnum : s'.numSpaces = s.numSpaces)
    (hpages : ∀ p, (s.spaces p).numPages ≤ (s'.spaces p).numPages)
    (hipt : ∀ f, ∃ d, s'.ipt f = { s.ipt f with dirty := d })
    (hentry : ∀ p vpn e, s'.pageEntry p vpn = some e → (p, vpn) ∉ touched history →
      IsFirstEntry history p vpn e) (hfirst : FirstLoads (history ++ events)) :
    Untouched s' (history ++ events) where
  length := by rw [programs_append, hprograms, List.append_nil, hnum, hu.length]
  header p f hf := by
    rw [programs_append, hprograms, List.append_nil] at hf
    obtain ⟨noffH, hheader, hle⟩ := hu.header p f hf
    have := hpages p
    exact ⟨noffH, hheader, by omega⟩
  frame f p hf hp := by
    obtain ⟨d, hd⟩ := hipt f
    rw [hd] at hf hp ⊢
    rw [touched_append, htouched, List.append_nil]
    exact hu.frame f p hf hp
  entry p vpn e he hnot := by
    rw [touched_append, htouched, List.append_nil] at hnot
    obtain ⟨f, noffH, hf, hheader, hfirst⟩ := hentry p vpn e he hnot
    refine ⟨f, noffH, ?_, hheader, hfirst⟩
    rw [programs_append, hprograms, List.append_nil, hf]
  firstLoads := hfirst

/-- No event, the same page tables, and the same pages in the frames. -/
theorem Untouched.of_eq (hu : Untouched s history) (hnum : s'.numSpaces = s.numSpaces)
    (hspaces : s'.spaces = s.spaces) (hipt : ∀ f, ∃ d, s'.ipt f = { s.ipt f with dirty := d }) :
    Untouched s' history := by
  have hu' : Untouched s' (history ++ []) := by
    refine hu.of_tables rfl rfl hnum ?_ hipt ?_ ?_
    · intro p
      rw [hspaces]
    · intro p vpn e he
      unfold pageEntry at he
      rw [hspaces] at he
      exact hu.entry p vpn e he
    · rw [List.append_nil]
      exact hu.firstLoads
  rwa [List.append_nil] at hu'

theorem ipt_self (s : VirtualMemory) (f : ℕ) : ∃ d, s.ipt f = { s.ipt f with dirty := d } :=
  ⟨(s.ipt f).dirty, rfl⟩

/-- A page that is written back is in a frame, so it has been loaded. -/
theorem Untouched.writeBack (hu : Untouched s history)
    (hdirty : (s.ipt ppn).dirty = true → (s.ipt ppn).valid = true)
    (h : s.writeBack ppn = .ok (s', events)) : Untouched s' (history ++ events) := by
  obtain ⟨-, rfl, rfl⟩ | ⟨hd, p, e, index, f, hp, he, -, rfl, rfl⟩ := writeBack_cases h
  · rwa [List.append_nil]
  · refine hu.of_tables rfl rfl rfl ?_ (ipt_self s) ?_ ?_
    · intro q
      by_cases hq : q = p
      · subst hq
        simp [wroteBack]
      · simp [wroteBack, hq]
    · intro q w e' he' hnot
      obtain ⟨rfl, rfl, -⟩ | ⟨-, he'⟩ := pageEntry_wroteBack he he'
      · exact absurd (hu.frame ppn q (hdirty hd) hp) hnot
      · exact hu.entry q w e' he' hnot
    · apply hu.firstLoads.concat
      intro _ _ _ _ _ _ heq
      cases heq

theorem numSpaces_invalidate : (s.invalidate c ppn).numSpaces = s.numSpaces := by
  unfold invalidate
  split_ifs
  · split <;> rfl
  · rfl

theorem numSpaces_chooseVictim (h : s.chooseVictim c random = .ok (ppn, s')) :
    s'.numSpaces = s.numSpaces := by
  obtain ⟨-, -, rfl⟩ | ⟨-, queue, -, rfl⟩ := chooseVictim_cases h <;> rfl

theorem Untouched.takeFrame (hu : Untouched s history) (hb : Paged c s)
    (h : s.takeFrame c random = .ok (ppn, s', events)) : Untouched s' (history ++ events) := by
  obtain ⟨b, -, rfl, rfl⟩ | ⟨-, hevict⟩ := takeFrame_cases h
  · rw [List.append_nil]
    exact hu.of_eq rfl rfl (ipt_self s)
  · obtain ⟨s₀, hchoose, hback⟩ := evictAPage_eq_ok hevict
    have hipt := ((keeps_chooseVictim hchoose).trans
      (keeps_invalidate c s₀ ppn)).ipt
    have hu' : Untouched (s₀.invalidate c ppn) history := by
      apply hu.of_eq
      · rw [numSpaces_invalidate, numSpaces_chooseVictim hchoose]
      · rw [spaces_invalidate, (tables_chooseVictim hchoose).1]
      · rw [hipt]
        exact ipt_self s
    apply hu'.writeBack _ hback
    rw [hipt]
    exact hb.dirty ppn

theorem Untouched.propagate (hu : Untouched s history) : Untouched (s.propagate i) history :=
  hu.of_eq numSpaces_propagate tables_propagate.2 ipt_propagate

theorem Untouched.flush (hu : Untouched s history) (n : ℕ) : Untouched (s.flush n) history := by
  induction n with
  | zero => exact hu
  | succ n ih => exact ih.propagate

theorem Untouched.updateTLBFromIPT (hu : Untouched s history) :
    Untouched (s.updateTLBFromIPT c ppn) history :=
  hu.propagate.of_eq rfl rfl (ipt_self _)

/-- The page that is loaded, and the frame that it gets. -/
theorem Untouched.loadPageIntoIPT (hu : Untouched s history) (hb : Paged c s)
    (h : s.loadPageIntoIPT c vpn random = .ok (ppn, s', events)) :
    Untouched s' (history ++ events) := by
  obtain ⟨s₁, events₁, p, e, bytes, htake, -, he, hread, rfl, rfl⟩ := loadPageIntoIPT_eq_ok h
  have hu₁ := hu.takeFrame hb htake
  have hentry : (s₁.enqueue c ppn).pageEntry = s₁.pageEntry := by
    funext q w
    unfold pageEntry
    rw [tables_enqueue.2]
  have hnum : (s₁.enqueue c ppn).numSpaces = s₁.numSpaces := by
    unfold enqueue
    split_ifs <;> rfl
  rw [← List.append_assoc]
  generalize history ++ events₁ = history₁ at *
  have hprograms : programs (history₁ ++
      [.loaded p vpn ppn e.location (s₁.mainMemory ppn) bytes]) = programs history₁ := by
    rw [programs_append]
    exact List.append_nil _
  have htouched : touched (history₁ ++
      [.loaded p vpn ppn e.location (s₁.mainMemory ppn) bytes]) =
        touched history₁ ++ [(p, vpn)] := by
    rw [touched_append]
    rfl
  constructor
  · rw [hprograms]
    exact hu₁.length.trans hnum.symm
  · intro q f hf
    rw [hprograms] at hf
    show ∃ noffH : NoffHeader, _ ∧ noffH.imagePages ≤ ((s₁.enqueue c ppn).spaces q).numPages
    rw [tables_enqueue.2]
    exact hu₁.header q f hf
  · intro f q hf hq
    rw [htouched, List.mem_append]
    by_cases hfp : f = ppn
    · subst hfp
      simp only [populate, Function.update_self, Option.some.injEq] at hq ⊢
      rw [hq]
      exact .inr (List.mem_singleton.mpr rfl)
    · simp only [populate, Function.update_of_ne hfp, (keeps_enqueue c s₁ ppn).ipt] at hf hq ⊢
      exact .inl (hu₁.frame f q hf hq)
  · intro q w e' he' hnot
    have he₁ : (s₁.enqueue c ppn).pageEntry q w = some e' := he'
    rw [hentry] at he₁
    rw [htouched, List.mem_append, not_or] at hnot
    unfold IsFirstEntry
    rw [hprograms]
    exact hu₁.entry q w e' he₁ hnot.1
  · apply hu₁.firstLoads.concat
    intro p' vpn' ppn' location old new heq hnot
    simp only [PagingEvent.loaded.injEq] at heq
    obtain ⟨rfl, rfl, -, -, rfl, rfl⟩ := heq
    have hpos := (AddrSpace.lookup_isSome_iff.mp ⟨e, he⟩).1
    obtain ⟨f, noffH, hf, hheader, rfl⟩ := hu₁.entry p vpn e he hnot
    exact ⟨hpos, f, noffH, hf, hheader, readPage_firstEntry hpos hread⟩

/-- The entries of a new process are the first ones. -/
theorem Untouched.newSpace (hu : Untouched s history) {executable : File}
    (h : s.newSpace executable = .ok (s', events)) : Untouched s' (history ++ events) := by
  obtain ⟨a, ha, rfl, rfl⟩ := newSpace_eq_ok h
  have hprograms : programs (history ++ [.created executable]) =
      programs history ++ [executable] := by
    rw [programs_append]
    rfl
  have htouched : touched (history ++ [.created executable]) = touched history := by
    rw [touched_append]
    exact List.append_nil _
  have hlast : (programs history ++ [executable])[s.numSpaces]? = some executable := by
    rw [← hu.length, List.getElem?_concat_length]
  have hold : ∀ p, p ≠ s.numSpaces → ∀ f, (programs history)[p]? = some f ↔
      (programs history ++ [executable])[p]? = some f := by
    intro p hp f
    rw [← hu.length] at hp
    rw [List.getElem?_append]
    split_ifs with hlt
    · rfl
    · rw [List.getElem?_eq_none (by omega), List.getElem?_eq_none (by simp; omega)]
  constructor
  · rw [hprograms, List.length_append, hu.length]
    rfl
  · intro p f hf
    rw [hprograms] at hf
    by_cases hp : p = s.numSpaces
    · subst hp
      rw [hlast] at hf
      cases hf
      simp only [Function.update_self]
      exact AddrSpace.imagePages_le_of_new ha
    · simp only [Function.update_of_ne hp]
      exact hu.header p f ((hold p hp f).mpr hf)
  · intro f p hf hp
    rw [htouched]
    exact hu.frame f p hf hp
  · intro p vpn e he hnot
    rw [htouched] at hnot
    unfold IsFirstEntry
    rw [hprograms]
    unfold pageEntry at he
    by_cases hp : p = s.numSpaces
    · subst hp
      simp only [Function.update_self] at he
      obtain ⟨noffH, hheader, rfl⟩ := AddrSpace.lookup_new ha he
      exact ⟨executable, noffH, hlast, hheader, rfl⟩
    · simp only [Function.update_of_ne hp] at he
      obtain ⟨f, noffH, hf, hheader, rfl⟩ := hu.entry p vpn e he hnot
      exact ⟨f, noffH, (hold p hp f).mp hf, hheader, rfl⟩
  · apply hu.firstLoads.concat
    intro _ _ _ _ _ _ heq
    cases heq

/-- The entries of a new stack are the first ones of its pages. -/
theorem Untouched.allocateStack (hu : Untouched s history) (hp : p < s.numSpaces) :
    Untouched (s.allocateStack p) history := by
  have hu' : Untouched (s.allocateStack p) (history ++ []) := by
    refine hu.of_tables rfl rfl rfl ?_ (ipt_self s) ?_ ?_
    · intro q
      by_cases hq : q = p
      · subst hq
        simpa [VirtualMemory.allocateStack] using AddrSpace.numPages_le_allocateStack
      · simp [VirtualMemory.allocateStack, hq]
    · intro q w e he hnot
      unfold pageEntry VirtualMemory.allocateStack at he
      by_cases hq : q = p
      · subst hq
        simp only [Function.update_self] at he
        obtain he | ⟨hge, rfl⟩ := AddrSpace.lookup_allocateStack he
        · exact hu.entry q w e he hnot
        · rw [← hu.length] at hp
          have hf := List.getElem?_eq_getElem hp
          obtain ⟨noffH, hheader, hle⟩ := hu.header q _ hf
          refine ⟨_, noffH, hf, hheader, ?_⟩
          unfold AddrSpace.firstEntry
          rw [if_neg (by omega)]
      · simp only [Function.update_of_ne hq] at he
        exact hu.entry q w e he hnot
    · rw [List.append_nil]
      exact hu.firstLoads
  rwa [List.append_nil] at hu'

end VirtualMemory

open VirtualMemory

variable {c : PagingConfig} {s s' : VirtualMemory} {history events : List PagingEvent}

/-- Every step keeps the entries of the pages that have not been loaded. -/
theorem untouched_of_pagingStep {l : PagingLabel} (hb : Paged c s) (hu : Untouched s history)
    (h : pagingStep c s l = .ok (s', events)) : Untouched s' (history ++ events) := by
  cases l with
  | access virtAddr a random =>
    obtain ⟨ppn, s₁, htranslate, rfl, rfl⟩ | ⟨-, hfault⟩ := accessMem_cases h
    · obtain ⟨i, -, -, rfl⟩ := translate_eq_ok htranslate
      rw [List.append_nil]
      exact hu.of_eq rfl rfl (ipt_self s)
    · obtain ⟨ppn, -, rfl, rfl⟩ | ⟨-, ppn, s₁, hload, rfl⟩ := handlePageFault_cases hfault
      · rw [List.append_nil]
        exact hu.updateTLBFromIPT
      · exact (hu.loadPageIntoIPT hb hload).updateTLBFromIPT
  | switch next =>
    obtain ⟨-, rfl, rfl⟩ := switch_eq_ok h
    rw [List.append_nil]
    exact (hu.flush c.tlbSize).of_eq rfl rfl (ipt_self _)
  | startProcess executable =>
    obtain ⟨-, s₁, hnew, rfl⟩ := startProcess_eq_ok h
    exact (hu.newSpace hnew).of_eq rfl rfl (ipt_self s₁)
  | exec executable =>
    obtain ⟨s₁, hnew, rfl⟩ := exec_Syscall_eq_ok h
    exact (hu.newSpace hnew).of_eq rfl rfl (ipt_self s₁)
  | fork functionPtr =>
    obtain ⟨rfl, rfl | ⟨p, hp, rfl⟩⟩ := fork_Syscall_cases h
    · rwa [List.append_nil]
    · rw [List.append_nil]
      exact (hu.allocateStack (hb.space p hp)).of_eq rfl rfl (ipt_self s)

theorem untouched_of_run {l : List PagingLabel}
    (h : exec (historyStep c) (new c, []) l = .ok (s, history)) : Untouched s history := by
  have hstep : ∀ x i x', Paged c x.1 ∧ Untouched x.1 x.2 → historyStep c x i = .ok x' →
      Paged c x'.1 ∧ Untouched x'.1 x'.2 := by
    intro x i x' ⟨hb, hu⟩ hstep
    obtain ⟨events, hstep, hhistory⟩ := historyStep_eq_ok hstep
    rw [hhistory]
    exact ⟨paged_of_pagingStep hb hstep, untouched_of_pagingStep hb hu hstep⟩
  exact (exec_preserves hstep ⟨paged_new c, untouched_new c⟩ h).2

/-- The program that a step starts. -/
def PagingLabel.program : PagingLabel → Option File
  | .startProcess executable => some executable
  | .exec executable => some executable
  | _ => none

theorem programs_writeBack {ppn : ℕ} (h : s.writeBack ppn = .ok (s', events)) :
    programs events = [] := by
  obtain ⟨-, -, rfl⟩ | ⟨-, p, e, index, f, -, -, -, -, rfl⟩ := writeBack_cases h <;> rfl

/-- A page fault starts no program. -/
theorem programs_handlePageFault {badVAddr : ℤ} {random : ℕ}
    (h : s.handlePageFault c badVAddr random = .ok (s', events)) : programs events = [] := by
  obtain ⟨ppn, -, -, rfl⟩ | ⟨-, ppn, s₁, hload, -⟩ := handlePageFault_cases h
  · rfl
  · obtain ⟨s₂, events₁, p, e, bytes, htake, -, -, -, -, rfl⟩ := loadPageIntoIPT_eq_ok hload
    rw [programs_append]
    obtain ⟨b, -, -, rfl⟩ | ⟨-, hevict⟩ := takeFrame_cases htake
    · rfl
    · obtain ⟨s₀, -, hback⟩ := evictAPage_eq_ok hevict
      rw [programs_writeBack hback]
      rfl

/-- The programs of the history are those of the labels. -/
theorem programs_of_pagingStep {l : PagingLabel} (h : pagingStep c s l = .ok (s', events)) :
    programs events = l.program.toList := by
  cases l with
  | access virtAddr a random =>
    obtain ⟨ppn, s₁, -, -, rfl⟩ | ⟨-, hfault⟩ := accessMem_cases h
    · rfl
    · exact programs_handlePageFault hfault
  | switch next =>
    obtain ⟨-, -, rfl⟩ := switch_eq_ok h
    rfl
  | startProcess executable =>
    obtain ⟨-, s₁, hnew, -⟩ := startProcess_eq_ok h
    obtain ⟨a, -, -, rfl⟩ := newSpace_eq_ok hnew
    rfl
  | exec executable =>
    obtain ⟨s₁, hnew, -⟩ := exec_Syscall_eq_ok h
    obtain ⟨a, -, -, rfl⟩ := newSpace_eq_ok hnew
    rfl
  | fork functionPtr =>
    obtain ⟨rfl, -⟩ := fork_Syscall_cases h
    rfl

theorem programs_of_run {l : List PagingLabel} {x x' : VirtualMemory × List PagingEvent}
    (h : exec (historyStep c) x l = .ok x') :
    programs x'.2 = programs x.2 ++ l.filterMap PagingLabel.program := by
  induction l generalizing x with
  | nil =>
    cases h
    rw [List.filterMap_nil, List.append_nil]
  | cons i l ih =>
    obtain ⟨y, hstep, hrest⟩ := exec_cons_eq_ok h
    obtain ⟨events, hstep, hhistory⟩ := historyStep_eq_ok hstep
    rw [ih hrest, hhistory, programs_append, programs_of_pagingStep hstep, List.filterMap_cons,
      List.append_assoc]
    cases i.program <;> rfl

/-- **The first load of a page shows the image if and only if** what is read behind the initialised
    data, for the uninitialised data in the last page of the image, is zero: the bytes of the file,
    and the old bytes of the frame where the file ends. -/
theorem first_touch_shows_image_iff (c : PagingConfig) {l : List PagingLabel} {s : VirtualMemory}
    {history : List PagingEvent} (h : exec (historyStep c) (new c, []) l = .ok (s, history))
    {pre post : List PagingEvent} {p ppn : ℕ} {vpn : ℤ} {location : Location} {old new : Page}
    (hload : history = pre ++ .loaded p vpn ppn location old new :: post)
    (hfirst : (p, vpn) ∉ touched pre) {f : File} {noffH : NoffHeader}
    (hf : (l.filterMap PagingLabel.program)[p]? = some f) (hheader : f.noffHeader = some noffH)
    (hcontiguous : noffH.Contiguous f) : noffH.Shows f vpn new ↔ noffH.TailZero f vpn old := by
  obtain ⟨hpos, f', noffH', hf', hheader', rfl⟩ :=
    (untouched_of_run h).firstLoads pre post p vpn ppn location old new hload hfirst
  have hprograms : programs history = l.filterMap PagingLabel.program := by
    rw [programs_of_run h]
    rfl
  rw [← hprograms, hload, programs_append,
    List.getElem?_append_left (List.getElem?_eq_some_iff.mp hf').1, hf'] at hf
  cases hf
  rw [hheader] at hheader'
  cases hheader'
  exact noffH.shows_firstBytes_iff hcontiguous hpos

/-- The last event of a history, if it is a load. -/
theorem eq_concat_of_loadedByte {history : List PagingEvent} {k : Fin PageSize} {p : ℕ} {vpn : ℤ}
    {location : Location} {b : UInt8}
    (h : history.getLast?.bind (PagingEvent.loadedByte k) = some (p, vpn, location, b)) :
    ∃ ppn old new, history = history.dropLast ++ [.loaded p vpn ppn location old new] ∧
      new k = b := by
  obtain ⟨e, he, hbyte⟩ := Option.bind_eq_some_iff.mp h
  unfold PagingEvent.loadedByte at hbyte
  split at hbyte
  · cases hbyte
    exact ⟨_, _, _, (List.dropLast_append_getLast? _ he).symm, rfl⟩
  · cases hbyte

/-- The first page of a program without uninitialised data. -/
theorem first_touch_shows_image_iff_code :
    ∃ s history, exec (historyStep oneFrame) (new oneFrame, [])
        [.startProcess oneInstruction, .access 0 (.load .word) 0] = .ok (s, history) ∧
      ∃ ppn old new noffH, history = history.dropLast ++
          [.loaded 0 0 ppn .inExecutable old new] ∧ oneInstruction.noffHeader = some noffH ∧
        noffH.Shows oneInstruction 0 new := by
  have hrun : Ends (historyStep oneFrame) (new oneFrame, [])
      [.startProcess oneInstruction, .access 0 (.load .word) 0] fun x =>
      (0, 0) ∉ touched x.2.dropLast ∧
        x.2.getLast?.bind (PagingEvent.loadedByte 0) = some (0, 0, .inExecutable, 0x0c) := by
    decide +kernel
  obtain ⟨⟨s, history⟩, h, hfirst, hlast⟩ := hrun
  obtain ⟨ppn, old, new, hload, -⟩ := eq_concat_of_loadedByte hlast
  have hheader : ∃ noffH ∈ oneInstruction.noffHeader, noffH.Contiguous oneInstruction ∧
      noffH.uninitData.size = 0 := by
    decide +kernel
  obtain ⟨noffH, hheader, hcontiguous, hempty⟩ := hheader
  refine ⟨s, history, h, ppn, old, new, noffH, hload, hheader, ?_⟩
  apply (first_touch_shows_image_iff oneFrame h hload hfirst rfl hheader hcontiguous).mpr
  intro k _ ⟨hlo, hk⟩
  omega

/-- A program with one instruction and four bytes of uninitialised data. -/
def fourBytes : File := .ofInts [0xbadfad, 0, 40, 4, 0, 0, 0, 4, 0, 4, 0x0000000c]

/-- A process stores 7 to its stack, and its frame gets the first page of another process, whose
    uninitialised data then begin with 7. -/
theorem first_touch_shows_old_bytes :
    ∃ s history, exec (historyStep oneFrame) (new oneFrame, [])
        [.startProcess fourBytes, .exec fourBytes, .access 132 (.load .word) 0,
          .access 132 (.store .word 7) 0, .switch (some 1), .access 0 (.load .word) 0] =
            .ok (s, history) ∧
      ∃ ppn old new noffH, history = history.dropLast ++
          [.loaded 1 0 ppn .inExecutable old new] ∧ (1, 0) ∉ touched history.dropLast ∧
        fourBytes.noffHeader = some noffH ∧ noffH.Contiguous fourBytes ∧
        ¬noffH.Shows fourBytes 0 new := by
  have hrun : Ends (historyStep oneFrame) (new oneFrame, [])
      [.startProcess fourBytes, .exec fourBytes, .access 132 (.load .word) 0,
        .access 132 (.store .word 7) 0, .switch (some 1), .access 0 (.load .word) 0] fun x =>
      (1, 0) ∉ touched x.2.dropLast ∧
        x.2.getLast?.bind (PagingEvent.loadedByte 4) = some (1, 0, .inExecutable, 7) := by
    decide +kernel
  obtain ⟨⟨s, history⟩, h, hfirst, hlast⟩ := hrun
  obtain ⟨ppn, old, new, hload, hbyte⟩ := eq_concat_of_loadedByte hlast
  have hheader : ∃ noffH ∈ fourBytes.noffHeader, noffH.Contiguous fourBytes ∧
      noffH.uninitData.Contains 4 := by
    decide +kernel
  obtain ⟨noffH, hheader, hcontiguous, hcontains⟩ := hheader
  refine ⟨s, history, h, ppn, old, new, noffH, hload, hfirst, hheader, hcontiguous, ?_⟩
  intro hshows
  have hzero := (hshows 4).2.2.1 hcontains
  rw [hbyte] at hzero
  exact absurd hzero (by decide)

end Nachos.Userprog
