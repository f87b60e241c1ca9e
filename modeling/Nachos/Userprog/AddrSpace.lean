import Nachos.Userprog.OpenFile

/-!
# Address spaces

The page table of `class AddrSpace` (`userprog/addrspace.cc`, `USE_TLB`). The fields of a page
table entry that only `AllocateStack` copies are left out.

* `lookup_new`: the entries that the constructor makes.
* `lookup_allocateStack`: a new stack keeps the entries that are there.
-/

namespace Nachos.Userprog

/-- disk.h. -/
abbrev PageSize : ℕ := 128

instance : NeZero PageSize := ⟨by decide⟩

/-- addrspace.h:24. -/
abbrev UserStackSize : ℕ := 1024

/-- utility.h:42, with the division of C. -/
def divRoundUp (n s : ℤ) : ℤ := n.tdiv s + if 0 < n.tmod s then 1 else 0

/-- The division of C rounds to zero. -/
theorem tdiv_pageSize (a : ℤ) : a.tdiv PageSize = if 0 ≤ a then a / 128 else -(-a / 128) := by
  split_ifs with h
  · exact Int.tdiv_eq_ediv_of_nonneg h
  · rw [← Int.tdiv_eq_ediv_of_nonneg (by omega), Int.neg_tdiv, neg_neg]
    rfl

/-- The bytes of a page, or of a frame. -/
abbrev Page : Type := Fin PageSize → UInt8

/-! ## Executables -/

/-- noff.h. -/
structure Segment where
  virtualAddr : ℤ
  inFileAddr : ℤ
  size : ℤ

/-- noff.h. -/
structure NoffHeader where
  noffMagic : ℤ
  code : Segment
  initData : Segment
  uninitData : Segment

/-- noff.h. -/
abbrev NOFFMAGIC : ℤ := 0xbadfad

/-- A segment at the position of the file. -/
def File.segment (f : File) (position : ℕ) : Segment :=
  ⟨f.int position, f.int (position + 4), f.int (position + 8)⟩

/-- `executable->ReadAt((char *)&noffH, sizeof(noffH), 0)` and the assertion; `none` when the file
    is too short, or when it is not in the format. -/
def File.noffHeader (f : File) : Option NoffHeader :=
  if 40 ≤ f.size ∧ f.int 0 = NOFFMAGIC then
    some ⟨f.int 0, f.segment 4, f.segment 16, f.segment 28⟩
  else none

/-- A program with one instruction. -/
def oneInstruction : File := .ofInts [0xbadfad, 0, 40, 4, 0, 0, 0, 0, 0, 0, 0x0000000c]

/-! ## Page tables -/

/-- pagetableentry.h. -/
inductive Location
  | inExecutable
  | inSwapFile
  | neither
  deriving DecidableEq

/-- `class PageTableEntry` (pagetableentry.h). -/
structure PageTableEntry where
  location : Location
  executable : Option File
  byteOffset : ℤ
  swapPageIndex : ℤ

namespace PageTableEntry

/-- A page of the executable. -/
def inExecutable (executable : File) (byteOffset : ℤ) : PageTableEntry :=
  ⟨.inExecutable, some executable, byteOffset, -1⟩

/-- A page of the uninitialised data, or of a stack. -/
def neither : PageTableEntry := ⟨.neither, none, -1, -1⟩

end PageTableEntry

/-- `class AddrSpace` (addrspace.h). -/
structure AddrSpace where
  pageTable : List PageTableEntry

namespace NoffHeader

/-- The number of pages that are read from the executable. -/
def imagePages (noffH : NoffHeader) : ℤ :=
  divRoundUp (noffH.code.size + noffH.initData.size) PageSize

/-- `size`, as the sum of the segments. -/
def size (noffH : NoffHeader) : ℤ := noffH.code.size + noffH.initData.size + noffH.uninitData.size

/-- The number of pages without the stack. -/
def programPages (noffH : NoffHeader) : ℤ := divRoundUp noffH.size PageSize

end NoffHeader

namespace AddrSpace

abbrev numPages (a : AddrSpace) : ℕ := a.pageTable.length

/-- `divRoundUp(UserStackSize, PageSize)`. -/
def numStackPages : ℕ := (divRoundUp UserStackSize PageSize).toNat

/-- What the constructor writes to `pageTable[vpn]`. -/
def firstEntry (executable : File) (noffH : NoffHeader) (vpn : ℕ) : PageTableEntry :=
  if (vpn : ℤ) < noffH.imagePages then
    .inExecutable executable (noffH.code.inFileAddr + vpn * PageSize)
  else .neither

/-- The constructor (addrspace.cc:130); `none` when the assertion fails, when the pages of the image
    are not inside the table, or when the size is not an `int`. -/
def new (executable : File) : Option AddrSpace :=
  match executable.noffHeader with
  | none => none
  | some noffH =>
    if 0 ≤ noffH.imagePages ∧ noffH.imagePages ≤ noffH.programPages + numStackPages ∧
        noffH.size < 2 ^ 31 then
      some ⟨(List.range (noffH.programPages + numStackPages).toNat).map
        (firstEntry executable noffH)⟩
    else none

/-- `AllocateStack` (addrspace.cc:376). -/
def allocateStack (a : AddrSpace) : AddrSpace :=
  ⟨a.pageTable ++ List.replicate numStackPages .neither⟩

/-- `pageTable[vpn]`; `none` outside the table. -/
def lookup (a : AddrSpace) (vpn : ℤ) : Option PageTableEntry :=
  if 0 ≤ vpn then a.pageTable[vpn.toNat]? else none

/-- `pageTable[vpn]` gets other fields. -/
def set (a : AddrSpace) (vpn : ℤ) (e : PageTableEntry) : AddrSpace :=
  ⟨a.pageTable.set vpn.toNat e⟩

variable {a : AddrSpace} {vpn w : ℤ} {e e' : PageTableEntry}

theorem lookup_isSome_iff : (∃ e, a.lookup vpn = some e) ↔ 0 ≤ vpn ∧ vpn < a.numPages := by
  unfold lookup numPages
  split_ifs with h
  · constructor
    · intro ⟨e, he⟩
      have := (List.getElem?_eq_some_iff.mp he).1
      omega
    · intro hlt
      exact ⟨_, List.getElem?_eq_getElem (by omega)⟩
  · simp [h]

theorem lookup_eq_none_iff : a.lookup vpn = none ↔ ¬(0 ≤ vpn ∧ vpn < a.numPages) := by
  rw [← lookup_isSome_iff, Option.eq_none_iff_forall_ne_some, not_exists]

@[simp] theorem numPages_set : (a.set vpn e).numPages = a.numPages := List.length_set

theorem lookup_set_self (h : a.lookup vpn = some e') : (a.set vpn e).lookup vpn = some e := by
  have hvpn := lookup_isSome_iff.mp ⟨e', h⟩
  unfold numPages at hvpn
  unfold lookup set
  rw [if_pos hvpn.1, List.getElem?_set_self (by omega)]

theorem lookup_set_of_ne (hvpn : 0 ≤ vpn) (h : w ≠ vpn) : (a.set vpn e).lookup w = a.lookup w := by
  unfold lookup set
  split_ifs with hw
  · rw [List.getElem?_set_ne (by omega)]
  · rfl

/-- The entries that the constructor makes. -/
theorem lookup_new {f : File} (h : new f = some a) (he : a.lookup vpn = some e) :
    ∃ noffH, f.noffHeader = some noffH ∧ e = firstEntry f noffH vpn.toNat := by
  unfold new at h
  split at h
  · cases h
  · rename_i noffH hheader
    split_ifs at h
    cases h
    refine ⟨noffH, hheader, ?_⟩
    unfold lookup at he
    split_ifs at he
    rw [List.getElem?_map] at he
    obtain ⟨k, hk, rfl⟩ := Option.map_eq_some_iff.mp he
    obtain ⟨-, rfl⟩ := List.getElem?_eq_some_iff.mp hk
    rw [List.getElem_range]

/-- The pages of the image are pages of the process. -/
theorem imagePages_le_of_new {f : File} (h : new f = some a) :
    ∃ noffH : NoffHeader, f.noffHeader = some noffH ∧ noffH.imagePages ≤ a.numPages := by
  unfold new at h
  split at h
  · cases h
  · rename_i noffH hheader
    split_ifs at h with hpages
    cases h
    refine ⟨noffH, hheader, ?_⟩
    unfold numPages
    rw [List.length_map, List.length_range]
    omega

theorem numPages_le_allocateStack : a.numPages ≤ a.allocateStack.numPages := by
  unfold numPages allocateStack
  rw [List.length_append]
  omega

/-- A new stack keeps the entries that are there. -/
theorem lookup_allocateStack (h : a.allocateStack.lookup vpn = some e) :
    a.lookup vpn = some e ∨ ¬vpn < a.numPages ∧ e = .neither := by
  unfold lookup allocateStack at h
  unfold lookup
  split_ifs at h with hvpn
  rw [if_pos hvpn]
  by_cases hlt : vpn.toNat < a.pageTable.length
  · rw [List.getElem?_append_left hlt] at h
    exact .inl h
  · rw [List.getElem?_append_right (by omega)] at h
    obtain ⟨-, rfl⟩ := List.getElem?_eq_some_iff.mp h
    exact .inr ⟨by unfold numPages; omega, List.getElem_replicate _⟩

end AddrSpace

end Nachos.Userprog
