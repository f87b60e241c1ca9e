import Nachos.Bin.Coff2noff
import Nachos.Lib.Intervals
import Nachos.Userprog.FirstTouch

/-!
# What the translated file shows

The COFF file and the NOFF file both give bytes to addresses. The kernel reads the header of the
NOFF file and loads pages from behind it.

* `noffHeader_header`: the header is read back.
* `coff2noff_image_iff`: when the NOFF file has the same bytes at the same addresses.
* `coff2noff_loads`: what the first load of a page puts into a frame.
-/

namespace Nachos.Bin

open Nachos.Lib Nachos.Userprog

variable {fdIn fdOut : File} {l : List Scnhdr} {s : Scnhdr} {c c' : Copy} {k k' : SectionKind}
  {g : Segment} {p : ℕ}

/-! ## The header is read back -/

/-- An `int` of a file is one that has been written. -/
theorem int_of_bytes {f : File} {x : ℤ} (h : ∀ j < 4, f.byte (p + j) = intByte x j) :
    f.int p = int32 x := by
  have hbyte (j : ℕ) (hj : j < 4) :
      (f.byte (p + j)).toNat = (BitVec.ofInt 32 x).toNat / 256 ^ j % 256 := by
    rw [h j hj, intByte, UInt8.toNat_ofNat']
  have hlt := (BitVec.ofInt 32 x).isLt
  have hzero := hbyte 0 (by omega)
  rw [Nat.add_zero] at hzero
  unfold File.int int32
  rw [hbyte 3 (by omega), hbyte 2 (by omega), hbyte 1 (by omega), hzero]
  have hsum : ((BitVec.ofInt 32 x).toNat / 256 ^ 3 % 256 * 256 +
      (BitVec.ofInt 32 x).toNat / 256 ^ 2 % 256) * 65536 +
      ((BitVec.ofInt 32 x).toNat / 256 ^ 1 % 256 * 256 +
        (BitVec.ofInt 32 x).toNat / 256 ^ 0 % 256) = (BitVec.ofInt 32 x).toNat := by
    norm_num
    omega
  rw [hsum, BitVec.ofNat_toNat, BitVec.setWidth_eq]

theorem byte_header (f : File) (noffH : NoffHeader) {i : ℕ} (hi : i < 40) :
    (f.writeAt (headerBytes noffH) 0).byte i = intByte ((headerInts noffH)[i / 4]?.getD 0)
      (i % 4) := by
  unfold File.writeAt
  simp only
  rw [dif_pos ⟨by omega, by omega⟩]
  rfl

/-- The number in a place of the header. -/
theorem int_header (f : File) (noffH : NoffHeader) {i : ℕ} (hi : i < 10) :
    (f.writeAt (headerBytes noffH) 0).int (4 * i) = int32 ((headerInts noffH)[i]?.getD 0) := by
  apply int_of_bytes
  intro j hj
  rw [byte_header f noffH (by omega), show (4 * i + j) / 4 = i by omega,
    show (4 * i + j) % 4 = j by omega]

/-- A segment as `int`s. -/
def segment32 (g : Segment) : Segment := ⟨int32 g.virtualAddr, int32 g.inFileAddr, int32 g.size⟩

/-- A header as `int`s. -/
def header32 (noffH : NoffHeader) : NoffHeader :=
  ⟨int32 noffH.noffMagic, segment32 noffH.code, segment32 noffH.initData, segment32 noffH.uninitData⟩

/-- **The kernel reads the header that was written.** -/
theorem noffHeader_header (f : File) {noffH : NoffHeader} (hmagic : noffH.noffMagic = NOFFMAGIC) :
    (f.writeAt (headerBytes noffH) 0).noffHeader = some (header32 noffH) := by
  have hint (i : ℕ) (hi : i < 10) := int_header f noffH hi
  have hmagic32 : int32 noffH.noffMagic = NOFFMAGIC := by
    rw [hmagic, int32_eq (by norm_num) (by norm_num)]
  have hfirst : (f.writeAt (headerBytes noffH) 0).int 0 = NOFFMAGIC := by
    have hzero := hint 0 (by omega)
    rw [Nat.mul_zero] at hzero
    rw [hzero]
    exact hmagic32
  unfold File.noffHeader
  have hle : 0 + 40 ≤ (f.writeAt (headerBytes noffH) 0).size :=
    File.add_le_size_writeAt
  rw [if_pos ⟨by simpa using hle, hfirst⟩, hfirst]
  unfold File.segment
  rw [hint 1 (by omega), hint 2 (by omega), hint 3 (by omega), hint 4 (by omega), hint 5 (by omega),
    hint 6 (by omega), hint 7 (by omega), hint 8 (by omega), hint 9 (by omega), header32, hmagic32]
  rfl

/-! ## The image -/

/-- The address lies in the section. -/
def Scnhdr.Contains (s : Scnhdr) (a : ℤ) : Prop := s.s_paddr ≤ a ∧ a < s.s_paddr + s.s_size

/-- The byte of the section at the address, in the file. -/
def Scnhdr.imageByte (s : Scnhdr) (f : File) (a : ℤ) : UInt8 :=
  f.byte (s.s_scnptr + (a - s.s_paddr)).toNat

/-- The COFF file has the byte at the address. -/
def CoffByte (fdIn : File) (l : List Scnhdr) (a : ℤ) (b : UInt8) : Prop :=
  ∃ s ∈ l, s.Contains a ∧
    ((s.kind = some .text ∨ s.kind = some .data) ∧ b = s.imageByte fdIn a ∨
      s.kind = some .bss ∧ b = 0)

/-- The NOFF file has the byte at the address. -/
def NoffByte (g : File) (noffH : NoffHeader) (a : ℤ) (b : UInt8) : Prop :=
  noffH.code.Contains a ∧ b = noffH.code.imageByte g a ∨
    noffH.initData.Contains a ∧ b = noffH.initData.imageByte g a ∨
    noffH.uninitData.Contains a ∧ b = 0

/-- The sections of uninitialised data lie together, behind where the first one begins. -/
def BssTogether (bss : List Scnhdr) : Prop :=
  ∀ first, bss.head? = some first → ∀ s ∈ bss,
    first.s_paddr ≤ s.s_paddr ∧ s.s_paddr + s.s_size ≤ first.s_paddr + total bss

/-- **What is in the NOFF file**, with the header that the kernel reads from it. -/
structure Translated (fdIn : File) (l : List Scnhdr) (g : File) (noffH : NoffHeader) : Prop where
  noCode : ofKind .text l = [] → noffH.code.size = 0
  code : ∀ s, (ofKind .text l).getLast? = some s → Copied fdIn g g.size s noffH.code
  noData : ofKind .data l = [] → noffH.initData.size = 0
  data : ∀ s, (ofKind .data l).getLast? = some s → Copied fdIn g g.size s noffH.initData
  noBss : ofKind .bss l = [] → noffH.uninitData.size = 0
  bss : ∀ s, (ofKind .bss l).head? = some s →
    noffH.uninitData.virtualAddr = s.s_paddr ∧ noffH.uninitData.size = total (ofKind .bss l)

section

variable {junk noffH : NoffHeader} {a : ℤ} {b : UInt8}

theorem Copied.header (h : Copied fdIn fdOut p s g) (noffH : NoffHeader) :
    Copied fdIn (fdOut.writeAt (headerBytes noffH) 0) (fdOut.writeAt (headerBytes noffH) 0).size
      s g := by
  obtain ⟨hvirtual, hsize, hbehind, hinside, hwritten, hbytes⟩ := h
  have hle : fdOut.size ≤ (fdOut.writeAt (headerBytes noffH) 0).size := File.le_size_writeAt
  refine ⟨hvirtual, hsize, hbehind, by omega, le_refl _, fun k hk => ?_⟩
  rw [← hbytes k hk]
  unfold File.writeAt
  simp only
  rw [dif_neg (by omega), if_pos (by omega)]

theorem Copied.segment32 (h : Copied fdIn fdOut p s g) (hs : 0 ≤ s.s_paddr ∧ 0 ≤ s.s_size)
    (hspace : s.s_paddr + s.s_size < 2 ^ 31) (hp : (p : ℤ) < 2 ^ 31) : segment32 g = g := by
  have hvirtual := h.virtualAddr
  have hsize := h.size
  have hbehind := h.behind
  have hinside := h.inside
  unfold Bin.segment32
  rw [int32_eq (x := g.virtualAddr) (by omega) (by omega),
    int32_eq (x := g.inFileAddr) (by omega) (by omega),
    int32_eq (x := g.size) (by omega) (by omega)]

/-- The translation, as the kernel sees it: the header of the file is the one that was written. -/
theorem translated (hl : Linked (sections fdIn)) {g : File} (h : coff2noff fdIn junk = .ok g) :
    ∃ c, (sections fdIn).foldlM (copySegment fdIn) (startCopy fdIn junk) = .ok c ∧
      g = c.fdOut.writeAt (headerBytes c.noffH) 0 ∧ g.noffHeader = some (header32 c.noffH) ∧
      Translated fdIn (sections fdIn) g (header32 c.noffH) := by
  obtain ⟨-, c, hc, rfl⟩ := coff2noff_eq_ok.mp h
  have hloop := (loop_run junk hl).2 c hc
  have hfits := hl.fits
  have hupper := hloop.upper
  have hzero : int32 0 = 0 := int32_eq (by norm_num) (by norm_num)
  refine ⟨c, hc, rfl, noffHeader_header c.fdOut hloop.noffMagic, ?_, ?_, ?_, ?_, ?_, ?_⟩
  · intro hnone
    show int32 c.noffH.code.size = 0
    rw [hloop.noCode hnone, hzero]
  · intro s hs
    have hcopied := hloop.code s hs
    obtain ⟨hmem, -⟩ := mem_ofKind.mp (List.mem_of_getLast? hs)
    obtain ⟨hpaddr, hsize, -⟩ := hl.nonneg s hmem
    show Copied fdIn _ _ s (Bin.segment32 c.noffH.code)
    rw [hcopied.segment32 ⟨hpaddr, hsize⟩ (hl.inSpace s hmem) (by omega)]
    exact hcopied.header c.noffH
  · intro hnone
    show int32 c.noffH.initData.size = 0
    rw [hloop.noData hnone, hzero]
  · intro s hs
    have hcopied := hloop.data s hs
    obtain ⟨hmem, -⟩ := mem_ofKind.mp (List.mem_of_getLast? hs)
    obtain ⟨hpaddr, hsize, -⟩ := hl.nonneg s hmem
    show Copied fdIn _ _ s (Bin.segment32 c.noffH.initData)
    rw [hcopied.segment32 ⟨hpaddr, hsize⟩ (hl.inSpace s hmem) (by omega)]
    exact hcopied.header c.noffH
  · intro hnone
    show int32 c.noffH.uninitData.size = 0
    rw [hloop.noBss hnone, hzero]
  · intro s hs
    obtain ⟨hvirtual, hsize⟩ := hloop.bss s hs
    obtain ⟨hmem, -⟩ := mem_ofKind.mp (List.mem_of_mem_head? hs)
    have hs := hl.nonneg s hmem
    have hspace := hl.inSpace s hmem
    have hle : total (ofKind .bss (sections fdIn)) ≤ total (sections fdIn) :=
      total_ofKind_le fun t ht => (hl.nonneg t ht).2.1
    have hnonneg : 0 ≤ total (ofKind .bss (sections fdIn)) :=
      total_nonneg fun t ht => (hl.nonneg t (mem_ofKind.mp ht).1).2.1
    show int32 c.noffH.uninitData.virtualAddr = s.s_paddr ∧ int32 c.noffH.uninitData.size = _
    rw [hvirtual, hsize, int32_eq (by omega) (by omega), int32_eq (by omega) (by omega)]
    exact ⟨rfl, rfl⟩

/-- A segment has the bytes of its section. -/
theorem Copied.image_iff {f : File} (h : Copied fdIn f p s g) (hs : 0 ≤ s.s_scnptr) :
    (g.Contains a ∧ b = g.imageByte f a) ↔ s.Contains a ∧ b = s.imageByte fdIn a := by
  obtain ⟨hvirtual, hsize, hbehind, -, -, hbytes⟩ := h
  have hcontains : g.Contains a ↔ s.Contains a := by
    unfold Segment.Contains Scnhdr.Contains
    rw [hvirtual, hsize]
  rw [hcontains]
  refine and_congr_right fun ha => ?_
  obtain ⟨hlo, hhi⟩ := ha
  have hbyte := hbytes (a - s.s_paddr).toNat (by omega)
  have hnoff : (g.inFileAddr + (a - g.virtualAddr)).toNat =
      g.inFileAddr.toNat + (a - s.s_paddr).toNat := by
    rw [hvirtual]
    omega
  have hcoff : (s.s_scnptr + (a - s.s_paddr)).toNat = s.s_scnptr.toNat + (a - s.s_paddr).toNat := by
    omega
  unfold Segment.imageByte Scnhdr.imageByte
  rw [hnoff, hcoff, hbyte]

theorem not_contains_of_size (h : g.size = 0) : ¬ g.Contains a := by
  rintro ⟨hlo, hhi⟩
  omega

theorem Scnhdr.Contains.size_ne (h : s.Contains a) : s.s_size ≠ 0 := by
  obtain ⟨hlo, hhi⟩ := h
  omega

/-- What a segment for the last section of a kind shows. -/
theorem copied_iff (hl : Linked l) (hempty : ofKind k l = [] → g.size = 0)
    (hcopied : ∀ s, (ofKind k l).getLast? = some s → Copied fdIn fdOut p s g) :
    (g.Contains a ∧ b = g.imageByte fdOut a) ↔
      ∃ s, (ofKind k l).getLast? = some s ∧ s.Contains a ∧ b = s.imageByte fdIn a := by
  cases hlast : (ofKind k l).getLast? with
  | none => simp [not_contains_of_size (hempty (List.getLast?_eq_none_iff.mp hlast))]
  | some s =>
    have hmem := mem_ofKind.mp (List.mem_of_getLast? hlast)
    simp [(hcopied s hlast).image_iff (hl.nonneg s hmem.1).2.2]

theorem Translated.noffByte_iff (h : Translated fdIn l fdOut noffH) (hl : Linked l) :
    NoffByte fdOut noffH a b ↔
      (∃ s, (ofKind .text l).getLast? = some s ∧ s.Contains a ∧ b = s.imageByte fdIn a) ∨
      (∃ s, (ofKind .data l).getLast? = some s ∧ s.Contains a ∧ b = s.imageByte fdIn a) ∨
      ∃ s, (ofKind .bss l).head? = some s ∧
        (s.s_paddr ≤ a ∧ a < s.s_paddr + total (ofKind .bss l)) ∧ b = 0 := by
  unfold NoffByte
  rw [copied_iff hl h.noCode h.code, copied_iff hl h.noData h.data]
  refine or_congr_right (or_congr_right ?_)
  cases hhead : (ofKind .bss l).head? with
  | none => simp [not_contains_of_size (h.noBss (List.head?_eq_none_iff.mp hhead))]
  | some s =>
    obtain ⟨hvirtual, hsize⟩ := h.bss s hhead
    simp [Segment.Contains, hvirtual, hsize]

theorem coffByte_iff : CoffByte fdIn l a b ↔
    (∃ s ∈ ofKind .text l, s.Contains a ∧ b = s.imageByte fdIn a) ∨
      (∃ s ∈ ofKind .data l, s.Contains a ∧ b = s.imageByte fdIn a) ∨
      ∃ s ∈ ofKind .bss l, s.Contains a ∧ b = 0 := by
  simp only [mem_ofKind]
  constructor
  · rintro ⟨s, hs, ha, ⟨hk | hk, hb⟩ | ⟨hk, hb⟩⟩
    · exact Or.inl ⟨s, ⟨hs, ha.size_ne, hk⟩, ha, hb⟩
    · exact Or.inr (Or.inl ⟨s, ⟨hs, ha.size_ne, hk⟩, ha, hb⟩)
    · exact Or.inr (Or.inr ⟨s, ⟨hs, ha.size_ne, hk⟩, ha, hb⟩)
  · rintro (⟨s, ⟨hs, -, hk⟩, ha, hb⟩ | ⟨s, ⟨hs, -, hk⟩, ha, hb⟩ | ⟨s, ⟨hs, -, hk⟩, ha, hb⟩)
    · exact ⟨s, hs, ha, Or.inl ⟨Or.inl hk, hb⟩⟩
    · exact ⟨s, hs, ha, Or.inl ⟨Or.inr hk, hb⟩⟩
    · exact ⟨s, hs, ha, Or.inr ⟨hk, hb⟩⟩

/-- Sections of different kinds have no address in common. -/
theorem kind_eq_of_contains (hapart : l.Pairwise (Apart Scnhdr.s_paddr Scnhdr.s_size)) {t : Scnhdr}
    (hs : s ∈ ofKind k l) (ht : t ∈ ofKind k' l) (ha : s.Contains a) (ha' : t.Contains a) :
      k = k' := by
  obtain ⟨hs, -, hk⟩ := mem_ofKind.mp hs
  obtain ⟨ht, -, hk'⟩ := mem_ofKind.mp ht
  by_contra hne
  have hst : s ≠ t := by
    rintro rfl
    exact hne (Option.some_injective _ (hk.symm.trans hk'))
  exact hapart.forall hs ht hst a ⟨ha, ha'⟩

/-- The addresses of the segment for the uninitialised data, if the sections lie together. -/
theorem BssTogether.iff (h : BssTogether (ofKind .bss l)) (hl : Linked l)
    (hapart : l.Pairwise (Apart Scnhdr.s_paddr Scnhdr.s_size))
    (hhead : (ofKind .bss l).head? = some s) :
    (s.s_paddr ≤ a ∧ a < s.s_paddr + total (ofKind .bss l)) ↔ ∃ t ∈ ofKind .bss l, t.Contains a :=
  mem_interval_iff (fun t ht => (hl.nonneg t (mem_ofKind.mp ht).1).2.1) (hapart.filter _)
    (h s hhead) a

/-- The uninitialised data has to lie together. -/
theorem bssTogether_of_image (h : Translated fdIn l fdOut noffH) (hl : Linked l)
    (hapart : l.Pairwise (Apart Scnhdr.s_paddr Scnhdr.s_size))
    (himage : ∀ a b, CoffByte fdIn l a b → NoffByte fdOut noffH a b) :
      BssTogether (ofKind .bss l) := by
  intro first hfirst s hs
  have hsize := (mem_ofKind.mp hs).2.1
  have hnonneg := (hl.nonneg s (mem_ofKind.mp hs).1).2.1
  have hin (a : ℤ) (ha : s.Contains a) :
      first.s_paddr ≤ a ∧ a < first.s_paddr + total (ofKind .bss l) := by
    have hnoff := himage a 0 (coffByte_iff.mpr (Or.inr (Or.inr ⟨s, hs, ha, rfl⟩)))
    rcases (h.noffByte_iff hl).mp hnoff with ⟨t, ht, hta, -⟩ | ⟨t, ht, hta, -⟩ | ⟨t, ht, hta, -⟩
    · cases kind_eq_of_contains hapart hs (List.mem_of_getLast? ht) ha hta
    · cases kind_eq_of_contains hapart hs (List.mem_of_getLast? ht) ha hta
    · obtain rfl : first = t := Option.some_injective _ (hfirst.symm.trans ht)
      exact hta
  have hlo := hin s.s_paddr ⟨le_refl _, by omega⟩
  have hhi := hin (s.s_paddr + s.s_size - 1) ⟨by omega, by omega⟩
  omega

/-- Only one section of code can be shown. -/
theorem oneText_of_image (h : Translated fdIn l fdOut noffH) (hl : Linked l)
    (hapart : l.Pairwise (Apart Scnhdr.s_paddr Scnhdr.s_size))
    (himage : ∀ a b, CoffByte fdIn l a b → NoffByte fdOut noffH a b) :
    (ofKind .text l).length ≤ 1 := by
  have htogether := bssTogether_of_image h hl hapart himage
  by_contra htwo
  obtain ⟨s, rest, hrest⟩ := List.exists_cons_of_length_pos (l := ofKind .text l) (by omega)
  have hne : rest ≠ [] := by
    rintro rfl
    rw [hrest] at htwo
    exact htwo le_rfl
  have hs : s ∈ ofKind .text l := by
    rw [hrest]
    exact List.mem_cons_self
  obtain ⟨hmem, hsize, -⟩ := mem_ofKind.mp hs
  have hnonneg := (hl.nonneg s hmem).2.1
  have ha : s.Contains s.s_paddr := ⟨le_refl _, by omega⟩
  have hnoff := himage _ _ (coffByte_iff.mpr (Or.inl ⟨s, hs, ha, rfl⟩))
  rcases (h.noffByte_iff hl).mp hnoff with ⟨t, ht, hta, -⟩ | ⟨t, ht, hta, -⟩ | ⟨t, ht, hta, -⟩
  · have hpairwise : (ofKind .text l).Pairwise (Apart Scnhdr.s_paddr Scnhdr.s_size) :=
      hapart.filter _
    rw [hrest, List.pairwise_cons] at hpairwise
    rw [hrest, List.getLast?_cons_of_ne_nil hne] at ht
    exact hpairwise.1 t (List.mem_of_getLast? ht) _ ⟨ha, hta⟩
  · cases kind_eq_of_contains hapart hs (List.mem_of_getLast? ht) ha hta
  · obtain ⟨u, hu, hua⟩ := (htogether.iff hl hapart ht).mp hta
    cases kind_eq_of_contains hapart hs hu ha hua

/-- At most one section of a kind is the last one. -/
theorem exists_last_iff (hone : (ofKind k l).length ≤ 1) (P : Scnhdr → Prop) :
    (∃ s, (ofKind k l).getLast? = some s ∧ P s) ↔ ∃ s ∈ ofKind k l, P s := by
  cases hlist : ofKind k l with
  | nil => simp
  | cons s rest =>
    obtain rfl : rest = [] := by
      rw [hlist, List.length_cons] at hone
      exact List.eq_nil_of_length_eq_zero (by omega)
    simp

/-- Two sections of uninitialised data do not lie together: behind the first the second is
    refused. -/
theorem not_bssTogether_of_two (hacc : Accepts fdIn l) (hl : Linked l)
    (hapart : l.Pairwise (Apart Scnhdr.s_paddr Scnhdr.s_size))
    (htwo : (ofKind .bss l).length = 2) : ¬ BssTogether (ofKind .bss l) := by
  intro htogether
  obtain ⟨s, t, hst⟩ := List.length_eq_two.mp htwo
  have hmem (u : Scnhdr) (hu : u ∈ [s, t]) : 0 < u.s_size := by
    rw [← hst, mem_ofKind] at hu
    have hnonneg := (hl.nonneg u hu.1).2.1
    omega
  have hs := hmem s (by simp)
  have ht := hmem t (by simp)
  have hpairwise : (ofKind .bss l).Pairwise (Apart Scnhdr.s_paddr Scnhdr.s_size) := hapart.filter _
  have hrefused := hacc.bssApart
  rw [hst] at hpairwise hrefused htogether
  have hbounds := htogether s rfl t (by simp)
  have happart := List.pairwise_pair.mp hpairwise t.s_paddr
  have hbehind := hrefused s [] t (List.prefix_refl _)
  simp only [total_cons, total_nil] at hbounds hbehind
  exact happart ⟨by omega, by omega⟩

/-- **The NOFF file shows the COFF file if and only if** there is at most one section of code,
    and the sections of uninitialised data fill the addresses from the first one on. Two sections of
    uninitialised data never do. The header is the one that was written. -/
theorem coff2noff_image_iff (hl : Linked (sections fdIn))
    (hapart : (sections fdIn).Pairwise (Apart Scnhdr.s_paddr Scnhdr.s_size)) {g : File}
    (h : coff2noff fdIn junk = .ok g) :
    ∃ c, (sections fdIn).foldlM (copySegment fdIn) (startCopy fdIn junk) = .ok c ∧
      g = c.fdOut.writeAt (headerBytes c.noffH) 0 ∧ g.noffHeader = some (header32 c.noffH) ∧
      ((∀ a b, CoffByte fdIn (sections fdIn) a b ↔ NoffByte g (header32 c.noffH) a b) ↔
        (ofKind .text (sections fdIn)).length ≤ 1 ∧ BssTogether (ofKind .bss (sections fdIn))) ∧
      ((ofKind .bss (sections fdIn)).length = 2 →
        ¬ ∀ a b, CoffByte fdIn (sections fdIn) a b ↔ NoffByte g (header32 c.noffH) a b) := by
  obtain ⟨c, hc, hg, hnoffH, htranslated⟩ := translated hl h
  have hacc := ((coff2noff_ok_iff junk hl).mp ⟨g, h⟩).2
  have htogether
      (himage : ∀ a b, CoffByte fdIn (sections fdIn) a b ↔ NoffByte g (header32 c.noffH) a b) :
      BssTogether (ofKind .bss (sections fdIn)) :=
    bssTogether_of_image htranslated hl hapart fun a b => (himage a b).mp
  refine ⟨c, hc, hg, hnoffH, ⟨fun himage => ⟨?_, htogether himage⟩, ?_⟩, fun htwo himage => ?_⟩
  · exact oneText_of_image htranslated hl hapart fun a b => (himage a b).mp
  · rintro ⟨htext, hbss⟩ a b
    rw [coffByte_iff, htranslated.noffByte_iff hl, exists_last_iff htext,
      exists_last_iff hacc.oneData]
    refine or_congr_right (or_congr_right ?_)
    cases hhead : (ofKind .bss (sections fdIn)).head? with
    | none => simp [List.head?_eq_none_iff.mp hhead]
    | some s =>
      have hiff := hbss.iff (a := a) hl hapart hhead
      constructor
      · rintro ⟨t, ht, hta, hb⟩
        exact ⟨s, rfl, hiff.mpr ⟨t, ht, hta⟩, hb⟩
      · rintro ⟨t, ht, hta, hb⟩
        obtain rfl : s = t := Option.some_injective _ ht
        obtain ⟨u, hu, hua⟩ := hiff.mp hta
        exact ⟨u, hu, hua, hb⟩
  · exact not_bssTogether_of_two hacc hl hapart htwo (htogether himage)

end

/-! ## Loading -/

/-- The sections that are copied. -/
def copiedOf (l : List Scnhdr) : List Scnhdr :=
  l.filter fun s => s.s_size ≠ 0 ∧ (s.kind = some .text ∨ s.kind = some .data)

/-- Code in one section at the address 0, and the initialised data right behind it, in memory and in
    the order of the sections. -/
structure LinkedAtZero (l : List Scnhdr) (s : Scnhdr) (data : List Scnhdr) : Prop where
  copied : copiedOf l = s :: data
  text : s.kind = some .text
  zero : s.s_paddr = 0
  behind : ∀ t ∈ data, t.kind = some .data ∧ t.s_paddr = s.s_size

/-- Other sections leave the files and the two segments alone. -/
structure SameFiles (c c' : Copy) : Prop where
  code : c'.noffH.code = c.noffH.code
  initData : c'.noffH.initData = c.noffH.initData
  fdOut : c'.fdOut = c.fdOut
  inNoffFile : c'.inNoffFile = c.inNoffFile
  outPosition : c'.outPosition = c.outPosition

theorem sameFiles_copySegment (hs : copiedOf [s] = []) (hc : copySegment fdIn c s = .ok c') :
    SameFiles c c' := by
  have hnot : s.s_size = 0 ∨ s.kind ≠ some .text ∧ s.kind ≠ some .data := by
    by_contra hcopied
    simp only [copiedOf, List.filter_eq_nil_iff] at hs
    simpa using hs s (by simp) (by simp; tauto)
  by_cases hsize : s.s_size = 0
  · rw [copySegment, if_pos hsize] at hc
    cases hc
    exact ⟨rfl, rfl, rfl, rfl, rfl⟩
  · obtain ⟨htext, hdata⟩ := hnot.resolve_left hsize
    simp only [copySegment, if_neg hsize] at hc
    cases hkind : s.kind with
    | none => simp [hkind] at hc
    | some k =>
      cases k with
      | text => exact absurd hkind htext
      | data => exact absurd hkind hdata
      | bss =>
        simp only [hkind] at hc
        split_ifs at hc
        · cases hc
          exact ⟨rfl, rfl, rfl, rfl, rfl⟩
        · cases hc
          exact ⟨rfl, rfl, rfl, rfl, rfl⟩

theorem sameFiles_fold (hl : copiedOf l = []) (hc : l.foldlM (copySegment fdIn) c = .ok c') :
    SameFiles c c' := by
  induction l generalizing c with
  | nil =>
    cases hc
    exact ⟨rfl, rfl, rfl, rfl, rfl⟩
  | cons s l ih =>
    rw [List.foldlM_cons] at hc
    obtain ⟨c₁, hc₁, hrest⟩ := bind_eq_ok.mp hc
    rw [← List.singleton_append, copiedOf, List.filter_append, List.append_eq_nil_iff] at hl
    obtain ⟨h₁, h₂, h₃, h₄, h₅⟩ := sameFiles_copySegment hl.1 hc₁
    obtain ⟨h₁', h₂', h₃', h₄', h₅'⟩ := ih hl.2 hrest
    exact ⟨h₁'.trans h₁, h₂'.trans h₂, h₃'.trans h₃, h₄'.trans h₄, h₅'.trans h₅⟩

/-- The first section that is copied. -/
theorem exists_copied {rest : List Scnhdr} (hl : copiedOf l = s :: rest)
    (hc : l.foldlM (copySegment fdIn) c = .ok c') :
    ∃ before after c₁ c₂, l = before ++ s :: after ∧ copiedOf after = rest ∧ SameFiles c c₁ ∧
      copySegment fdIn c₁ s = .ok c₂ ∧ after.foldlM (copySegment fdIn) c₂ = .ok c' := by
  induction l generalizing c with
  | nil => simp [copiedOf] at hl
  | cons t l ih =>
    rw [List.foldlM_cons] at hc
    obtain ⟨c₁, hc₁, hfold⟩ := bind_eq_ok.mp hc
    by_cases ht : t.s_size ≠ 0 ∧ (t.kind = some .text ∨ t.kind = some .data)
    · rw [copiedOf, List.filter_cons_of_pos (by simpa using ht), List.cons.injEq] at hl
      obtain ⟨rfl, hrest⟩ := hl
      exact ⟨[], l, c, c₁, rfl, hrest, ⟨rfl, rfl, rfl, rfl, rfl⟩, hc₁, hfold⟩
    · rw [copiedOf, List.filter_cons_of_neg (by simpa using ht)] at hl
      obtain ⟨before, after, c₂, c₃, rfl, hafter, hsame, hc₂, hfold'⟩ := ih hl hfold
      have ht' : copiedOf [t] = [] := by
        rw [copiedOf, List.filter_cons_of_neg (by simpa using ht), List.filter_nil]
      obtain ⟨h₁, h₂, h₃, h₄, h₅⟩ := sameFiles_copySegment ht' hc₁
      obtain ⟨h₁', h₂', h₃', h₄', h₅'⟩ := hsame
      exact ⟨t :: before, after, c₂, c₃, rfl, hafter,
        ⟨h₁'.trans h₁, h₂'.trans h₂, h₃'.trans h₃, h₄'.trans h₄, h₅'.trans h₅⟩, hc₂, hfold'⟩

theorem ofKind_eq_filter (hk : k = .text ∨ k = .data) :
    ofKind k l = (copiedOf l).filter fun s => s.kind = some k := by
  unfold ofKind copiedOf
  rw [List.filter_filter]
  refine List.filter_congr fun s _ => ?_
  rcases hk with rfl | rfl
  · rw [Bool.eq_iff_iff]
    simp only [decide_eq_true_eq, Bool.and_eq_true]
    tauto
  · rw [Bool.eq_iff_iff]
    simp only [decide_eq_true_eq, Bool.and_eq_true]
    tauto

/-- A section that is copied, and where the files are then. -/
theorem size_of_copy {noffH : NoffHeader} (hscnptr : 0 ≤ s.s_scnptr) (hsize : 0 ≤ s.s_size)
    (hfile : c.fdOut.size ≤ c.outPosition) (hc : c.copy fdIn s noffH = .ok c') :
    c'.noffH = noffH ∧ (c'.fdOut.size : ℤ) = c.outPosition + s.s_size ∧
      c'.inNoffFile = int32 (c.inNoffFile + s.s_size) ∧ c'.fdOut.size = c'.outPosition := by
  obtain ⟨-, rfl⟩ := (copy_eq_ok hscnptr hsize).mp hc
  refine ⟨rfl, ?_, rfl, ?_⟩
  · show ((max c.fdOut.size (c.outPosition + s.s_size.toNat) : ℕ) : ℤ) = _
    omega
  · show max c.fdOut.size (c.outPosition + s.s_size.toNat) = c.outPosition + s.s_size.toNat
    omega

/-- **The layout of the file**: the header, the code, the initialised data, and nothing else. -/
theorem layout {junk : NoffHeader} {data : List Scnhdr} (hl : Linked l)
    (hzero : LinkedAtZero l s data)
    (hdata : data.length ≤ 1) (hc : l.foldlM (copySegment fdIn) (startCopy fdIn junk) = .ok c) :
    c.noffH.code = ⟨s.s_paddr, 40, s.s_size⟩ ∧ (c.fdOut.size : ℤ) = 40 + s.s_size + total data ∧
      ∀ t ∈ data, c.noffH.initData.inFileAddr = 40 + s.s_size := by
  obtain ⟨before, after, c₁, c₂, rfl, hafter, hsame, hc₂, hfold⟩ := exists_copied hzero.copied hc
  obtain ⟨-, hnonneg, hscnptr⟩ := hl.nonneg s (by simp)
  have hs : s.s_size ≠ 0 := by
    have hmem : s ∈ copiedOf (before ++ s :: after) := by simp [hzero.copied]
    simp only [copiedOf, List.mem_filter, decide_eq_true_eq] at hmem
    exact hmem.2.1
  simp only [copySegment, if_neg hs, hzero.text] at hc₂
  have hsize : c₁.fdOut.size ≤ c₁.outPosition := by
    rw [hsame.fdOut]
    exact Nat.zero_le _
  obtain ⟨hnoffH, hfile, hposition, hout⟩ := size_of_copy hscnptr hnonneg hsize hc₂
  have hfits := hl.fits
  have htotals := hl.nonneg
  rw [hsame.outPosition] at hfile
  rw [hsame.inNoffFile] at hposition hnoffH
  change (c₂.fdOut.size : ℤ) = 40 + s.s_size at hfile
  change c₂.inNoffFile = int32 (40 + s.s_size) at hposition
  cases data with
  | nil =>
    obtain ⟨hcode, -, hfdOut, -, -⟩ := sameFiles_fold hafter hfold
    refine ⟨by rw [hcode, hnoffH]; rfl, ?_, by simp⟩
    rw [hfdOut, hfile, total_nil, add_zero]
  | cons t rest =>
    obtain rfl : rest = [] := List.eq_nil_of_length_eq_zero
      (by rw [List.length_cons] at hdata; omega)
    obtain ⟨before', after', c₃, c₄, rfl, hafter', hsame', hc₄, hfold'⟩ :=
      exists_copied hafter hfold
    obtain ⟨-, hnonneg', hscnptr'⟩ := hl.nonneg t (by simp)
    have hkind := (hzero.behind t (by simp)).1
    have ht : t.s_size ≠ 0 := by
      have hmem : t ∈ copiedOf (before' ++ t :: after') := by simp [hafter]
      simp only [copiedOf, List.mem_filter, decide_eq_true_eq] at hmem
      exact hmem.2.1
    have hsmall : 40 + s.s_size < 2 ^ 31 := by
      have hothers : 0 ≤ total before ∧ 0 ≤ total (before' ++ t :: after') :=
        ⟨total_nonneg fun u hu => (htotals u (by simp [hu])).2.1,
          total_nonneg fun u hu => (htotals u (by
            simp only [List.mem_append, List.mem_cons] at hu ⊢
            tauto)).2.1⟩
      rw [total_append, total_cons] at hfits
      omega
    rw [int32_eq (by omega) hsmall] at hposition
    simp only [copySegment, if_neg ht, hkind] at hc₄
    split_ifs at hc₄
    have hsize' : c₃.fdOut.size ≤ c₃.outPosition := by
      rw [hsame'.fdOut, hsame'.outPosition, hout]
    obtain ⟨hnoffH', hfile', -, -⟩ := size_of_copy hscnptr' hnonneg' hsize' hc₄
    obtain ⟨hcode, hinit, hfdOut, -, -⟩ := sameFiles_fold hafter' hfold'
    refine ⟨?_, ?_, ?_⟩
    · rw [hcode, hnoffH']
      show c₃.noffH.code = _
      rw [hsame'.code, hnoffH]
      rfl
    · rw [hfdOut, hfile', hsame'.outPosition, ← hout, hfile, total_cons, total_nil, add_zero]
    · intro _ _
      rw [hinit, hnoffH']
      show c₃.inNoffFile = _
      rw [hsame'.inNoffFile, hposition]

/-- The NOFF file is one that the kernel loads page by page. -/
theorem contiguous {junk : NoffHeader} {data : List Scnhdr} {g : File} (hl : Linked (sections fdIn))
    (hzero : LinkedAtZero (sections fdIn) s data) (h : coff2noff fdIn junk = .ok g) :
    ∃ noffH, g.noffHeader = some noffH ∧ Translated fdIn (sections fdIn) g noffH ∧
      noffH.Contiguous g ∧
      noffH.code.inFileAddr = 40 ∧ (g.size : ℤ) = 40 + noffH.code.size + noffH.initData.size := by
  have htexts : ofKind .text (sections fdIn) = [s] := by
    rw [ofKind_eq_filter (Or.inl rfl), hzero.copied, List.filter_cons_of_pos
      (by simpa using hzero.text),
      List.filter_eq_nil_iff.mpr fun t ht => by simp [(hzero.behind t ht).1]]
  have hdatas : ofKind .data (sections fdIn) = data := by
    rw [ofKind_eq_filter (Or.inr rfl), hzero.copied, List.filter_cons_of_neg (by simp [hzero.text]),
      List.filter_eq_self.mpr fun t ht => by simp [(hzero.behind t ht).1]]
  have hone : data.length ≤ 1 := by
    rw [← hdatas]
    exact ((coff2noff_ok_iff junk hl).mp ⟨g, h⟩).2.oneData
  obtain ⟨c, hc, rfl, hnoffH, htranslated⟩ := translated hl h
  obtain ⟨hcode, hfile, hinit⟩ := layout hl hzero hone hc
  have hs := (mem_ofKind.mp (htexts ▸ List.mem_singleton.mpr rfl : s ∈ ofKind .text _)).1
  obtain ⟨hpaddr, hnonneg, -⟩ := hl.nonneg s hs
  have hspace := hl.inSpace s hs
  have hcopied := htranslated.code s (by rw [htexts]; rfl)
  have hcodeFile : int32 c.noffH.code.inFileAddr = 40 := by
    rw [hcode, int32_eq (by norm_num) (by norm_num)]
  have hcodeSize := hcopied.size
  have hcodeVirtual := hcopied.virtualAddr
  have huninit : 0 ≤ int32 c.noffH.uninitData.size := by
    cases hbss : (ofKind .bss (sections fdIn)).head? with
    | none => exact (htranslated.noBss (List.head?_eq_none_iff.mp hbss)).ge
    | some t =>
      have hsize := (htranslated.bss t hbss).2
      change int32 c.noffH.uninitData.size = _ at hsize
      rw [hsize]
      exact total_nonneg fun u hu => (hl.nonneg u (mem_ofKind.mp hu).1).2.1
  have hsize : ((c.fdOut.writeAt (headerBytes c.noffH) 0).size : ℤ) =
      40 + s.s_size + total data := by
    have htotal : 0 ≤ total data := by
      rw [← hdatas]
      exact total_nonneg fun u hu => (hl.nonneg u (mem_ofKind.mp hu).1).2.1
    show ((max c.fdOut.size (0 + 40) : ℕ) : ℤ) = _
    omega
  change int32 c.noffH.code.size = s.s_size at hcodeSize
  change int32 c.noffH.code.virtualAddr = s.s_paddr at hcodeVirtual
  refine ⟨_, hnoffH, htranslated, ?_⟩
  cases data with
  | nil =>
    have hnoData := htranslated.noData hdatas
    change int32 c.noffH.initData.size = 0 at hnoData
    simp only [NoffHeader.Contiguous, header32, segment32, hcodeFile, hcodeSize, hcodeVirtual, hnoData,
      hzero.zero,
      hsize, total_nil]
    refine ⟨⟨hnonneg, le_refl _, huninit, trivial, by norm_num, by simp, by omega⟩, trivial,
      trivial⟩
  | cons t rest =>
    obtain rfl : rest = [] := List.eq_nil_of_length_eq_zero
      (by rw [List.length_cons] at hone; omega)
    have ht := (mem_ofKind.mp (hdatas ▸ List.mem_singleton.mpr rfl : t ∈ ofKind .data _)).1
    obtain ⟨-, hnonneg', -⟩ := hl.nonneg t ht
    have hcopied' := htranslated.data t (by rw [hdatas]; rfl)
    have hdataSize := hcopied'.size
    have hdataVirtual := hcopied'.virtualAddr
    have hinside := hcopied'.inside
    have hdataFile : int32 c.noffH.initData.inFileAddr = 40 + s.s_size := by
      have hsmall : 40 + s.s_size < 2 ^ 31 := by
        have hfits := hl.fits
        have hle : total (ofKind .text (sections fdIn)) ≤ total (sections fdIn) :=
          total_ofKind_le fun u hu => (hl.nonneg u hu).2.1
        rw [htexts, total_cons, total_nil] at hle
        omega
      rw [hinit t (by simp), int32_eq (by omega) hsmall]
    change int32 c.noffH.initData.size = t.s_size at hdataSize
    change int32 c.noffH.initData.virtualAddr = t.s_paddr at hdataVirtual
    simp only [NoffHeader.Contiguous, header32, segment32, hcodeFile, hcodeSize, hcodeVirtual, hdataFile,
      hdataSize,
      hdataVirtual, hzero.zero, hsize, total_cons, total_nil, (hzero.behind t (by simp)).2]
    refine ⟨⟨hnonneg, hnonneg', huninit, trivial, by norm_num, fun _ => ⟨trivial, trivial⟩,
      by omega⟩,
      trivial, by omega⟩

theorem apart_smallCoff : (sections smallCoff).Pairwise (Apart Scnhdr.s_paddr Scnhdr.s_size) := by
  rw [sections_smallCoff]
  simp only [List.pairwise_cons, List.mem_cons, List.not_mem_nil, or_false, forall_eq_or_imp,
    forall_eq,
    false_imp_iff, implies_true, List.Pairwise.nil, and_true, Apart]
  refine ⟨⟨?_, ?_⟩, ?_⟩ <;> intro a ha <;> omega

theorem bssTogether_smallCoff : BssTogether (ofKind .bss (sections smallCoff)) := by
  have hbss : ofKind .bss (sections smallCoff) = [⟨[46, 98, 115, 115], 12, 4, 0⟩] := by
    rw [sections_smallCoff]
    decide
  rw [hbss]
  intro first hfirst s hs
  obtain rfl := List.mem_singleton.mp hs
  obtain rfl := Option.some_injective _ hfirst
  simp

theorem coff2noff_image_small : ∃ g noffH, coff2noff smallCoff smallJunk = .ok g ∧
    g.noffHeader = some noffH ∧
      ∀ a b, CoffByte smallCoff (sections smallCoff) a b ↔ NoffByte g noffH a b := by
  obtain ⟨g, hg⟩ := exists_smallCoff
  obtain ⟨c, -, -, hnoffH, hiff, -⟩ := coff2noff_image_iff linked_smallCoff apart_smallCoff hg
  refine ⟨g, header32 c.noffH, hg, hnoffH, hiff.mpr ⟨?_, bssTogether_smallCoff⟩⟩
  rw [sections_smallCoff]
  decide

/-- **The kernel loads the COFF file.** The file is linked at the address 0, with the initialised
    data right behind the code. Then the first load of a page puts the bytes of the COFF file
    into the frame if and only if the old bytes of the frame are zero where there is
    uninitialised data on the last page of the image. -/
theorem coff2noff_loads {junk : NoffHeader} {data : List Scnhdr} {g : File}
    (hl : Linked (sections fdIn))
    (hapart : (sections fdIn).Pairwise (Apart Scnhdr.s_paddr Scnhdr.s_size))
    (hzero : LinkedAtZero (sections fdIn) s data) (h : coff2noff fdIn junk = .ok g) :
    ∃ noffH, g.noffHeader = some noffH ∧ ∀ vpn : ℤ, 0 ≤ vpn → ∀ old : Page,
      ((∀ (k : Fin PageSize) (b : UInt8), CoffByte fdIn (sections fdIn) (vpn * PageSize + k) b →
          noffH.firstBytes g vpn old k = b) ↔
        ∀ k : Fin PageSize, vpn < noffH.imagePages →
          (∃ t ∈ ofKind .bss (sections fdIn), t.Contains (vpn * PageSize + k)) → old k = 0) := by
  obtain ⟨noffH, hnoffH, htranslated, hcontiguous, hstart, hsize⟩ := contiguous hl hzero h
  have hacc := ((coff2noff_ok_iff junk hl).mp ⟨g, h⟩).2
  have htext : (ofKind .text (sections fdIn)).length ≤ 1 := by
    rw [ofKind_eq_filter (Or.inl rfl), hzero.copied, List.filter_cons_of_pos
      (by simpa using hzero.text),
      List.filter_eq_nil_iff.mpr fun t ht => by simp [(hzero.behind t ht).1]]
    rfl
  -- uninitialised data lies behind the end of the file
  have hbehind (a : ℤ) (ha : 0 ≤ a) (hbss : ∃ t ∈ ofKind .bss (sections fdIn), t.Contains a) :
      ¬ noffH.code.inFileAddr + a < g.size := by
    intro hlt
    obtain ⟨t, ht, hta⟩ := hbss
    obtain ⟨-, -, -, hvirtual, -, hcont, -⟩ := hcontiguous
    by_cases hin : a < noffH.code.size
    · have hca : noffH.code.Contains a := ⟨by omega, by omega⟩
      obtain ⟨u, hu, hua, -⟩ := (copied_iff hl htranslated.noCode htranslated.code).mp ⟨hca, rfl⟩
      cases kind_eq_of_contains hapart ht (List.mem_of_getLast? hu) hta hua
    · obtain ⟨hdata, -⟩ := hcont (by omega)
      have hda : noffH.initData.Contains a := ⟨by omega, by omega⟩
      obtain ⟨u, hu, hua, -⟩ := (copied_iff hl htranslated.noData htranslated.data).mp ⟨hda, rfl⟩
      cases kind_eq_of_contains hapart ht (List.mem_of_getLast? hu) hta hua
  refine ⟨noffH, hnoffH, fun vpn hvpn old => ?_⟩
  -- so that its bytes are the old ones of the frame, or zeros
  have hold (k : Fin PageSize)
      (hbss : ∃ t ∈ ofKind .bss (sections fdIn), t.Contains (vpn * PageSize + k)) :
      noffH.firstBytes g vpn old k = if vpn < noffH.imagePages then old k else 0 := by
    have hpos : (0 : ℤ) ≤ vpn * PageSize + k := by positivity
    split_ifs with hlt
    · rw [NoffHeader.firstBytes_of_lt g old (by omega) hvpn hlt, if_neg (hbehind _ hpos hbss)]
    · rw [NoffHeader.firstBytes, if_neg hlt]
  constructor
  · intro hbytes k hlt hbss
    have hzero := hbytes k 0 (coffByte_iff.mpr (Or.inr (Or.inr
      (hbss.imp fun t ht => ⟨ht.1, ht.2, rfl⟩))))
    rwa [hold k hbss, if_pos hlt] at hzero
  · intro hbss k b hb
    rcases coffByte_iff.mp hb with hcode | hdata | ⟨t, ht, hta, rfl⟩
    · obtain ⟨hk, rfl⟩ := (copied_iff hl htranslated.noCode htranslated.code).mpr
        ((exists_last_iff htext _).mpr hcode)
      exact NoffHeader.firstBytes_code hcontiguous hvpn old hk
    · obtain ⟨hk, rfl⟩ := (copied_iff hl htranslated.noData htranslated.data).mpr
        ((exists_last_iff hacc.oneData _).mpr hdata)
      exact NoffHeader.firstBytes_initData hcontiguous hvpn old hk
    · rw [hold k ⟨t, ht, hta⟩]
      split_ifs with hlt
      · exact hbss k hlt ⟨t, ht, hta⟩
      · rfl

theorem coff2noff_loads_small : ∃ g noffH, coff2noff smallCoff smallJunk = .ok g ∧
    g.noffHeader = some noffH ∧ ∀ (k : Fin PageSize) (b : UInt8),
      CoffByte smallCoff (sections smallCoff) (0 * PageSize + k) b →
        noffH.firstBytes g 0 (fun _ => 0) k = b := by
  obtain ⟨g, hg⟩ := exists_smallCoff
  have hzero : LinkedAtZero (sections smallCoff) ⟨[46, 116, 101, 120, 116], 0, 8, 196⟩
      [⟨[46, 100, 97, 116, 97], 8, 4, 204⟩] := by
    rw [sections_smallCoff]
    exact ⟨by decide, by decide, rfl, by decide⟩
  obtain ⟨noffH, hnoffH, hloads⟩ :=
    coff2noff_loads linked_smallCoff apart_smallCoff hzero hg
  exact ⟨g, noffH, hg, hnoffH, (hloads 0 (le_refl _) fun _ => 0).mpr fun _ _ _ => rfl⟩

end Nachos.Bin
