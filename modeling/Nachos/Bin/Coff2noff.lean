import Nachos.Lib.Run
import Nachos.Userprog.AddrSpace

/-!
# The translation of object files

`main` of `bin/coff2noff.c`: the sections of a COFF file (`bin/coff.h`) become the three segments
of a NOFF file (`bin/noff.h`). There can be several sections for code, and for uninitialised
data, but each kind gets one segment. The files are UNIX files; a host with the other byte order
converts what it reads, which is the same as reading it here.

* `coff2noff_ok_iff`: which files are translated.
-/

namespace Nachos.Bin

open Nachos.Lib Nachos.Userprog

/-! ## The formats -/

/-- `struct scnhdr` (coff.h:37), with the name up to its first zero. -/
structure Scnhdr where
  s_name : List UInt8
  s_paddr : ℤ
  s_size : ℤ
  s_scnptr : ℤ
  deriving DecidableEq

/-- What the name of a section is compared with (coff2noff.c:172-201). -/
inductive SectionKind
  | text
  | data
  | bss
  deriving DecidableEq

/-- `".text"`, `".data"` or `".rdata"`, and `".bss"` or `".sbss"`. -/
def Scnhdr.kind (s : Scnhdr) : Option SectionKind :=
  if s.s_name = [46, 116, 101, 120, 116] then some .text
  else if s.s_name = [46, 100, 97, 116, 97] ∨ s.s_name = [46, 114, 100, 97, 116, 97] then some .data
  else if s.s_name = [46, 98, 115, 115] ∨ s.s_name = [46, 115, 98, 115, 115] then some .bss
  else none

/-- An `unsigned short` at the position. -/
def short (f : File) (position : ℕ) : ℕ := (f.byte position).toNat + 256 *
    (f.byte (position + 1)).toNat

/-- The characters of an array up to the first zero. -/
def name (f : File) (position n : ℕ) : List UInt8 :=
  ((List.range n).map fun i => f.byte (position + i)).takeWhile (· ≠ 0)

/-- A section header at the position. -/
def scnhdr (f : File) (position : ℕ) : Scnhdr :=
  ⟨name f position 8, f.int (position + 8), f.int (position + 16), f.int (position + 20)⟩

/-- coff.h. -/
abbrev MIPSELMAGIC : ℕ := 0x0162

/-- coff.h. -/
abbrev OMAGIC : ℕ := 0o407

/-- The section headers, behind the file header of 20 bytes and the system header of 56. -/
def sections (f : File) : List Scnhdr := (List.range (short f 2)).map fun i =>
    scnhdr f (76 + 40 * i)

/-- An `int` or a `long` of the host. -/
def int32 (x : ℤ) : ℤ := (BitVec.ofInt 32 x).toInt

/-- The byte of an `int` in memory. -/
def intByte (x : ℤ) (j : ℕ) : UInt8 := UInt8.ofNat ((BitVec.ofInt 32 x).toNat / 256 ^ j)

/-- The numbers of a header, in order. -/
def headerInts (noffH : NoffHeader) : List ℤ :=
  [noffH.noffMagic, noffH.code.virtualAddr, noffH.code.inFileAddr, noffH.code.size,
    noffH.initData.virtualAddr, noffH.initData.inFileAddr, noffH.initData.size,
    noffH.uninitData.virtualAddr, noffH.uninitData.inFileAddr, noffH.uninitData.size]

/-- A header in memory. -/
def headerBytes (noffH : NoffHeader) (k : Fin 40) : UInt8 :=
  intByte ((headerInts noffH)[(k : ℕ) / 4]?.getD 0) (k % 4)

/-! ## The translation -/

/-- Why the translation stops. The NOFF file is removed then. -/
inductive CoffFault
  | tooShort
  | notMipsel
  | notOmagic
  | dataAndRdata
  | bssAndSbss
  | unknownSegment
  deriving DecidableEq

/-- The variables of `main`, with the positions in the two files. -/
structure Copy where
  noffH : NoffHeader
  fdOut : File
  inNoffFile : ℤ
  outPosition : ℕ
  inPosition : ℕ

/-- `lseek(fdIn, s_scnptr, 0)`, which fails for a negative position. -/
def Copy.seek (c : Copy) (s : Scnhdr) : ℕ :=
  if 0 ≤ s.s_scnptr then s.s_scnptr.toNat else c.inPosition

/-- The bytes of a section go behind what has been written (coff2noff.c:176-181). -/
def Copy.copy (fdIn : File) (c : Copy) (s : Scnhdr) (noffH : NoffHeader) : Except CoffFault Copy :=
  if 0 ≤ s.s_size ∧ c.seek s + s.s_size.toNat ≤ fdIn.size then
    .ok {
      noffH := noffH
      fdOut := c.fdOut.writeAt (fun k : Fin s.s_size.toNat => fdIn.byte (c.seek s + k))
        c.outPosition
      inNoffFile := int32 (c.inNoffFile + s.s_size)
      outPosition := c.outPosition + s.s_size.toNat
      inPosition := c.seek s + s.s_size.toNat }
  else .error .tooShort

/-- One pass of the loop (coff2noff.c:166). -/
def copySegment (fdIn : File) (c : Copy) (s : Scnhdr) : Except CoffFault Copy :=
  let segment : Segment := ⟨s.s_paddr, c.inNoffFile, s.s_size⟩
  let uninitData := c.noffH.uninitData
  if s.s_size = 0 then .ok c
  else
    match s.kind with
    | some .text => c.copy fdIn s { c.noffH with code := segment }
    | some .data =>
      if c.noffH.initData.size ≠ 0 then .error .dataAndRdata
      else c.copy fdIn s { c.noffH with initData := segment }
    | some .bss =>
      if uninitData.size ≠ 0 then
        if s.s_paddr = int32 (uninitData.virtualAddr + uninitData.size) then .error .bssAndSbss
        else .ok { c with noffH := { c.noffH with
          uninitData := { uninitData with size := int32 (uninitData.size + s.s_size) } } }
      else .ok { c with noffH := { c.noffH with
        uninitData := { uninitData with virtualAddr := s.s_paddr, size := s.s_size } } }
    | none => .error .unknownSegment

/-- The header before the loop; the other fields have not been written to. -/
def startHeader (junk : NoffHeader) : NoffHeader :=
  ⟨NOFFMAGIC, { junk.code with size := 0 }, { junk.initData with size := 0 },
    { junk.uninitData with size := 0 }⟩

/-- `main` (coff2noff.c:94). -/
def coff2noff (fdIn : File) (junk : NoffHeader) : Except CoffFault File := do
  if fdIn.size < 20 then .error .tooShort
  else if short fdIn 0 ≠ MIPSELMAGIC then .error .notMipsel
  else if fdIn.size < 76 then .error .tooShort
  else if short fdIn 20 ≠ OMAGIC then .error .notOmagic
  else if fdIn.size < 76 + 40 * short fdIn 2 then .error .tooShort
  else
    let c ← (sections fdIn).foldlM (copySegment fdIn)
      ⟨startHeader junk, File.empty, 40, 40, 76 + 40 * short fdIn 2⟩
    .ok (c.fdOut.writeAt (headerBytes c.noffH) 0)

/-! ## What the loop does -/

/-- The sections of a kind that are not empty. -/
def ofKind (k : SectionKind) (l : List Scnhdr) : List Scnhdr :=
  l.filter fun s => s.s_size ≠ 0 ∧ s.kind = some k

/-- The bytes of the sections. -/
def total (l : List Scnhdr) : ℤ := (l.map Scnhdr.s_size).sum

/-- The numbers of a linked file: positions and addresses of a program, and all of it fits into the
    NOFF file. -/
structure Linked (l : List Scnhdr) : Prop where
  nonneg : ∀ s ∈ l, 0 ≤ s.s_paddr ∧ 0 ≤ s.s_size ∧ 0 ≤ s.s_scnptr
  inSpace : ∀ s ∈ l, s.s_paddr + s.s_size < 2 ^ 31
  fits : 40 + total l < 2 ^ 31

/-- The uninitialised sections, in order: none begins where those before it end together. -/
def BssApart (bss : List Scnhdr) : Prop :=
  ∀ first before s, first :: before ++ [s] <+: bss →
    s.s_paddr ≠ first.s_paddr + total (first :: before)

/-- **What is accepted** of the sections. -/
structure Accepts (fdIn : File) (l : List Scnhdr) : Prop where
  known : ∀ s ∈ l, s.s_size ≠ 0 → s.kind ≠ none
  inFile : ∀ k, k = .text ∨ k = .data → ∀ s ∈ ofKind k l, s.s_scnptr + s.s_size ≤ fdIn.size
  oneData : (ofKind .data l).length ≤ 1
  bssApart : BssApart (ofKind .bss l)

/-- The bytes of a section lie in a segment of the NOFF file. -/
structure Copied (fdIn fdOut : File) (outPosition : ℕ) (s : Scnhdr) (g : Segment) : Prop where
  virtualAddr : g.virtualAddr = s.s_paddr
  size : g.size = s.s_size
  behind : 40 ≤ g.inFileAddr
  inside : g.inFileAddr + g.size ≤ outPosition
  written : outPosition ≤ fdOut.size
  bytes : ∀ k : ℕ, (k : ℤ) < s.s_size →
    fdOut.byte (g.inFileAddr.toNat + k) = fdIn.byte (s.s_scnptr.toNat + k)

/-- **The invariant of the loop**: what has become of the sections before. -/
structure Loop (fdIn : File) (l : List Scnhdr) (c : Copy) : Prop where
  noffMagic : c.noffH.noffMagic = NOFFMAGIC
  position : c.inNoffFile = c.outPosition
  lower : 40 ≤ c.outPosition
  upper : c.outPosition ≤ 40 + total l
  noCode : ofKind .text l = [] → c.noffH.code.size = 0
  code : ∀ s, (ofKind .text l).getLast? = some s → Copied fdIn c.fdOut c.outPosition s c.noffH.code
  noData : ofKind .data l = [] → c.noffH.initData.size = 0
  data : ∀ s, (ofKind .data l).getLast? = some s → Copied fdIn c.fdOut c.outPosition s
    c.noffH.initData
  noBss : ofKind .bss l = [] → c.noffH.uninitData.size = 0
  bss : ∀ s, (ofKind .bss l).head? = some s →
    c.noffH.uninitData.virtualAddr = s.s_paddr ∧ c.noffH.uninitData.size = total (ofKind .bss l)

variable {fdIn fdOut : File} {l : List Scnhdr} {s : Scnhdr} {c c' : Copy} {k k' : SectionKind}
  {g : Segment} {p : ℕ}

theorem int32_eq {x : ℤ} (h : -2 ^ 31 ≤ x) (h' : x < 2 ^ 31) : int32 x = x := by
  unfold int32
  rw [BitVec.toInt_ofInt, Int.bmod_eq_of_le] <;> omega

@[simp] theorem total_nil : total [] = 0 := rfl

@[simp] theorem total_cons (s : Scnhdr) (l : List Scnhdr) : total (s :: l) = s.s_size + total l :=
  List.sum_cons

@[simp] theorem total_append (l l' : List Scnhdr) : total (l ++ l') = total l + total l' := by
  simp [total]

theorem ofKind_append (l l' : List Scnhdr) : ofKind k (l ++ l') = ofKind k l ++ ofKind k l' :=
  List.filter_append ..

theorem ofKind_of_eq (hsize : s.s_size ≠ 0) (hkind : s.kind = some k) : ofKind k [s] = [s] := by
  simp [ofKind, hsize, hkind]

theorem ofKind_of_ne (h : s.s_size = 0 ∨ s.kind ≠ some k) : ofKind k [s] = [] := by
  rcases h with h | h
  · simp [ofKind, h]
  · simp [ofKind, h]

theorem mem_ofKind : s ∈ ofKind k l ↔ s ∈ l ∧ s.s_size ≠ 0 ∧ s.kind = some k := by
  simp [ofKind]

theorem total_nonneg (h : ∀ s ∈ l, 0 ≤ s.s_size) : 0 ≤ total l := by
  induction l with
  | nil => rfl
  | cons s l ih =>
    have hs := h s List.mem_cons_self
    have hl := ih fun s hs => h s (List.mem_cons_of_mem _ hs)
    rw [total_cons]
    omega

theorem total_ofKind_le (h : ∀ s ∈ l, 0 ≤ s.s_size) : total (ofKind k l) ≤ total l := by
  induction l with
  | nil => rfl
  | cons s l ih =>
    have hs := h s List.mem_cons_self
    have hl := ih fun s hs => h s (List.mem_cons_of_mem _ hs)
    rw [← List.singleton_append, ofKind_append, total_append, total_append]
    by_cases hk : s.s_size ≠ 0 ∧ s.kind = some k
    · rw [ofKind_of_eq hk.1 hk.2]
      omega
    · rw [ofKind_of_ne (by tauto), total_cons, total_nil]
      omega

theorem Linked.of_append {l' : List Scnhdr} (h : Linked (l ++ l')) : Linked l := by
  refine ⟨fun s hs => h.nonneg s (List.mem_append_left _ hs),
    fun s hs => h.inSpace s (List.mem_append_left _ hs), ?_⟩
  have hfits := h.fits
  have hl' : 0 ≤ total l' := total_nonneg fun s hs => (h.nonneg s (List.mem_append_right _ hs)).2.1
  rw [total_append] at hfits
  omega

/-- Uninitialised sections that are not empty have a positive size together. -/
theorem Linked.total_ofKind_pos (h : Linked l) (hne : ofKind k l ≠ []) :
    0 < total (ofKind k l) := by
  obtain ⟨s, rest, hrest⟩ := List.exists_cons_of_ne_nil hne
  have hmem {s' : Scnhdr} (hs' : s' ∈ s :: rest) : 0 ≤ s'.s_size ∧ s'.s_size ≠ 0 := by
    rw [← hrest, mem_ofKind] at hs'
    exact ⟨(h.nonneg s' hs'.1).2.1, hs'.2.1⟩
  have hs := hmem List.mem_cons_self
  have hl := total_nonneg fun s' hs' => (hmem (List.mem_cons_of_mem s hs')).1
  rw [hrest, total_cons]
  omega

theorem bssApart_concat {bss : List Scnhdr} : BssApart (bss ++ [s]) ↔ BssApart bss ∧
    ∀ first before, bss = first :: before → s.s_paddr ≠ first.s_paddr + total bss := by
  constructor
  · intro h
    refine ⟨fun first before t ht => h first before t (ht.trans (List.prefix_append ..)), ?_⟩
    rintro first before rfl
    exact h first before s (List.prefix_refl _)
  · rintro ⟨hbss, hlast⟩ first before t ht
    rcases List.prefix_concat_iff.mp ht with heq | hprefix
    · obtain ⟨rfl, hts⟩ := List.append_inj' heq rfl
      obtain rfl : t = s := by simpa using hts
      exact hlast first before rfl
    · exact hbss first before t hprefix

/-- What one section more has to do with the ones before. -/
theorem accepts_concat : Accepts fdIn (l ++ [s]) ↔ Accepts fdIn l ∧ (s.s_size ≠ 0 →
    s.kind ≠ none ∧
    (s.kind = some .text ∨ s.kind = some .data → s.s_scnptr + s.s_size ≤ fdIn.size) ∧
    (s.kind = some .data → ofKind .data l = []) ∧
    (s.kind = some .bss → ∀ first before, ofKind .bss l = first :: before →
      s.s_paddr ≠ first.s_paddr + total (ofKind .bss l))) := by
  constructor
  · intro h
    refine ⟨⟨fun t ht => h.known t (List.mem_append_left _ ht), ?_, ?_, ?_⟩, fun hsize =>
      ⟨?_, ?_, ?_, ?_⟩⟩
    · intro k hk t ht
      exact h.inFile k hk t (by rw [ofKind_append]; exact List.mem_append_left _ ht)
    · have hdata := h.oneData
      rw [ofKind_append, List.length_append] at hdata
      omega
    · have hbss := h.bssApart
      intro first before t ht
      exact hbss first before t (by rw [ofKind_append]; exact ht.trans (List.prefix_append ..))
    · exact h.known s (by simp) hsize
    · rintro (hk | hk)
      · exact h.inFile .text (Or.inl rfl) s (mem_ofKind.mpr ⟨by simp, hsize, hk⟩)
      · exact h.inFile .data (Or.inr rfl) s (mem_ofKind.mpr ⟨by simp, hsize, hk⟩)
    · intro hk
      have hdata := h.oneData
      rw [ofKind_append, ofKind_of_eq hsize hk, List.length_append, List.length_singleton] at hdata
      exact List.eq_nil_of_length_eq_zero (by omega)
    · intro hk
      have hbss := h.bssApart
      rw [ofKind_append, ofKind_of_eq hsize hk, bssApart_concat] at hbss
      exact hbss.2
  · rintro ⟨h, hs⟩
    refine ⟨?_, ?_, ?_, ?_⟩
    · intro t ht hsize
      rcases List.mem_append.mp ht with ht | ht
      · exact h.known t ht hsize
      · obtain rfl := List.mem_singleton.mp ht
        exact (hs hsize).1
    · intro k hk t ht
      rw [ofKind_append, List.mem_append] at ht
      rcases ht with ht | ht
      · exact h.inFile k hk t ht
      · obtain ⟨ht, hsize, hkind⟩ := mem_ofKind.mp ht
        obtain rfl := List.mem_singleton.mp ht
        rcases hk with rfl | rfl
        · exact (hs hsize).2.1 (Or.inl hkind)
        · exact (hs hsize).2.1 (Or.inr hkind)
    · by_cases hk : s.s_size ≠ 0 ∧ s.kind = some .data
      · rw [ofKind_append, ofKind_of_eq hk.1 hk.2, (hs hk.1).2.2.1 hk.2]
        rfl
      · rw [ofKind_append, ofKind_of_ne (by tauto), List.append_nil]
        exact h.oneData
    · by_cases hk : s.s_size ≠ 0 ∧ s.kind = some .bss
      · rw [ofKind_append, ofKind_of_eq hk.1 hk.2, bssApart_concat]
        exact ⟨h.bssApart, (hs hk.1).2.2.2 hk.2⟩
      · rw [ofKind_append, ofKind_of_ne (by tauto), List.append_nil]
        exact h.bssApart

/-! A section is copied. -/

theorem copy_eq_ok {noffH : NoffHeader} (hscnptr : 0 ≤ s.s_scnptr) (hsize : 0 ≤ s.s_size) :
    c.copy fdIn s noffH = .ok c' ↔ s.s_scnptr + s.s_size ≤ fdIn.size ∧ c' = {
      noffH := noffH
      fdOut := c.fdOut.writeAt (fun k : Fin s.s_size.toNat => fdIn.byte (s.s_scnptr.toNat + k))
        c.outPosition
      inNoffFile := int32 (c.inNoffFile + s.s_size)
      outPosition := c.outPosition + s.s_size.toNat
      inPosition := s.s_scnptr.toNat + s.s_size.toNat } := by
  have hseek : c.seek s = s.s_scnptr.toNat := if_pos hscnptr
  have hiff : (0 ≤ s.s_size ∧ c.seek s + s.s_size.toNat ≤ fdIn.size) ↔
      s.s_scnptr + s.s_size ≤ fdIn.size := by
    rw [hseek]
    omega
  unfold Copy.copy
  by_cases hin : s.s_scnptr + s.s_size ≤ fdIn.size
  · rw [if_pos (hiff.mpr hin), hseek]
    exact ⟨fun h => ⟨hin, (Except.ok.inj h).symm⟩, fun h => congrArg _ h.2.symm⟩
  · rw [if_neg (mt hiff.mp hin)]
    exact ⟨fun h => (by cases h), fun h => absurd h.1 hin⟩

/-- What is written behind a segment leaves it alone. -/
theorem Copied.after {n : ℕ} (h : Copied fdIn fdOut p s g) (bytes : Fin n → UInt8) :
    Copied fdIn (fdOut.writeAt bytes p) (p + n) s g := by
  obtain ⟨hvirtual, hg, hbehind, hinside, hwritten, hbytes⟩ := h
  refine ⟨hvirtual, hg, hbehind, by omega, File.add_le_size_writeAt, fun k hk => ?_⟩
  rw [← hbytes k hk]
  unfold File.writeAt
  simp only
  rw [dif_neg (by omega), if_pos (by omega)]

/-- The segment that is written. -/
theorem Copied.new (hsize : 0 ≤ s.s_size) (hlower : 40 ≤ p) :
    Copied fdIn (fdOut.writeAt (fun k : Fin s.s_size.toNat => fdIn.byte (s.s_scnptr.toNat + k)) p)
      (p + s.s_size.toNat) s ⟨s.s_paddr, p, s.s_size⟩ := by
  refine ⟨rfl, rfl, by simpa using hlower, ?_, File.add_le_size_writeAt, fun k hk => ?_⟩
  · show (p : ℤ) + s.s_size ≤ (p + s.s_size.toNat : ℕ)
    omega
  · show (fdOut.writeAt _ p).byte (p + k) = _
    unfold File.writeAt
    simp only
    rw [dif_pos ⟨by omega, by omega⟩, Nat.add_sub_cancel_left]

/-! The loop. -/

/-- An empty section is passed over. -/
theorem Loop.skip (h : Loop fdIn l c) (hsize : s.s_size = 0) : Loop fdIn (l ++ [s]) c := by
  have hkind (k : SectionKind) : ofKind k (l ++ [s]) = ofKind k l := by
    rw [ofKind_append, ofKind_of_ne (Or.inl hsize), List.append_nil]
  obtain ⟨hmagic, hposition, hlower, hupper, hnoCode, hcode, hnoData, hdata, hnoBss, hbss⟩ := h
  refine ⟨hmagic, hposition, hlower, ?_, ?_, ?_, ?_, ?_, ?_, ?_⟩
  · rw [total_append, total_cons, total_nil]
    omega
  all_goals
    rw [hkind]
    assumption

/-- Where the sections of the other kinds are. -/
theorem Loop.copied (h : Loop fdIn l c) (hl : Linked (l ++ [s])) (hscnptr : 0 ≤ s.s_scnptr)
    (hsize : 0 ≤ s.s_size) {noffH : NoffHeader} (hc : c.copy fdIn s noffH = .ok c') :
    c'.noffH = noffH ∧ c'.inNoffFile = c'.outPosition ∧ 40 ≤ c'.outPosition ∧
      c'.outPosition ≤ 40 + total (l ++ [s]) ∧
      Copied fdIn c'.fdOut c'.outPosition s ⟨s.s_paddr, c.inNoffFile, s.s_size⟩ ∧
      ∀ t g, Copied fdIn c.fdOut c.outPosition t g → Copied fdIn c'.fdOut c'.outPosition t g := by
  have hfits := hl.fits
  have hlower := h.lower
  have hupper := h.upper
  have hposition := h.position
  rw [total_append, total_cons, total_nil] at hfits ⊢
  obtain ⟨-, rfl⟩ := (copy_eq_ok hscnptr hsize).mp hc
  refine ⟨rfl, ?_, by simp only; omega, by simp only; omega, ?_,
    fun t g ht => ht.after fun k : Fin s.s_size.toNat => fdIn.byte (s.s_scnptr.toNat + k)⟩
  · simp only
    rw [int32_eq] <;> omega
  · simp only [hposition]
    exact Copied.new hsize hlower

theorem Loop.text (h : Loop fdIn l c) (hl : Linked (l ++ [s])) (hsize : s.s_size ≠ 0)
    (hkind : s.kind = some .text) (hc : copySegment fdIn c s = .ok c') :
      Loop fdIn (l ++ [s]) c' := by
  obtain ⟨-, hnonneg, hscnptr⟩ := hl.nonneg s (by simp)
  simp only [copySegment, if_neg hsize, hkind] at hc
  obtain ⟨hnoffH, hposition, hlower, hupper, hnew, hold⟩ := h.copied hl hscnptr hnonneg hc
  have htext : ofKind .text (l ++ [s]) = ofKind .text l ++ [s] := by
    rw [ofKind_append, ofKind_of_eq hsize hkind]
  have hother (k : SectionKind) (hk : k ≠ .text) : ofKind k (l ++ [s]) = ofKind k l := by
    rw [ofKind_append, ofKind_of_ne (Or.inr (by rw [hkind]; simpa using hk.symm)), List.append_nil]
  refine ⟨?_, hposition, hlower, hupper, ?_, ?_, ?_, ?_, ?_, ?_⟩
  · rw [hnoffH]
    exact h.noffMagic
  · simp [htext]
  · rintro t ht
    obtain rfl : s = t := by simpa [htext] using ht
    rw [hnoffH]
    exact hnew
  · rw [hother _ (by decide), hnoffH]
    exact h.noData
  · rw [hother _ (by decide), hnoffH]
    exact fun t ht => hold t _ (h.data t ht)
  · rw [hother _ (by decide), hnoffH]
    exact h.noBss
  · rw [hother _ (by decide), hnoffH]
    exact h.bss

theorem Loop.initData (h : Loop fdIn l c) (hl : Linked (l ++ [s])) (hsize : s.s_size ≠ 0)
    (hkind : s.kind = some .data) (hc : copySegment fdIn c s = .ok c') :
      Loop fdIn (l ++ [s]) c' := by
  obtain ⟨-, hnonneg, hscnptr⟩ := hl.nonneg s (by simp)
  simp only [copySegment, if_neg hsize, hkind] at hc
  split_ifs at hc
  obtain ⟨hnoffH, hposition, hlower, hupper, hnew, hold⟩ := h.copied hl hscnptr hnonneg hc
  have hdata : ofKind .data (l ++ [s]) = ofKind .data l ++ [s] := by
    rw [ofKind_append, ofKind_of_eq hsize hkind]
  have hother (k : SectionKind) (hk : k ≠ .data) : ofKind k (l ++ [s]) = ofKind k l := by
    rw [ofKind_append, ofKind_of_ne (Or.inr (by rw [hkind]; simpa using hk.symm)), List.append_nil]
  refine ⟨?_, hposition, hlower, hupper, ?_, ?_, ?_, ?_, ?_, ?_⟩
  · rw [hnoffH]
    exact h.noffMagic
  · rw [hother _ (by decide), hnoffH]
    exact h.noCode
  · rw [hother _ (by decide), hnoffH]
    exact fun t ht => hold t _ (h.code t ht)
  · simp [hdata]
  · rintro t ht
    obtain rfl : s = t := by simpa [hdata] using ht
    rw [hnoffH]
    exact hnew
  · rw [hother _ (by decide), hnoffH]
    exact h.noBss
  · rw [hother _ (by decide), hnoffH]
    exact h.bss

/-- Only the segment of the uninitialised data changes. -/
theorem Loop.setBss (h : Loop fdIn l c) (hl : Linked (l ++ [s])) (hsize : s.s_size ≠ 0)
    (hkind : s.kind = some .bss) {uninitData : Segment}
    (hbss : ∀ t, (ofKind .bss l ++ [s]).head? = some t →
      uninitData.virtualAddr = t.s_paddr ∧ uninitData.size = total (ofKind .bss l ++ [s])) :
    Loop fdIn (l ++ [s]) { c with noffH := { c.noffH with uninitData := uninitData } } := by
  obtain ⟨-, hnonneg, -⟩ := hl.nonneg s (by simp)
  have hbss' : ofKind .bss (l ++ [s]) = ofKind .bss l ++ [s] := by
    rw [ofKind_append, ofKind_of_eq hsize hkind]
  have hother (k : SectionKind) (hk : k ≠ .bss) : ofKind k (l ++ [s]) = ofKind k l := by
    rw [ofKind_append, ofKind_of_ne (Or.inr (by rw [hkind]; simpa using hk.symm)), List.append_nil]
  refine ⟨h.noffMagic, h.position, h.lower, ?_, ?_, ?_, ?_, ?_, ?_, ?_⟩
  · have hupper := h.upper
    rw [total_append, total_cons, total_nil]
    show (c.outPosition : ℤ) ≤ _
    omega
  · rw [hother _ (by decide)]
    exact h.noCode
  · rw [hother _ (by decide)]
    exact h.code
  · rw [hother _ (by decide)]
    exact h.noData
  · rw [hother _ (by decide)]
    exact h.data
  · simp [hbss']
  · rw [hbss']
    exact hbss

/-- The size of the uninitialised data says whether there has been any. -/
theorem Loop.uninitData_size (h : Loop fdIn l c) (hl : Linked l) :
    c.noffH.uninitData.size = 0 ↔ ofKind .bss l = [] := by
  constructor
  · intro hzero
    by_contra hne
    obtain ⟨t, rest, hrest⟩ := List.exists_cons_of_ne_nil hne
    obtain ⟨-, hsize⟩ := h.bss t (by rw [hrest]; rfl)
    have hpos := hl.total_ofKind_pos hne
    omega
  · exact h.noBss

theorem Loop.initData_size (h : Loop fdIn l c) : c.noffH.initData.size = 0 ↔
    ofKind .data l = [] := by
  constructor
  · intro hzero
    by_contra hne
    have hlast := List.getLast?_eq_some_getLast hne
    have hmem := mem_ofKind.mp (List.getLast_mem hne)
    exact hmem.2.1 ((h.data _ hlast).size ▸ hzero)
  · exact h.noData

/-- The end of the uninitialised data, in a comparison with an address. -/
theorem Loop.int32_end (h : Loop fdIn l c) (hl : Linked (l ++ [s])) {first : Scnhdr}
    {before : List Scnhdr} (hbss : ofKind .bss l = first :: before) :
    s.s_paddr = int32 (c.noffH.uninitData.virtualAddr + c.noffH.uninitData.size) ↔
      s.s_paddr = first.s_paddr + total (ofKind .bss l) := by
  obtain ⟨hvirtual, hsize⟩ := h.bss first (by rw [hbss]; rfl)
  have hmem := mem_ofKind.mp (hbss ▸ List.mem_cons_self : first ∈ ofKind .bss l)
  have hfirst := hl.nonneg first (List.mem_append_left _ hmem.1)
  have hfirstSpace := hl.inSpace first (List.mem_append_left _ hmem.1)
  have hs := hl.nonneg s (by simp)
  have hspace := hl.inSpace s (by simp)
  have hsizes : ∀ t ∈ l, 0 ≤ t.s_size := fun t ht => (hl.nonneg t (List.mem_append_left _ ht)).2.1
  have hfits := hl.of_append.fits
  have hle : total (ofKind .bss l) ≤ total l := total_ofKind_le hsizes
  have hpos := hl.of_append.total_ofKind_pos (k := .bss) (by simp [hbss])
  rw [hvirtual, hsize]
  by_cases hwrap : first.s_paddr + total (ofKind .bss l) < 2 ^ 31
  · rw [int32_eq (by omega) hwrap]
  · -- the sum is negative as an `int`
    unfold int32
    rw [BitVec.toInt_ofInt, Int.bmod_def, Int.emod_eq_of_lt (by omega) (by omega),
      if_neg (by omega)]
    constructor <;> intro heq <;> omega

/-- **Step lemma**: the section is accepted if it fits to those before, and the invariant is
    kept. -/
theorem Loop.step (h : Loop fdIn l c) (hl : Linked (l ++ [s])) (hacc : Accepts fdIn l) :
    ((∃ c', copySegment fdIn c s = .ok c') ↔ Accepts fdIn (l ++ [s])) ∧
      ∀ c', copySegment fdIn c s = .ok c' → Loop fdIn (l ++ [s]) c' := by
  obtain ⟨-, hnonneg, hscnptr⟩ := hl.nonneg s (by simp)
  rw [accepts_concat]
  by_cases hsize : s.s_size = 0
  · have hstep : copySegment fdIn c s = .ok c := if_pos hsize
    rw [hstep]
    refine ⟨⟨fun _ => ⟨hacc, fun hne => absurd hsize hne⟩, fun _ => ⟨c, rfl⟩⟩, ?_⟩
    rintro c' ⟨⟩
    exact h.skip hsize
  · cases hkind : s.kind with
    | none =>
      have hstep : copySegment fdIn c s = .error .unknownSegment := by
        simp only [copySegment, if_neg hsize, hkind]
      rw [hstep]
      refine ⟨⟨by simp, fun hs => absurd rfl (hs.2 hsize).1⟩, by simp⟩
    | some k =>
      cases k with
      | text =>
        refine ⟨?_, fun c' hc => h.text hl hsize hkind hc⟩
        simp only [copySegment, if_neg hsize, hkind, copy_eq_ok hscnptr hnonneg]
        simp [hacc, hsize]
      | data =>
        refine ⟨?_, fun c' hc => h.initData hl hsize hkind hc⟩
        simp only [copySegment, if_neg hsize, hkind, ne_eq, h.initData_size]
        by_cases hdata : ofKind .data l = []
        · simp only [hdata, not_true, if_false, copy_eq_ok hscnptr hnonneg]
          simp [hacc, hsize]
        · simp [hdata, hsize]
      | bss =>
        have hfits := hl.fits
        have hsizes : ∀ t ∈ l ++ [s], 0 ≤ t.s_size := fun t ht => (hl.nonneg t ht).2.1
        have hbss : ofKind .bss (l ++ [s]) = ofKind .bss l ++ [s] := by
          rw [ofKind_append, ofKind_of_eq hsize hkind]
        have hle : total (ofKind .bss (l ++ [s])) ≤ total (l ++ [s]) := total_ofKind_le hsizes
        rw [hbss] at hle
        cases hold : ofKind .bss l with
        | nil =>
          have hzero := h.noBss hold
          have hstep : copySegment fdIn c s = .ok { c with noffH := { c.noffH with uninitData :=
              { c.noffH.uninitData with virtualAddr := s.s_paddr, size := s.s_size } } } := by
            simp [copySegment, hsize, hkind, hzero]
          rw [hstep]
          refine ⟨by simp [hacc], ?_⟩
          rintro c' ⟨⟩
          refine h.setBss hl hsize hkind fun t ht => ?_
          obtain rfl : s = t := by simpa [hold] using ht
          simp [hold]
        | cons first before =>
          have hne : c.noffH.uninitData.size ≠ 0 := by
            rw [ne_eq, h.uninitData_size hl.of_append, hold]
            simp
          obtain ⟨hvirtual, hstart⟩ := h.bss first (by rw [hold]; rfl)
          have hend := h.int32_end hl hold
          have hpos := hl.of_append.total_ofKind_pos (k := .bss) (by simp [hold])
          rw [total_append, total_cons, total_nil] at hle
          by_cases heq : s.s_paddr = first.s_paddr + total (ofKind .bss l)
          · have hstep : copySegment fdIn c s = .error .bssAndSbss := by
              simp [copySegment, hsize, hkind, hne, ← hend.mpr heq]
            rw [hstep]
            refine ⟨⟨by simp, fun hs => ?_⟩, by simp⟩
            exact absurd (hold ▸ heq) ((hs.2 hsize).2.2.2 rfl first before rfl)
          · have hstep : copySegment fdIn c s = .ok { c with noffH := { c.noffH with uninitData :=
                { c.noffH.uninitData with
                  size := int32 (c.noffH.uninitData.size + s.s_size) } } } := by
              simp [copySegment, hsize, hkind, hne, hend, heq]
            rw [hstep]
            constructor
            · refine ⟨fun _ => ⟨hacc, fun _ => ⟨by simp, by simp, by simp, ?_⟩⟩, fun _ => ⟨_, rfl⟩⟩
              intro _ t rest ht
              obtain ⟨rfl, rfl⟩ := List.cons.inj ht
              rwa [← hold]
            · rintro c' ⟨⟩
              refine h.setBss hl hsize hkind fun t ht => ?_
              obtain rfl : first = t := by simpa [hold] using ht
              refine ⟨hvirtual, ?_⟩
              rw [hstart, int32_eq (by omega) (by omega), total_append, total_cons, total_nil,
                add_zero]

/-- The variables at the beginning of the loop. -/
def startCopy (fdIn : File) (junk : NoffHeader) : Copy :=
  ⟨startHeader junk, File.empty, 40, 40, 76 + 40 * short fdIn 2⟩

theorem loop_start (fdIn : File) (junk : NoffHeader) : Loop fdIn [] (startCopy fdIn junk) :=
  ⟨rfl, rfl, le_refl _, by simp [startCopy], fun _ => rfl, by simp [ofKind], fun _ => rfl,
    by simp [ofKind], fun _ => rfl, by simp [ofKind]⟩

theorem accepts_nil (fdIn : File) : Accepts fdIn [] :=
  ⟨by simp, by simp [ofKind], by simp [ofKind], by simp [BssApart, ofKind]⟩

/-- **Run lemma.** -/
theorem loop_run (junk : NoffHeader) (hl : Linked l) :
    ((∃ c, l.foldlM (copySegment fdIn) (startCopy fdIn junk) = .ok c) ↔ Accepts fdIn l) ∧
      ∀ c, l.foldlM (copySegment fdIn) (startCopy fdIn junk) = .ok c → Loop fdIn l c := by
  induction l using List.reverseRecOn with
  | nil =>
    refine ⟨⟨fun _ => accepts_nil fdIn, fun _ => ⟨_, rfl⟩⟩, ?_⟩
    rintro c ⟨⟩
    exact loop_start fdIn junk
  | append_singleton l s ih =>
    obtain ⟨hiff, hloop⟩ := ih hl.of_append
    rw [List.foldlM_append]
    cases hfold : l.foldlM (copySegment fdIn) (startCopy fdIn junk) with
    | error fault =>
      refine ⟨⟨by simp, fun hacc => ?_⟩, by simp⟩
      obtain ⟨c, hc⟩ := hiff.mpr (accepts_concat.mp hacc).1
      rw [hfold] at hc
      cases hc
    | ok c =>
      have hlast : [s].foldlM (copySegment fdIn) c = copySegment fdIn c s := by
        cases hs : copySegment fdIn c s <;> simp [hs]
      rw [ok_bind, hlast]
      exact (hloop c hfold).step hl (hiff.mp ⟨c, hfold⟩)

/-- The headers of the COFF file are those of a MIPSEL file. -/
structure Mipsel (fdIn : File) : Prop where
  size : 76 + 40 * short fdIn 2 ≤ fdIn.size
  f_magic : short fdIn 0 = MIPSELMAGIC
  magic : short fdIn 20 = OMAGIC

theorem coff2noff_eq_ok {junk : NoffHeader} {g : File} : coff2noff fdIn junk = .ok g ↔ Mipsel fdIn ∧
    ∃ c, (sections fdIn).foldlM (copySegment fdIn) (startCopy fdIn junk) = .ok c ∧
      g = c.fdOut.writeAt (headerBytes c.noffH) 0 := by
  unfold coff2noff
  constructor
  · intro h
    split_ifs at h with hshort hmagic hsystem homagic hsections
    obtain ⟨c, hc, hg⟩ := bind_eq_ok.mp h
    exact ⟨⟨by omega, by simpa using hmagic, by simpa using homagic⟩, c, hc,
      (Except.ok.inj hg).symm⟩
  · rintro ⟨⟨hsize, hmagic, homagic⟩, c, hc, rfl⟩
    rw [if_neg (by omega), if_neg (by simp [hmagic]), if_neg (by omega), if_neg (by simp [homagic]),
      if_neg (by omega)]
    exact bind_eq_ok.mpr ⟨c, hc, rfl⟩

/-- **The files that are translated**: no other section than those of the three kinds, the bytes of
    code and data in the file, one section of initialised data, and no section of uninitialised data
    behind the ones before. The message for that is "Can't handle both bss and sbss", and the
    comment asks for it (coff2noff.c:203). -/
theorem coff2noff_ok_iff (junk : NoffHeader) (hl : Linked (sections fdIn)) :
    (∃ g, coff2noff fdIn junk = .ok g) ↔ Mipsel fdIn ∧ Accepts fdIn (sections fdIn) := by
  rw [← (loop_run junk hl).1]
  constructor
  · rintro ⟨g, hg⟩
    obtain ⟨hmipsel, c, hc, -⟩ := coff2noff_eq_ok.mp hg
    exact ⟨hmipsel, c, hc⟩
  · rintro ⟨hmipsel, c, hc⟩
    exact ⟨_, coff2noff_eq_ok.mpr ⟨hmipsel, c, hc, rfl⟩⟩

/-- Two words of code, one of initialised data and one of uninitialised data. -/
def smallCoff : File := .ofInts
  ([0x00030162, 0, 0, 0, 0] ++ [0o407, 0, 0, 0, 0, 0, 0, 0, 0, 0, 0, 0, 0, 0] ++
    [0x7865742e, 0x74, 0, 0, 8, 196, 0, 0, 0, 0] ++ [0x7461642e, 0x61, 8, 8, 4, 204, 0, 0, 0, 0] ++
    [0x7373622e, 0, 12, 12, 4, 0, 0, 0, 0, 0] ++ [0x0c000000, 0x2402000a, 0x11223344])

/-- What is left of another call on the stack. -/
def smallJunk : NoffHeader := ⟨1, ⟨2, 3, 4⟩, ⟨5, 6, 7⟩, ⟨8, 9, 10⟩⟩

theorem sections_smallCoff : sections smallCoff =
    [⟨[46, 116, 101, 120, 116], 0, 8, 196⟩, ⟨[46, 100, 97, 116, 97], 8, 4, 204⟩,
      ⟨[46, 98, 115, 115], 12, 4, 0⟩] := by
  decide +kernel

theorem linked_smallCoff : Linked (sections smallCoff) := by
  rw [sections_smallCoff]
  exact ⟨by decide, by decide, by decide⟩

theorem exists_smallCoff : ∃ g, coff2noff smallCoff smallJunk = .ok g := by
  have hok : (coff2noff smallCoff smallJunk).isOk = true := by decide +kernel
  cases hg : coff2noff smallCoff smallJunk with
  | error fault => simp [hg, Except.isOk, Except.toBool] at hok
  | ok g => exact ⟨g, rfl⟩

theorem coff2noff_ok_small : Mipsel smallCoff ∧ Accepts smallCoff (sections smallCoff) :=
  (coff2noff_ok_iff smallJunk linked_smallCoff).mp exists_smallCoff

end Nachos.Bin
