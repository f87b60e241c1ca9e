import Nachos.Userprog.Coherence

/-!
# `copyin` and `copyout`

The kernel's copies from and to the memory of the running process (`userprog/exception.cc`), one
byte at a time through `ReadMem` and `WriteMem`. An access that misses in the TLB is reported as a
failure although the fault was handled: `copyin` tries again until the byte is there, `copyout`
gives up.

* `userByte_wrote`: a byte that is written is the only one that changes.
* `copyout_ok`, `copyin_ok`: what the loops do where every address is translated.
* `copies_iff`: when the two are inverse.
-/

namespace Nachos.Userprog

open Nachos.Lib

/-! ## Model -/

namespace VirtualMemory

/-- The place of an address in its page. -/
def offset (addr : BitVec 32) : Fin PageSize := Fin.ofNat PageSize addr.toNat

/-- `ReadMem(addr, 1, value)` with the handler of the exception: the byte, or `none` for `FALSE`. -/
def readMem (c : PagingConfig) (s : VirtualMemory) (addr : BitVec 32) (random : ℕ) :
    Except PagingFault (VirtualMemory × Option UInt8) :=
  match s.translate c addr .byte false with
  | .ok (ppn, s) => .ok (s, some (s.mainMemory ppn (offset addr)))
  | .error .pageFaultException => do
    let (s, _) ← s.handlePageFault c addr.toInt random
    return (s, none)
  | .error _ => .error .halt

/-- `WriteMem(addr, 1, value)` with the handler of the exception. -/
def writeMem (c : PagingConfig) (s : VirtualMemory) (addr : BitVec 32) (value : UInt8)
    (random : ℕ) : Except PagingFault (VirtualMemory × Bool) :=
  match s.translate c addr .byte true with
  | .ok (ppn, s) =>
    .ok ({ s with
      mainMemory := Function.update s.mainMemory ppn
        (Function.update (s.mainMemory ppn) (offset addr) value) }, true)
  | .error .pageFaultException => do
    let (s, _) ← s.handlePageFault c addr.toInt random
    return (s, false)
  | .error _ => .error .halt

/-- `ReadMem` until it does not fail (exception.cc:72), `fuel` times at most; `none` when it is not
    done by then. The stream has the numbers that `Random` returns. -/
def readByte (c : PagingConfig) (addr : BitVec 32) :
    (fuel : ℕ) → VirtualMemory → (random : ℕ → ℕ) →
      Option (Except PagingFault (VirtualMemory × (ℕ → ℕ) × UInt8))
  | 0, _, _ => none
  | fuel + 1, s, random =>
    match s.readMem c addr (random 0) with
    | .error f => some (.error f)
    | .ok (s, some byte) => some (.ok (s, fun k => random (k + 1), byte))
    | .ok (s, none) => readByte c addr fuel s fun k => random (k + 1)

/-- The loop of `copyin`, with `n` bytes to go. -/
def copyinLoop (c : PagingConfig) (fuel : ℕ) :
    (n : ℕ) → VirtualMemory → (random : ℕ → ℕ) → (vaddr : BitVec 32) →
      Option (Except PagingFault (VirtualMemory × List UInt8))
  | 0, s, _, _ => some (.ok (s, []))
  | n + 1, s, random, vaddr =>
    match readByte c vaddr fuel s random with
    | none => none
    | some (.error f) => some (.error f)
    | some (.ok (s, random, byte)) =>
      match copyinLoop c fuel n s random (vaddr + 1) with
      | none => none
      | some (.error f) => some (.error f)
      | some (.ok (s, bytes)) => some (.ok (s, byte :: bytes))

/-- `copyin` (exception.cc:61): the result and the bytes that are in `buf`. -/
def copyin (c : PagingConfig) (fuel : ℕ) (s : VirtualMemory) (random : ℕ → ℕ) (vaddr : BitVec 32)
    (len : ℤ) : Option (Except PagingFault (VirtualMemory × ℤ × List UInt8)) :=
  match copyinLoop c fuel len.toNat s random vaddr with
  | none => none
  | some (.error f) => some (.error f)
  | some (.ok (s, bytes)) => some (.ok (s, len, bytes))

/-- The loop of `copyout`, with `n` bytes written and `rest` to go. -/
def copyoutLoop (c : PagingConfig) (buf : ℕ → UInt8) :
    (rest n : ℕ) → VirtualMemory → (random : ℕ → ℕ) → (vaddr : BitVec 32) →
      Except PagingFault (VirtualMemory × ℤ)
  | 0, n, s, _, _ => .ok (s, n)
  | rest + 1, n, s, random, vaddr =>
    match s.writeMem c vaddr (buf n) (random 0) with
    | .error f => .error f
    | .ok (s, true) => copyoutLoop c buf rest (n + 1) s (fun k => random (k + 1)) (vaddr + 1)
    | .ok (s, false) => .ok (s, -1)

/-- `copyout` (exception.cc:89). -/
def copyout (c : PagingConfig) (s : VirtualMemory) (random : ℕ → ℕ) (vaddr : BitVec 32) (len : ℤ)
    (buf : ℕ → UInt8) : Except PagingFault (VirtualMemory × ℤ) :=
  copyoutLoop c buf len.toNat 0 s random vaddr

/-! ## User memory -/

/-- The frame that has the page. -/
def frameOf (c : PagingConfig) (s : VirtualMemory) (p : ℕ) (vpn : ℤ) : Option ℕ :=
  { s with space := some p }.findIPTIndex c vpn

/-- A byte of a process: in the frame of its page, or in the place that the page is loaded from. -/
def userByte (c : PagingConfig) (s : VirtualMemory) (p a : ℕ) : UInt8 :=
  match s.frameOf c p (a / PageSize : ℕ) with
  | some f => s.mainMemory f (Fin.ofNat PageSize a)
  | none =>
    match s.pageEntry p (a / PageSize : ℕ) with
    | some e => s.backing e (Fin.ofNat PageSize a)
    | none => 0

/-- The address belongs to the process. -/
def Inside (s : VirtualMemory) (p : ℕ) (addr : BitVec 32) : Prop :=
  addr.toNat < (s.spaces p).numPages * PageSize

/-- The TLB has a translation that may be written. -/
def Translates (c : PagingConfig) (s : VirtualMemory) (addr : BitVec 32) : Prop :=
  ∃ r, s.translate c addr .byte true = .ok r

variable {c : PagingConfig} {s s' : VirtualMemory} {events history : List PagingEvent}
  {p q i ppn f : ℕ} {addr : BitVec 32} {value : UInt8}

/-! ## Translations -/

theorem translates_iff : Translates c s addr ↔
    ∃ i, s.findTLBIndex c (addr.toNat / PageSize) = some i ∧ (s.tlb i).readOnly = false ∧
      (s.tlb i).physicalPage < c.numPhysPages := by
  unfold Translates translate
  rw [if_neg (by simp [Width.size, Nat.mod_one])]
  cases hfind : s.findTLBIndex c (addr.toNat / PageSize) with
  | none => simp
  | some i =>
    by_cases hro : (s.tlb i).readOnly = true
    · simp [hro]
    · by_cases hlt : (s.tlb i).physicalPage < c.numPhysPages
      · simp [hro, hlt, Nat.not_le.mpr hlt]
      · simp [hro, hlt, Nat.not_lt.mp hlt]

/-- The state after an access of a byte through TLB entry `i`. -/
def used (s : VirtualMemory) (i : ℕ) (writing : Bool) : VirtualMemory :=
  { s with
    tlb := Function.update s.tlb i
      { s.tlb i with use := true, dirty := (s.tlb i).dirty || writing } }

/-- The state after a byte is written through TLB entry `i`. -/
def wrote (s : VirtualMemory) (i : ℕ) (addr : BitVec 32) (value : UInt8) : VirtualMemory :=
  { s.used i true with
    mainMemory := Function.update s.mainMemory (s.tlb i).physicalPage
      (Function.update (s.mainMemory (s.tlb i).physicalPage) (offset addr) value) }

theorem translate_of_translates (h : Translates c s addr) (writing : Bool) :
    ∃ i, s.findTLBIndex c (addr.toNat / PageSize) = some i ∧
      s.translate c addr .byte writing = .ok ((s.tlb i).physicalPage, s.used i writing) := by
  obtain ⟨i, hfind, hro, hlt⟩ := translates_iff.mp h
  refine ⟨i, hfind, ?_⟩
  unfold translate
  rw [if_neg (by simp [Width.size, Nat.mod_one]), hfind]
  simp [hro, Nat.not_le.mpr hlt, used]

theorem writeMem_of_translates (h : Translates c s addr) (value : UInt8) (random : ℕ) :
    ∃ i, s.findTLBIndex c (addr.toNat / PageSize) = some i ∧
      s.writeMem c addr value random = .ok (s.wrote i addr value, true) := by
  obtain ⟨i, hfind, htranslate⟩ := translate_of_translates h true
  exact ⟨i, hfind, by rw [writeMem, htranslate]; rfl⟩

theorem readMem_of_translates (h : Translates c s addr) (random : ℕ) :
    ∃ i, s.findTLBIndex c (addr.toNat / PageSize) = some i ∧ s.readMem c addr random =
      .ok (s.used i false, some (s.mainMemory (s.tlb i).physicalPage (offset addr))) := by
  obtain ⟨i, hfind, htranslate⟩ := translate_of_translates h false
  exact ⟨i, hfind, by rw [readMem, htranslate]; rfl⟩

theorem tlb_used (s : VirtualMemory) (i : ℕ) (writing : Bool) (j : ℕ) :
    ((s.used i writing).tlb j).valid = (s.tlb j).valid ∧
      ((s.used i writing).tlb j).virtualPage = (s.tlb j).virtualPage ∧
      ((s.used i writing).tlb j).physicalPage = (s.tlb j).physicalPage ∧
      ((s.used i writing).tlb j).readOnly = (s.tlb j).readOnly := by
  by_cases hj : j = i
  · subst hj
    simp [used]
  · simp [used, hj]

theorem findTLBIndex_used (i : ℕ) (writing : Bool) (n : ℕ) :
    (s.used i writing).findTLBIndex c n = s.findTLBIndex c n := by
  simp only [findTLBIndex, tlb_used]

/-- The use and dirty bits do not matter to a translation. -/
theorem translates_used (i : ℕ) (writing : Bool) (addr : BitVec 32) :
    Translates c (s.used i writing) addr ↔ Translates c s addr := by
  simp only [translates_iff, findTLBIndex_used, tlb_used]

theorem translates_wrote (i : ℕ) (a : BitVec 32) (value : UInt8) (addr : BitVec 32) :
    Translates c (s.wrote i a value) addr ↔ Translates c s addr :=
  translates_iff.trans ((translates_iff (s := s.used i true)).symm.trans
    (translates_used i true addr))

/-! ## Bytes -/

theorem frameOf_eq_some (hc : Consistent c s) (hb : Paged c s) {vpn : ℤ}
    (hv : (s.ipt f).valid = true) (hq : (s.ipt f).processID = some q)
    (hvpn : (s.ipt f).virtualPage = vpn) : s.frameOf c q vpn = some f := by
  unfold frameOf
  cases hfind : { s with space := some q }.findIPTIndex c vpn with
  | none =>
    have hlt := hb.lt f ((hb.inUse f).mpr hv)
    exact absurd hq (findIPTIndex_eq_none hfind hlt hv hvpn)
  | some g =>
    obtain ⟨-, hvg, hvpng, hqg⟩ := findIPTIndex_eq_some hfind
    rw [hc.once g f hvg hv (by rw [hq]; exact hqg) (by rw [hvpn]; exact hvpng)]

/-- A byte that the TLB translates is in the frame. -/
theorem userByte_of_findTLBIndex (hc : Consistent c s) (hb : Paged c s) (hp : s.space = some p)
    (h : s.findTLBIndex c (addr.toNat / PageSize) = some i) :
    userByte c s p addr.toNat = s.mainMemory (s.tlb i).physicalPage (offset addr) := by
  obtain ⟨hvalid, hprocess, hvirtual, -⟩ := page_of_findTLBIndex hc hb hp h
  have hframe : s.frameOf c p (addr.toNat / PageSize : ℕ) = some (s.tlb i).physicalPage :=
    frameOf_eq_some hc hb hvalid hprocess hvirtual
  rw [userByte, hframe]
  rfl

theorem userByte_used (i : ℕ) (writing : Bool) : userByte c (s.used i writing) q = userByte c s q :=
  rfl

/-- **The other bytes stay**, also those of other processes. -/
theorem userByte_wrote_of_ne (hc : Consistent c s) (hb : Paged c s) (hp : s.space = some p)
    (h : s.findTLBIndex c (addr.toNat / PageSize) = some i) {b : ℕ}
    (hne : ¬(q = p ∧ b = addr.toNat)) :
    userByte c (s.wrote i addr value) q b = userByte c s q b := by
  obtain ⟨hvalid, hprocess, hvirtual, -⟩ := page_of_findTLBIndex hc hb hp h
  have hframe : (s.wrote i addr value).frameOf c q (b / PageSize : ℕ) =
      s.frameOf c q (b / PageSize : ℕ) := rfl
  unfold userByte
  rw [hframe]
  cases hg : s.frameOf c q (b / PageSize : ℕ) with
  | none => rfl
  | some g =>
    obtain ⟨-, -, hpage, howner⟩ := findIPTIndex_eq_some hg
    show (Function.update _ _ _ : ℕ → Page) g _ = _
    by_cases hgi : g = (s.tlb i).physicalPage
    · -- The same page: the offsets differ.
      subst hgi
      rw [Function.update_self]
      apply Function.update_of_ne
      intro hoff
      apply hne
      have hqp : some q = some p := by rw [← hprocess]; exact howner.symm
      refine ⟨Option.some.inj hqp, ?_⟩
      have hpages : ((b / PageSize : ℕ) : ℤ) = pageNumber addr := by
        rw [← hvirtual]
        exact hpage.symm
      have hmods := congrArg Fin.val hoff
      simp only [offset, Fin.val_ofNat] at hmods
      simp only [pageNumber] at hpages
      unfold PageSize at hpages hmods
      omega
    · rw [Function.update_of_ne hgi]

/-- The process runs, and TLB, inverted page table and page tables fit together. -/
structure Running (c : PagingConfig) (s : VirtualMemory) (p : ℕ) : Prop where
  consistent : Consistent c s
  paged : Paged c s
  space : s.space = some p

theorem Running.used (hr : Running c s p) (h : Translates c s addr)
    (hi : s.findTLBIndex c (addr.toNat / PageSize) = some i) (writing : Bool) :
    Running c (s.used i writing) p := by
  obtain ⟨j, hj, htranslate⟩ := translate_of_translates h writing
  rw [hi] at hj
  cases hj
  exact ⟨hr.consistent.of_translate htranslate, hr.paged.of_translate htranslate, hr.space⟩

theorem Running.wrote (hr : Running c s p) (h : Translates c s addr)
    (hi : s.findTLBIndex c (addr.toNat / PageSize) = some i) (value : UInt8) :
    Running c (s.wrote i addr value) p := by
  have hu := hr.used h hi true
  exact ⟨⟨hu.consistent.once, hu.consistent.distinct, hu.consistent.names⟩,
    hu.paged.of_mainMemory _, hu.space⟩

/-- **The byte that is written.** -/
theorem userByte_wrote_self (hr : Running c s p) (ht : Translates c s addr)
    (h : s.findTLBIndex c (addr.toNat / PageSize) = some i) :
    userByte c (s.wrote i addr value) p addr.toNat = value := by
  have hr' := hr.wrote ht h value
  have hfind : (s.wrote i addr value).findTLBIndex c (addr.toNat / PageSize) = some i :=
    (findTLBIndex_used i true _).trans h
  have hframe : ((s.wrote i addr value).tlb i).physicalPage = (s.tlb i).physicalPage :=
    (tlb_used s i true i).2.2.1
  rw [userByte_of_findTLBIndex hr'.consistent hr'.paged hr'.space hfind, hframe]
  simp [VirtualMemory.wrote]

/-! ## The loops, where every address is translated -/

/-- The address of byte `j` of a buffer. -/
def byteAddr (vaddr : BitVec 32) (j : ℕ) : BitVec 32 := vaddr + BitVec.ofNat 32 j

theorem byteAddr_zero (vaddr : BitVec 32) : byteAddr vaddr 0 = vaddr := BitVec.add_zero vaddr

theorem byteAddr_succ (vaddr : BitVec 32) (j : ℕ) :
    byteAddr (vaddr + 1) j = byteAddr vaddr (j + 1) := by
  unfold byteAddr
  rw [BitVec.ofNat_add, BitVec.add_assoc, BitVec.add_comm (BitVec.ofNat 32 j)]
  rfl

theorem byteAddr_inj {vaddr : BitVec 32} {j k : ℕ} (hj : j < 2 ^ 32) (hk : k < 2 ^ 32)
    (h : byteAddr vaddr j = byteAddr vaddr k) : j = k := by
  have h' := congrArg BitVec.toNat (BitVec.add_right_inj _ |>.mp h)
  rwa [BitVec.toNat_ofNat, BitVec.toNat_ofNat, Nat.mod_eq_of_lt hj, Nat.mod_eq_of_lt hk] at h'

/-- **`copyout` writes the buffer**, and nothing else. -/
theorem copyoutLoop_ok (buf : ℕ → UInt8) {rest : ℕ} (hrest : rest ≤ 2 ^ 32) (n : ℕ)
    (random : ℕ → ℕ) {vaddr : BitVec 32} (hr : Running c s p)
    (ht : ∀ j < rest, Translates c s (byteAddr vaddr j)) :
    ∃ s', copyoutLoop c buf rest n s random vaddr = .ok (s', (n + rest : ℕ)) ∧ Running c s' p ∧
      (∀ a, Translates c s' a ↔ Translates c s a) ∧
      (∀ j < rest, userByte c s' p (byteAddr vaddr j).toNat = buf (n + j)) ∧
      ∀ q b, (∀ j < rest, ¬(q = p ∧ b = (byteAddr vaddr j).toNat)) →
        userByte c s' q b = userByte c s q b := by
  induction rest generalizing s n random vaddr with
  | zero => exact ⟨s, rfl, hr, fun _ => Iff.rfl, fun j hj => absurd hj (Nat.not_lt_zero j),
      fun _ _ _ => rfl⟩
  | succ rest ih =>
    have ht₀ := ht 0 (Nat.succ_pos rest)
    rw [byteAddr_zero] at ht₀
    obtain ⟨i, hi, hwrite⟩ := writeMem_of_translates ht₀ (buf n) (random 0)
    have ht₁ : ∀ j < rest, Translates c (s.wrote i vaddr (buf n)) (byteAddr (vaddr + 1) j) := by
      intro j hj
      rw [translates_wrote, byteAddr_succ]
      exact ht (j + 1) (by omega)
    obtain ⟨s', hloop, hr', htr, hbytes, hothers⟩ := ih (by omega) (n + 1)
      (fun k => random (k + 1)) (hr.wrote ht₀ hi (buf n)) ht₁
    refine ⟨s', ?_, hr', fun a => (htr a).trans (translates_wrote ..), ?_, ?_⟩
    · rw [copyoutLoop, hwrite]
      simp only [hloop]
      rw [show n + 1 + rest = n + (rest + 1) by omega]
    · intro j hj
      cases j with
      | zero =>
        rw [byteAddr_zero, hothers p vaddr.toNat, userByte_wrote_self hr ht₀ hi]
        · rfl
        · rintro k hk ⟨-, heq⟩
          rw [byteAddr_succ, BitVec.toNat_inj] at heq
          have hk : byteAddr vaddr 0 = byteAddr vaddr (k + 1) := by
            rw [byteAddr_zero]
            exact heq
          have := byteAddr_inj (by omega) (by omega) hk
          omega
      | succ j =>
        rw [← byteAddr_succ, hbytes j (by omega), show n + 1 + j = n + (j + 1) by omega]
    · intro q b hne
      rw [hothers q b, userByte_wrote_of_ne hr.consistent hr.paged hr.space hi]
      · have := hne 0 (Nat.succ_pos rest)
        rwa [byteAddr_zero] at this
      · intro j hj
        rw [byteAddr_succ]
        exact hne (j + 1) (by omega)

/-- **`copyin` reads the buffer**, and changes no byte. -/
theorem copyinLoop_ok {n : ℕ} (random : ℕ → ℕ) {vaddr : BitVec 32} (hr : Running c s p)
    (ht : ∀ j < n, Translates c s (byteAddr vaddr j)) :
    ∃ s', copyinLoop c 1 n s random vaddr = some (.ok (s', (List.range n).map fun j =>
        userByte c s p (byteAddr vaddr j).toNat)) ∧
      ∀ q b, userByte c s' q b = userByte c s q b := by
  induction n generalizing s random vaddr with
  | zero => exact ⟨s, rfl, fun _ _ => rfl⟩
  | succ n ih =>
    have ht₀ := ht 0 (Nat.succ_pos n)
    rw [byteAddr_zero] at ht₀
    obtain ⟨i, hi, hread⟩ := readMem_of_translates ht₀ (random 0)
    have ht₁ : ∀ j < n, Translates c (s.used i false) (byteAddr (vaddr + 1) j) := by
      intro j hj
      rw [translates_used, byteAddr_succ]
      exact ht (j + 1) (by omega)
    obtain ⟨s', hloop, hsame⟩ := ih (fun k => random (k + 1)) (hr.used ht₀ hi false) ht₁
    refine ⟨s', ?_, hsame⟩
    rw [copyinLoop, readByte, hread]
    simp only [hloop, byteAddr_succ, userByte_used]
    rw [List.range_succ_eq_map, List.map_cons, List.map_map, byteAddr_zero,
      userByte_of_findTLBIndex hr.consistent hr.paged hr.space hi]
    rfl

/-! ## The loops, in general -/

/-- A write that is reported as done has found a translation. -/
theorem writeMem_eq_true {random : ℕ} (h : s.writeMem c addr value random = .ok (s', true)) :
    Translates c s addr ∧ ∃ i, s' = s.wrote i addr value := by
  unfold writeMem at h
  split at h
  · rename_i ppn s₁ htranslate
    obtain ⟨i, -, rfl, rfl⟩ := translate_eq_ok htranslate
    cases h
    exact ⟨⟨_, htranslate⟩, i, rfl⟩
  · obtain ⟨⟨s₁, events⟩, -, hret⟩ := bind_eq_ok.mp h
    cases hret
  · cases h

/-- If `copyout` returns the length, every address was translated. -/
theorem translates_of_copyoutLoop (buf : ℕ → UInt8) {rest n : ℕ} {random : ℕ → ℕ}
    {vaddr : BitVec 32}
    (h : copyoutLoop c buf rest n s random vaddr = .ok (s', (n + rest : ℕ))) :
    ∀ j < rest, Translates c s (byteAddr vaddr j) := by
  induction rest generalizing s n random vaddr with
  | zero => exact fun j hj => absurd hj (Nat.not_lt_zero j)
  | succ rest ih =>
    rw [copyoutLoop] at h
    split at h
    · cases h
    · rename_i s₁ hwrite
      obtain ⟨ht₀, i, rfl⟩ := writeMem_eq_true hwrite
      have hrest := ih (n := n + 1) (by rw [h, show n + 1 + rest = n + (rest + 1) by omega])
      intro j hj
      cases j with
      | zero => rwa [byteAddr_zero]
      | succ j =>
        rw [← byteAddr_succ, ← translates_wrote i vaddr (buf n)]
        exact hrest j (by omega)
    · simp only [Except.ok.injEq, Prod.mk.injEq] at h
      omega

/-- Only addresses of the process are translated. -/
theorem inside_of_findTLBIndex (hb : Paged c s) (hp : s.space = some p)
    (h : s.findTLBIndex c (addr.toNat / PageSize) = some i) : s.Inside p addr := by
  obtain ⟨hi, hv, hpage⟩ := findTLBIndex_eq_some h
  obtain ⟨-, q, hq, -, hpos, hlt, hint⟩ := hb.tlb i hi hv
  rw [hp] at hq
  cases hq
  rw [Int.emod_eq_of_lt hpos (by omega)] at hpage
  unfold Inside
  unfold PageSize at *
  omega

theorem numPages_handlePageFault {badVAddr : ℤ} {random : ℕ}
    (h : s.handlePageFault c badVAddr random = .ok (s', events)) :
    s'.space = s.space ∧ (s'.spaces p).numPages = (s.spaces p).numPages := by
  have hupdate : ∀ (s : VirtualMemory) (ppn : ℕ), (s.updateTLBFromIPT c ppn).space = s.space ∧
      (s.updateTLBFromIPT c ppn).spaces = s.spaces := by
    intro s ppn
    unfold updateTLBFromIPT refill propagate
    split_ifs <;> exact ⟨rfl, rfl⟩
  obtain ⟨ppn, -, rfl, -⟩ | ⟨-, ppn, s₁, hload, rfl⟩ := handlePageFault_cases h
  · rw [(hupdate s ppn).1, (hupdate s ppn).2]
    exact ⟨rfl, rfl⟩
  · obtain ⟨s₂, events₁, q, e, bytes, htake, -, -, -, rfl, -⟩ := loadPageIntoIPT_eq_ok hload
    have hk := keeps_enqueue c s₂ ppn
    rw [(hupdate _ ppn).1, (hupdate _ ppn).2, ← numPages_takeFrame htake p,
      ← (keeps_takeFrame htake).space]
    refine ⟨hk.space, ?_⟩
    unfold populate enqueue
    split_ifs <;> rfl

/-- What a read keeps, and where it is if it is not reported as failed. -/
theorem readMem_eq_ok {random : ℕ} {byte : Option UInt8} (hb : Paged c s) (hp : s.space = some p)
    (h : s.readMem c addr random = .ok (s', byte)) :
    Paged c s' ∧ s'.space = some p ∧ (s'.spaces p).numPages = (s.spaces p).numPages ∧
      (byte ≠ none → s.Inside p addr) := by
  unfold readMem at h
  split at h
  · rename_i ppn s₁ htranslate
    have hb₁ := hb.of_translate htranslate
    obtain ⟨i, hi, -, rfl⟩ := translate_eq_ok htranslate
    cases h
    exact ⟨hb₁, hp, rfl, fun _ => inside_of_findTLBIndex hb hp hi⟩
  · obtain ⟨⟨s₁, events⟩, hfault, hret⟩ := bind_eq_ok.mp h
    cases hret
    obtain ⟨hspace, hpages⟩ := numPages_handlePageFault (p := p) hfault
    exact ⟨hb.of_handlePageFault hfault, hspace.trans hp, hpages, fun h => absurd rfl h⟩
  · cases h

/-- The loop for a byte ends at an address of the process only. -/
theorem readByte_eq_ok {fuel : ℕ} {random random' : ℕ → ℕ} {byte : UInt8} (hb : Paged c s)
    (hp : s.space = some p)
    (h : readByte c addr fuel s random = some (.ok (s', random', byte))) :
    Paged c s' ∧ s'.space = some p ∧ (s'.spaces p).numPages = (s.spaces p).numPages ∧
      s.Inside p addr := by
  induction fuel generalizing s random with
  | zero => cases h
  | succ fuel ih =>
    rw [readByte] at h
    split at h
    · cases h
    · rename_i s₁ b hread
      cases h
      obtain ⟨hb', hp', hpages, hinside⟩ := readMem_eq_ok hb hp hread
      exact ⟨hb', hp', hpages, hinside (Option.some_ne_none _)⟩
    · rename_i s₁ hread
      obtain ⟨hb', hp', hpages, -⟩ := readMem_eq_ok hb hp hread
      obtain ⟨hb₂, hp₂, hpages₂, hinside⟩ := ih hb' hp' h
      unfold Inside at *
      rw [hpages] at hpages₂ hinside
      exact ⟨hb₂, hp₂, hpages₂, hinside⟩

/-- `copyin` returns only if the buffer is inside the process. -/
theorem inside_of_copyinLoop {fuel n : ℕ} {random : ℕ → ℕ} {vaddr : BitVec 32}
    {bytes : List UInt8} (hb : Paged c s) (hp : s.space = some p)
    (h : copyinLoop c fuel n s random vaddr = some (.ok (s', bytes))) :
    ∀ j < n, s.Inside p (byteAddr vaddr j) := by
  induction n generalizing s s' random vaddr bytes with
  | zero => exact fun j hj => absurd hj (Nat.not_lt_zero j)
  | succ n ih =>
    rw [copyinLoop] at h
    split at h
    · cases h
    · cases h
    · rename_i s₁ random₁ byte hbyte
      obtain ⟨hb₁, hp₁, hpages, hinside⟩ := readByte_eq_ok hb hp hbyte
      split at h
      · cases h
      · cases h
      · rename_i s₂ bytes₂ hloop
        have hrest := ih hb₁ hp₁ hloop
        intro j hj
        cases j with
        | zero => rwa [byteAddr_zero]
        | succ j =>
          have := hrest j (by omega)
          unfold Inside at *
          rwa [← byteAddr_succ, ← hpages]

/-! ## `copyout` and `copyin` -/

/-- `copyout` to a buffer of the running process `p` and `copyin` from it: the law for one state, one
    address and one length, whatever `Random` returns. -/
structure Copies (c : PagingConfig) (s : VirtualMemory) (p : ℕ) (vaddr : BitVec 32)
    (len : BitVec 32) : Prop where
  inverse : 0 ≤ len.toInt → (∀ j < len.toInt.toNat, s.Inside p (byteAddr vaddr j)) →
    ∀ (buf : ℕ → UInt8) (random random' : ℕ → ℕ),
      ∃ s₁ s₂ fuel, copyout c s random vaddr len.toInt buf = .ok (s₁, len.toInt) ∧
        copyin c fuel s₁ random' vaddr len.toInt =
          some (.ok (s₂, len.toInt, (List.range len.toInt.toNat).map buf)) ∧
        ∀ q b, (∀ j < len.toInt.toNat, ¬(q = p ∧ b = (byteAddr vaddr j).toNat)) →
          userByte c s₁ q b = userByte c s q b ∧ userByte c s₂ q b = userByte c s q b
  returns : ∀ random : ℕ → ℕ, ∃ fuel s₁ bytes,
    copyin c fuel s random vaddr len.toInt = some (.ok (s₁, len.toInt, bytes))

/-- **When the two are inverse**, and `copyin` returns. -/
theorem copies_iff_translates (hr : Running c s p) (vaddr len : BitVec 32) :
    Copies c s p vaddr len ↔ ∀ j < len.toInt.toNat, Translates c s (byteAddr vaddr j) := by
  have hlen : len.toInt.toNat ≤ 2 ^ 32 := by
    have := len.toInt_lt
    omega
  constructor
  · intro h
    obtain hneg | hpos := lt_or_ge len.toInt 0
    · intro j hj
      omega
    · obtain ⟨fuel, s₁, bytes, hcopyin⟩ := h.returns fun _ => 0
      have hinside : ∀ j < len.toInt.toNat, s.Inside p (byteAddr vaddr j) := by
        unfold copyin at hcopyin
        split at hcopyin
        · cases hcopyin
        · cases hcopyin
        · rename_i hloop
          exact inside_of_copyinLoop hr.paged hr.space hloop
      obtain ⟨s₁, s₂, fuel, hcopyout, -⟩ := h.inverse hpos hinside (fun _ => 0) (fun _ => 0)
        fun _ => 0
      have hloop : copyoutLoop c (fun _ => 0) len.toInt.toNat 0 s (fun _ => 0) vaddr =
          .ok (s₁, (0 + len.toInt.toNat : ℕ)) := by
        rw [Nat.zero_add, Int.toNat_of_nonneg hpos]
        exact hcopyout
      exact translates_of_copyoutLoop _ hloop
  · intro ht
    refine ⟨?_, ?_⟩
    · intro hpos _ buf random random'
      obtain ⟨s₁, hloop, hr₁, htr, hbytes, hothers⟩ := copyoutLoop_ok buf hlen 0 random hr ht
      obtain ⟨s₂, hloop₂, hsame⟩ := copyinLoop_ok random' hr₁ fun j hj => (htr _).mpr (ht j hj)
      refine ⟨s₁, s₂, 1, ?_, ?_, ?_⟩
      · rw [copyout, hloop, Nat.zero_add, Int.toNat_of_nonneg hpos]
      · have hmap : (List.range len.toInt.toNat).map
            (fun j => userByte c s₁ p (byteAddr vaddr j).toNat) =
              (List.range len.toInt.toNat).map buf := by
          apply List.map_congr_left
          intro j hj
          rw [hbytes j (List.mem_range.mp hj), Nat.zero_add]
        rw [copyin, hloop₂, hmap]
      · intro q b hne
        rw [hsame, hothers q b hne]
        exact ⟨rfl, rfl⟩
    · intro random
      obtain ⟨s₁, hloop, -⟩ := copyinLoop_ok random hr ht
      exact ⟨1, s₁, _, by rw [copyin, hloop]⟩

end VirtualMemory

open VirtualMemory

/-- In a run whose page faults are at addresses of the running process. -/
theorem running_of_run {c : PagingConfig} {l : List PagingLabel} {s : VirtualMemory}
    {history : List PagingEvent}
    (hl : Guarded (historyStep c) (fun x => FaultsInside c x.1) (new c, []) l)
    (h : exec (historyStep c) (new c, []) l = .ok (s, history)) {p : ℕ} (hp : s.space = some p) :
    Running c s p := by
  have hstep : ∀ x i x', Paged c x.1 ∧ Consistent c x.1 → FaultsInside c x.1 i →
      historyStep c x i = .ok x' → Paged c x'.1 ∧ Consistent c x'.1 := by
    intro x i x' ⟨hb, hc⟩ hi hstep
    obtain ⟨events, hstep, -⟩ := historyStep_eq_ok hstep
    exact ⟨paged_of_pagingStep hb hstep, consistent_of_pagingStep hb hc hi hstep⟩
  obtain ⟨hb, hc⟩ := exec_inv hstep ⟨paged_new c, consistent_new c⟩ hl h
  exact ⟨hc, hb, hp⟩

/-- **`copyout` and `copyin` are inverse if and only if the TLB translates every byte of the
    buffer** when `copyout` is called. -/
theorem copies_iff (c : PagingConfig) {l : List PagingLabel} {s : VirtualMemory}
    {history : List PagingEvent}
    (hl : Guarded (historyStep c) (fun x => FaultsInside c x.1) (new c, []) l)
    (h : exec (historyStep c) (new c, []) l = .ok (s, history)) {p : ℕ} (hp : s.space = some p)
    (vaddr len : BitVec 32) :
    Copies c s p vaddr len ↔ ∀ j < len.toInt.toNat, Translates c s (byteAddr vaddr j) :=
  copies_iff_translates (running_of_run hl h hp) vaddr len

/-- A page of the stack is used, and four bytes in it are copied. -/
theorem copies_iff_stack :
    ∃ s history, exec (historyStep nachosMachine) (new nachosMachine, [])
        [.startProcess oneInstruction, .access 1024 (.load .byte) 0] = .ok (s, history) ∧
      Copies nachosMachine s 0 1100 4 := by
  have hl : Guarded (historyStep nachosMachine) (fun x => FaultsInside nachosMachine x.1)
      (new nachosMachine, []) [.startProcess oneInstruction, .access 1024 (.load .byte) 0] := by
    decide +kernel
  have hrun : Ends (historyStep nachosMachine) (new nachosMachine, [])
      [.startProcess oneInstruction, .access 1024 (.load .byte) 0] fun x =>
        x.1.space = some 0 ∧ x.1.findTLBIndex nachosMachine 8 = some 0 ∧
          (x.1.tlb 0).readOnly = false ∧ (x.1.tlb 0).physicalPage < 32 := by
    decide +kernel
  obtain ⟨⟨s, history⟩, h, hp, hfind, hro, hlt⟩ := hrun
  refine ⟨s, history, h, (copies_iff nachosMachine hl h hp 1100 4).mpr ?_⟩
  intro j hj
  have hpage : (byteAddr 1100 j).toNat / PageSize = 8 := by
    have hj' : j < 4 := hj
    interval_cases j <;> decide
  exact translates_iff.mpr ⟨0, by rw [hpage]; exact hfind, hro, hlt⟩

/-- The stack of a new process is not in the TLB: `copyout` fails. -/
theorem copyout_fails :
    ∃ s history, exec (historyStep nachosMachine) (new nachosMachine, [])
        [.startProcess oneInstruction] = .ok (s, history) ∧ s.space = some 0 ∧
      s.Inside 0 1100 ∧ ¬Copies nachosMachine s 0 1100 1 := by
  have hl : Guarded (historyStep nachosMachine) (fun x => FaultsInside nachosMachine x.1)
      (new nachosMachine, []) [.startProcess oneInstruction] := by
    decide +kernel
  have hrun : Ends (historyStep nachosMachine) (new nachosMachine, [])
      [.startProcess oneInstruction] fun x =>
        x.1.space = some 0 ∧ (x.1.spaces 0).numPages = 9 ∧
          x.1.findTLBIndex nachosMachine 8 = none := by
    decide +kernel
  obtain ⟨⟨s, history⟩, h, hp, hpages, hfind⟩ := hrun
  refine ⟨s, history, h, hp, ?_, ?_⟩
  · have hpages' : (s.spaces 0).numPages = 9 := hpages
    rw [Inside, hpages']
    decide
  · rw [copies_iff_translates (running_of_run hl h hp)]
    intro ht
    obtain ⟨i, hi, -⟩ := translates_iff.mp (ht 0 (by decide))
    have hmiss : s.findTLBIndex nachosMachine ((byteAddr 1100 0).toNat / PageSize) = none := hfind
    rw [hmiss] at hi
    cases hi

end Nachos.Userprog
