import Nachos.Lib.Run

/-!
# Reading and writing a file

`ReadAt` and `WriteAt` of `class OpenFile` (`filesys/openfile.cc`) over the disk and the file header
(`filesys/filehdr.cc`). A buffer is a function from its positions, and a fresh one has the contents
of memory.

* `readAt_eq`, `writeAt_eq`: what the two functions read and write.
* `array_law_iff`: they obey the array law unless the end of the range overflows, or the write
  touches a last sector that the file does not fill.
-/

namespace Nachos.FileSys

open Nachos.Lib

/-! ## The disk -/

/-- disk.h:49. -/
abbrev SectorSize : ℕ := 128

instance : NeZero SectorSize := ⟨by decide⟩

/-- disk.h:52. -/
abbrev NumSectors : ℕ := 1024

/-- The contents of the disk. -/
abbrev Disk : Type := ℕ → Fin SectorSize → UInt8

/-- A block of memory, from a pointer on. -/
abbrev Buffer : Type := ℕ → UInt8

/-- What stops a call. -/
inductive FileSysFault
  /-- An access outside a buffer or an array. -/
  | outOfBounds
  /-- A sum that does not fit into an `int`. -/
  | overflow
  | assertion
  deriving DecidableEq

/-- An `int`. -/
def int32 (x : ℤ) : Except FileSysFault ℤ :=
  if -2 ^ 31 ≤ x ∧ x < 2 ^ 31 then .ok x else .error .overflow

/-- `bcopy(src, &dst[offset], n)`. -/
def bcopy (src dst : Buffer) (offset n : ℕ) : Buffer := fun k =>
  if offset ≤ k ∧ k < offset + n then src (k - offset) else dst k

/-- `ReadSector(sectorNumber, &data[offset])` (synchdisk.cc). -/
def readSector (disk : Disk) (sectorNumber : ℕ) (data : Buffer) (offset : ℕ) :
    Except FileSysFault Buffer :=
  if sectorNumber < NumSectors then
    .ok (bcopy (fun k => disk sectorNumber (Fin.ofNat SectorSize k)) data offset SectorSize)
  else .error .assertion

/-- `WriteSector(sectorNumber, &data[offset])`. -/
def writeSector (disk : Disk) (sectorNumber : ℕ) (data : Buffer) (offset : ℕ) :
    Except FileSysFault Disk :=
  if sectorNumber < NumSectors then
    .ok (Function.update disk sectorNumber fun k => data (offset + k))
  else .error .assertion

/-! ## The file header -/

/-- filehdr.h:20. -/
abbrev NumDirect : ℕ := 30

/-- filehdr.h:21. -/
abbrev MaxFileSize : ℕ := NumDirect * SectorSize

/-- `class FileHeader`, without `numSectors`. -/
structure FileHeader where
  numBytes : ℕ
  dataSectors : ℕ → ℕ

namespace FileHeader

/-- `ByteToSector` (filehdr.cc:107). -/
def byteToSector (hdr : FileHeader) (offset : ℕ) : Except FileSysFault ℕ :=
  if offset / SectorSize < NumDirect then .ok (hdr.dataSectors (offset / SectorSize))
  else .error .outOfBounds

/-- A byte of the file. -/
def byte (hdr : FileHeader) (disk : Disk) (k : ℕ) : UInt8 :=
  disk (hdr.dataSectors (k / SectorSize)) (Fin.ofNat SectorSize k)

/-- The sectors of the file are different sectors of the disk. -/
structure WellFormed (hdr : FileHeader) : Prop where
  length : hdr.numBytes ≤ MaxFileSize
  range : ∀ i, i * SectorSize < hdr.numBytes → hdr.dataSectors i < NumSectors
  distinct : ∀ i j, i * SectorSize < hdr.numBytes → j * SectorSize < hdr.numBytes →
    hdr.dataSectors i = hdr.dataSectors j → i = j

end FileHeader

/-! ## Reading and writing -/

section

variable (hdr : FileHeader)

/-- The loop of `ReadAt`, with `n` sectors left from `i` on. -/
def readSectors (disk : Disk) (firstSector : ℕ) : ℕ → ℕ → Buffer → Except FileSysFault Buffer
  | 0, _, buf => .ok buf
  | n + 1, i, buf => do
    let sector ← hdr.byteToSector (i * SectorSize)
    let buf ← readSector disk sector buf ((i - firstSector) * SectorSize)
    readSectors disk firstSector n (i + 1) buf

/-- The loop of `WriteAt`. -/
def writeSectors (buf : Buffer) (firstSector : ℕ) : ℕ → ℕ → Disk → Except FileSysFault Disk
  | 0, _, disk => .ok disk
  | n + 1, i, disk => do
    let sector ← hdr.byteToSector (i * SectorSize)
    let disk ← writeSector disk sector buf ((i - firstSector) * SectorSize)
    writeSectors buf firstSector n (i + 1) disk

/-- The check of a request: the position and the length, cut at the end of the file, or `none` if
    there is nothing to do. In front of the file both functions leave their buffer. -/
def request (numBytes position : ℤ) : Except FileSysFault (Option (ℕ × ℕ)) :=
  if numBytes ≤ 0 ∨ position ≥ hdr.numBytes then .ok none
  else do
    let upTo ← int32 (position + numBytes)
    let numBytes := if upTo > hdr.numBytes then hdr.numBytes - position else numBytes
    if 0 ≤ position then return some (position.toNat, numBytes.toNat) else .error .outOfBounds

/-- `ReadAt(&into[offset], numBytes, position)` (openfile.cc:118). -/
def readAt (disk : Disk) (memory into : Buffer) (offset : ℕ) (numBytes position : ℤ) :
    Except FileSysFault (ℕ × Buffer) := do
  match ← request hdr numBytes position with
  | none => return (0, into)
  | some (position, numBytes) =>
    let firstSector := position / SectorSize
    let lastSector := (position + numBytes - 1) / SectorSize
    let numSectors := 1 + lastSector - firstSector
    let buf ← readSectors hdr disk firstSector numSectors firstSector memory
    return (numBytes, bcopy (fun k => buf (position - firstSector * SectorSize + k)) into offset
      numBytes)

/-- In `WriteAt`: a sector that is written in part is read into its place of the buffer. -/
def readBack (disk : Disk) (memory buf : Buffer) (inPart : Prop) [Decidable inPart]
    (sector offset : ℕ) : Except FileSysFault Buffer :=
  if inPart then
    Prod.snd <$> readAt hdr disk memory buf offset SectorSize (sector * SectorSize : ℕ)
  else .ok buf

/-- `WriteAt` (openfile.cc:148); `memory` has the contents of the blocks that it allocates. -/
def writeAt (disk : Disk) (memory : ℕ → Buffer) (source : Buffer) (numBytes position : ℤ) :
    Except FileSysFault (ℕ × Disk) := do
  match ← request hdr numBytes position with
  | none => return (0, disk)
  | some (position, numBytes) =>
    let firstSector := position / SectorSize
    let lastSector := (position + numBytes - 1) / SectorSize
    let numSectors := 1 + lastSector - firstSector
    let firstAligned := position = firstSector * SectorSize
    let lastAligned := position + numBytes = (lastSector + 1) * SectorSize
    let buf ← readBack hdr disk (memory 1) (memory 0) (¬firstAligned) firstSector 0
    let buf ← readBack hdr disk (memory 2) buf
      (¬lastAligned ∧ (firstSector ≠ lastSector ∨ firstAligned)) lastSector
      ((lastSector - firstSector) * SectorSize)
    let buf := bcopy source buf (position - firstSector * SectorSize) numBytes
    let disk ← writeSectors hdr buf firstSector numSectors firstSector disk
    return (numBytes, disk)

end

/-! ## The loops -/

variable {hdr : FileHeader} {disk : Disk}

theorem byteToSector_eq (hwf : hdr.WellFormed) {i : ℕ} (hi : i * SectorSize < hdr.numBytes) :
    hdr.byteToSector (i * SectorSize) = .ok (hdr.dataSectors i) := by
  have hlength := hwf.length
  unfold FileHeader.byteToSector
  rw [Nat.mul_div_cancel i (by norm_num), if_pos]
  unfold MaxFileSize at hlength
  exact Nat.lt_of_mul_lt_mul_right (hi.trans_le hlength)

/-- The loop of `ReadAt` fills the buffer with the bytes of its sectors. -/
theorem readSectors_eq (hwf : hdr.WellFormed) {firstSector i n : ℕ} (hfirst : firstSector ≤ i)
    (hlast : ∀ j, j < i + n → j * SectorSize < hdr.numBytes) (buf : Buffer) :
    readSectors hdr disk firstSector n i buf = .ok fun k =>
      if (i - firstSector) * SectorSize ≤ k ∧ k < (i - firstSector + n) * SectorSize then
        hdr.byte disk (firstSector * SectorSize + k) else buf k := by
  induction n generalizing i buf with
  | zero =>
    unfold readSectors
    congr 1
    funext k
    rw [Nat.add_zero, if_neg (by omega)]
  | succ n ih =>
    have hi := hlast i (by omega)
    unfold readSectors
    rw [byteToSector_eq hwf hi, ok_bind, readSector, if_pos (hwf.range i hi), ok_bind,
      ih (by omega) fun j hj => hlast j (by omega)]
    congr 1
    funext k
    unfold bcopy SectorSize
    by_cases hbefore : k < (i - firstSector) * 128
    · rw [if_neg (by omega), if_neg (by omega), if_neg (by omega)]
    · by_cases hhere : k < (i - firstSector) * 128 + 128
      · rw [if_neg (by omega), if_pos (by omega), if_pos (by omega)]
        unfold FileHeader.byte SectorSize
        have hsector : (firstSector * 128 + k) / 128 = i := by omega
        have hoff : Fin.ofNat 128 (k - (i - firstSector) * 128) =
            Fin.ofNat 128 (firstSector * 128 + k) := by
          apply Fin.ext
          show (k - (i - firstSector) * 128) % 128 = (firstSector * 128 + k) % 128
          omega
        dsimp only
        rw [hsector, hoff]
      · by_cases hafter : k < (i - firstSector + (n + 1)) * 128
        · rw [if_pos (by omega), if_pos (by omega)]
        · rw [if_neg (by omega), if_neg (by omega), if_neg (by omega)]

/-- The loop of `WriteAt` changes its sectors only. -/
theorem writeSectors_eq (hwf : hdr.WellFormed) {firstSector i n : ℕ}
    (hlast : ∀ j, j < i + n → j * SectorSize < hdr.numBytes) (buf : Buffer) (disk : Disk) :
    ∃ disk', writeSectors hdr buf firstSector n i disk = .ok disk' ∧
      (∀ j, i ≤ j → j < i + n → ∀ off : Fin SectorSize, disk' (hdr.dataSectors j) off =
        buf ((j - firstSector) * SectorSize + off)) ∧
      ∀ s, (∀ j, i ≤ j → j < i + n → hdr.dataSectors j ≠ s) → disk' s = disk s := by
  induction n generalizing i disk with
  | zero => exact ⟨disk, rfl, fun j hi hj => by omega, fun _ _ => rfl⟩
  | succ n ih =>
    have hi := hlast i (by omega)
    unfold writeSectors
    rw [byteToSector_eq hwf hi, ok_bind, writeSector, if_pos (hwf.range i hi), ok_bind]
    obtain ⟨disk', hdisk', hwritten, hother⟩ := ih (i := i + 1) (fun j hj => hlast j (by omega))
      (Function.update disk (hdr.dataSectors i) fun k => buf ((i - firstSector) * SectorSize + k))
    refine ⟨disk', hdisk', ?_, ?_⟩
    · intro j hij hj off
      by_cases hji : j = i
      · have hnot : ∀ j', i + 1 ≤ j' → j' < i + 1 + n → hdr.dataSectors j' ≠ hdr.dataSectors i := by
          intro j' hlt hj' heq
          have := hwf.distinct j' i (hlast j' (by omega)) hi heq
          omega
        rw [hji, hother _ hnot, Function.update_self]
      · exact hwritten j (by omega) (by omega) off
    · intro s hs
      rw [hother s fun j hij hj => hs j (by omega) (by omega),
        Function.update_of_ne (hs i le_rfl (by omega)).symm]

/-! ## What is read and written -/

/-- The number of bytes from a position on that the request is for. -/
def FileHeader.count (hdr : FileHeader) (position numBytes : ℕ) : ℕ :=
  min (position + numBytes) hdr.numBytes - position

theorem request_eq {position numBytes : ℕ} (hpos : 0 < numBytes) (hlt : position < hdr.numBytes)
    (hend : position + numBytes < 2 ^ 31) :
    request hdr numBytes position = .ok (some (position, hdr.count position numBytes)) := by
  unfold request int32
  rw [if_neg (by omega), if_pos (by omega), ok_bind]
  dsimp only
  rw [if_pos (by omega)]
  unfold FileHeader.count
  congr 3
  split_ifs <;> omega

/-- **`ReadAt`** reads the bytes of the range. -/
theorem readAt_eq (hwf : hdr.WellFormed) {position numBytes : ℕ} (hpos : 0 < numBytes)
    (hlt : position < hdr.numBytes)
    (hend : position + numBytes < 2 ^ 31) (memory into : Buffer) (offset : ℕ) :
    readAt hdr disk memory into offset numBytes position =
      .ok (hdr.count position numBytes, bcopy (fun k => hdr.byte disk (position + k)) into offset
        (hdr.count position numBytes)) := by
  have hcount : 0 < hdr.count position numBytes ∧
      position + hdr.count position numBytes ≤ hdr.numBytes := by
    unfold FileHeader.count
    omega
  obtain ⟨hcount, hle⟩ := hcount
  unfold readAt
  rw [request_eq hpos hlt hend, ok_bind]
  dsimp only
  generalize hdr.count position numBytes = n at hcount hle
  have hsectors : ∀ j, j < position / SectorSize +
      (1 + (position + n - 1) / SectorSize - position / SectorSize) →
      j * SectorSize < hdr.numBytes := by
    unfold SectorSize
    omega
  rw [readSectors_eq hwf le_rfl hsectors, ok_bind]
  show Except.ok (n, _) = Except.ok (n, _)
  congr 2
  funext k
  unfold bcopy SectorSize
  by_cases hk : offset ≤ k ∧ k < offset + n
  · rw [if_pos hk, if_pos hk]
    dsimp only
    rw [if_pos (by omega)]
    congr 1
    omega
  · rw [if_neg hk, if_neg hk]

/-- A sector is read back up to the end of the file. -/
theorem readBack_eq (hwf : hdr.WellFormed) {firstSector i : ℕ} (hfirst : firstSector ≤ i)
    (hi : i * SectorSize < hdr.numBytes) (disk : Disk) (memory buf : Buffer) (inPart : Prop)
    [Decidable inPart] :
    readBack hdr disk memory buf inPart i ((i - firstSector) * SectorSize) =
      .ok fun k => if inPart ∧ (i - firstSector) * SectorSize ≤ k ∧
          k < (i - firstSector) * SectorSize + SectorSize ∧
          firstSector * SectorSize + k < hdr.numBytes then
        hdr.byte disk (firstSector * SectorSize + k) else buf k := by
  have hlength := hwf.length
  unfold readBack
  by_cases hpart : inPart
  · rw [if_pos hpart,
      readAt_eq hwf (by norm_num) hi (by unfold MaxFileSize NumDirect SectorSize at *; omega)]
    show Except.ok _ = Except.ok _
    congr 1
    funext k
    unfold bcopy FileHeader.count SectorSize
    unfold SectorSize at hi
    dsimp only
    by_cases hk : (i - firstSector) * 128 ≤ k ∧ k < (i - firstSector) * 128 + 128 ∧
        firstSector * 128 + k < hdr.numBytes
    · rw [if_pos (by omega), if_pos ⟨hpart, hk⟩]
      congr 1
      omega
    · rw [if_neg (by omega), if_neg fun h => hk h.2]
  · rw [if_neg hpart]
    simp only [hpart, false_and, if_false]

/-- **`WriteAt`** writes the bytes of the range; behind the end of the file it writes what the fresh
    buffer has there. -/
theorem writeAt_eq (hwf : hdr.WellFormed) {position numBytes : ℕ} (hpos : 0 < numBytes)
    (hlt : position < hdr.numBytes) (hend : position + numBytes < 2 ^ 31) (disk : Disk)
    (memory : ℕ → Buffer) (source : Buffer) :
    ∃ disk', writeAt hdr disk memory source numBytes position =
        .ok (hdr.count position numBytes, disk') ∧
      (∀ k, position / SectorSize ≤ k / SectorSize →
        k / SectorSize ≤ (position + hdr.count position numBytes - 1) / SectorSize →
        hdr.byte disk' k =
          if position ≤ k ∧ k < position + hdr.count position numBytes then source (k - position)
          else if k < hdr.numBytes then hdr.byte disk k
          else memory 0 (k - position / SectorSize * SectorSize)) ∧
      ∀ s, (∀ i, position / SectorSize ≤ i →
          i ≤ (position + hdr.count position numBytes - 1) / SectorSize → hdr.dataSectors i ≠ s) →
        disk' s = disk s := by
  have hcount : 0 < hdr.count position numBytes ∧
      position + hdr.count position numBytes ≤ hdr.numBytes := by
    unfold FileHeader.count
    omega
  obtain ⟨hcount, hle⟩ := hcount
  unfold writeAt
  rw [request_eq hpos hlt hend, ok_bind]
  dsimp only
  generalize hdr.count position numBytes = n at hcount hle
  generalize hfirst : position / SectorSize = firstSector
  generalize hlast : (position + n - 1) / SectorSize = lastSector
  have hsectors : ∀ j, j < firstSector + (1 + lastSector - firstSector) →
      j * SectorSize < hdr.numBytes := by
    unfold SectorSize at *
    omega
  have hfirstLast : firstSector ≤ lastSector := by
    unfold SectorSize at *
    omega
  have hreadFirst := readBack_eq hwf (le_refl firstSector) (hsectors firstSector (by omega)) disk
    (memory 1) (memory 0) (¬position = firstSector * SectorSize)
  have hreadLast (buf : Buffer) := readBack_eq hwf hfirstLast (hsectors lastSector (by omega)) disk
    (memory 2) buf (¬position + n = (lastSector + 1) * SectorSize ∧
      (firstSector ≠ lastSector ∨ position = firstSector * SectorSize))
  rw [Nat.sub_self, Nat.zero_mul] at hreadFirst
  rw [hreadFirst, ok_bind, hreadLast, ok_bind]
  obtain ⟨disk', hwrite, hwritten, hother⟩ := writeSectors_eq hwf hsectors _ disk
  refine ⟨disk', by rw [hwrite, ok_bind, pure_eq_ok], ?_,
    fun s hs => hother s fun i hi hlt => hs i hi (by omega)⟩
  intro k hlow hhigh
  have hk := hwritten (k / SectorSize) hlow (by omega) (Fin.ofNat SectorSize k)
  have hplace : (k / SectorSize - firstSector) * SectorSize + (Fin.ofNat SectorSize k : ℕ) =
      k - firstSector * SectorSize := by
    show (k / 128 - firstSector) * 128 + k % 128 = k - firstSector * 128
    unfold SectorSize at hlow
    omega
  rw [hplace] at hk
  unfold FileHeader.byte at hk ⊢
  rw [hk]
  unfold bcopy SectorSize
  unfold SectorSize at *
  dsimp only
  rw [show firstSector * 128 + (k - firstSector * 128) = k by omega]
  by_cases hin : position ≤ k ∧ k < position + n
  · rw [if_pos (by omega), if_pos hin]
    congr 1
    omega
  · rw [if_neg (by omega), if_neg hin]
    by_cases hfile : k < hdr.numBytes
    · rw [if_pos hfile]
      split_ifs with hpartLast hpartFirst
      · rfl
      · rfl
      · omega
    · rw [if_neg hfile, if_neg (by omega), if_neg (by omega)]

/-! ## The array law -/

/-- How many bytes of the file the range has. -/
def FileHeader.rangeLength (hdr : FileHeader) (numBytes position : ℤ) : ℕ :=
  (min (position + numBytes) hdr.numBytes - position).toNat

/-- **The array law**, whatever is in fresh memory: `WriteAt` changes the bytes of the range to the
    given ones, and no other byte of the disk, and returns their number; `ReadAt` returns the bytes
    of the range. -/
def ArrayLaw (hdr : FileHeader) (disk : Disk) (source into : Buffer) (numBytes position : ℤ) :
    Prop :=
  ∀ memory : ℕ → Buffer,
    (∃ disk', writeAt hdr disk memory source numBytes position =
        .ok (hdr.rangeLength numBytes position, disk') ∧
      (∀ k < hdr.rangeLength numBytes position, hdr.byte disk' (position.toNat + k) = source k) ∧
      ∀ s off, (∀ k < hdr.rangeLength numBytes position,
          hdr.dataSectors ((position.toNat + k) / SectorSize) = s →
          Fin.ofNat SectorSize (position.toNat + k) ≠ off) →
        disk' s off = disk s off) ∧
    ∃ into', readAt hdr disk (memory 0) into 0 numBytes position =
        .ok (hdr.rangeLength numBytes position, into') ∧
      (∀ k < hdr.rangeLength numBytes position, into' k = hdr.byte disk (position.toNat + k)) ∧
      ∀ k, hdr.rangeLength numBytes position ≤ k → into' k = into k

/-- There is nothing to do, or the end of the range is an `int`, and the range does not reach into a
    sector that the file fills in part only. -/
def InFullSectors (hdr : FileHeader) (numBytes position : ℤ) : Prop :=
  numBytes ≤ 0 ∨ position ≥ hdr.numBytes ∨ position + numBytes < 2 ^ 31 ∧
    min (position + numBytes) hdr.numBytes ≤ hdr.numBytes / SectorSize * SectorSize

/-- A byte of the file has its own place on the disk. -/
theorem place_injective (hwf : hdr.WellFormed) {k j : ℕ}
    (hk : k / SectorSize * SectorSize < hdr.numBytes) (hj : j < hdr.numBytes)
    (hsector : hdr.dataSectors (j / SectorSize) = hdr.dataSectors (k / SectorSize))
    (hoff : Fin.ofNat SectorSize j = Fin.ofNat SectorSize k) : j = k := by
  have hindex := hwf.distinct (j / SectorSize) (k / SectorSize) (by unfold SectorSize; omega) hk
    hsector
  have hmod : j % 128 = k % 128 := congrArg Fin.val hoff
  unfold SectorSize at hindex
  omega

theorem request_none {numBytes position : ℤ} (h : numBytes ≤ 0 ∨ position ≥ hdr.numBytes) :
    request hdr numBytes position = .ok none := if_pos h

/-- With nothing to do both return 0. -/
theorem arrayLaw_of_nothing {numBytes position : ℤ} (h : numBytes ≤ 0 ∨ position ≥ hdr.numBytes)
    (source into : Buffer) : ArrayLaw hdr disk source into numBytes position := by
  have hzero : hdr.rangeLength numBytes position = 0 := by
    unfold FileHeader.rangeLength
    omega
  intro memory
  unfold readAt writeAt
  rw [request_none h, hzero]
  exact ⟨⟨disk, rfl, nofun, fun _ _ _ => rfl⟩, into, rfl, nofun, fun _ _ => rfl⟩

variable {position numBytes : ℕ}

theorem rangeLength_natCast :
    hdr.rangeLength numBytes position = hdr.count position numBytes := by
  unfold FileHeader.rangeLength FileHeader.count
  omega

/-- A range in full sectors. -/
theorem arrayLaw_of_full (hwf : hdr.WellFormed) (hpos : 0 < numBytes)
    (hlt : position < hdr.numBytes)
    (hend : position + numBytes < 2 ^ 31)
    (hfull : min (position + numBytes) hdr.numBytes ≤ hdr.numBytes / SectorSize * SectorSize)
    (source into : Buffer) : ArrayLaw hdr disk source into numBytes position := by
  intro memory
  rw [rangeLength_natCast, Int.toNat_natCast]
  have hcount : 0 < hdr.count position numBytes ∧
      position + hdr.count position numBytes = min (position + numBytes) hdr.numBytes := by
    unfold FileHeader.count
    omega
  obtain ⟨hcount, hupTo⟩ := hcount
  constructor
  · obtain ⟨disk', hwrite, hbytes, hother⟩ := writeAt_eq hwf hpos hlt hend disk memory source
    generalize hdr.count position numBytes = n at *
    refine ⟨disk', hwrite, ?_, ?_⟩
    · intro k hk
      rw [hbytes (position + k) (by unfold SectorSize; omega) (by unfold SectorSize; omega),
        if_pos (by omega), Nat.add_sub_cancel_left]
    · intro s off hs
      by_cases hsector : ∀ i, position / SectorSize ≤ i →
          i ≤ (position + n - 1) / SectorSize → hdr.dataSectors i ≠ s
      · rw [hother s hsector]
      · push Not at hsector
        obtain ⟨i, hlow, hhigh, rfl⟩ := hsector
        -- The byte of the file that is there.
        obtain ⟨k, hindex, hplace⟩ : ∃ k, k / SectorSize = i ∧ Fin.ofNat SectorSize k = off := by
          have hoff : (off : ℕ) < 128 := off.isLt
          refine ⟨i * SectorSize + off, ?_, ?_⟩
          · show (i * 128 + off) / 128 = i
            omega
          · apply Fin.ext
            show (i * 128 + off) % 128 = off
            omega
        subst hindex hplace
        have hbyte := hbytes k hlow hhigh
        unfold FileHeader.byte at hbyte
        rw [hbyte]
        have hnot : ¬(position ≤ k ∧ k < position + n) := by
          rintro ⟨hle, hk⟩
          apply hs (k - position) (by omega)
          · rw [Nat.add_sub_cancel' hle]
          · rw [Nat.add_sub_cancel' hle]
        rw [if_neg hnot, if_pos]
        unfold SectorSize at *
        omega
  · refine ⟨_, readAt_eq hwf hpos hlt hend (memory 0) into 0, ?_, ?_⟩
    · intro k hk
      unfold bcopy
      rw [if_pos (by omega), Nat.sub_zero]
    · intro k hk
      unfold bcopy
      rw [if_neg (by omega)]

/-- Elsewhere the slack behind the end of the file gets what is in the fresh buffer. -/
theorem not_arrayLaw_of_slack (hwf : hdr.WellFormed) (hpos : 0 < numBytes)
    (hlt : position < hdr.numBytes) (hend : position + numBytes < 2 ^ 31)
    (hslack : hdr.numBytes / SectorSize * SectorSize < min (position + numBytes) hdr.numBytes)
    (source into : Buffer) : ¬ArrayLaw hdr disk source into numBytes position := by
  intro hlaw
  have hupTo : position + hdr.count position numBytes = min (position + numBytes) hdr.numBytes := by
    unfold FileHeader.count
    omega
  -- The last byte of the last sector.
  obtain ⟨k, hk⟩ : ∃ k, k = hdr.numBytes / SectorSize * SectorSize + (SectorSize - 1) := ⟨_, rfl⟩
  let memory : ℕ → Buffer := fun _ _ => hdr.byte disk k + 1
  obtain ⟨⟨disk', hwrite, -, hsame⟩, -⟩ := hlaw memory
  obtain ⟨disk'', hwrite', hbytes, -⟩ := writeAt_eq hwf hpos hlt hend disk memory source
  rw [rangeLength_natCast, Int.toNat_natCast] at *
  generalize hdr.count position numBytes = n at *
  obtain rfl : disk' = disk'' := by
    have := Except.ok.inj (hwrite.symm.trans hwrite')
    exact congrArg Prod.snd this
  have hkept := hsame (hdr.dataSectors (k / SectorSize)) (Fin.ofNat SectorSize k) <| by
    intro j hj hsector hoff
    have := place_injective hwf (k := k) (j := position + j) (by unfold SectorSize at *; omega)
      (by omega) hsector hoff
    unfold SectorSize at *
    omega
  have hbyte := hbytes k (by unfold SectorSize at *; omega) (by unfold SectorSize at *; omega)
  rw [if_neg (by unfold SectorSize at *; omega), if_neg (by unfold SectorSize at *; omega)] at hbyte
  have hone : hdr.byte disk k = hdr.byte disk k + 1 := hkept.symm.trans hbyte
  simp at hone

/-- **A file obeys the array law if and only if** the end of the range is an `int`, and the range
    does not reach into a sector that the file fills in part only (or there is nothing to do). -/
theorem array_law_iff (hwf : hdr.WellFormed) (disk : Disk) (source into : Buffer) (numBytes : ℤ)
    {position : ℤ} (hposition : 0 ≤ position) :
    ArrayLaw hdr disk source into numBytes position ↔ InFullSectors hdr numBytes position := by
  obtain ⟨position, rfl⟩ := Int.eq_ofNat_of_zero_le hposition
  by_cases hnothing : numBytes ≤ 0 ∨ (position : ℤ) ≥ hdr.numBytes
  · exact ⟨fun _ => hnothing.imp_right .inl, fun _ => arrayLaw_of_nothing hnothing source into⟩
  · obtain ⟨numBytes, rfl⟩ := Int.eq_ofNat_of_zero_le (show 0 ≤ numBytes by omega)
    have hpos : 0 < numBytes := by omega
    have hlt : position < hdr.numBytes := by omega
    by_cases hend : position + numBytes < 2 ^ 31
    · by_cases hfull : min (position + numBytes) hdr.numBytes ≤
          hdr.numBytes / SectorSize * SectorSize
      · refine ⟨fun _ => .inr (.inr ⟨by exact_mod_cast hend, by exact_mod_cast hfull⟩), ?_⟩
        exact fun _ => arrayLaw_of_full hwf hpos hlt hend hfull source into
      · refine ⟨fun h => absurd h ?_, ?_⟩
        · exact not_arrayLaw_of_slack hwf hpos hlt hend (by omega) source into
        · rintro (h | h | ⟨-, h⟩)
          · omega
          · omega
          · exact absurd (by exact_mod_cast h) hfull
    · refine ⟨?_, ?_⟩
      · intro hlaw
        obtain ⟨⟨disk', hwrite, -⟩, -⟩ := hlaw fun _ _ => 0
        unfold writeAt request int32 at hwrite
        rw [if_neg hnothing, if_neg (by omega)] at hwrite
        cases hwrite
      · rintro (h | h | ⟨h, -⟩)
        · omega
        · omega
        · omega

/-- A write across the two sectors of a file that fills both. -/
theorem array_law_iff_full : ArrayLaw ⟨256, fun i => i + 5⟩ (fun _ _ => 0) (fun k => UInt8.ofNat k)
    (fun _ => 0) 200 3 := by
  have hwf : FileHeader.WellFormed ⟨256, fun i => i + 5⟩ := by
    refine ⟨by decide, ?_, ?_⟩
    · intro i hi
      show i + 5 < 1024
      have : i * 128 < 256 := hi
      omega
    · intro i j _ _ heq
      have : i + 5 = j + 5 := heq
      omega
  exact (array_law_iff hwf _ _ _ 200 (by norm_num)).mpr (by unfold InFullSectors; decide)

/-- A file of five bytes is written. -/
theorem writeAt_slack : ¬ArrayLaw ⟨5, fun _ => 7⟩ (fun _ _ => 1) (fun _ => 2) (fun _ => 0) 5 0 := by
  have hwf : FileHeader.WellFormed ⟨5, fun _ => 7⟩ := by
    refine ⟨by decide, fun _ _ => show 7 < 1024 by norm_num, ?_⟩
    intro i j hi hj _
    have hi' : i * 128 < 5 := hi
    have hj' : j * 128 < 5 := hj
    omega
  have hlaw : ¬ArrayLaw ⟨5, fun _ => 7⟩ (fun _ _ => 1) (fun _ => 2) (fun _ => 0) (5 : ℕ) (0 : ℕ) :=
    not_arrayLaw_of_slack hwf (by norm_num) (by decide) (by norm_num) (by decide) _ _
  exact_mod_cast hlaw

end Nachos.FileSys
