import Nachos.FileSys.Records

/-!
# The file system

`class FileSystem` (`filesys/filesys.cc`) over the disk: formatting, `Create`, `Remove` and `Open`,
with `FileHeader::Allocate` and `Deallocate` (`filesys/filehdr.cc`). There is one call at a time. The
contents of the blocks that a call gets from `new` are a parameter of the call.

* `FileSystem.used`: the sectors that the disk accounts for.
* `fetchMap_eq`, `fetchDirectory_eq`, `writeBackMap_eq`, `writeBackDirectory_eq`: the two files.
-/

namespace Nachos.FileSys

open Nachos.Lib
open Nachos.Userprog (BitMap)

/-- filesys.cc:58. -/
abbrev FreeMapSector : ℕ := 0

/-- filesys.cc:59. -/
abbrev DirectorySector : ℕ := 1

/-- filesys.cc:64. -/
abbrev FreeMapFileSize : ℕ := 128

/-! ## File headers -/

/-- `Allocate` (filehdr.cc:41); `none` for `FALSE`. The slots are not counted. -/
def allocate (hdr : Buffer) (freeMap : BitMap) (fileSize : ℕ) : Option (Buffer × BitMap) :=
  if freeMap.numClear < sectorsFor fileSize then none
  else
    let (sectors, freeMap) := BitMap.findMany (sectorsFor fileSize) freeMap
    some (putSectors (putInt (putInt hdr 0 fileSize) 4 (sectorsFor fileSize)) 8 sectors, freeMap)

/-- The loop of `Deallocate`, with `n` sectors left from `i` on. -/
def deallocateFrom (hdr : Buffer) : ℕ → ℕ → BitMap → Except FileSysFault BitMap
  | 0, _, freeMap => .ok freeMap
  | n + 1, i, freeMap =>
    match freeMap.test (dataSector hdr i) with
    | some true => deallocateFrom hdr n (i + 1) (freeMap.clear (dataSector hdr i).toNat)
    | _ => .error .assertion

/-- `Deallocate` (filehdr.cc:61). -/
def deallocate (hdr : Buffer) (freeMap : BitMap) : Except FileSysFault BitMap :=
  deallocateFrom hdr (getInt hdr 4).toNat 0 freeMap

/-- `FetchFrom` (filehdr.cc:77). -/
def fetchHeader (disk : Disk) (hdr : Buffer) (sector : ℤ) : Except FileSysFault Buffer :=
  if 0 ≤ sector then readSector disk sector.toNat hdr 0 else .error .assertion

/-- `WriteBack` (filehdr.cc:90). -/
def writeBackHeader (disk : Disk) (hdr : Buffer) (sector : ℤ) : Except FileSysFault Disk :=
  if 0 ≤ sector then writeSector disk sector.toNat hdr 0 else .error .assertion

/-- `OpenFile(sector)` (openfile.cc:31). -/
def openSector (disk : Disk) (memory : Buffer) (sector : ℤ) : Except FileSysFault FileHeader :=
  FileHeader.ofBuffer <$> fetchHeader disk memory sector

/-! ## The two files of the file system -/

/-- `BitMap(NumSectors)` and `FetchFrom` (bitmap.cc:149). -/
def fetchMap (file : FileHeader) (disk : Disk) (memory : Buffer) : Except FileSysFault BitMap :=
  (fun x => ofBytes NumSectors x.2) <$>
    readAt file disk memory (bytes (.new NumSectors)) 0 FreeMapFileSize 0

/-- `WriteBack` (bitmap.cc:162). -/
def writeBackMap (file : FileHeader) (disk : Disk) (memory : ℕ → Buffer) (freeMap : BitMap) :
    Except FileSysFault Disk :=
  Prod.snd <$> writeAt file disk memory (bytes freeMap) FreeMapFileSize 0

/-- `FetchFrom` (directory.cc:52). -/
def fetchDirectory (file : FileHeader) (disk : Disk) (memory table : Buffer) :
    Except FileSysFault Buffer :=
  Prod.snd <$> readAt file disk memory table 0 DirectoryFileSize 0

/-- `WriteBack` (directory.cc:65). -/
def writeBackDirectory (file : FileHeader) (disk : Disk) (memory : ℕ → Buffer) (table : Buffer) :
    Except FileSysFault Disk :=
  Prod.snd <$> writeAt file disk memory table DirectoryFileSize 0

/-! ## `class FileSystem` -/

/-- The disk and the two files that are left open. -/
structure FileSystem where
  disk : Disk
  freeMapFile : FileHeader
  directoryFile : FileHeader

namespace FileSystem

/-- `FileSystem(TRUE)` (filesys.cc:80), on a disk with any contents. -/
def format (disk : Disk) (memory : ℕ → Buffer) : Except FileSysFault FileSystem :=
  let freeMap := ((BitMap.new NumSectors).mark FreeMapSector).mark DirectorySector
  match allocate (memory 0) freeMap FreeMapFileSize with
  | none => .error .assertion
  | some (mapHdr, freeMap) =>
    match allocate (memory 1) freeMap DirectoryFileSize with
    | none => .error .assertion
    | some (dirHdr, freeMap) => do
      let disk ← writeBackHeader disk mapHdr FreeMapSector
      let disk ← writeBackHeader disk dirHdr DirectorySector
      let freeMapFile ← openSector disk (memory 2) FreeMapSector
      let directoryFile ← openSector disk (memory 3) DirectorySector
      let disk ← writeBackMap freeMapFile disk (fun k => memory (k + 5)) freeMap
      let disk ← writeBackDirectory directoryFile disk (fun k => memory (k + 8))
        (newDirectory (memory 4))
      return ⟨disk, freeMapFile, directoryFile⟩

variable (s : FileSystem)

/-- `Create` (filesys.cc:174). -/
def create (name : Buffer) (initialSize : ℕ) (memory : ℕ → Buffer) :
    Except FileSysFault (Bool × FileSystem) := do
  let directory ← fetchDirectory s.directoryFile s.disk (memory 1) (newDirectory (memory 0))
  if directoryFind directory name ≠ -1 then return (false, s)
  else
    let freeMap ← fetchMap s.freeMapFile s.disk (memory 2)
    match freeMap.find with
    | none => return (false, s)
    | some (sector, freeMap) =>
      match directoryAdd directory name sector with
      | none => return (false, s)
      | some directory =>
        match allocate (memory 3) freeMap initialSize with
        | none => return (false, s)
        | some (hdr, freeMap) =>
          let disk ← writeBackHeader s.disk hdr sector
          let disk ← writeBackDirectory s.directoryFile disk (fun k => memory (k + 4)) directory
          let disk ← writeBackMap s.freeMapFile disk (fun k => memory (k + 7)) freeMap
          return (true, { s with disk := disk })

/-- `Open` (filesys.cc:228); `none` for `NULL`. -/
def openFile (name : Buffer) (memory : ℕ → Buffer) : Except FileSysFault (Option FileHeader) := do
  let directory ← fetchDirectory s.directoryFile s.disk (memory 1) (newDirectory (memory 0))
  if 0 ≤ directoryFind directory name then
    some <$> openSector s.disk (memory 2) (directoryFind directory name)
  else return none

/-- `Remove` (filesys.cc:257). -/
def remove (name : Buffer) (memory : ℕ → Buffer) : Except FileSysFault (Bool × FileSystem) := do
  let directory ← fetchDirectory s.directoryFile s.disk (memory 1) (newDirectory (memory 0))
  let sector := directoryFind directory name
  if sector = -1 then return (false, s)
  else
    let fileHdr ← fetchHeader s.disk (memory 2) sector
    let freeMap ← fetchMap s.freeMapFile s.disk (memory 3)
    let freeMap ← deallocate fileHdr freeMap
    if 0 ≤ sector ∧ sector < NumSectors then
      let freeMap := freeMap.clear sector.toNat
      let directory := (directoryRemove directory name).getD directory
      let disk ← writeBackMap s.freeMapFile s.disk (fun k => memory (k + 4)) freeMap
      let disk ← writeBackDirectory s.directoryFile disk (fun k => memory (k + 7)) directory
      return (true, { s with disk := disk })
    else .error .assertion

end FileSystem

/-! ## What is on the disk -/

/-- The header in the sector. -/
def headerAt (disk : Disk) (sector : ℤ) : Buffer := fun k =>
  if k < SectorSize then disk sector.toNat (Fin.ofNat SectorSize k) else 0

/-- The sectors of the data, in the slots of the header. -/
def dataSectors (hdr : Buffer) : Multiset ℤ :=
  (List.range (min (getInt hdr 4).toNat NumDirect)).map (dataSector hdr)

namespace FileSystem

variable (s : FileSystem)

/-- The directory on the disk. -/
def table : Buffer := fun k =>
  if k < DirectoryFileSize then s.directoryFile.byte s.disk k else 0

/-- The free map on the disk. -/
def freeMap : BitMap :=
  ofBytes NumSectors fun k => if k < FreeMapFileSize then s.freeMapFile.byte s.disk k else 0

/-- The sectors of an entry of the directory: its header, and its data. -/
def block (i : ℕ) : Multiset ℤ :=
  if inUse s.table i then
    entrySector s.table i ::ₘ dataSectors (headerAt s.disk (entrySector s.table i))
  else 0

/-- The sectors that are used. -/
def used : Multiset ℤ :=
  FreeMapSector ::ₘ DirectorySector ::ₘ
    (dataSectors (headerAt s.disk FreeMapSector) + dataSectors (headerAt s.disk DirectorySector) +
      ∑ i ∈ Finset.range NumDirEntries, s.block i)

end FileSystem

/-! ## The lemmas of the two files -/

/-- The file of the free map. -/
structure MapFile (f : FileHeader) : Prop where
  numBytes : f.numBytes = FreeMapFileSize
  sector : f.dataSectors 0 = 2

/-- The file of the directory. -/
structure DirFile (f : FileHeader) : Prop where
  numBytes : f.numBytes = DirectoryFileSize
  first : f.dataSectors 0 = 3
  second : f.dataSectors 1 = 4

section

variable {f : FileHeader}

theorem MapFile.wellFormed (h : MapFile f) : f.WellFormed := by
  have hzero {i : ℕ} (hi : i * SectorSize < f.numBytes) : i = 0 := by
    rw [h.numBytes] at hi
    unfold SectorSize FreeMapFileSize at hi
    omega
  constructor
  · rw [h.numBytes]
    decide
  · intro i hi
    rw [hzero hi, h.sector]
    decide
  · intro i j hi hj _
    rw [hzero hi, hzero hj]

theorem DirFile.wellFormed (h : DirFile f) : f.WellFormed := by
  have hcases {i : ℕ} (hi : i * SectorSize < f.numBytes) : i = 0 ∨ i = 1 := by
    rw [h.numBytes] at hi
    unfold SectorSize DirectoryFileSize NumDirEntries at hi
    omega
  constructor
  · rw [h.numBytes]
    decide
  · intro i hi
    rcases hcases hi with rfl | rfl
    · rw [h.first]
      decide
    · rw [h.second]
      decide
  · intro i j hi hj heq
    rcases hcases hi with rfl | rfl <;> rcases hcases hj with rfl | rfl <;>
      simp_all [h.first, h.second]

/-- A file is read as a whole. -/
theorem readAt_whole (hwf : f.WellFormed) (hpos : 0 < f.numBytes) (disk : Disk)
    (memory into : Buffer) :
    readAt f disk memory into 0 f.numBytes 0 =
      .ok (f.numBytes, fun k => if k < f.numBytes then f.byte disk k else into k) := by
  have hlength := hwf.length
  have hend : 0 + f.numBytes < 2 ^ 31 := by
    unfold MaxFileSize NumDirect SectorSize at hlength
    omega
  have hread : readAt f disk memory into 0 f.numBytes (0 : ℕ) = _ :=
    readAt_eq hwf hpos hpos hend memory into 0
  have hcount : f.count 0 f.numBytes = f.numBytes := by
    unfold FileHeader.count
    omega
  rw [hcount, Nat.cast_zero] at hread
  rw [hread]
  congr 2
  funext k
  unfold bcopy
  simp

/-- A file is written as a whole. -/
theorem writeAt_whole (hwf : f.WellFormed) (hpos : 0 < f.numBytes) (disk : Disk)
    (memory : ℕ → Buffer) (source : Buffer) :
    ∃ disk', writeAt f disk memory source f.numBytes 0 = .ok (f.numBytes, disk') ∧
      (∀ k < f.numBytes, f.byte disk' k = source k) ∧
      ∀ s, (∀ i, i * SectorSize < f.numBytes → f.dataSectors i ≠ s) → disk' s = disk s := by
  have hlength := hwf.length
  have hend : 0 + f.numBytes < 2 ^ 31 := by
    unfold MaxFileSize NumDirect SectorSize at hlength
    omega
  obtain ⟨disk', hwrite, hbytes, hother⟩ := writeAt_eq hwf hpos hpos hend disk memory source
  have hcount : f.count 0 f.numBytes = f.numBytes := by
    unfold FileHeader.count
    omega
  rw [hcount, Nat.cast_zero] at hwrite
  rw [hcount] at hbytes hother
  refine ⟨disk', hwrite, ?_, ?_⟩
  · intro k hk
    rw [hbytes k (by unfold SectorSize; omega) (by unfold SectorSize; omega), if_pos (by omega),
      Nat.sub_zero]
  · intro s hs
    refine hother s fun i _ hi => hs i ?_
    unfold SectorSize at *
    omega

end

namespace FileSystem

variable {s : FileSystem}

/-- **The free map is read.** -/
theorem fetchMap_eq (h : MapFile s.freeMapFile) (memory : Buffer) :
    ∃ freeMap, fetchMap s.freeMapFile s.disk memory = .ok freeMap ∧
      freeMap.numBits = NumSectors ∧ ∀ j < NumSectors, freeMap.map j = s.freeMap.map j := by
  have hread := readAt_whole h.wellFormed (by rw [h.numBytes]; decide) s.disk memory
    (bytes (.new NumSectors))
  rw [h.numBytes] at hread
  unfold fetchMap
  rw [hread]
  refine ⟨_, rfl, rfl, ?_⟩
  intro j hj
  refine map_ofBytes_congr ?_
  have hlt : j / 8 < FreeMapFileSize := by
    unfold NumSectors FreeMapFileSize at *
    omega
  simp only [hlt, if_true]

/-- **The directory is read.** -/
theorem fetchDirectory_eq (h : DirFile s.directoryFile) (memory memory' : Buffer) :
    fetchDirectory s.directoryFile s.disk memory (newDirectory memory') = .ok s.table := by
  have hread := readAt_whole h.wellFormed (by rw [h.numBytes]; decide) s.disk memory
    (newDirectory memory')
  rw [h.numBytes] at hread
  unfold fetchDirectory
  rw [hread]
  show Except.ok _ = Except.ok _
  congr 1
  funext k
  show (if k < DirectoryFileSize then _ else newDirectory memory' k) = s.table k
  unfold table
  by_cases hk : k < DirectoryFileSize
  · rw [if_pos hk, if_pos hk]
  · rw [if_neg hk, if_neg hk]
    exact if_neg hk

/-- **The free map is written.** -/
theorem writeBackMap_eq {f : FileHeader} (h : MapFile f) (disk : Disk) (memory : ℕ → Buffer)
    (freeMap : BitMap) :
    ∃ disk', writeBackMap f disk memory freeMap = .ok disk' ∧
      (∀ k < FreeMapFileSize, f.byte disk' k = bytes freeMap k) ∧
      ∀ x, x ≠ 2 → disk' x = disk x := by
  obtain ⟨disk', hwrite, hbytes, hother⟩ :=
    writeAt_whole h.wellFormed (by rw [h.numBytes]; decide) disk memory (bytes freeMap)
  rw [h.numBytes] at hwrite hbytes hother
  refine ⟨disk', by unfold writeBackMap; rw [hwrite]; rfl, hbytes, ?_⟩
  intro x hx
  refine hother x fun i hi => ?_
  obtain rfl : i = 0 := by
    unfold SectorSize FreeMapFileSize at hi
    omega
  rw [h.sector]
  exact hx.symm

/-- **The directory is written.** -/
theorem writeBackDirectory_eq {f : FileHeader} (h : DirFile f) (disk : Disk) (memory : ℕ → Buffer)
    (table : Buffer) :
    ∃ disk', writeBackDirectory f disk memory table = .ok disk' ∧
      (∀ k < DirectoryFileSize, f.byte disk' k = table k) ∧
      ∀ x, x ≠ 3 → x ≠ 4 → disk' x = disk x := by
  obtain ⟨disk', hwrite, hbytes, hother⟩ :=
    writeAt_whole h.wellFormed (by rw [h.numBytes]; decide) disk memory table
  rw [h.numBytes] at hwrite hbytes hother
  refine ⟨disk', by unfold writeBackDirectory; rw [hwrite]; rfl, hbytes, ?_⟩
  intro x hx hx'
  refine hother x fun i hi => ?_
  have hcases : i = 0 ∨ i = 1 := by
    unfold SectorSize DirectoryFileSize NumDirEntries at hi
    omega
  rcases hcases with rfl | rfl
  · rw [h.first]
    exact hx.symm
  · rw [h.second]
    exact hx'.symm

end FileSystem

end Nachos.FileSys
