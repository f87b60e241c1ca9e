import Nachos.FileSys.FileSystem

/-!
# The sectors of the disk

What `Create` and `Remove` do to the free map, the directory and the headers, which they write back
one after the other.

* `create_refused`, `create_created`, `remove_missing`, `remove_removed`: what a call does.
* `sectors_accounted_iff`: exactly when the disk accounts for its sectors.
-/

namespace Nachos.FileSys

open Nachos.Lib
open Nachos.Userprog (BitMap)

/-! ## Views of the disk -/

section

variable {f : FileHeader} {disk disk' : Disk}

theorem MapFile.byte_congr (h : MapFile f) (hdisk : disk' 2 = disk 2) {k : ℕ}
    (hk : k < FreeMapFileSize) : f.byte disk' k = f.byte disk k := by
  have hzero : k / SectorSize = 0 := Nat.div_eq_of_lt hk
  unfold FileHeader.byte
  rw [hzero, h.sector, hdisk]

theorem DirFile.byte_congr (h : DirFile f) (hfirst : disk' 3 = disk 3) (hsecond : disk' 4 = disk 4)
    {k : ℕ} (hk : k < DirectoryFileSize) : f.byte disk' k = f.byte disk k := by
  have hcases : k / SectorSize = 0 ∨ k / SectorSize = 1 := by
    unfold SectorSize
    unfold DirectoryFileSize NumDirEntries at hk
    omega
  unfold FileHeader.byte
  rcases hcases with hzero | hone
  · rw [hzero, h.first, hfirst]
  · rw [hone, h.second, hsecond]

theorem headerAt_congr {sector : ℤ} (h : disk' sector.toNat = disk sector.toNat) :
    headerAt disk' sector = headerAt disk sector := by
  unfold headerAt
  rw [h]

/-- What is in the sector of a header. -/
theorem getInt_headerAt {sector : ℤ} {hdr : Buffer} {p : ℕ}
    (h : disk sector.toNat = fun k : Fin SectorSize => hdr k) (hp : p + 4 ≤ SectorSize) :
    getInt (headerAt disk sector) p = getInt hdr p := by
  refine getInt_congr fun k _ hk => ?_
  have hlt : k < SectorSize := by omega
  unfold headerAt
  rw [if_pos hlt, h]
  show hdr (k % SectorSize) = hdr k
  rw [Nat.mod_eq_of_lt hlt]

/-- A header is read from its sector. -/
theorem fetchHeader_eq (disk : Disk) {sector : ℤ} (h : 0 ≤ sector) (h' : sector < NumSectors)
    (hdr : Buffer) :
    ∃ hdr', fetchHeader disk hdr sector = .ok hdr' ∧
      ∀ p, p + 4 ≤ SectorSize → getInt hdr' p = getInt (headerAt disk sector) p := by
  unfold fetchHeader readSector
  rw [if_pos h, if_pos (by omega)]
  refine ⟨_, rfl, fun p hp => getInt_congr fun k _ hk => ?_⟩
  have hlt : k < SectorSize := by omega
  unfold bcopy headerAt
  rw [if_pos ⟨Nat.zero_le k, by omega⟩, if_pos hlt, Nat.sub_zero]

theorem writeBackHeader_eq {sector : ℕ} (h : sector < NumSectors) (disk : Disk) (hdr : Buffer) :
    writeBackHeader disk hdr sector =
      .ok (Function.update disk sector fun k : Fin SectorSize => hdr k) := by
  unfold writeBackHeader writeSector
  rw [if_pos (Int.natCast_nonneg _), Int.toNat_natCast, if_pos h]
  simp only [Nat.zero_add]

end

namespace FileSystem

variable {s s' : FileSystem}

/-- The table is what was written last. -/
theorem table_eq {table : Buffer}
    (h : ∀ k < DirectoryFileSize, s.directoryFile.byte s.disk k = table k)
    (hzero : ∀ k, DirectoryFileSize ≤ k → table k = 0) : s.table = table := by
  funext k
  unfold FileSystem.table
  split_ifs with hk
  · exact h k hk
  · exact (hzero k (Nat.not_lt.mp hk)).symm

/-- So is the free map. -/
theorem freeMap_eq {freeMap : BitMap} {j : ℕ}
    (h : ∀ k < FreeMapFileSize, s.freeMapFile.byte s.disk k = bytes freeMap k)
    (hj : j < NumSectors) : s.freeMap.map j = freeMap.map j := by
  have hlt : j / 8 < FreeMapFileSize := by
    unfold FreeMapFileSize
    unfold NumSectors at hj
    omega
  rw [← map_ofBytes_bytes NumSectors freeMap j]
  refine map_ofBytes_congr ?_
  simp only [hlt, if_true]
  exact h _ hlt

theorem table_of_le {k : ℕ} (h : DirectoryFileSize ≤ k) : s.table k = 0 :=
  if_neg (Nat.not_lt.mpr h)

/-- The length in the header of an entry. -/
def lengthAt (s : FileSystem) (i : ℕ) : ℕ :=
  (getInt (headerAt s.disk (entrySector s.table i)) 0).toNat

/-- An entry is kept, with its header. -/
structure SameEntry (s s' : FileSystem) (i : ℕ) : Prop where
  table : ∀ k, 20 * i ≤ k → k < 20 * i + 20 → s'.table k = s.table k
  disk : inUse s.table i = true →
    s'.disk (entrySector s.table i).toNat = s.disk (entrySector s.table i).toNat

section

variable {i : ℕ} (h : s.SameEntry s' i)

include h

theorem SameEntry.inUse_eq : inUse s'.table i = inUse s.table i := inUse_congr h.table

theorem SameEntry.entrySector_eq : entrySector s'.table i = entrySector s.table i :=
  entrySector_congr h.table

theorem SameEntry.nameKey_eq : nameKey (entryName s'.table i) = nameKey (entryName s.table i) :=
  nameKey_congr h.table

theorem SameEntry.headerAt_eq (huse : inUse s.table i = true) :
    headerAt s'.disk (entrySector s'.table i) = headerAt s.disk (entrySector s.table i) := by
  rw [h.entrySector_eq, headerAt_congr (h.disk huse)]

theorem SameEntry.lengthAt_eq (huse : inUse s.table i = true) : s'.lengthAt i = s.lengthAt i := by
  unfold lengthAt
  rw [h.headerAt_eq huse]

theorem SameEntry.block_eq : s'.block i = s.block i := by
  unfold block
  rw [h.inUse_eq]
  split_ifs with huse
  · rw [h.headerAt_eq huse, h.entrySector_eq]
  · rfl

end

/-- The disk after formatting, whatever has been created. -/
structure Formatted (s : FileSystem) : Prop where
  mapFile : MapFile s.freeMapFile
  dirFile : DirFile s.directoryFile
  mapSectors : dataSectors (headerAt s.disk FreeMapSector) = {2}
  dirSectors : dataSectors (headerAt s.disk DirectorySector) = {3, 4}

theorem Formatted.used_eq (h : s.Formatted) :
    s.used = {0, 1, 2, 3, 4} + ∑ i ∈ Finset.range NumDirEntries, s.block i := by
  unfold used
  rw [h.mapSectors, h.dirSectors,
    show ({0, 1, 2, 3, 4} : Multiset ℤ) = 0 ::ₘ 1 ::ₘ ({2} + {3, 4}) from rfl, Multiset.cons_add,
    Multiset.cons_add]
  rfl

/-- It stays so if the first two headers are not written. -/
theorem Formatted.of_disk (h : s.Formatted) (hmap : s'.freeMapFile = s.freeMapFile)
    (hdir : s'.directoryFile = s.directoryFile) (h₀ : s'.disk 0 = s.disk 0)
    (h₁ : s'.disk 1 = s.disk 1) : s'.Formatted where
  mapFile := hmap ▸ h.mapFile
  dirFile := hdir ▸ h.dirFile
  mapSectors := by rw [headerAt_congr h₀, h.mapSectors]
  dirSectors := by rw [headerAt_congr h₁, h.dirSectors]

/-- One entry changes. -/
theorem Formatted.used_add (h : s.Formatted) (h' : s'.Formatted) {i : ℕ} (hi : i < NumDirEntries)
    (hsame : ∀ j < NumDirEntries, j ≠ i → s.SameEntry s' j) :
    s'.used + s.block i = s.used + s'.block i := by
  have hmem : i ∈ Finset.range NumDirEntries := Finset.mem_range.mpr hi
  have hrest : ∑ j ∈ (Finset.range NumDirEntries).erase i, s'.block j =
      ∑ j ∈ (Finset.range NumDirEntries).erase i, s.block j := by
    refine Finset.sum_congr rfl fun j hj => ?_
    obtain ⟨hji, hj⟩ := Finset.mem_erase.mp hj
    exact (hsame j (Finset.mem_range.mp hj) hji).block_eq
  rw [h.used_eq, h'.used_eq, ← Finset.add_sum_erase _ _ hmem, ← Finset.add_sum_erase _ s.block hmem,
    hrest]
  abel

theorem Formatted.mem_used (h : s.Formatted) {x : ℤ} : x ∈ s.used ↔
    x ∈ ({0, 1, 2, 3, 4} : Multiset ℤ) ∨ ∃ i < NumDirEntries, x ∈ s.block i := by
  rw [h.used_eq, Multiset.mem_add, Multiset.mem_sum]
  simp

/-! ## `Create` -/

/-- `Create` fails: the name is there, no entry is free, or not enough sectors are free for the
    header and the data. -/
def Refused (s : FileSystem) (name : Buffer) (size : ℕ) : Prop :=
  findIndex s.table name ≠ none ∨ (∀ i < NumDirEntries, inUse s.table i = true) ∨
    s.freeMap.numClear ≤ sectorsFor size

/-- What `Create` does: the file gets entry `i`, the header `sector` and the data sectors. -/
structure Created (s s' : FileSystem) (name : Buffer) (size i sector : ℕ) (data : List ℕ) :
    Prop where
  entry : i < NumDirEntries ∧ inUse s.table i = false
  absent : findIndex s.table name = none
  mapFile : s'.freeMapFile = s.freeMapFile
  dirFile : s'.directoryFile = s.directoryFile
  table : s'.table = enter s.table name sector i
  nodup : (sector :: data).Nodup
  free : ∀ x ∈ sector :: data, x < NumSectors ∧ s.freeMap.map x = false
  length : data.length = sectorsFor size
  marked : ∀ j < NumSectors, s'.freeMap.map j = true ↔ s.freeMap.map j = true ∨ j ∈ sector :: data
  numBytes : getInt (headerAt s'.disk sector) 0 = size
  numSectors : getInt (headerAt s'.disk sector) 4 = sectorsFor size
  slots : ∀ k (h : k < data.length), k < NumDirect →
    dataSector (headerAt s'.disk sector) k = (data.get ⟨k, h⟩ : ℕ)
  disk : ∀ x, x ≠ sector → x ≠ 2 → x ≠ 3 → x ≠ 4 → s'.disk x = s.disk x

variable {name : Buffer} {size : ℕ}

/-- **A call that fails** changes nothing. -/
theorem create_refused (h : s.Formatted) (memory : ℕ → Buffer) (hrefused : s.Refused name size) :
    s.create name size memory = .ok (false, s) := by
  obtain ⟨freeMap, hfetch, hbits, hmap⟩ := fetchMap_eq h.mapFile (memory 2)
  have hclear : freeMap.numClear = s.freeMap.numClear :=
    BitMap.numClear_congr hbits hmap
  unfold create
  rw [fetchDirectory_eq h.dirFile, ok_bind]
  split_ifs with hfind
  · rfl
  · rw [hfetch, ok_bind]
    cases hsector : freeMap.find with
    | none => rfl
    | some x =>
      obtain ⟨hlt, hzero, -, hmark⟩ := BitMap.find_eq_some hsector
      have hcount := BitMap.numClear_mark hlt hzero
      cases hadd : directoryAdd s.table name x.1 with
      | none => simp [hadd]
      | some table =>
        have hallocate : allocate (memory 3) x.2 size = none := by
          unfold directoryAdd at hadd
          split_ifs at hadd with hname
          rcases hrefused with hthere | hfull | hspace
          · exact absurd (Option.isSome_iff_ne_none.mpr hthere) hname
          · obtain ⟨i, hi, -⟩ := Option.map_eq_some_iff.mp hadd
            have hmem := List.mem_range.mp (List.mem_of_find?_eq_some hi)
            simpa [hfull i hmem] using List.find?_some hi
          · unfold allocate
            rw [if_pos]
            rw [hmark]
            omega
        simp [hadd, hallocate]

/-- What `Allocate` stores in a header. -/
theorem header_stored (hdr : Buffer) (hsize : size < 2 ^ 31) {data : List ℕ}
    (hdata : ∀ x ∈ data, x < NumSectors) {header : Buffer}
    (h : header = putSectors (putInt (putInt hdr 0 size) 4 (sectorsFor size)) 8
      (data.map Nat.cast)) :
    getInt header 0 = size ∧ getInt header 4 = sectorsFor size ∧
      ∀ k (h : k < data.length), dataSector header k = (data.get ⟨k, h⟩ : ℕ) := by
  subst h
  have hsectors : sectorsFor size < 2 ^ 31 := by
    rw [sectorsFor_eq]
    omega
  have hint : ∀ x ∈ data.map (Nat.cast : ℕ → ℤ), -2 ^ 31 ≤ x ∧ x < 2 ^ 31 := by
    intro x hx
    obtain ⟨n, hn, rfl⟩ := List.mem_map.mp hx
    have hlt := hdata n hn
    unfold NumSectors at hlt
    omega
  refine ⟨?_, ?_, ?_⟩
  · rw [getInt_putSectors_of_le _ (by norm_num), getInt_putInt_of_ne _ (by norm_num),
      getInt_putInt_self _ _ (by omega) (by omega)]
  · rw [getInt_putSectors_of_le _ (by norm_num), getInt_putInt_self _ _ (by omega) (by omega)]
  · intro k hk
    rw [dataSector_putSectors (by rwa [List.length_map]) hint, List.getElem_map]
    rfl

/-- `Allocate`, if enough sectors are free. -/
theorem allocate_eq (hdr : Buffer) {freeMap : BitMap} (hbits : freeMap.numBits = NumSectors)
    (hsize : size < 2 ^ 31) (h : sectorsFor size ≤ freeMap.numClear) :
    ∃ (hdr' : Buffer) (freeMap' : BitMap) (data : List ℕ),
      allocate hdr freeMap size = some (hdr', freeMap') ∧ data.Nodup ∧
      data.length = sectorsFor size ∧
      (∀ x ∈ data, x < NumSectors ∧ freeMap.map x = false) ∧
      (∀ j, freeMap'.map j = true ↔ freeMap.map j = true ∨ j ∈ data) ∧
      getInt hdr' 0 = size ∧ getInt hdr' 4 = sectorsFor size ∧
      ∀ k (h : k < data.length), dataSector hdr' k = (data.get ⟨k, h⟩ : ℕ) := by
  obtain ⟨data, hfind, hnodup, hfree, -, hmap⟩ := BitMap.findMany_of_le h
  have hlength : data.length = sectorsFor size := by
    rw [← List.length_map (Nat.cast : ℕ → ℤ), ← hfind, BitMap.length_findMany]
  rw [hbits] at hfree
  refine ⟨_, (BitMap.findMany (sectorsFor size) freeMap).2, data, ?_, hnodup, hlength, hfree, hmap,
    header_stored hdr hsize (fun x hx => (hfree x hx).1) rfl⟩
  unfold allocate
  rw [if_neg (Nat.not_lt.mpr h), ← hfind]

/-- **A call that succeeds.** The sectors of the two files are taken already. -/
theorem create_created (h : s.Formatted) (memory : ℕ → Buffer)
    (hbusy : ∀ x, x = 2 ∨ x = 3 ∨ x = 4 → s.freeMap.map x = true) (hsize : size < 2 ^ 31)
    (hnot : ¬s.Refused name size) :
    ∃ s' i sector data, s.create name size memory = .ok (true, s') ∧
      s.Created s' name size i sector data := by
  unfold Refused at hnot
  push Not at hnot
  obtain ⟨habsent, ⟨j, hj, huse⟩, hspace⟩ := hnot
  obtain ⟨freeMap, hfetch, hbits, hmap⟩ := fetchMap_eq h.mapFile (memory 2)
  have hclear : freeMap.numClear = s.freeMap.numClear :=
    BitMap.numClear_congr hbits hmap
  -- The sector of the header, and the entry.
  obtain ⟨⟨sector, freeMap₁⟩, hfind⟩ : ∃ x, freeMap.find = some x := by
    rw [← Option.ne_none_iff_exists', Ne, BitMap.find_eq_none_iff]
    omega
  obtain ⟨hlt, hzero, -, rfl⟩ := BitMap.find_eq_some hfind
  have hcount := BitMap.numClear_mark hlt hzero
  rw [hbits] at hlt
  rw [hmap sector hlt] at hzero
  obtain ⟨i, hentry⟩ : ∃ i, (List.range NumDirEntries).find? (fun i => !inUse s.table i) = some i := by
    rw [← Option.ne_none_iff_exists']
    intro hnone
    rw [List.find?_eq_none] at hnone
    exact hnone j (List.mem_range.mpr hj) (by simpa using huse)
  have hi : i < NumDirEntries := List.mem_range.mp (List.mem_of_find?_eq_some hentry)
  have hunused : inUse s.table i = false := by simpa using List.find?_some hentry
  have hadd : directoryAdd s.table name sector = some (enter s.table name sector i) := by
    unfold directoryAdd
    rw [habsent, hentry]
    rfl
  have hbits₁ : (freeMap.mark sector).numBits = NumSectors := hbits
  obtain ⟨hdr, freeMap₂, data, hallocate, hnodup, hlength, hfree, hmarked, hnumBytes, hnumSectors,
    hslots⟩ := allocate_eq (memory 3) hbits₁ hsize (by omega)
  have hdata : ∀ x ∈ data, x ≠ sector ∧ x < NumSectors ∧ s.freeMap.map x = false := by
    intro x hx
    obtain ⟨hx', hclear'⟩ := hfree x hx
    have hne : x ≠ sector := by
      rintro rfl
      rw [BitMap.map_mark_self] at hclear'
      cases hclear'
    rw [BitMap.map_mark_of_ne hne, hmap x hx'] at hclear'
    exact ⟨hne, hx', hclear'⟩
  have hapart : sector ≠ 2 ∧ sector ≠ 3 ∧ sector ≠ 4 := by
    refine ⟨?_, ?_, ?_⟩ <;>
      · rintro rfl
        rw [hbusy _ (by simp)] at hzero
        cases hzero
  -- The three writes.
  have hwrite := writeBackHeader_eq hlt s.disk hdr
  generalize hdisk₁ : Function.update s.disk sector (fun k : Fin SectorSize => hdr k) = disk₁ at hwrite
  have hheader : disk₁ sector = fun k : Fin SectorSize => hdr k := by
    rw [← hdisk₁, Function.update_self]
  obtain ⟨disk₂, hwrite₂, hbytes₂, hother₂⟩ := writeBackDirectory_eq h.dirFile disk₁
    (fun k => memory (k + 4)) (enter s.table name sector i)
  obtain ⟨disk₃, hwrite₃, hbytes₃, hother₃⟩ := writeBackMap_eq h.mapFile disk₂
    (fun k => memory (k + 7)) freeMap₂
  have hcreate : s.create name size memory = .ok (true, { s with disk := disk₃ }) := by
    have hminus : ¬directoryFind s.table name ≠ -1 := by
      unfold directoryFind
      rw [habsent]
      exact not_not.mpr rfl
    unfold create
    rw [fetchDirectory_eq h.dirFile, ok_bind, if_neg hminus, hfetch, ok_bind]
    simp only [hfind, hadd, hallocate, hwrite, ok_bind, hwrite₂, hwrite₃, pure_eq_ok]
  have hsector : disk₃ sector = fun k : Fin SectorSize => hdr k := by
    rw [hother₃ sector hapart.1, hother₂ sector hapart.2.1 hapart.2.2, hheader]
  refine ⟨_, i, sector, data, hcreate, ?_⟩
  constructor
  · exact ⟨hi, hunused⟩
  · exact habsent
  · rfl
  · rfl
  · refine table_eq ?_ ?_
    · intro k hk
      rw [← hbytes₂ k hk]
      exact h.dirFile.byte_congr (hother₃ 3 (by norm_num)) (hother₃ 4 (by norm_num)) hk
    · intro k hk
      unfold DirectoryFileSize at hk
      rw [enter_of_ne (by omega), table_of_le hk]
  · exact List.nodup_cons.mpr ⟨fun hmem => (hdata sector hmem).1 rfl, hnodup⟩
  · intro x hx
    rcases List.mem_cons.mp hx with rfl | hx
    · exact ⟨hlt, hzero⟩
    · exact (hdata x hx).2
  · exact hlength
  · intro j hj
    rw [freeMap_eq hbytes₃ hj, hmarked, List.mem_cons]
    by_cases hjs : j = sector
    · simp [hjs]
    · rw [BitMap.map_mark_of_ne hjs, hmap j hj]
      simp [hjs]
  · rw [getInt_headerAt hsector (by decide), hnumBytes]
  · rw [getInt_headerAt hsector (by decide), hnumSectors]
  · intro k hk hdirect
    refine (getInt_headerAt hsector ?_).trans (hslots k hk)
    unfold NumDirect at hdirect
    unfold SectorSize
    omega
  · intro x hx h2 h3 h4
    show disk₃ x = s.disk x
    rw [hother₃ x h2, hother₂ x h3 h4, ← hdisk₁, Function.update_of_ne hx]

/-! ## `Remove` -/

/-- The loop clears the sectors of the header, which are marked and different. -/
theorem deallocateFrom_eq {hdr : Buffer} {freeMap : BitMap} {n i : ℕ}
    (hinj : ∀ p q, i ≤ p → p < i + n → i ≤ q → q < i + n →
      dataSector hdr p = dataSector hdr q → p = q)
    (hmarked : ∀ p, i ≤ p → p < i + n → 0 ≤ dataSector hdr p ∧
      dataSector hdr p < freeMap.numBits ∧ freeMap.map (dataSector hdr p).toNat = true) :
    ∃ freeMap', deallocateFrom hdr n i freeMap = .ok freeMap' ∧
      freeMap'.numBits = freeMap.numBits ∧
      ∀ j : ℕ, freeMap'.map j = true ↔
        freeMap.map j = true ∧ ∀ p, i ≤ p → p < i + n → dataSector hdr p ≠ j := by
  induction n generalizing i freeMap with
  | zero => exact ⟨freeMap, rfl, rfl, fun j => by simp; omega⟩
  | succ n ih =>
    obtain ⟨hpos, hlt, hbit⟩ := hmarked i le_rfl (by omega)
    have htest : freeMap.test (dataSector hdr i) = some true := by
      unfold BitMap.test
      rw [if_pos ⟨hpos, hlt⟩, hbit]
    have hnext (p : ℕ) (hp : i + 1 ≤ p) (hp' : p < i + 1 + n) :
        0 ≤ dataSector hdr p ∧ dataSector hdr p < (freeMap.clear (dataSector hdr i).toNat).numBits ∧
          (freeMap.clear (dataSector hdr i).toNat).map (dataSector hdr p).toNat = true := by
      obtain ⟨hpos', hlt', hbit'⟩ := hmarked p (by omega) (by omega)
      have hne : (dataSector hdr p).toNat ≠ (dataSector hdr i).toNat := by
        intro heq
        have := hinj p i (by omega) (by omega) le_rfl (by omega) (by omega)
        omega
      exact ⟨hpos', hlt', by rw [BitMap.map_clear_of_ne hne, hbit']⟩
    obtain ⟨freeMap', hrest, hbits, hmap⟩ := ih
      (fun p q hp hp' hq hq' => hinj p q (by omega) (by omega) (by omega) (by omega)) hnext
    refine ⟨freeMap', ?_, hbits, ?_⟩
    · rw [deallocateFrom, htest]
      exact hrest
    · intro j
      rw [hmap]
      by_cases hj : (dataSector hdr i).toNat = j
      · subst hj
        rw [BitMap.map_clear_self]
        simp only [Bool.false_eq_true, false_and, false_iff, not_and, not_forall]
        exact fun _ => ⟨i, le_rfl, by omega, by omega⟩
      · rw [BitMap.map_clear_of_ne (Ne.symm hj)]
        refine and_congr_right fun _ => ⟨fun hall p hp hp' => ?_, fun hall p hp hp' => ?_⟩
        · by_cases hpi : p = i
          · subst hpi
            omega
          · exact hall p (by omega) (by omega)
        · exact hall p (by omega) (by omega)

/-- What `Remove` does: entry `i` is free, and its sectors. -/
structure Removed (s s' : FileSystem) (i : ℕ) : Prop where
  mapFile : s'.freeMapFile = s.freeMapFile
  dirFile : s'.directoryFile = s.directoryFile
  table : s'.table = Function.update s.table (20 * i) 0
  marked : ∀ j < NumSectors, s'.freeMap.map j = true ↔ s.freeMap.map j = true ∧ (j : ℤ) ∉ s.block i
  disk : ∀ x, x ≠ 2 → x ≠ 3 → x ≠ 4 → s'.disk x = s.disk x

/-- **A file that is not there.** -/
theorem remove_missing (h : s.Formatted) (memory : ℕ → Buffer) (hfind : findIndex s.table name = none) :
    s.remove name memory = .ok (false, s) := by
  have hminus : directoryFind s.table name = -1 := by
    unfold directoryFind
    rw [hfind]
  unfold remove
  rw [fetchDirectory_eq h.dirFile, ok_bind, if_pos hminus]
  rfl

/-- **A file that is there**, if its sectors are different, and marked. -/
theorem remove_removed (h : s.Formatted) (memory : ℕ → Buffer) {i : ℕ} (hfind : findIndex s.table name = some i)
    (hnodup : (s.block i).Nodup)
    (hmarked : ∀ x ∈ s.block i, 0 ≤ x ∧ x < NumSectors ∧ s.freeMap.map x.toNat = true)
    (hslots : getInt (headerAt s.disk (entrySector s.table i)) 4 ≤ NumDirect) :
    ∃ s', s.remove name memory = .ok (true, s') ∧ s.Removed s' i := by
  obtain ⟨hi, huse, -⟩ := findIndex_eq_some hfind
  have hsector : directoryFind s.table name = entrySector s.table i := by
    unfold directoryFind
    rw [hfind]
  generalize hx : entrySector s.table i = sector at hsector hslots
  have hblock : s.block i = sector ::ₘ dataSectors (headerAt s.disk sector) := by
    unfold block
    rw [if_pos huse, hx]
  have hheader := hmarked sector (by rw [hblock]; exact Multiset.mem_cons_self _ _)
  -- The header, and the free map.
  obtain ⟨hdr, hfetch, hsame⟩ := fetchHeader_eq s.disk hheader.1 hheader.2.1 (memory 2)
  obtain ⟨freeMap, hfetchMap, hbits, hmap⟩ := fetchMap_eq h.mapFile (memory 3)
  obtain ⟨n, hn⟩ : ∃ n, n = (getInt hdr 4).toNat := ⟨_, rfl⟩
  rw [← hsame 4 (by decide)] at hslots
  have hn30 : n ≤ 30 := by
    rw [hn]
    exact Int.toNat_le.mpr hslots
  have hslot (p : ℕ) (hp : p < n) :
      dataSector hdr p = dataSector (headerAt s.disk sector) p :=
    hsame _ (by clear hn; unfold SectorSize; omega)
  have hdata : dataSectors (headerAt s.disk sector) =
      ((List.range n).map (dataSector hdr) : Multiset ℤ) := by
    unfold dataSectors
    rw [← hsame 4 (by decide), ← hn, min_eq_left hn30]
    have hmap : (List.range n).map (dataSector (headerAt s.disk sector)) =
        (List.range n).map (dataSector hdr) :=
      List.map_congr_left fun p hp => (hslot p (List.mem_range.mp hp)).symm
    rw [hmap]
  have hmem (x : ℤ) : x ∈ s.block i ↔ x = sector ∨ ∃ p < n, dataSector hdr p = x := by
    rw [hblock, hdata, Multiset.mem_cons, Multiset.mem_coe, List.mem_map]
    simp only [List.mem_range]
  rw [hblock, hdata, Multiset.nodup_cons, Multiset.coe_nodup] at hnodup
  have hinj := List.inj_on_of_nodup_map hnodup.2
  obtain ⟨freeMap₁, hdeallocate, hbits₁, hmap₁⟩ : ∃ freeMap₁, deallocate hdr freeMap = .ok freeMap₁ ∧
      freeMap₁.numBits = freeMap.numBits ∧ ∀ j : ℕ, freeMap₁.map j = true ↔
        freeMap.map j = true ∧ ∀ p, 0 ≤ p → p < 0 + n → dataSector hdr p ≠ j := by
    unfold deallocate
    rw [← hn]
    apply deallocateFrom_eq
    · intro p q _ hp _ hq heq
      rw [Nat.zero_add] at hp hq
      exact hinj (List.mem_range.mpr hp) (List.mem_range.mpr hq) heq
    · intro p _ hp
      rw [Nat.zero_add] at hp
      obtain ⟨hpos, hlt, hbit⟩ := hmarked _ ((hmem _).mpr (.inr ⟨p, hp, rfl⟩))
      rw [hbits, hmap _ ((Int.toNat_lt hpos).mpr hlt)]
      exact ⟨hpos, hlt, hbit⟩
  -- The two writes.
  obtain ⟨disk₁, hwrite₁, hbytes₁, hother₁⟩ := writeBackMap_eq h.mapFile s.disk
    (fun k => memory (k + 4)) (freeMap₁.clear sector.toNat)
  obtain ⟨disk₂, hwrite₂, hbytes₂, hother₂⟩ := writeBackDirectory_eq h.dirFile disk₁
    (fun k => memory (k + 7)) (Function.update s.table (20 * i) 0)
  have hdirectory : directoryRemove s.table name = some (Function.update s.table (20 * i) 0) := by
    unfold directoryRemove
    rw [hfind]
    rfl
  have hremove : s.remove name memory = .ok (true, { s with disk := disk₂ }) := by
    have hminus : ¬sector = -1 := by omega
    unfold remove
    rw [fetchDirectory_eq h.dirFile, ok_bind]
    dsimp only
    rw [hsector, if_neg hminus, hfetch, ok_bind, hfetchMap, ok_bind, hdeallocate, ok_bind,
      if_pos ⟨hheader.1, hheader.2.1⟩, hdirectory, Option.getD_some, hwrite₁, ok_bind, hwrite₂,
      ok_bind, pure_eq_ok]
  refine ⟨_, hremove, rfl, rfl, ?_, ?_, ?_⟩
  · refine table_eq hbytes₂ ?_
    intro k hk
    unfold DirectoryFileSize at hk
    rw [Function.update_of_ne (by omega), table_of_le hk]
  · intro j hj
    have hkept (k : ℕ) (hk : k < FreeMapFileSize) :
        s.freeMapFile.byte disk₂ k = bytes (freeMap₁.clear sector.toNat) k := by
      rw [← hbytes₁ k hk]
      exact h.mapFile.byte_congr (hother₂ 2 (by norm_num) (by norm_num)) hk
    rw [freeMap_eq hkept hj, hmem]
    by_cases hjs : j = sector.toNat
    · subst hjs
      rw [BitMap.map_clear_self]
      simp [Int.toNat_of_nonneg hheader.1]
    · rw [BitMap.map_clear_of_ne hjs, hmap₁, hmap j hj]
      have hne : (j : ℤ) ≠ sector := by omega
      simp [hne]
  · intro x h2 h3 h4
    show disk₂ x = s.disk x
    rw [hother₂ x h3 h4, hother₁ x h2]

/-! ## The account -/

/-- The lengths of the files, by the characters that are kept of a name. -/
abbrev Files : Type := (Fin FileNameMaxLen → UInt8) → Option ℕ

/-- **The disk accounts for its sectors**: the sectors that are used are different, they are in
    range, and the free map marks exactly those; and each file is found with its length. -/
structure Accounted (s : FileSystem) (files : Files) : Prop where
  nodup : s.used.Nodup
  range : ∀ x ∈ s.used, 0 ≤ x ∧ x < NumSectors
  marked : ∀ j < NumSectors, s.freeMap.map j = true ↔ (j : ℤ) ∈ s.used
  found : ∀ name memory, Gives (s.openFile name memory) fun r =>
    r.map FileHeader.numBytes = files (nameKey name)

/-- The invariant. -/
structure Consistent (s : FileSystem) (files : Files) : Prop extends s.Formatted where
  nodup : s.used.Nodup
  range : ∀ x ∈ s.used, 0 ≤ x ∧ x < NumSectors
  marked : ∀ j < NumSectors, s.freeMap.map j = true ↔ (j : ℤ) ∈ s.used
  slots : ∀ i < NumDirEntries, inUse s.table i = true →
    getInt (headerAt s.disk (entrySector s.table i)) 4 ≤ NumDirect
  names : ∀ i < NumDirEntries, ∀ j < NumDirEntries, inUse s.table i = true →
    inUse s.table j = true → nameKey (entryName s.table i) = nameKey (entryName s.table j) → i = j
  shown : ∀ i < NumDirEntries, inUse s.table i = true →
    files (nameKey (entryName s.table i)) = some (s.lengthAt i)
  hidden : ∀ name, findIndex s.table name = none → files (nameKey name) = none

variable {files : Files}

/-- The sectors of an entry are marked, and they are not among the first five. -/
theorem Consistent.of_mem_block (h : s.Consistent files) {i : ℕ} {x : ℤ} (hi : i < NumDirEntries)
    (hx : x ∈ s.block i) :
    5 ≤ x ∧ x < NumSectors ∧ s.freeMap.map x.toNat = true := by
  have hmem : x ∈ s.used := h.mem_used.mpr (.inr ⟨i, hi, hx⟩)
  have hrange := h.range x hmem
  have hnodup := h.nodup
  rw [h.used_eq] at hnodup
  have hnot : x ∉ ({0, 1, 2, 3, 4} : Multiset ℤ) := fun hfirst =>
    Multiset.disjoint_left.mp (Multiset.disjoint_of_nodup_add hnodup) hfirst
      (Multiset.mem_sum.mpr ⟨i, Finset.mem_range.mpr hi, hx⟩)
  have hfirst : x ≠ 0 ∧ x ≠ 1 ∧ x ≠ 2 ∧ x ≠ 3 ∧ x ≠ 4 := by simpa using hnot
  refine ⟨by omega, hrange.2, (h.marked _ (by omega)).mpr ?_⟩
  rwa [Int.toNat_of_nonneg hrange.1]

theorem Consistent.nodup_block (h : s.Consistent files) {i : ℕ} (hi : i < NumDirEntries) :
    (s.block i).Nodup := by
  have hnodup := h.nodup
  rw [h.used_eq, Multiset.nodup_add] at hnodup
  exact Multiset.nodup_of_le
    (Finset.single_le_sum (fun _ _ => Multiset.zero_le _) (Finset.mem_range.mpr hi)) hnodup.2.1

theorem entrySector_mem_block {i : ℕ} (huse : inUse s.table i = true) :
    entrySector s.table i ∈ s.block i := by
  unfold block
  rw [if_pos huse]
  exact Multiset.mem_cons_self _ _

/-- The sectors of the two files are marked. -/
theorem Consistent.busy (h : s.Consistent files) (x : ℕ) (hx : x = 2 ∨ x = 3 ∨ x = 4) :
    s.freeMap.map x = true := by
  refine (h.marked x (by unfold NumSectors; omega)).mpr (h.mem_used.mpr (.inl ?_))
  rcases hx with rfl | rfl | rfl <;> simp

/-- Every file is found. -/
theorem Consistent.accounted (h : s.Consistent files) : s.Accounted files := by
  refine ⟨h.nodup, h.range, h.marked, ?_⟩
  intro name memory
  unfold openFile
  rw [fetchDirectory_eq h.dirFile, ok_bind]
  unfold directoryFind
  cases hfind : findIndex s.table name with
  | none =>
    refine ⟨none, rfl, ?_⟩
    rw [h.hidden name hfind]
    rfl
  | some i =>
    obtain ⟨hi, huse, hkey⟩ := findIndex_eq_some hfind
    obtain ⟨hpos, hlt, -⟩ := h.of_mem_block hi (entrySector_mem_block huse)
    obtain ⟨hdr, hfetch, hsame⟩ := fetchHeader_eq s.disk (by omega) hlt (memory 2)
    refine ⟨some (.ofBuffer hdr), ?_, ?_⟩
    · simp only [openSector, hfetch]
      rw [if_pos (by omega)]
      rfl
    · rw [← hkey, h.shown i hi huse]
      show some (getInt hdr 0).toNat = _
      rw [hsame 0 (by decide)]
      rfl

section

variable {i sector : ℕ} {data : List ℕ} (h : s.Consistent files)
  (hc : s.Created s' name size i sector data)

include h hc

/-- The header is not in the sector of another file, or in one of the first five. -/
theorem Created.sector_apart {j : ℕ} (hj : j < NumDirEntries) (huse : inUse s.table j = true) :
    (entrySector s.table j).toNat ≠ sector := by
  rintro rfl
  have hbusy := (h.of_mem_block hj (entrySector_mem_block huse)).2.2
  rw [(hc.free _ List.mem_cons_self).2] at hbusy
  cases hbusy

theorem Created.five_le : 5 ≤ sector := by
  obtain ⟨hlt, hfree⟩ := hc.free _ List.mem_cons_self
  by_contra hsmall
  have hmem : (sector : ℤ) ∈ s.used := by
    refine h.mem_used.mpr (.inl ?_)
    simp only [Multiset.insert_eq_cons, Multiset.mem_cons, Multiset.mem_singleton]
    omega
  rw [(h.marked sector hlt).mpr hmem] at hfree
  cases hfree

theorem Created.sameEntry {j : ℕ} (hj : j < NumDirEntries) (hji : j ≠ i) : s.SameEntry s' j := by
  constructor
  · intro k hk hk'
    rw [hc.table, enter_of_ne (by omega)]
  · intro huse
    have hfive := (h.of_mem_block hj (entrySector_mem_block huse)).1
    exact hc.disk _ (hc.sector_apart h hj huse) (by omega) (by omega) (by omega)

theorem Created.formatted : s'.Formatted := by
  have hfive := hc.five_le h
  exact h.toFormatted.of_disk hc.mapFile hc.dirFile
    (hc.disk 0 (by omega) (by norm_num) (by norm_num) (by norm_num))
    (hc.disk 1 (by omega) (by norm_num) (by norm_num) (by norm_num))

omit h in
theorem Created.entrySector_eq : entrySector s'.table i = sector := by
  have hlt := (hc.free sector List.mem_cons_self).1
  unfold NumSectors at hlt
  rw [hc.table, entrySector_enter (by omega) (by omega)]

omit h in
/-- The new file has the sectors that fit into the slots of its header. -/
theorem Created.block_eq :
    s'.block i = ((sector :: data.take NumDirect).map Nat.cast : List ℤ) := by
  have hdata : dataSectors (headerAt s'.disk sector) =
      ((data.take NumDirect).map Nat.cast : List ℤ) := by
    unfold dataSectors
    rw [hc.numSectors, Int.toNat_natCast, ← hc.length]
    congr 1
    apply List.ext_getElem
    · simp [min_comm]
    · intro k hk hk'
      rw [List.length_map, List.length_range] at hk
      have hslot := hc.slots k (by omega) (by omega)
      simpa using hslot
  unfold block
  rw [hc.table, inUse_enter, if_pos rfl, ← hc.table, hc.entrySector_eq, hdata]
  rfl

/-- The sectors of the new file are added to those that are used. -/
theorem Created.used_eq :
    s'.used = s.used + ((sector :: data.take NumDirect).map Nat.cast : List ℤ) := by
  have hunused : s.block i = 0 := by
    unfold block
    rw [hc.entry.2]
    rfl
  have hadd := h.toFormatted.used_add (hc.formatted h) hc.entry.1 fun j hj hji =>
    hc.sameEntry h hj hji
  rwa [hunused, add_zero, hc.block_eq] at hadd

/-- A sector of the new file was free. -/
theorem Created.not_mem_used {x : ℕ} (hx : x ∈ sector :: data) : (x : ℤ) ∉ s.used := by
  obtain ⟨hlt, hfree⟩ := hc.free x hx
  intro hmem
  rw [(h.marked x hlt).mpr hmem] at hfree
  cases hfree

/-- **A file that fits into its header** keeps the invariant. -/
theorem Created.consistent (hsize : size ≤ MaxFileSize) :
    s'.Consistent (Function.update files (nameKey name) (some size)) := by
  have hdirect : data.length ≤ NumDirect := by
    rw [hc.length, sectorsFor_eq]
    unfold MaxFileSize NumDirect SectorSize at hsize
    unfold NumDirect
    omega
  have hused := hc.used_eq h
  rw [List.take_of_length_le hdirect] at hused
  have hmem (x : ℤ) : x ∈ s'.used ↔ x ∈ s.used ∨ ∃ n ∈ sector :: data, (n : ℤ) = x := by
    rw [hused, Multiset.mem_add, Multiset.mem_coe, List.mem_map]
  have hsame {j : ℕ} (hj : j < NumDirEntries) (hji : j ≠ i) := hc.sameEntry h hj hji
  have habsent := findIndex_eq_none_iff.mp hc.absent
  have hkey : nameKey (entryName s'.table i) = nameKey name := by rw [hc.table, nameKey_enter]
  -- The other files have other names.
  have hother {j : ℕ} (hj : j < NumDirEntries) (hji : j ≠ i) (huse : inUse s'.table j = true) :
      inUse s.table j = true ∧ nameKey (entryName s'.table j) = nameKey (entryName s.table j) ∧
        nameKey (entryName s'.table j) ≠ nameKey name := by
    rw [(hsame hj hji).inUse_eq] at huse
    rw [(hsame hj hji).nameKey_eq]
    exact ⟨huse, rfl, habsent j hj huse⟩
  refine ⟨hc.formatted h, ?_, ?_, ?_, ?_, ?_, ?_, ?_⟩
  · rw [hused, Multiset.nodup_add]
    refine ⟨h.nodup, ?_, ?_⟩
    · rw [Multiset.coe_nodup]
      exact hc.nodup.map Nat.cast_injective
    · rw [Multiset.disjoint_left]
      intro x hx hx'
      obtain ⟨n, hn, rfl⟩ := List.mem_map.mp (Multiset.mem_coe.mp hx')
      exact hc.not_mem_used h hn hx
  · intro x hx
    rcases (hmem x).mp hx with hold | ⟨n, hn, rfl⟩
    · exact h.range x hold
    · have hlt := (hc.free n hn).1
      omega
  · intro j hj
    rw [hc.marked j hj, h.marked j hj, hmem]
    simp
  · intro j hj huse
    by_cases hji : j = i
    · subst hji
      rw [hc.entrySector_eq, hc.numSectors, ← hc.length]
      exact_mod_cast hdirect
    · have huse' := (hother hj hji huse).1
      rw [(hsame hj hji).headerAt_eq huse']
      exact h.slots j hj huse'
  · intro j hj k hk hj' hk' heq
    by_cases hji : j = i
    · by_cases hki : k = i
      · rw [hji, hki]
      · rw [hji, hkey] at heq
        exact absurd heq.symm (hother hk hki hk').2.2
    · by_cases hki : k = i
      · rw [hki, hkey] at heq
        exact absurd heq (hother hj hji hj').2.2
      · obtain ⟨huse, hname, -⟩ := hother hj hji hj'
        obtain ⟨huse', hname', -⟩ := hother hk hki hk'
        exact h.names j hj k hk huse huse' (hname ▸ hname' ▸ heq)
  · intro j hj huse
    by_cases hji : j = i
    · subst hji
      rw [hkey, Function.update_self]
      unfold lengthAt
      rw [hc.entrySector_eq, hc.numBytes, Int.toNat_natCast]
    · obtain ⟨huse', hname, hne⟩ := hother hj hji huse
      rw [Function.update_of_ne hne, hname, (hsame hj hji).lengthAt_eq huse', h.shown j hj huse']
  · intro name' hfind
    rw [findIndex_eq_none_iff] at hfind
    have hne : nameKey name' ≠ nameKey name := by
      rw [← hkey]
      exact (hfind i hc.entry.1 (by rw [hc.table, inUse_enter])).symm
    rw [Function.update_of_ne hne]
    refine h.hidden name' (findIndex_eq_none_iff.mpr fun j hj huse => ?_)
    have hji : j ≠ i := by
      rintro rfl
      rw [hc.entry.2] at huse
      cases huse
    rw [← (hsame hj hji).nameKey_eq]
    exact hfind j hj (by rw [(hsame hj hji).inUse_eq, huse])

/-- **A file that does not** loses a sector: it is marked, and no header has it. -/
theorem Created.not_accounted (hsize : MaxFileSize < size) (files' : Files) :
    ¬s'.Accounted files' := by
  intro haccounted
  have hlong : NumDirect < data.length := by
    rw [hc.length, sectorsFor_eq]
    unfold MaxFileSize NumDirect SectorSize at hsize
    unfold NumDirect
    omega
  obtain ⟨x, hx⟩ : ∃ x, data[NumDirect]? = some x := ⟨_, List.getElem?_eq_getElem hlong⟩
  have hxmem : x ∈ data := List.mem_of_getElem? hx
  have hlt := (hc.free x (List.mem_cons_of_mem _ hxmem)).1
  have hmarked := (hc.marked x hlt).mpr (.inr (List.mem_cons_of_mem _ hxmem))
  have hused := (haccounted.marked x hlt).mp hmarked
  rw [hc.used_eq h, Multiset.mem_add, Multiset.mem_coe, List.mem_map] at hused
  rcases hused with hold | ⟨n, hn, heq⟩
  · exact hc.not_mem_used h (List.mem_cons_of_mem _ hxmem) hold
  · obtain rfl : n = x := by exact_mod_cast heq
    obtain ⟨hnot, hnodup⟩ := List.nodup_cons.mp hc.nodup
    rcases List.mem_cons.mp hn with rfl | htake
    · exact hnot hxmem
    · obtain ⟨k, hk, hget⟩ := List.getElem_of_mem htake
      rw [List.length_take] at hk
      rw [List.getElem_take] at hget
      have hsame := (List.getElem?_eq_some_iff.mp hx).2
      have := (List.Nodup.getElem_inj_iff hnodup).mp (hget.trans hsame.symm)
      omega

end

/-- **A file that is removed** gives its sectors back. -/
theorem Removed.consistent {i : ℕ} (h : s.Consistent files) (hr : s.Removed s' i)
    (hfind : findIndex s.table name = some i) :
    s'.Consistent (Function.update files (nameKey name) none) := by
  obtain ⟨hi, huse, hname⟩ := findIndex_eq_some hfind
  have hsame {j : ℕ} (hj : j < NumDirEntries) (hji : j ≠ i) : s.SameEntry s' j := by
    constructor
    · intro k hk hk'
      rw [hr.table, Function.update_of_ne (by omega)]
    · intro huse'
      have hfive := (h.of_mem_block hj (entrySector_mem_block huse')).1
      exact hr.disk _ (by omega) (by omega) (by omega)
  have hfree : inUse s'.table i = false := by
    unfold inUse
    rw [hr.table, Function.update_self]
    rfl
  have hother {j : ℕ} (hj : j < NumDirEntries) (huse' : inUse s'.table j = true) :
      j ≠ i ∧ inUse s.table j = true ∧
        nameKey (entryName s'.table j) = nameKey (entryName s.table j) := by
    have hji : j ≠ i := by
      rintro rfl
      rw [hfree] at huse'
      cases huse'
    exact ⟨hji, (hsame hj hji).inUse_eq ▸ huse', (hsame hj hji).nameKey_eq⟩
  have hformatted : s'.Formatted := h.toFormatted.of_disk hr.mapFile hr.dirFile
    (hr.disk 0 (by norm_num) (by norm_num) (by norm_num))
    (hr.disk 1 (by norm_num) (by norm_num) (by norm_num))
  have hused : s'.used + s.block i = s.used := by
    have hadd := h.toFormatted.used_add hformatted hi fun j hj hji => hsame hj hji
    have hempty : s'.block i = 0 := by
      unfold block
      rw [hfree]
      rfl
    rwa [hempty, add_zero] at hadd
  have hnodup := h.nodup
  rw [← hused, Multiset.nodup_add] at hnodup
  have hmem (x : ℤ) : x ∈ s'.used ↔ x ∈ s.used ∧ x ∉ s.block i := by
    rw [← hused, Multiset.mem_add]
    constructor
    · exact fun hx => ⟨.inl hx, Multiset.disjoint_left.mp hnodup.2.2 hx⟩
    · exact fun hx => hx.1.resolve_right hx.2
  refine ⟨hformatted, hnodup.1, ?_, ?_, ?_, ?_, ?_, ?_⟩
  · intro x hx
    exact h.range x ((hmem x).mp hx).1
  · intro j hj
    rw [hr.marked j hj, h.marked j hj, hmem]
  · intro j hj huse'
    obtain ⟨hji, huse', -⟩ := hother hj huse'
    rw [(hsame hj hji).headerAt_eq huse']
    exact h.slots j hj huse'
  · intro j hj k hk hj' hk' heq
    obtain ⟨-, huse₁, hname₁⟩ := hother hj hj'
    obtain ⟨-, huse₂, hname₂⟩ := hother hk hk'
    exact h.names j hj k hk huse₁ huse₂ (hname₁ ▸ hname₂ ▸ heq)
  · intro j hj huse'
    obtain ⟨hji, huse', hname'⟩ := hother hj huse'
    have hne : nameKey (entryName s.table j) ≠ nameKey name := fun heq =>
      hji (h.names j hj i hi huse' huse (heq.trans hname.symm))
    rw [hname', Function.update_of_ne hne, (hsame hj hji).lengthAt_eq huse', h.shown j hj huse']
  · intro name' hfind'
    by_cases hsameName : nameKey name' = nameKey name
    · rw [hsameName, Function.update_self]
    · rw [Function.update_of_ne hsameName]
      rw [findIndex_eq_none_iff] at hfind'
      refine h.hidden name' (findIndex_eq_none_iff.mpr fun j hj huse' => ?_)
      by_cases hji : j = i
      · rw [hji, hname]
        exact Ne.symm hsameName
      · rw [← (hsame hj hji).nameKey_eq]
        exact hfind' j hj (by rw [(hsame hj hji).inUse_eq, huse'])

/-! ## Formatting -/

/-- The free map with the first `n` sectors taken. -/
def firstTaken (n : ℕ) : BitMap := ⟨NumSectors, fun j => decide (j < n)⟩

theorem mark_firstTaken (n : ℕ) : (firstTaken n).mark n = firstTaken (n + 1) := by
  unfold BitMap.mark firstTaken
  congr 1
  funext j
  by_cases hj : j = n
  · rw [hj, Function.update_self]
    simp
  · rw [Function.update_of_ne hj]
    exact decide_eq_decide.mpr (by omega)

theorem numClear_firstTaken {n : ℕ} (h : n ≤ NumSectors) :
    (firstTaken n).numClear + n = NumSectors := by
  induction n with
  | zero => exact BitMap.numClear_new NumSectors
  | succ n ih =>
    have hmark := BitMap.numClear_mark (b := firstTaken n) (i := n) h (by simp [firstTaken])
    rw [mark_firstTaken] at hmark
    have := ih (by omega)
    omega

theorem findMany_firstTaken {n m : ℕ} (h : n + m ≤ NumSectors) :
    BitMap.findMany m (firstTaken n) = ((List.range' n m).map Nat.cast, firstTaken (n + m)) := by
  induction m generalizing n with
  | zero => rfl
  | succ m ih =>
    have hlt : n < NumSectors := by omega
    have hfind : (firstTaken n).find = some (n, firstTaken (n + 1)) := by
      rw [← mark_firstTaken]
      exact BitMap.find_eq hlt (by simp [firstTaken]) fun k hk => by simpa [firstTaken] using hk
    simp only [BitMap.findMany, BitMap.findInt, hfind, ih (show n + 1 + m ≤ NumSectors by omega),
      List.range'_succ, List.map_cons, Nat.add_right_comm n 1 m, Nat.add_assoc]

/-- `Allocate` while a disk is formatted. -/
theorem allocate_firstTaken (hdr : Buffer) {n : ℕ} (hsize : size < 2 ^ 31)
    (h : n + sectorsFor size ≤ NumSectors) :
    ∃ hdr', allocate hdr (firstTaken n) size = some (hdr', firstTaken (n + sectorsFor size)) ∧
      getInt hdr' 0 = size ∧ getInt hdr' 4 = sectorsFor size ∧
      ∀ k < sectorsFor size, dataSector hdr' k = (n + k : ℕ) := by
  have hspace := numClear_firstTaken (show n ≤ NumSectors by omega)
  have hdata : ∀ x ∈ List.range' n (sectorsFor size), x < NumSectors := by
    intro x hx
    have := (List.mem_range'_1.mp hx).2
    omega
  obtain ⟨hnumBytes, hnumSectors, hslots⟩ := header_stored hdr hsize hdata rfl
  refine ⟨_, ?_, hnumBytes, hnumSectors, ?_⟩
  · unfold allocate
    rw [if_neg (by omega), findMany_firstTaken h]
  · intro k hk
    rw [hslots k (by rwa [List.length_range'])]
    simp

/-- The header of a file that is opened. -/
theorem openSector_eq (disk : Disk) (memory : Buffer) {sector : ℕ} {hdr : Buffer}
    (hlt : sector < NumSectors) (h : disk sector = fun k : Fin SectorSize => hdr k) :
    ∃ f, openSector disk memory sector = .ok f ∧ f.numBytes = (getInt hdr 0).toNat ∧
      ∀ k < NumDirect, 0 ≤ dataSector hdr k → f.dataSectors k = (dataSector hdr k).toNat := by
  obtain ⟨hdr', hfetch, hsame⟩ := fetchHeader_eq disk (Int.natCast_nonneg sector)
    (by exact_mod_cast hlt) memory
  have hget (p : ℕ) (hp : p + 4 ≤ SectorSize) : getInt hdr' p = getInt hdr p := by
    rw [hsame p hp]
    exact getInt_headerAt (by rwa [Int.toNat_natCast]) hp
  refine ⟨.ofBuffer hdr', ?_, ?_, ?_⟩
  · unfold openSector
    rw [hfetch]
    rfl
  · show (getInt hdr' 0).toNat = _
    rw [hget 0 (by decide)]
  · intro k hk hpos
    have hslot : dataSector hdr' k = dataSector hdr k :=
      hget _ (by unfold NumDirect at hk; unfold SectorSize; omega)
    show (if 0 ≤ dataSector hdr' k then (dataSector hdr' k).toNat else NumSectors) = _
    rw [hslot, if_pos hpos]

/-- The sectors in the slots of a header. -/
theorem dataSectors_eq {sector : ℕ} {hdr : Buffer} {disk : Disk} {n : ℕ} (hn : n ≤ NumDirect)
    (h : disk sector = fun k : Fin SectorSize => hdr k) (hnumSectors : getInt hdr 4 = n) :
    dataSectors (headerAt disk sector) = ((List.range n).map (dataSector hdr) : List ℤ) := by
  have hget (p : ℕ) (hp : p + 4 ≤ SectorSize) :
      getInt (headerAt disk sector) p = getInt hdr p :=
    getInt_headerAt (by rwa [Int.toNat_natCast]) hp
  have hmap : (List.range n).map (dataSector (headerAt disk sector)) =
      (List.range n).map (dataSector hdr) := by
    refine List.map_congr_left fun k hk => hget _ ?_
    have := List.mem_range.mp hk
    unfold NumDirect at hn
    unfold SectorSize
    omega
  unfold dataSectors
  rw [hget 4 (by decide), hnumSectors, Int.toNat_natCast, min_eq_left hn, hmap]

/-- **A disk that has been formatted.** -/
theorem format_eq (disk : Disk) (memory : ℕ → Buffer) :
    ∃ s, format disk memory = .ok s ∧ s.Formatted ∧
      (∀ i < NumDirEntries, inUse s.table i = false) ∧
      ∀ j < NumSectors, s.freeMap.map j = decide (j < 5) := by
  have hmap : sectorsFor FreeMapFileSize = 1 := sectorsFor_eq _
  have hdir : sectorsFor DirectoryFileSize = 2 := sectorsFor_eq _
  have htaken : ((BitMap.new NumSectors).mark FreeMapSector).mark DirectorySector = firstTaken 2 := by
    rw [← mark_firstTaken 1, ← mark_firstTaken 0]
    rfl
  obtain ⟨mapHdr, hmapHdr, hmapBytes, hmapSectors, hmapSlots⟩ := allocate_firstTaken (memory 0)
    (show FreeMapFileSize < 2 ^ 31 by decide) (show 2 + _ ≤ NumSectors by rw [hmap]; decide)
  obtain ⟨dirHdr, hdirHdr, hdirBytes, hdirSectors, hdirSlots⟩ := allocate_firstTaken (memory 1)
    (show DirectoryFileSize < 2 ^ 31 by decide) (show 3 + _ ≤ NumSectors by rw [hdir]; decide)
  rw [hmap] at hmapHdr hmapSectors hmapSlots
  rw [hdir] at hdirHdr hdirSectors hdirSlots
  have hslot₂ : dataSector mapHdr 0 = 2 := hmapSlots 0 (by norm_num)
  have hslot₃ : dataSector dirHdr 0 = 3 := hdirSlots 0 (by norm_num)
  have hslot₄ : dataSector dirHdr 1 = 4 := hdirSlots 1 (by norm_num)
  -- The two headers are written, and the files are opened.
  have hwrite₁ := writeBackHeader_eq (show FreeMapSector < NumSectors by decide) disk mapHdr
  generalize hdisk₁ : Function.update disk FreeMapSector (fun k : Fin SectorSize => mapHdr k) =
    disk₁ at hwrite₁
  have hwrite₂ := writeBackHeader_eq (show DirectorySector < NumSectors by decide) disk₁ dirHdr
  generalize hdisk₂ : Function.update disk₁ DirectorySector (fun k : Fin SectorSize => dirHdr k) =
    disk₂ at hwrite₂
  have hheader₁ : disk₂ FreeMapSector = fun k : Fin SectorSize => mapHdr k := by
    rw [← hdisk₂, Function.update_of_ne (by decide), ← hdisk₁, Function.update_self]
  have hheader₂ : disk₂ DirectorySector = fun k : Fin SectorSize => dirHdr k := by
    rw [← hdisk₂, Function.update_self]
  obtain ⟨mapFile, hopen₁, hlength₁, hsectors₁⟩ := openSector_eq disk₂ (memory 2) (by decide) hheader₁
  obtain ⟨dirFile, hopen₂, hlength₂, hsectors₂⟩ := openSector_eq disk₂ (memory 3) (by decide) hheader₂
  have hmapFile : MapFile mapFile := by
    refine ⟨by rw [hlength₁, hmapBytes, Int.toNat_natCast], ?_⟩
    rw [hsectors₁ 0 (by decide) (by rw [hslot₂]; norm_num), hslot₂]
    rfl
  have hdirFile : DirFile dirFile := by
    refine ⟨by rw [hlength₂, hdirBytes, Int.toNat_natCast], ?_, ?_⟩
    · rw [hsectors₂ 0 (by decide) (by rw [hslot₃]; norm_num), hslot₃]
      rfl
    · rw [hsectors₂ 1 (by decide) (by rw [hslot₄]; norm_num), hslot₄]
      rfl
  -- The two files are written.
  obtain ⟨disk₃, hwrite₃, hbytes₃, hother₃⟩ := writeBackMap_eq hmapFile disk₂
    (fun k => memory (k + 5)) (firstTaken 5)
  obtain ⟨disk₄, hwrite₄, hbytes₄, hother₄⟩ := writeBackDirectory_eq hdirFile disk₃
    (fun k => memory (k + 8)) (newDirectory (memory 4))
  have hkept (x : ℕ) (hx : x < 2) : disk₄ x = disk₂ x := by
    rw [hother₄ x (by omega) (by omega), hother₃ x (by omega)]
  refine ⟨⟨disk₄, mapFile, dirFile⟩, ?_, ⟨hmapFile, hdirFile, ?_, ?_⟩, ?_, ?_⟩
  · unfold format
    dsimp only
    rw [htaken, hmapHdr]
    dsimp only
    rw [hdirHdr]
    dsimp only
    rw [hwrite₁, ok_bind, hwrite₂, ok_bind, hopen₁, ok_bind, hopen₂, ok_bind, hwrite₃, ok_bind,
      hwrite₄, ok_bind, pure_eq_ok]
  · have hsector := (hkept FreeMapSector (by decide)).trans hheader₁
    rw [dataSectors_eq (by decide) hsector hmapSectors]
    simp [List.range_succ, hslot₂]
  · have hsector := (hkept DirectorySector (by decide)).trans hheader₂
    rw [dataSectors_eq (by decide) hsector hdirSectors]
    simp only [List.range_succ, List.range_zero, List.nil_append, List.cons_append, List.map_cons,
      List.map_nil, hslot₃, hslot₄]
    rfl
  · intro i hi
    have htable : table ⟨disk₄, mapFile, dirFile⟩ = newDirectory (memory 4) :=
      table_eq hbytes₄ fun k hk => if_neg (Nat.not_lt.mpr hk)
    rw [htable, inUse_newDirectory _ hi]
  · intro j hj
    have hbytes (k : ℕ) (hk : k < FreeMapFileSize) : mapFile.byte disk₄ k = bytes (firstTaken 5) k := by
      rw [← hbytes₃ k hk]
      exact hmapFile.byte_congr (hother₄ 2 (by norm_num) (by norm_num)) hk
    rw [freeMap_eq hbytes hj]
    rfl

/-- It has no file. -/
theorem consistent_of_empty (h : s.Formatted) (hempty : ∀ i < NumDirEntries, inUse s.table i = false)
    (hfree : ∀ j < NumSectors, s.freeMap.map j = decide (j < 5)) :
    s.Consistent fun _ => none := by
  have hblock (i : ℕ) (hi : i < NumDirEntries) : s.block i = 0 := by
    unfold block
    rw [hempty i hi]
    rfl
  have hused : s.used = {0, 1, 2, 3, 4} := by
    rw [h.used_eq, Finset.sum_eq_zero fun i hi => hblock i (Finset.mem_range.mp hi), add_zero]
  have hnot {i : ℕ} (hi : i < NumDirEntries) : inUse s.table i ≠ true := by
    rw [hempty i hi]
    decide
  refine ⟨h, ?_, ?_, ?_, fun i hi huse => absurd huse (hnot hi),
    fun i hi _ _ huse => absurd huse (hnot hi), fun i hi huse => absurd huse (hnot hi),
    fun _ _ => rfl⟩
  · rw [hused]
    decide
  · intro x hx
    rw [hused] at hx
    simp only [Multiset.insert_eq_cons, Multiset.mem_cons, Multiset.mem_singleton] at hx
    unfold NumSectors
    omega
  · intro j hj
    rw [hused, hfree j hj, decide_eq_true_iff]
    simp only [Multiset.insert_eq_cons, Multiset.mem_cons, Multiset.mem_singleton]
    omega

end FileSystem

/-! ## Runs -/

/-- A call, with what is in the memory that it gets. -/
inductive FileLabel
  | create (name : Buffer) (initialSize : Fin (2 ^ 31)) (memory : ℕ → Buffer)
  | remove (name : Buffer) (memory : ℕ → Buffer)

/-- The files after a call that succeeds. -/
def FileLabel.effect (files : FileSystem.Files) : FileLabel → FileSystem.Files
  | .create name initialSize _ => Function.update files (nameKey name) (some initialSize)
  | .remove name _ => Function.update files (nameKey name) none

def FileSystem.call (s : FileSystem) : FileLabel → Except FileSysFault (Bool × FileSystem)
  | .create name initialSize memory => s.create name initialSize memory
  | .remove name memory => s.remove name memory

/-- A step, with the files that have been created and not removed. -/
def fileSysStep (x : FileSystem × FileSystem.Files) (i : FileLabel) :
    Except FileSysFault (FileSystem × FileSystem.Files) := do
  let (success, s) ← x.1.call i
  return (s, if success then i.effect x.2 else x.2)

/-- A call that fails leaves the disk unchanged. -/
def FailsUnchanged (x : FileSystem × FileSystem.Files) (i : FileLabel) : Prop :=
  ∀ s, x.1.call i = .ok (false, s) → s.disk = x.1.disk

/-- A file of more than `MaxFileSize` bytes is refused for another reason. -/
def SlotsSuffice (x : FileSystem × FileSystem.Files) : FileLabel → Prop
  | .create name initialSize _ => MaxFileSize < (initialSize : ℕ) → x.1.Refused name initialSize
  | .remove .. => True

namespace FileSystem

variable {s : FileSystem} {files : Files}

/-- The two ends of `Create`. -/
theorem Consistent.create_cases (h : s.Consistent files) (name : Buffer) (size : Fin (2 ^ 31))
    (memory : ℕ → Buffer) :
    (s.Refused name size ∧ s.create name size memory = .ok (false, s)) ∨
      ¬s.Refused name size ∧ ∃ s' i sector data, s.create name size memory = .ok (true, s') ∧
        s.Created s' name size i sector data := by
  by_cases hrefused : s.Refused name size
  · exact .inl ⟨hrefused, create_refused h.toFormatted memory hrefused⟩
  · exact .inr ⟨hrefused, create_created h.toFormatted memory h.busy size.isLt hrefused⟩

/-- The two ends of `Remove`. -/
theorem Consistent.remove_cases (h : s.Consistent files) (name : Buffer) (memory : ℕ → Buffer) :
    s.remove name memory = .ok (false, s) ∨
      ∃ s' i, s.remove name memory = .ok (true, s') ∧ findIndex s.table name = some i ∧
        s.Removed s' i := by
  cases hfind : findIndex s.table name with
  | none => exact .inl (remove_missing h.toFormatted memory hfind)
  | some i =>
    obtain ⟨hi, huse, -⟩ := findIndex_eq_some hfind
    have hmarked : ∀ x ∈ s.block i, 0 ≤ x ∧ x < NumSectors ∧ s.freeMap.map x.toNat = true := by
      intro x hx
      obtain ⟨hpos, hlt, hbit⟩ := h.of_mem_block hi hx
      exact ⟨by omega, hlt, hbit⟩
    obtain ⟨s', hcall, hr⟩ := remove_removed h.toFormatted memory hfind (h.nodup_block hi) hmarked
      (h.slots i hi huse)
    exact .inr ⟨s', i, hcall, rfl, hr⟩

end FileSystem

/-- **Step lemma.** A call whose file fits keeps the invariant. -/
theorem consistent_step (x : FileSystem × FileSystem.Files) (i : FileLabel)
    (h : x.1.Consistent x.2) (hi : SlotsSuffice x i) :
    ∃ x', fileSysStep x i = .ok x' ∧ x'.1.Consistent x'.2 := by
  cases i with
  | create name initialSize memory =>
    rcases h.create_cases name initialSize memory with ⟨-, hcall⟩ |
      ⟨hrefused, s', i, sector, data, hcall, hc⟩
    · exact ⟨x, by simp only [fileSysStep, FileSystem.call, hcall]; rfl, h⟩
    · have hsize : (initialSize : ℕ) ≤ MaxFileSize := by
        by_contra hlarge
        exact hrefused (hi (Nat.not_le.mp hlarge))
      exact ⟨(s', _), by simp only [fileSysStep, FileSystem.call, hcall]; rfl, hc.consistent h hsize⟩
  | remove name memory =>
    rcases h.remove_cases name memory with hcall | ⟨s', i, hcall, hfind, hr⟩
    · exact ⟨x, by simp only [fileSysStep, FileSystem.call, hcall]; rfl, h⟩
    · exact ⟨(s', _), by simp only [fileSysStep, FileSystem.call, hcall]; rfl, hr.consistent h hfind⟩

/-- A file that does not fit breaks the account. -/
theorem not_accounted_step (x : FileSystem × FileSystem.Files) (i : FileLabel)
    (x' : FileSystem × FileSystem.Files) (h : x.1.Consistent x.2) (hi : ¬SlotsSuffice x i)
    (hstep : fileSysStep x i = .ok x') : ¬x'.1.Accounted x'.2 := by
  cases i with
  | remove name memory => exact absurd trivial hi
  | create name initialSize memory =>
    unfold SlotsSuffice at hi
    push Not at hi
    rcases h.create_cases name initialSize memory with ⟨hrefused, -⟩ |
      ⟨-, s', i, sector, data, hcall, hc⟩
    · exact absurd hrefused hi.2
    · simp only [fileSysStep, FileSystem.call, hcall] at hstep
      obtain rfl := Except.ok.inj hstep
      exact hc.not_accounted h hi.1 _

/-- **A call that fails** leaves the disk unchanged. -/
theorem failsUnchanged (x : FileSystem × FileSystem.Files) (i : FileLabel)
    (h : x.1.Consistent x.2) : FailsUnchanged x i := by
  intro s' hfails
  cases i with
  | create name initialSize memory =>
    rcases h.create_cases name initialSize memory with ⟨-, hcall⟩ |
      ⟨-, s'', i, sector, data, hcall, -⟩
    · cases hcall.symm.trans hfails
      rfl
    · cases hcall.symm.trans hfails
  | remove name memory =>
    rcases h.remove_cases name memory with hcall | ⟨s'', i, hcall, -⟩
    · cases hcall.symm.trans hfails
      rfl
    · cases hcall.symm.trans hfails

/-- The calls of a guarded run leave the disk unchanged when they fail. -/
theorem failsUnchanged_run {x : FileSystem × FileSystem.Files} {l : List FileLabel}
    (h : x.1.Consistent x.2) (hl : Guarded fileSysStep SlotsSuffice x l) :
    Guarded fileSysStep FailsUnchanged x l := by
  induction l generalizing x with
  | nil => trivial
  | cons i l ih =>
    refine ⟨failsUnchanged x i h, fun x' hx' => ?_⟩
    obtain ⟨x'', hstep, hnext⟩ := consistent_step x i h hl.1
    cases hstep.symm.trans hx'
    exact ih hnext (hl.2 x' hx')

/-- **The disk accounts for its sectors** in exactly the runs in which no file of more than
    `MaxFileSize` bytes is created. -/
theorem sectors_accounted_iff (disk : Disk) (memory : ℕ → Buffer) :
    ∃ s, FileSystem.format disk memory = .ok s ∧ ∀ l : List FileLabel,
      Throughout fileSysStep (fun x => x.1.Accounted x.2) (s, fun _ => none) l ∧
          Guarded fileSysStep FailsUnchanged (s, fun _ => none) l ↔
        Guarded fileSysStep SlotsSuffice (s, fun _ => none) l := by
  obtain ⟨s, hformat, hformatted, hempty, hfree⟩ := FileSystem.format_eq disk memory
  have hs := FileSystem.consistent_of_empty hformatted hempty hfree
  refine ⟨s, hformat, fun l => ?_⟩
  have hiff : Throughout fileSysStep (fun x => x.1.Accounted x.2) (s, fun _ => none) l ↔
      Guarded fileSysStep SlotsSuffice (s, fun _ => none) l :=
    throughout_iff_guarded (fun _ h => h.accounted) consistent_step not_accounted_step l hs
  rw [hiff, and_iff_left_iff_imp]
  exact failsUnchanged_run hs

/-- A file of 3841 bytes on a disk that has just been formatted. -/
theorem sectors_not_accounted : ∃ s, FileSystem.format (fun _ _ => 0) (fun _ _ => 0) = .ok s ∧
    ¬Throughout fileSysStep (fun x => x.1.Accounted x.2) (s, fun _ => none)
      [.create (fun _ => 0) 3841 fun _ _ => 0] := by
  obtain ⟨s, hformat, hformatted, hempty, hfree⟩ :=
    FileSystem.format_eq (fun _ _ => 0) (fun _ _ => 0)
  refine ⟨s, hformat, ?_⟩
  rintro ⟨-, x', hstep, haccounted⟩
  have hs := FileSystem.consistent_of_empty hformatted hempty hfree
  refine not_accounted_step (s, fun _ => none) _ x' hs ?_ hstep haccounted
  have hclear : s.freeMap.numClear = (FileSystem.firstTaken 5).numClear :=
    BitMap.numClear_congr rfl hfree
  have hcount := FileSystem.numClear_firstTaken (show 5 ≤ NumSectors by decide)
  intro hsuffice
  rcases hsuffice (by decide) with hthere | hfull | hspace
  · refine hthere (findIndex_eq_none_iff.mpr fun i hi huse => ?_)
    rw [hempty i hi] at huse
    cases huse
  · have hused := hfull 0 (by decide)
    rw [hempty 0 (by decide)] at hused
    cases hused
  · rw [sectorsFor_eq, hclear] at hspace
    unfold NumSectors at hcount
    change (FileSystem.firstTaken 5).numClear ≤ 31 at hspace
    omega

end Nachos.FileSys
