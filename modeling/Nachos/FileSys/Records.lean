import Nachos.FileSys.OpenFile
import Nachos.Userprog.AddrSpace
import Nachos.Userprog.BitMap

/-!
# The records of the file system

How `class FileHeader`, `class DirectoryEntry` and the words of `class BitMap` lie in memory and on
the disk, on a host of 32 bits that stores the low byte first. A record that is read or written is a
buffer; what follows it in memory is a part of the buffer, and never of the disk.

* `getInt_putInt_self`, `getInt_putInt_of_ne`: an `int` is read back.
* `dataSector_putSectors`: the slots of a header.
* `map_ofBytes_bytes`: a bitmap is read back.
* `findIndex_eq_some_iff`: what a search in a directory finds.
-/

namespace Nachos.FileSys

open Nachos.Lib
open Nachos.Userprog (BitMap)

/-! ## Integers -/

/-- The `int` at the position. -/
def getInt (b : Buffer) (p : ℕ) : ℤ :=
  (BitVec.ofNat 32 (((b (p + 3)).toNat * 256 + (b (p + 2)).toNat) * 65536 +
    ((b (p + 1)).toNat * 256 + (b p).toNat))).toInt

/-- An `int` is stored at the position. -/
def putInt (b : Buffer) (p : ℕ) (x : ℤ) : Buffer := fun k =>
  if p ≤ k ∧ k < p + 4 then UInt8.ofNat ((BitVec.ofInt 32 x).toNat / 256 ^ (k - p)) else b k

theorem getInt_congr {b b' : Buffer} {p : ℕ} (h : ∀ k, p ≤ k → k < p + 4 → b' k = b k) :
    getInt b' p = getInt b p := by
  unfold getInt
  rw [h p (by omega) (by omega), h (p + 1) (by omega) (by omega), h (p + 2) (by omega) (by omega),
    h (p + 3) (by omega) (by omega)]

theorem putInt_of_ne {b : Buffer} {p k : ℕ} (x : ℤ) (h : k < p ∨ p + 4 ≤ k) :
    putInt b p x k = b k := if_neg (by omega)

theorem getInt_putInt_self (b : Buffer) (p : ℕ) {x : ℤ} (h : -2 ^ 31 ≤ x) (h' : x < 2 ^ 31) :
    getInt (putInt b p x) p = x := by
  have hbyte (j : ℕ) (hj : j < 4) : (putInt b p x (p + j)).toNat =
      (BitVec.ofInt 32 x).toNat / 256 ^ j % 256 := by
    unfold putInt
    rw [if_pos (by omega), Nat.add_sub_cancel_left]
    simp
  have hlt := (BitVec.ofInt 32 x).isLt
  unfold getInt
  rw [hbyte 3 (by omega), hbyte 2 (by omega), hbyte 1 (by omega)]
  have hzero := hbyte 0 (by omega)
  rw [Nat.add_zero] at hzero
  rw [hzero]
  have hsum : ((BitVec.ofInt 32 x).toNat / 256 ^ 3 % 256 * 256 +
      (BitVec.ofInt 32 x).toNat / 256 ^ 2 % 256) * 65536 +
      ((BitVec.ofInt 32 x).toNat / 256 ^ 1 % 256 * 256 +
        (BitVec.ofInt 32 x).toNat / 256 ^ 0 % 256) = (BitVec.ofInt 32 x).toNat := by
    norm_num
    omega
  rw [hsum, BitVec.ofNat_toNat, BitVec.setWidth_eq, BitVec.toInt_ofInt, Int.bmod_eq_of_le] <;> omega

theorem getInt_putInt_of_ne {b : Buffer} {p q : ℕ} (x : ℤ) (h : q + 4 ≤ p ∨ p + 4 ≤ q) :
    getInt (putInt b p x) q = getInt b q :=
  getInt_congr fun k _ _ => putInt_of_ne x (by omega)

/-! ## Bitmaps -/

/-- The words of the bitmap. -/
def bytes (b : BitMap) : Buffer := fun k =>
  UInt8.ofNat (Nat.ofBits fun j : Fin 8 => b.map (8 * k + j))

/-- The bitmap with the words. -/
def ofBytes (numBits : ℕ) (buf : Buffer) : BitMap :=
  ⟨numBits, fun i => (buf (i / 8)).toNat.testBit (i % 8)⟩

theorem map_ofBytes_bytes (n : ℕ) (b : BitMap) (i : ℕ) :
    (ofBytes n (bytes b)).map i = b.map i := by
  show (UInt8.ofNat _).toNat.testBit (i % 8) = _
  rw [UInt8.toNat_ofNat', Nat.mod_eq_of_lt (Nat.ofBits_lt_two_pow _),
    Nat.testBit_ofBits_lt _ _ (Nat.mod_lt _ (by norm_num))]
  congr 1
  exact Nat.div_add_mod i 8

theorem map_ofBytes_congr {n i : ℕ} {buf buf' : Buffer} (h : buf' (i / 8) = buf (i / 8)) :
    (ofBytes n buf').map i = (ofBytes n buf).map i := by
  show (buf' (i / 8)).toNat.testBit (i % 8) = (buf (i / 8)).toNat.testBit (i % 8)
  rw [h]

/-! ## File headers -/

/-- `divRoundUp(fileSize, SectorSize)`. -/
def sectorsFor (fileSize : ℕ) : ℕ := (Userprog.divRoundUp fileSize SectorSize).toNat

/-- `hdr->dataSectors[i]`. -/
def dataSector (hdr : Buffer) (i : ℕ) : ℤ := getInt hdr (8 + 4 * i)

/-- The numbers are stored one after the other. -/
def putSectors (b : Buffer) (p : ℕ) : List ℤ → Buffer
  | [] => b
  | x :: l => putSectors (putInt b p x) (p + 4) l

/-- The header in memory, for `class OpenFile`. A negative length is like 0, and a negative sector is
    not one of the disk. -/
def FileHeader.ofBuffer (hdr : Buffer) : FileHeader where
  numBytes := (getInt hdr 0).toNat
  dataSectors i := if 0 ≤ dataSector hdr i then (dataSector hdr i).toNat else NumSectors

theorem putSectors_of_lt {b : Buffer} {p k : ℕ} (l : List ℤ) (h : k < p) :
    putSectors b p l k = b k := by
  induction l generalizing b p with
  | nil => rfl
  | cons x l ih => rw [putSectors, ih (by omega), putInt_of_ne x (by omega)]

theorem getInt_putSectors_of_le {b : Buffer} {p q : ℕ} (l : List ℤ) (h : q + 4 ≤ p) :
    getInt (putSectors b p l) q = getInt b q :=
  getInt_congr fun k _ _ => putSectors_of_lt l (by omega)

theorem getInt_putSectors {b : Buffer} {p i : ℕ} {l : List ℤ} (hi : i < l.length)
    (hint : ∀ x ∈ l, -2 ^ 31 ≤ x ∧ x < 2 ^ 31) :
    getInt (putSectors b p l) (p + 4 * i) = l[i] := by
  induction l generalizing b p i with
  | nil => cases hi
  | cons x l ih =>
    rw [putSectors]
    cases i with
    | zero =>
      have hx := hint x List.mem_cons_self
      exact (getInt_putSectors_of_le l le_rfl).trans (getInt_putInt_self b p hx.1 hx.2)
    | succ i =>
      have hi' : i < l.length := Nat.lt_of_succ_lt_succ hi
      rw [show p + 4 * (i + 1) = p + 4 + 4 * i by ring,
        ih hi' fun y hy => hint y (List.mem_cons_of_mem _ hy), List.getElem_cons_succ]

/-- The slots of a header. -/
theorem dataSector_putSectors {b : Buffer} {i : ℕ} {l : List ℤ} (hi : i < l.length)
    (hint : ∀ x ∈ l, -2 ^ 31 ≤ x ∧ x < 2 ^ 31) : dataSector (putSectors b 8 l) i = l[i] :=
  getInt_putSectors hi hint

theorem sectorsFor_eq (fileSize : ℕ) : sectorsFor fileSize = (fileSize + 127) / 128 := by
  have hmod : (fileSize : ℤ).tmod (SectorSize : ℕ) = (fileSize : ℤ) % 128 :=
    Int.tmod_eq_emod_of_nonneg (by omega)
  have hdiv : (fileSize : ℤ).tdiv (SectorSize : ℕ) = (fileSize : ℤ) / 128 :=
    Int.tdiv_eq_ediv_of_nonneg (by omega)
  unfold sectorsFor Userprog.divRoundUp
  rw [hmod, hdiv]
  split_ifs <;> omega

/-! ## Names -/

/-- directory.h:22. -/
abbrev FileNameMaxLen : ℕ := 9

/-- The characters of the name, and zeros behind its end. -/
def cut (name : Buffer) (k : ℕ) : UInt8 := if ∀ j < k + 1, name j ≠ 0 then name k else 0

/-- `strncpy(&into[p], name, n)`. -/
def strncpy (into : Buffer) (p : ℕ) (name : Buffer) (n : ℕ) : Buffer := fun k =>
  if p ≤ k ∧ k < p + n then cut name (k - p) else into k

/-- `!strncmp(a, b, n)`, from the character `i` on. -/
def strncmp (a b : Buffer) : ℕ → ℕ → Bool
  | 0, _ => true
  | n + 1, i => if a i ≠ b i then false else if a i = 0 then true else strncmp a b n (i + 1)

theorem cut_of_nonzero {name : Buffer} {k : ℕ} (h : ∀ j < k, name j ≠ 0) : cut name k = name k := by
  unfold cut
  split_ifs with hk
  · rfl
  · by_contra hne
    refine hk fun j hj => ?_
    rcases Nat.lt_succ_iff_lt_or_eq.mp hj with hlt | rfl
    · exact h j hlt
    · exact fun hzero => hne hzero.symm

theorem cut_of_zero {name : Buffer} {i k : ℕ} (h : name i = 0) (hik : i ≤ k) : cut name k = 0 :=
  if_neg fun hall => hall i (by omega) h

/-- What is cut is not cut again. -/
theorem cut_congr {name stored : Buffer} {n k : ℕ} (h : ∀ j < n, stored j = cut name j)
    (hk : k < n) : cut stored k = cut name k := by
  by_cases hall : ∀ j < k + 1, name j ≠ 0
  · have hsame (j : ℕ) (hj : j < k + 1) : stored j = name j := by
      rw [h j (by omega), cut_of_nonzero fun i hi => hall i (by omega)]
    rw [cut_of_nonzero fun j hj => by rw [hsame j (by omega)]; exact hall j (by omega), h k hk]
  · push Not at hall
    obtain ⟨i, hi, hzero⟩ := hall
    have hstored : stored i = 0 := by rw [h i (by omega), cut_of_zero hzero le_rfl]
    rw [cut_of_zero hstored (by omega), cut_of_zero hzero (by omega)]

theorem strncmp_iff {a b : Buffer} {n i : ℕ} (ha : ∀ j < i, a j ≠ 0) (hb : ∀ j < i, b j ≠ 0) :
    strncmp a b n i = true ↔ ∀ k, i ≤ k → k < i + n → cut a k = cut b k := by
  induction n generalizing i with
  | zero => exact ⟨fun _ k _ _ => by omega, fun _ => rfl⟩
  | succ n ih =>
    unfold strncmp
    split_ifs with hne hzero
    · simp only [false_iff]
      intro h
      apply hne
      rw [← cut_of_nonzero ha, h i le_rfl (by omega), cut_of_nonzero hb]
    · simp only [true_iff]
      rw [not_not] at hne
      intro k hik _
      rw [cut_of_zero hzero hik, cut_of_zero (hne ▸ hzero) hik]
    · rw [not_not] at hne
      have hnext {name : Buffer} (h : ∀ j < i, name j ≠ 0) (hi : name i ≠ 0) :
          ∀ j < i + 1, name j ≠ 0 := by
        intro j hj
        rcases Nat.lt_succ_iff_lt_or_eq.mp hj with hlt | rfl
        · exact h j hlt
        · exact hi
      rw [ih (hnext ha hzero) (hnext hb (hne ▸ hzero))]
      constructor
      · intro h k hik hk
        rcases Nat.eq_or_lt_of_le hik with rfl | hlt
        · rw [cut_of_nonzero ha, cut_of_nonzero hb, hne]
        · exact h k hlt (by omega)
      · intro h k hik hk
        exact h k (by omega) (by omega)

/-! ## Directories -/

/-- filesys.cc:64. -/
abbrev NumDirEntries : ℕ := 10

/-- filesys.cc:65; `sizeof(DirectoryEntry)` is 20. -/
abbrev DirectoryFileSize : ℕ := 20 * NumDirEntries

/-- `table[i].inUse`. -/
def inUse (table : Buffer) (i : ℕ) : Bool := table (20 * i) != 0

/-- `table[i].sector`. -/
def entrySector (table : Buffer) (i : ℕ) : ℤ := getInt table (20 * i + 4)

/-- `table[i].name`. -/
def entryName (table : Buffer) (i : ℕ) : Buffer := fun k => table (20 * i + 8 + k)

/-- The characters that the directory keeps of a name. -/
def nameKey (name : Buffer) : Fin FileNameMaxLen → UInt8 := fun k => cut name k

/-- `FindIndex` (directory.cc:79); `none` for `-1`. -/
def findIndex (table name : Buffer) : Option ℕ :=
  (List.range NumDirEntries).find? fun i =>
    inUse table i && strncmp (entryName table i) name FileNameMaxLen 0

/-- `Find` (directory.cc:97). -/
def directoryFind (table name : Buffer) : ℤ :=
  match findIndex table name with
  | none => -1
  | some i => entrySector table i

/-- The entry gets a name and a sector. -/
def enter (table name : Buffer) (newSector : ℤ) (i : ℕ) : Buffer :=
  putInt (strncpy (Function.update table (20 * i) 1) (20 * i + 8) name FileNameMaxLen) (20 * i + 4)
    newSector

/-- `Add` (directory.cc:118); `none` for `FALSE`. -/
def directoryAdd (table name : Buffer) (newSector : ℤ) : Option Buffer :=
  if (findIndex table name).isSome then none
  else ((List.range NumDirEntries).find? fun i => !inUse table i).map (enter table name newSector)

/-- `Remove` (directory.cc:142); `none` for `FALSE`. -/
def directoryRemove (table name : Buffer) : Option Buffer :=
  (findIndex table name).map fun i => Function.update table (20 * i) 0

/-- `Directory(NumDirEntries)`, in a block of memory. -/
def newDirectory (memory : Buffer) : Buffer := fun k =>
  if k < DirectoryFileSize then if k % 20 = 0 then 0 else memory k else 0

section

variable {table table' name : Buffer} {i j : ℕ} {sector : ℤ}

theorem strncmp_entryName : strncmp (entryName table i) name FileNameMaxLen 0 = true ↔
    nameKey (entryName table i) = nameKey name := by
  have hnone (b : Buffer) : ∀ j < 0, b j ≠ 0 := fun j hj => absurd hj (Nat.not_lt_zero j)
  rw [strncmp_iff (hnone _) (hnone _), funext_iff]
  constructor
  · intro h k
    exact h k (Nat.zero_le _) (by rw [Nat.zero_add]; exact k.isLt)
  · intro h k _ hk
    rw [Nat.zero_add] at hk
    exact h ⟨k, hk⟩

/-- **What a search finds** is an entry with the name. -/
theorem findIndex_eq_some (h : findIndex table name = some i) :
    i < NumDirEntries ∧ inUse table i = true ∧ nameKey (entryName table i) = nameKey name := by
  have hmem := List.mem_of_find?_eq_some h
  have hfound := List.find?_some h
  rw [Bool.and_eq_true, strncmp_entryName] at hfound
  exact ⟨List.mem_range.mp hmem, hfound⟩

theorem findIndex_eq_none_iff : findIndex table name = none ↔
    ∀ i < NumDirEntries, inUse table i = true → nameKey (entryName table i) ≠ nameKey name := by
  unfold findIndex
  rw [List.find?_eq_none]
  refine forall_congr' fun i => ?_
  rw [List.mem_range, Bool.and_eq_true, strncmp_entryName, not_and]

/-- An entry depends on its own bytes only. -/
theorem inUse_congr (h : ∀ k, 20 * i ≤ k → k < 20 * i + 20 → table' k = table k) :
    inUse table' i = inUse table i := by
  unfold inUse
  rw [h _ le_rfl (by omega)]

theorem entrySector_congr (h : ∀ k, 20 * i ≤ k → k < 20 * i + 20 → table' k = table k) :
    entrySector table' i = entrySector table i :=
  getInt_congr fun k _ _ => h k (by omega) (by omega)

theorem nameKey_congr (h : ∀ k, 20 * i ≤ k → k < 20 * i + 20 → table' k = table k) :
    nameKey (entryName table' i) = nameKey (entryName table i) := by
  funext k
  have hk : (k : ℕ) < 9 := k.isLt
  have hbyte (j : ℕ) (hj : j < 9) : entryName table' i j = entryName table i j :=
    h _ (by omega) (by omega)
  show cut _ k = cut _ k
  unfold cut
  rw [hbyte k hk]
  refine if_congr (forall₂_congr fun j hj => ?_) rfl rfl
  rw [hbyte j (by omega)]

theorem enter_of_ne {k : ℕ} (h : k < 20 * i ∨ 20 * i + 20 ≤ k) :
    enter table name sector i k = table k := by
  unfold enter strncpy FileNameMaxLen
  rw [putInt_of_ne _ (by omega), if_neg (by omega), Function.update_of_ne (by omega)]

theorem inUse_enter : inUse (enter table name sector i) i = true := by
  unfold inUse enter strncpy
  rw [putInt_of_ne _ (by omega), if_neg (by omega), Function.update_self]
  rfl

theorem entrySector_enter (h : -2 ^ 31 ≤ sector) (h' : sector < 2 ^ 31) :
    entrySector (enter table name sector i) i = sector := getInt_putInt_self _ _ h h'

/-- The name is found under what is kept of it. -/
theorem nameKey_enter : nameKey (entryName (enter table name sector i) i) = nameKey name := by
  funext k
  refine cut_congr (n := FileNameMaxLen) (fun j hj => ?_) k.isLt
  unfold entryName enter strncpy
  rw [putInt_of_ne _ (by omega), if_pos (by omega), Nat.add_sub_cancel_left]

theorem inUse_newDirectory (memory : Buffer) (hi : i < NumDirEntries) :
    inUse (newDirectory memory) i = false := by
  unfold NumDirEntries at hi
  unfold inUse newDirectory DirectoryFileSize NumDirEntries
  rw [if_pos (by omega), if_pos (Nat.mul_mod_right 20 i)]
  rfl

end

end Nachos.FileSys
