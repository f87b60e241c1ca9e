import Mathlib

/-!
# Bitmaps

`class BitMap` (`userprog/bitmap.cc`). The bits of a word are named by the number of the item.

* `find_eq_some`, `find_eq_none`: `Find` takes the first bit that is clear, if there is one.
* `findMany_of_le`, `findMany_of_lt`: a loop of calls takes different bits, if enough are clear.
-/

namespace Nachos.Userprog

/-- `class BitMap` (bitmap.h). -/
structure BitMap where
  numBits : ℕ
  map : ℕ → Bool

namespace BitMap

/-- The constructor. -/
def new (nitems : ℕ) : BitMap := ⟨nitems, fun _ => false⟩

/-- `Mark` (bitmap.cc:45) of a bit in the range. -/
def mark (b : BitMap) (which : ℕ) : BitMap := { b with map := Function.update b.map which true }

/-- `Clear` (bitmap.cc:59) of a bit in the range. -/
def clear (b : BitMap) (which : ℕ) : BitMap := { b with map := Function.update b.map which false }

/-- `Test` (bitmap.cc:74); `none` when the assertion fails. -/
def test (b : BitMap) (which : ℤ) : Option Bool :=
  if 0 ≤ which ∧ which < b.numBits then some (b.map which.toNat) else none

/-- The loop of `Find`, with `n` bits left from `i` on. -/
def findFrom (b : BitMap) : ℕ → ℕ → Option ℕ
  | 0, _ => none
  | n + 1, i => if b.map i then findFrom b n (i + 1) else some i

/-- `Find` (bitmap.cc:95); `none` for `-1`. -/
def find (b : BitMap) : Option (ℕ × BitMap) :=
  (b.findFrom b.numBits 0).map fun i => (i, b.mark i)

/-- The loop of `NumClear`, over the bits below `n`. -/
def numClearTo (b : BitMap) : ℕ → ℕ
  | 0 => 0
  | n + 1 => if b.map n then b.numClearTo n else b.numClearTo n + 1

/-- `NumClear` (bitmap.cc:112). -/
def numClear (b : BitMap) : ℕ := b.numClearTo b.numBits

/-- What `Find` returns, as an `int`. -/
def findInt (b : BitMap) : ℤ × BitMap :=
  match b.find with
  | none => (-1, b)
  | some (i, b) => (i, b)

/-- `n` calls of `Find`. -/
def findMany : ℕ → BitMap → List ℤ × BitMap
  | 0, b => ([], b)
  | n + 1, b =>
    let (i, b) := b.findInt
    let (is, b) := findMany n b
    (i :: is, b)

variable {b b' : BitMap} {n i j : ℕ}

@[simp] theorem numBits_mark : (b.mark i).numBits = b.numBits := rfl

@[simp] theorem numBits_clear : (b.clear i).numBits = b.numBits := rfl

@[simp] theorem map_mark_self : (b.mark i).map i = true := Function.update_self ..

theorem map_mark_of_ne (h : j ≠ i) : (b.mark i).map j = b.map j := Function.update_of_ne h _ _

@[simp] theorem map_clear_self : (b.clear i).map i = false := Function.update_self ..

theorem map_clear_of_ne (h : j ≠ i) : (b.clear i).map j = b.map j := Function.update_of_ne h _ _

theorem findFrom_succ :
    b.findFrom (n + 1) i = if b.map i then b.findFrom n (i + 1) else some i := rfl

/-- What the loop finds is clear, and what it has passed is not. -/
theorem findFrom_eq_some (h : b.findFrom n i = some j) :
    j < i + n ∧ b.map j = false ∧ ∀ k, i ≤ k → k < j → b.map k = true := by
  induction n generalizing i with
  | zero => cases h
  | succ n ih =>
    rw [findFrom_succ] at h
    split_ifs at h with hi
    · obtain ⟨hlt, hclear, hpassed⟩ := ih h
      refine ⟨by omega, hclear, ?_⟩
      intro k hik hkj
      by_cases hk : k = i
      · rw [hk, hi]
      · exact hpassed k (by omega) hkj
    · cases h
      refine ⟨by omega, by simpa using hi, ?_⟩
      intro k hik hki
      omega

theorem findFrom_eq_none (h : b.findFrom n i = none) (hi : i ≤ j) (hj : j < i + n) :
    b.map j = true := by
  induction n generalizing i with
  | zero => omega
  | succ n ih =>
    rw [findFrom_succ] at h
    split_ifs at h with hbit
    by_cases hji : j = i
    · rw [hji, hbit]
    · exact ih h (by omega) (by omega)

/-- **`Find`** takes the first bit that is clear. -/
theorem find_eq_some (h : b.find = some (i, b')) :
    i < b.numBits ∧ b.map i = false ∧ (∀ k < i, b.map k = true) ∧ b' = b.mark i := by
  unfold find at h
  obtain ⟨k, hk, heq⟩ := Option.map_eq_some_iff.mp h
  cases heq
  obtain ⟨hlt, hclear, hpassed⟩ := findFrom_eq_some hk
  exact ⟨by omega, hclear, fun k hk => hpassed k (Nat.zero_le k) hk, rfl⟩

/-- It fails only if all bits are set. -/
theorem find_eq_none (h : b.find = none) (hi : i < b.numBits) : b.map i = true := by
  unfold find at h
  rw [Option.map_eq_none_iff] at h
  exact findFrom_eq_none h (Nat.zero_le i) (by omega)

theorem find_isSome (hi : i < b.numBits) (hclear : b.map i = false) : ∃ x, b.find = some x := by
  cases h : b.find with
  | none =>
    rw [find_eq_none h hi] at hclear
    cases hclear
  | some x => exact ⟨x, rfl⟩

theorem find_eq (hi : i < b.numBits) (hclear : b.map i = false) (hbelow : ∀ k < i, b.map k = true) :
    b.find = some (i, b.mark i) := by
  obtain ⟨x, hfind⟩ := find_isSome hi hclear
  obtain ⟨-, hzero, hpassed, hmark⟩ := find_eq_some hfind
  have hx : x.1 = i := by
    rcases Nat.lt_trichotomy x.1 i with hlt | heq | hgt
    · rw [hbelow x.1 hlt] at hzero
      cases hzero
    · exact heq
    · rw [hpassed i hgt] at hclear
      cases hclear
  rw [hfind, ← hx, ← hmark]

/-! ## The number of clear bits -/

theorem numClearTo_succ :
    b.numClearTo (n + 1) = if b.map n then b.numClearTo n else b.numClearTo n + 1 := rfl

theorem numClearTo_congr (h : ∀ k < n, b'.map k = b.map k) : b'.numClearTo n = b.numClearTo n := by
  induction n with
  | zero => rfl
  | succ n ih =>
    rw [numClearTo_succ, numClearTo_succ, h n (by omega), ih fun k hk => h k (by omega)]

theorem numClearTo_mark (hi : i < n) (hclear : b.map i = false) :
    (b.mark i).numClearTo n + 1 = b.numClearTo n := by
  induction n with
  | zero => omega
  | succ n ih =>
    rw [numClearTo_succ, numClearTo_succ]
    by_cases hin : i = n
    · subst hin
      rw [map_mark_self, hclear, numClearTo_congr fun k hk => map_mark_of_ne (by omega)]
      simp
    · rw [map_mark_of_ne (by omega)]
      have := ih (by omega)
      split_ifs <;> omega

/-- A bit that is taken is not clear any more. -/
theorem numClear_mark (hi : i < b.numBits) (hclear : b.map i = false) :
    (b.mark i).numClear + 1 = b.numClear := numClearTo_mark hi hclear

theorem exists_clear (h : 0 < b.numClearTo n) : ∃ i < n, b.map i = false := by
  induction n with
  | zero => cases h
  | succ n ih =>
    rw [numClearTo_succ] at h
    split_ifs at h with hn
    · obtain ⟨i, hi, hclear⟩ := ih h
      exact ⟨i, by omega, hclear⟩
    · exact ⟨n, by omega, by simpa using hn⟩

theorem numClear_congr (hbits : b'.numBits = b.numBits) (h : ∀ k < b.numBits, b'.map k = b.map k) :
    b'.numClear = b.numClear := by
  unfold numClear
  rw [hbits]
  exact numClearTo_congr h

@[simp] theorem numClear_new (n : ℕ) : (new n).numClear = n := by
  have hall (m : ℕ) : (new n).numClearTo m = m := by
    induction m with
    | zero => rfl
    | succ m ih =>
      show (new n).numClearTo m + 1 = m + 1
      rw [ih]
  exact hall n

/-- **`Find`** fails exactly when no bit is clear. -/
theorem find_eq_none_iff : b.find = none ↔ b.numClear = 0 := by
  constructor
  · intro h
    by_contra hpos
    obtain ⟨i, hi, hclear⟩ := exists_clear (Nat.pos_of_ne_zero hpos)
    rw [find_eq_none h hi] at hclear
    cases hclear
  · intro h
    cases hfind : b.find with
    | none => rfl
    | some x =>
      obtain ⟨hlt, hclear, -, -⟩ := find_eq_some hfind
      have := numClear_mark hlt hclear
      omega

/-! ## Many calls of `Find` -/

theorem findInt_of_pos (h : 0 < b.numClear) :
    ∃ i : ℕ, b.findInt = ((i : ℤ), b.mark i) ∧ i < b.numBits ∧ b.map i = false := by
  cases hfind : b.find with
  | none =>
    rw [find_eq_none_iff] at hfind
    omega
  | some x =>
    obtain ⟨hlt, hclear, -, hmark⟩ := find_eq_some hfind
    exact ⟨x.1, by simp [findInt, hfind, hmark], hlt, hclear⟩

theorem findInt_of_zero (h : b.numClear = 0) : b.findInt = (-1, b) := by
  simp [findInt, find_eq_none_iff.mpr h]

theorem findMany_zero : findMany 0 b = ([], b) := rfl

theorem findMany_succ : findMany (n + 1) b =
    (b.findInt.1 :: (findMany n b.findInt.2).1, (findMany n b.findInt.2).2) := rfl

@[simp] theorem length_findMany : (findMany n b).1.length = n := by
  induction n generalizing b with
  | zero => rfl
  | succ n ih => simp [findMany_succ, ih]

/-- One loop after another. -/
theorem findMany_add (m n : ℕ) (b : BitMap) :
    findMany (m + n) b =
      ((findMany m b).1 ++ (findMany n (findMany m b).2).1, (findMany n (findMany m b).2).2) := by
  induction m generalizing b with
  | zero => simp [findMany_zero]
  | succ m ih =>
    rw [Nat.succ_add]
    simp only [findMany_succ, ih, List.cons_append]

/-- **Enough bits are clear.** They are different, and they are taken. -/
theorem findMany_of_le (h : n ≤ b.numClear) :
    ∃ is : List ℕ, (findMany n b).1 = is.map Nat.cast ∧ is.Nodup ∧
      (∀ i ∈ is, i < b.numBits ∧ b.map i = false) ∧
      (findMany n b).2.numBits = b.numBits ∧
      ∀ j, (findMany n b).2.map j = true ↔ b.map j = true ∨ j ∈ is := by
  induction n generalizing b with
  | zero => exact ⟨[], rfl, .nil, nofun, rfl, by simp [findMany_zero]⟩
  | succ n ih =>
    obtain ⟨i, hfind, hlt, hclear⟩ := findInt_of_pos (Nat.lt_of_lt_of_le n.succ_pos h)
    have hcount := numClear_mark hlt hclear
    obtain ⟨is, heq, hnodup, his, hbits, hmap⟩ := ih (b := b.mark i) (by omega)
    have hne : ∀ k ∈ is, k ≠ i := by
      rintro k hk rfl
      have := (his k hk).2
      rw [map_mark_self] at this
      cases this
    refine ⟨i :: is, ?_, ?_, ?_, ?_, ?_⟩
    · simp [findMany_succ, hfind, heq]
    · exact List.nodup_cons.mpr ⟨fun hi => hne i hi rfl, hnodup⟩
    · intro k hk
      rcases List.mem_cons.mp hk with rfl | hk
      · exact ⟨hlt, hclear⟩
      · have hk' := his k hk
        rw [map_mark_of_ne (hne k hk)] at hk'
        exact hk'
    · simpa [findMany_succ, hfind] using hbits
    · intro j
      have hj : (findMany (n + 1) b).2.map j = true ↔ (b.mark i).map j = true ∨ j ∈ is := by
        simpa [findMany_succ, hfind] using hmap j
      rw [hj, List.mem_cons]
      by_cases hji : j = i
      · simp [hji]
      · rw [map_mark_of_ne hji]
        simp [hji]

/-- **Not enough bits are clear.** The last calls fail. -/
theorem findMany_of_lt (h : b.numClear < n) : -1 ∈ (findMany n b).1 := by
  induction n generalizing b with
  | zero => omega
  | succ n ih =>
    rcases Nat.eq_zero_or_pos b.numClear with hzero | hpos
    · simp [findMany_succ, findInt_of_zero hzero]
    · obtain ⟨i, hfind, hlt, hclear⟩ := findInt_of_pos hpos
      have hcount := numClear_mark hlt hclear
      have hmem := ih (b := b.mark i) (by omega)
      simp [findMany_succ, hfind, hmem]

end BitMap

end Nachos.Userprog
