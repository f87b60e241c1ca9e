import Nachos.Userprog.AddrSpace
import Nachos.Userprog.BitMap

/-!
# The words of a bitmap

`class BitMap` (`userprog/bitmap.cc`) with its array of words: the number of an item is split into
the number of a word and that of a bit. Numbers below 0 fail the same assertions as those that are
too large, and are left out.

* `agrees_new`, `Agrees.mark`, `Agrees.clear`, `Agrees.test`, `Agrees.find`, `Agrees.numClear`: on
  the items the words do what the bits of `BitMap` do.
* `bitMap_is_set`: any calls from the constructor on are those on a set of numbers.
-/

namespace Nachos.Userprog

/-- bitmap.h:24. -/
abbrev BitsInWord : ℕ := 32

/-- An access outside the array, or an assertion that fails, is `none`. -/
structure WordBitMap where
  numBits : ℕ
  numWords : ℕ
  map : List (BitVec BitsInWord)

namespace WordBitMap

/-- `1 << (which % BitsInWord)`. -/
def mask (which : ℕ) : BitVec BitsInWord := 1 <<< (which % BitsInWord)

/-- The word of an item is replaced by what `f` makes of it. -/
def update (b : WordBitMap) (which : ℕ) (f : BitVec BitsInWord → BitVec BitsInWord) :
    Option WordBitMap :=
  if which < b.numBits then
    b.map[which / BitsInWord]?.map fun w => { b with map := b.map.set (which / BitsInWord) (f w) }
  else none

/-- `Mark` (bitmap.cc:45). -/
def mark (b : WordBitMap) (which : ℕ) : Option WordBitMap :=
  b.update which fun w => w ||| mask which

/-- `Clear` (bitmap.cc:59). -/
def clear (b : WordBitMap) (which : ℕ) : Option WordBitMap :=
  b.update which fun w => w &&& ~~~mask which

/-- `Test` (bitmap.cc:74). -/
def test (b : WordBitMap) (which : ℕ) : Option Bool :=
  if which < b.numBits then
    b.map[which / BitsInWord]?.map fun w => w &&& mask which != 0
  else none

/-- The loop of the constructor, with `n` bits left from `i` on. -/
def clearFrom (b : WordBitMap) : ℕ → ℕ → Option WordBitMap
  | 0, _ => some b
  | n + 1, i => do (← b.clear i).clearFrom n (i + 1)

/-- The constructor (bitmap.cc:20). What `new` returns is not initialised. -/
def new (nitems : ℕ) (memory : ℕ → BitVec BitsInWord) : Option WordBitMap :=
  let numWords := (divRoundUp nitems BitsInWord).toNat
  clearFrom ⟨nitems, numWords, (List.range numWords).map memory⟩ nitems 0

/-- The loop of `Find`, with `n` bits left from `i` on. -/
def findFrom (b : WordBitMap) : ℕ → ℕ → Option (ℤ × WordBitMap)
  | 0, _ => some (-1, b)
  | n + 1, i => do
    if ← b.test i then b.findFrom n (i + 1)
    else return ((i : ℤ), ← b.mark i)

/-- `Find` (bitmap.cc:95). -/
def find (b : WordBitMap) : Option (ℤ × WordBitMap) := b.findFrom b.numBits 0

/-- The loop of `NumClear`, with `n` bits left from `i` on. -/
def numClearFrom (b : WordBitMap) : ℕ → ℕ → ℕ → Option ℕ
  | 0, _, count => some count
  | n + 1, i, count => do
    if ← b.test i then b.numClearFrom n (i + 1) count
    else b.numClearFrom n (i + 1) (count + 1)

/-- `NumClear` (bitmap.cc:112). -/
def numClear (b : WordBitMap) : Option ℕ := b.numClearFrom b.numBits 0 0

/-! ## Masks -/

theorem mask_eq (i : ℕ) : mask i = BitVec.twoPow 32 (i % 32) := (BitVec.twoPow_eq ..).symm

theorem getLsbD_mask (i j : ℕ) : (mask i).getLsbD (j % 32) = decide (i % 32 = j % 32) := by
  have hi : i % 32 < 32 := Nat.mod_lt i (by norm_num)
  rw [mask_eq, BitVec.getLsbD_twoPow]
  simp [hi]

/-- `Test` sees the bit, also when it is the sign. -/
theorem and_mask (w : BitVec 32) (i : ℕ) : (w &&& mask i != 0) = w.getLsbD (i % 32) := by
  have hi : i % 32 < 32 := Nat.mod_lt i (by norm_num)
  have hne : BitVec.twoPow 32 (i % 32) ≠ 0#32 := by
    intro h
    have := congrArg (fun x : BitVec 32 => x.getLsbD (i % 32)) h
    simp [hi] at this
  rw [mask_eq, BitVec.and_twoPow]
  cases w.getLsbD (i % 32) <;> simp [hne]

/-! ## Words and bits -/

/-- The bit of an item. -/
def bit (b : WordBitMap) (i : ℕ) : Bool := (b.map.getD (i / 32) 0).getLsbD (i % 32)

/-- The array is large enough for all items. -/
def Sized (b : WordBitMap) : Prop := b.numBits ≤ 32 * b.map.length

variable {b b' : WordBitMap} {i j n : ℕ} {f : BitVec 32 → BitVec 32}

theorem Sized.getElem? (h : b.Sized) (hi : i < b.numBits) :
    b.map[i / 32]? = some (b.map.getD (i / 32) 0) := by
  have hlt : i / 32 < b.map.length := by
    unfold Sized at h
    omega
  simp [hlt]

theorem Sized.test (h : b.Sized) (hi : i < b.numBits) : b.test i = some (b.bit i) := by
  unfold WordBitMap.test
  rw [if_pos hi, h.getElem? hi, Option.map_some, and_mask]
  rfl

/-- An update that changes one bit of a word to `v` changes the bit of its item and no other, be it
    in the same word or not. -/
theorem Sized.update {v : Bool} (h : b.Sized) (hi : i < b.numBits)
    (hf : ∀ w j, (f w).getLsbD (j % 32) = if i % 32 = j % 32 then v else w.getLsbD (j % 32)) :
    ∃ b', b.update i f = some b' ∧ b'.Sized ∧ b'.numBits = b.numBits ∧
      ∀ j, b'.bit j = if j = i then v else b.bit j := by
  have hlt : i / 32 < b.map.length := by
    unfold Sized at h
    omega
  refine ⟨{ b with map := b.map.set (i / 32) (f (b.map.getD (i / 32) 0)) }, ?_, ?_, rfl, ?_⟩
  · unfold WordBitMap.update
    rw [if_pos hi, h.getElem? hi, Option.map_some]
  · simpa [Sized] using h
  · intro j
    by_cases hword : i / 32 = j / 32
    · have hj : j = i ↔ i % 32 = j % 32 := by omega
      simp [bit, hword, hword ▸ hlt, hf, hj]
    · have hj : j ≠ i := by
        rintro rfl
        exact hword rfl
      simp [bit, hword, hj]

/-- **`Mark`** sets the bit of its item and no other. -/
theorem Sized.mark (h : b.Sized) (hi : i < b.numBits) :
    ∃ b', b.mark i = some b' ∧ b'.Sized ∧ b'.numBits = b.numBits ∧
      ∀ j, b'.bit j = if j = i then true else b.bit j := by
  apply h.update hi
  intro w j
  rw [BitVec.getLsbD_or, getLsbD_mask]
  split_ifs with hbit <;> simp [hbit]

/-- **`Clear`** clears the bit of its item and no other. -/
theorem Sized.clear (h : b.Sized) (hi : i < b.numBits) :
    ∃ b', b.clear i = some b' ∧ b'.Sized ∧ b'.numBits = b.numBits ∧
      ∀ j, b'.bit j = if j = i then false else b.bit j := by
  apply h.update hi
  intro w j
  have hlt : j % 32 < 32 := Nat.mod_lt j (by norm_num)
  rw [BitVec.getLsbD_and, BitVec.getLsbD_not, getLsbD_mask]
  split_ifs with hbit <;> simp [hbit, hlt]

/-- The words have the bits of a bitmap. Those behind the last item may be anything. -/
structure Agrees (b : WordBitMap) (m : BitMap) : Prop where
  sized : b.Sized
  numBits_eq : b.numBits = m.numBits
  bit_eq : ∀ i < m.numBits, b.bit i = m.map i

namespace Agrees

variable {m : BitMap}

theorem test (h : Agrees b m) (hi : i < m.numBits) : b.test i = some (m.map i) := by
  rw [h.sized.test (h.numBits_eq ▸ hi), h.bit_eq i hi]

theorem mark (h : Agrees b m) (hi : i < m.numBits) :
    ∃ b', b.mark i = some b' ∧ Agrees b' (m.mark i) := by
  obtain ⟨b', hmark, hsized, hbits, hbit⟩ := h.sized.mark (h.numBits_eq ▸ hi)
  refine ⟨b', hmark, hsized, hbits.trans h.numBits_eq, ?_⟩
  intro j hj
  rw [hbit j]
  split_ifs with hji
  · rw [hji, BitMap.map_mark_self]
  · rw [BitMap.map_mark_of_ne hji, h.bit_eq j hj]

theorem clear (h : Agrees b m) (hi : i < m.numBits) :
    ∃ b', b.clear i = some b' ∧ Agrees b' (m.clear i) := by
  obtain ⟨b', hclear, hsized, hbits, hbit⟩ := h.sized.clear (h.numBits_eq ▸ hi)
  refine ⟨b', hclear, hsized, hbits.trans h.numBits_eq, ?_⟩
  intro j hj
  rw [hbit j]
  split_ifs with hji
  · rw [hji, BitMap.map_clear_self]
  · rw [BitMap.map_clear_of_ne hji, h.bit_eq j hj]

theorem findFrom (h : Agrees b m) (hn : i + n ≤ m.numBits) :
    match m.findFrom n i with
    | none => b.findFrom n i = some (-1, b)
    | some j => ∃ b', b.findFrom n i = some ((j : ℤ), b') ∧ Agrees b' (m.mark j) := by
  induction n generalizing i with
  | zero => rfl
  | succ n ih =>
    have htest := h.test (show i < m.numBits by omega)
    have hrest := ih (i := i + 1) (by omega)
    cases hbit : m.map i with
    | true => simpa [BitMap.findFrom, WordBitMap.findFrom, htest, hbit] using hrest
    | false =>
      obtain ⟨b', hmark, hagrees⟩ := h.mark (show i < m.numBits by omega)
      have hfind : m.findFrom (n + 1) i = some i := by simp [BitMap.findFrom, hbit]
      rw [hfind]
      exact ⟨b', by simp [WordBitMap.findFrom, htest, hbit, hmark], hagrees⟩

/-- **`Find`** on the words. -/
theorem find (h : Agrees b m) : ∃ b', b.find = some (m.findInt.1, b') ∧ Agrees b' m.findInt.2 := by
  have hfrom := h.findFrom (i := 0) (n := m.numBits) (by omega)
  unfold WordBitMap.find BitMap.findInt BitMap.find
  rw [h.numBits_eq]
  cases hfind : m.findFrom m.numBits 0 with
  | none =>
    rw [hfind] at hfrom
    exact ⟨b, hfrom, h⟩
  | some j =>
    rw [hfind] at hfrom
    exact hfrom

theorem numClearFrom (h : Agrees b m) (hn : i + n ≤ m.numBits) :
    b.numClearFrom n i (m.numClearTo i) = some (m.numClearTo (i + n)) := by
  induction n generalizing i with
  | zero => rfl
  | succ n ih =>
    have htest := h.test (show i < m.numBits by omega)
    have hrest := ih (i := i + 1) (by omega)
    rw [show i + 1 + n = i + (n + 1) by omega] at hrest
    cases hbit : m.map i <;>
      simpa [WordBitMap.numClearFrom, BitMap.numClearTo, htest, hbit] using hrest

/-- **`NumClear`** on the words. -/
theorem numClear (h : Agrees b m) : b.numClear = some m.numClear := by
  have hfrom := h.numClearFrom (i := 0) (n := m.numBits) (by omega)
  unfold WordBitMap.numClear BitMap.numClear
  rw [h.numBits_eq]
  simpa [BitMap.numClearTo] using hfrom

end Agrees

/-- The loop of the constructor clears the bits it passes. -/
theorem Sized.clearFrom (h : b.Sized) (hn : i + n ≤ b.numBits) :
    ∃ b', b.clearFrom n i = some b' ∧ b'.Sized ∧ b'.numBits = b.numBits ∧
      ∀ j, b'.bit j = if i ≤ j ∧ j < i + n then false else b.bit j := by
  induction n generalizing b i with
  | zero =>
    refine ⟨b, rfl, h, rfl, ?_⟩
    intro j
    rw [if_neg (by omega)]
  | succ n ih =>
    obtain ⟨b₁, hclear, hsized₁, hbits₁, hbit₁⟩ := h.clear (show i < b.numBits by omega)
    obtain ⟨b₂, hrest, hsized₂, hbits₂, hbit₂⟩ := ih (b := b₁) (i := i + 1) hsized₁ (by omega)
    refine ⟨b₂, by simp [WordBitMap.clearFrom, hclear, hrest], hsized₂, hbits₂.trans hbits₁, ?_⟩
    intro j
    rw [hbit₂ j, hbit₁ j]
    split_ifs <;> first | rfl | omega

/-- **The constructor** clears all items, whatever the memory held. -/
theorem agrees_new (n : ℕ) (memory : ℕ → BitVec BitsInWord) :
    ∃ b, new n memory = some b ∧ Agrees b (.new n) := by
  have hwords : n ≤ 32 * (divRoundUp n BitsInWord).toNat := by
    unfold divRoundUp
    rw [Int.tdiv_eq_ediv_of_nonneg (by omega), Int.tmod_eq_emod_of_nonneg (by omega)]
    show n ≤ 32 * ((n : ℤ) / 32 + if 0 < (n : ℤ) % 32 then 1 else 0).toNat
    split_ifs <;> omega
  have hsized : Sized ⟨n, (divRoundUp n BitsInWord).toNat,
      (List.range (divRoundUp n BitsInWord).toNat).map memory⟩ := by
    simpa [Sized] using hwords
  obtain ⟨b, hnew, hsized', hbits, hbit⟩ := hsized.clearFrom (i := 0) (n := n) (by simp)
  refine ⟨b, hnew, hsized', hbits, ?_⟩
  intro i hi
  rw [hbit i, if_pos ⟨i.zero_le, by simpa [BitMap.new] using hi⟩]
  rfl

end WordBitMap

/-! ## Sets of items -/

namespace BitMap

variable {b b' : BitMap} {i j : ℕ}

/-- The items whose bits are set. -/
def items (b : BitMap) : Finset ℕ := (Finset.range b.numBits).filter fun i => b.map i = true

@[simp] theorem mem_items : i ∈ b.items ↔ i < b.numBits ∧ b.map i = true := by
  simp [items]

theorem items_subset (b : BitMap) : b.items ⊆ Finset.range b.numBits := Finset.filter_subset ..

@[simp] theorem items_new (n : ℕ) : (new n).items = ∅ := by
  ext i
  simp [new]

theorem items_mark (hi : i < b.numBits) : (b.mark i).items = insert i b.items := by
  ext j
  by_cases hji : j = i
  · simp [hji, hi]
  · simp [hji, map_mark_of_ne hji]

theorem items_clear (i : ℕ) (b : BitMap) : (b.clear i).items = b.items.erase i := by
  ext j
  by_cases hji : j = i
  · simp [hji]
  · simp [hji, map_clear_of_ne hji]

/-- The clear bits and the items are all there is. -/
theorem numClear_add_card (b : BitMap) : b.numClear + b.items.card = b.numBits := by
  have hcount (n : ℕ) :
      b.numClearTo n + ((Finset.range n).filter fun i => b.map i = true).card = n := by
    induction n with
    | zero => rfl
    | succ n ih =>
      rw [Finset.range_add_one, Finset.filter_insert]
      unfold numClearTo
      split_ifs
      · rw [Finset.card_insert_of_notMem (by simp)]
        omega
      · omega
  exact hcount b.numBits

/-- **`Find`** takes the least number that is no item, unless all are. -/
theorem findInt_cases (b : BitMap) :
    b.findInt = (-1, b) ∧ b.items = Finset.range b.numBits ∨
      ∃ i : ℕ, b.findInt = ((i : ℤ), b.mark i) ∧ i < b.numBits ∧ IsLeast {j | j ∉ b.items} i := by
  cases hfind : b.find with
  | none =>
    left
    refine ⟨by simp [findInt, hfind], b.items_subset.antisymm ?_⟩
    intro i hi
    have hlt := Finset.mem_range.mp hi
    exact mem_items.mpr ⟨hlt, find_eq_none hfind hlt⟩
  | some x =>
    obtain ⟨hlt, hclear, hbelow, hmark⟩ := find_eq_some hfind
    right
    refine ⟨x.1, by simp [findInt, hfind, hmark], hlt, by simp [hclear], ?_⟩
    intro j hj
    by_contra hjx
    exact hj (mem_items.mpr ⟨by omega, hbelow j (by omega)⟩)

end BitMap

/-! ## Calls -/

/-- The functions that the items are used with. -/
inductive BitMapCall
  | mark (which : ℕ)
  | clear (which : ℕ)
  | test (which : ℕ)
  | find

/-- What they return. -/
inductive BitMapAnswer
  | void
  | bool (b : Bool)
  | int (i : ℤ)
  deriving DecidableEq

/-- The number of the item, if there is one, is in the range. -/
def BitMapCall.InRange (n : ℕ) : BitMapCall → Prop
  | .mark which | .clear which | .test which => which < n
  | .find => True

namespace WordBitMap

def step (b : WordBitMap) : BitMapCall → Option (WordBitMap × BitMapAnswer)
  | .mark which => (b.mark which).map fun b => (b, .void)
  | .clear which => (b.clear which).map fun b => (b, .void)
  | .test which => (b.test which).map fun x => (b, .bool x)
  | .find => b.find.map fun r => (r.2, .int r.1)

def run (b : WordBitMap) : List BitMapCall → Option (WordBitMap × List BitMapAnswer)
  | [] => some (b, [])
  | call :: calls => do
    let (b, answer) ← b.step call
    let (b, answers) ← b.run calls
    return (b, answer :: answers)

end WordBitMap

/-- The calls on a set of numbers below `n`. -/
def setStep (n : ℕ) (s : Finset ℕ) : BitMapCall → Finset ℕ × BitMapAnswer
  | .mark which => (insert which s, .void)
  | .clear which => (s.erase which, .void)
  | .test which => (s, .bool (which ∈ s))
  | .find =>
    if h : (Finset.range n \ s).Nonempty then
      let i := (Finset.range n \ s).min' h
      (insert i s, .int i)
    else (s, .int (-1))

def setRun (n : ℕ) : Finset ℕ → List BitMapCall → Finset ℕ × List BitMapAnswer
  | s, [] => (s, [])
  | s, call :: calls =>
    let (s, answer) := setStep n s call
    let (s, answers) := setRun n s calls
    (s, answer :: answers)

namespace WordBitMap

/-- The words hold a set of numbers below `n`. -/
def Holds (b : WordBitMap) (n : ℕ) (s : Finset ℕ) : Prop :=
  ∃ m : BitMap, Agrees b m ∧ m.numBits = n ∧ m.items = s

variable {b : WordBitMap} {n i j : ℕ} {s : Finset ℕ} {call : BitMapCall} {calls : List BitMapCall}

namespace Holds

theorem test (h : b.Holds n s) (hi : i < n) : b.test i = some (decide (i ∈ s)) := by
  obtain ⟨m, hagrees, rfl, rfl⟩ := h
  rw [hagrees.test hi]
  simp [hi]

theorem subset (h : b.Holds n s) : s ⊆ Finset.range n := by
  obtain ⟨m, -, rfl, rfl⟩ := h
  exact m.items_subset

theorem numClear (h : b.Holds n s) : b.numClear = some (n - s.card) := by
  obtain ⟨m, hagrees, rfl, rfl⟩ := h
  have := m.numClear_add_card
  rw [hagrees.numClear]
  congr 1
  omega

theorem mark (h : b.Holds n s) (hi : i < n) :
    ∃ b', b.mark i = some b' ∧ b'.Holds n (insert i s) := by
  obtain ⟨m, hagrees, rfl, rfl⟩ := h
  obtain ⟨b', hmark, hagrees'⟩ := hagrees.mark hi
  exact ⟨b', hmark, m.mark i, hagrees', rfl, BitMap.items_mark hi⟩

theorem clear (h : b.Holds n s) (hi : i < n) :
    ∃ b', b.clear i = some b' ∧ b'.Holds n (s.erase i) := by
  obtain ⟨m, hagrees, rfl, rfl⟩ := h
  obtain ⟨b', hclear, hagrees'⟩ := hagrees.clear hi
  exact ⟨b', hclear, m.clear i, hagrees', rfl, BitMap.items_clear i m⟩

theorem find (h : b.Holds n s) :
    (∃ b', b.find = some (-1, b') ∧ b'.Holds n s ∧ s = Finset.range n) ∨
      ∃ (i : ℕ) (b' : WordBitMap), b.find = some ((i : ℤ), b') ∧ b'.Holds n (insert i s) ∧ i < n ∧
        IsLeast {j | j ∉ s} i := by
  obtain ⟨m, hagrees, rfl, rfl⟩ := h
  obtain ⟨b', hfind, hagrees'⟩ := hagrees.find
  obtain ⟨hint, hfull⟩ | ⟨i, hint, hi, hleast⟩ := m.findInt_cases
  · rw [hint] at hfind hagrees'
    exact .inl ⟨b', hfind, ⟨m, hagrees', rfl, rfl⟩, hfull⟩
  · rw [hint] at hfind hagrees'
    exact .inr ⟨i, b', hfind, ⟨m.mark i, hagrees', rfl, BitMap.items_mark hi⟩, hi, hleast⟩

end Holds

theorem setStep_find_full : setStep n (Finset.range n) .find = (Finset.range n, .int (-1)) := by
  simp [setStep]

theorem setStep_find_least (hi : i < n) (h : IsLeast {j | j ∉ s} i) :
    setStep n s .find = (insert i s, .int i) := by
  have hmem : i ∈ Finset.range n \ s := by
    simpa [hi] using h.1
  have hmin : (Finset.range n \ s).min' ⟨i, hmem⟩ = i := by
    apply le_antisymm (Finset.min'_le _ i hmem)
    apply Finset.le_min'
    intro j hj
    exact h.2 (by simpa using (Finset.mem_sdiff.mp hj).2)
  unfold setStep
  rw [dif_pos ⟨i, hmem⟩]
  simp only [hmin]

/-- One call. -/
theorem Holds.step (h : b.Holds n s) (hcall : call.InRange n) :
    ∃ b', b.step call = some (b', (setStep n s call).2) ∧ b'.Holds n (setStep n s call).1 := by
  cases call with
  | mark which =>
    obtain ⟨b', hmark, hholds⟩ := h.mark hcall
    exact ⟨b', by simp [WordBitMap.step, setStep, hmark], hholds⟩
  | clear which =>
    obtain ⟨b', hclear, hholds⟩ := h.clear hcall
    exact ⟨b', by simp [WordBitMap.step, setStep, hclear], hholds⟩
  | test which => exact ⟨b, by simp [WordBitMap.step, setStep, h.test hcall], h⟩
  | find =>
    obtain ⟨b', hfind, hholds, rfl⟩ | ⟨i, b', hfind, hholds, hi, hleast⟩ := h.find
    · rw [setStep_find_full]
      exact ⟨b', by simp [WordBitMap.step, hfind], hholds⟩
    · rw [setStep_find_least hi hleast]
      exact ⟨b', by simp [WordBitMap.step, hfind], hholds⟩

/-- Many calls, by induction on their list. -/
theorem Holds.run (h : b.Holds n s) (hcalls : ∀ call ∈ calls, call.InRange n) :
    ∃ b', b.run calls = some (b', (setRun n s calls).2) ∧ b'.Holds n (setRun n s calls).1 := by
  induction calls generalizing b s with
  | nil => exact ⟨b, rfl, h⟩
  | cons call calls ih =>
    obtain ⟨b₁, hstep, hholds₁⟩ := h.step (hcalls call (by simp))
    obtain ⟨b₂, hrun, hholds₂⟩ := ih hholds₁ fun c hc => hcalls c (by simp [hc])
    exact ⟨b₂, by simp [WordBitMap.run, setRun, hstep, hrun], hholds₂⟩

/-- **A bitmap is a set of numbers.** Whatever the memory held, calls with numbers below `n` answer
    as they do on a set that is empty at first. Afterwards `Test` tells what is in the set and
    `NumClear` how many numbers are not; `Find` returns the least of these and adds it, or `-1` when
    there is none; `Mark` and `Clear` change what `Test` tells of their number only. -/
theorem bitMap_is_set (memory : ℕ → BitVec BitsInWord) (hcalls : ∀ call ∈ calls, call.InRange n) :
    ∃ b₀ b s, new n memory = some b₀ ∧ b₀.run calls = some (b, (setRun n ∅ calls).2) ∧
      s = (setRun n ∅ calls).1 ∧ s ⊆ Finset.range n ∧
      (∀ i < n, b.test i = some (decide (i ∈ s))) ∧
      b.numClear = some (n - s.card) ∧
      ((∃ b', b.find = some (-1, b') ∧ s = Finset.range n ∧
          ∀ j < n, b'.test j = b.test j) ∨
        ∃ (i : ℕ) (b' : WordBitMap), b.find = some ((i : ℤ), b') ∧ i < n ∧ IsLeast {j | j ∉ s} i ∧
          ∀ j < n, b'.test j = if j = i then some true else b.test j) ∧
      ∀ i < n, ∃ b₁ b₂, b.mark i = some b₁ ∧ b.clear i = some b₂ ∧
        ∀ j < n, b₁.test j = (if j = i then some true else b.test j) ∧
          b₂.test j = if j = i then some false else b.test j := by
  obtain ⟨b₀, hnew, hagrees⟩ := agrees_new n memory
  have hholds₀ : b₀.Holds n ∅ := ⟨.new n, hagrees, rfl, BitMap.items_new n⟩
  obtain ⟨b, hrun, h⟩ := hholds₀.run hcalls
  refine ⟨b₀, b, _, hnew, hrun, rfl, h.subset, fun i hi => h.test hi, h.numClear, ?_, ?_⟩
  · obtain ⟨b', hfind, hholds, hfull⟩ | ⟨i, b', hfind, hholds, hi, hleast⟩ := h.find
    · refine .inl ⟨b', hfind, hfull, ?_⟩
      intro j hj
      rw [hholds.test hj, h.test hj]
    · refine .inr ⟨i, b', hfind, hi, hleast, ?_⟩
      intro j hj
      rw [hholds.test hj, h.test hj]
      split_ifs with hji <;> simp [hji]
  · intro i hi
    obtain ⟨b₁, hmark, hholds₁⟩ := h.mark hi
    obtain ⟨b₂, hclear, hholds₂⟩ := h.clear hi
    refine ⟨b₁, b₂, hmark, hclear, ?_⟩
    intro j hj
    rw [hholds₁.test hj, hholds₂.test hj, h.test hj]
    split_ifs with hji <;> simp [hji]

/-- 33 items need a second word; all memory is set at first. -/
theorem bitMap_is_set_two_words :
    ∃ b₀ b, new 33 (fun _ => BitVec.allOnes 32) = some b₀ ∧
      b₀.run [.mark 31, .mark 0, .find, .test 32, .mark 32, .clear 31] =
        some (b, (setRun 33 ∅ [.mark 31, .mark 0, .find, .test 32, .mark 32, .clear 31]).2) := by
  have hcalls : ∀ call ∈ [.mark 31, .mark 0, .find, .test 32, .mark 32, .clear 31],
      BitMapCall.InRange 33 call := by simp [BitMapCall.InRange]
  obtain ⟨b₀, b, -, hnew, hrun, -⟩ := bitMap_is_set (fun _ => BitVec.allOnes 32) hcalls
  exact ⟨b₀, b, hnew, hrun⟩

end WordBitMap

end Nachos.Userprog
