import Mathlib

/-!
# Decimal numbers and delimited fields in C texts

A C string is a `List Char` without its terminating NUL. This file has the two
conversions every text protocol in C rests on, `printf("%d")` and `atoi`, and
the cutting of a text at a delimiter.

* `atoi_fmtInt_append`: `atoi` reads back a printed number, whatever follows it,
  as long as the text does not go on with a digit.
* `field_append`: cutting at a delimiter undoes joining with it.
* `length_fmtInt_le`: how long a printed number is.
-/

namespace Nachos.Lib

/-! ## Printing and reading numbers -/

/-- `printf("%d", n)`. -/
def fmtInt (n : ℤ) : List Char :=
  if n < 0 then '-' :: Nat.toDigits 10 n.natAbs else Nat.toDigits 10 n.natAbs

/-- `isspace` of the C locale. -/
def isSpace (c : Char) : Bool := c == ' ' || ('\t' ≤ c && c ≤ '\r')

/-- The number that the leading digits of a text denote. -/
def leadingNat (s : List Char) : ℕ := Nat.ofDigitChars 10 (s.takeWhile Char.isDigit) 0

/-- `atoi`: white space, an optional sign, digits; `0` if there is no digit. -/
def atoi (s : List Char) : ℤ :=
  match s.dropWhile isSpace with
  | '-' :: s => -(leadingNat s : ℤ)
  | '+' :: s => (leadingNat s : ℤ)
  | s => (leadingNat s : ℤ)

theorem isDigit_of_mem_toDigits {n : ℕ} {c : Char} (h : c ∈ Nat.toDigits 10 n) : c.isDigit :=
  Nat.isDigit_of_mem_toDigits (by norm_num) le_rfl h

theorem toDigits_cons (n : ℕ) : ∃ c s, Nat.toDigits 10 n = c :: s ∧ c.isDigit := by
  cases h : Nat.toDigits 10 n with
  | nil => exact absurd h Nat.toDigits_ne_nil
  | cons c s => exact ⟨c, s, rfl, isDigit_of_mem_toDigits (n := n) (by simp [h])⟩

theorem mem_fmtInt {n : ℤ} {c : Char} (h : c ∈ fmtInt n) : c = '-' ∨ c.isDigit := by
  unfold fmtInt at h
  split_ifs at h
  · rcases List.mem_cons.mp h with h | h
    · exact Or.inl h
    · exact Or.inr (isDigit_of_mem_toDigits h)
  · exact Or.inr (isDigit_of_mem_toDigits h)

/-- A character that is neither the sign nor a digit does not occur in a number. -/
theorem not_mem_fmtInt {d : Char} (hs : d ≠ '-') (hd : d.isDigit = false) (n : ℤ) :
    d ∉ fmtInt n := by
  intro h
  rcases mem_fmtInt h with h | h
  · exact hs h
  · rw [hd] at h; cases h

@[simp] theorem underscore_not_mem_fmtInt (n : ℤ) : '_' ∉ fmtInt n :=
  not_mem_fmtInt (by decide) (by decide) n

theorem fmtInt_ne_nil (n : ℤ) : fmtInt n ≠ [] := by
  unfold fmtInt
  split_ifs
  · simp
  · exact Nat.toDigits_ne_nil

theorem fmtInt_of_nonneg {n : ℤ} (h : 0 ≤ n) : fmtInt n = Nat.toDigits 10 n.natAbs := by
  rw [fmtInt, if_neg (by omega)]

theorem fmtInt_of_neg {n : ℤ} (h : n < 0) : fmtInt n = '-' :: Nat.toDigits 10 n.natAbs := by
  rw [fmtInt, if_pos h]

/-- A digit is neither white space nor a sign. -/
theorem digit_not_space {c : Char} (h : c.isDigit) : isSpace c = false := by
  have h' : '0' ≤ c ∧ c ≤ '9' := by simpa [Char.isDigit, Char.le_def] using h
  simp only [Char.le_def] at h'
  have h0 : (48 : ℕ) ≤ c.val.toNat := by simpa [UInt32.le_iff_toNat_le] using h'.1
  have hne : c ≠ ' ' := by rintro rfl; exact absurd h0 (by decide)
  have hgt : ¬ c ≤ '\r' := by
    rw [Char.le_def, UInt32.le_iff_toNat_le]
    intro hle
    have : ('\r').val.toNat = 13 := rfl
    omega
  simp [isSpace, hne, hgt]

theorem takeWhile_isDigit_append {ds rest : List Char} (hds : ∀ c ∈ ds, c.isDigit)
    (hrest : ∀ c ∈ rest.head?, c.isDigit = false) :
    (ds ++ rest).takeWhile Char.isDigit = ds := by
  rw [List.takeWhile_append_of_pos hds]
  cases rest with
  | nil => simp
  | cons c rest => simp [hrest c (by simp)]

theorem leadingNat_toDigits_append (n : ℕ) {rest : List Char}
    (hrest : ∀ c ∈ rest.head?, c.isDigit = false) :
    leadingNat (Nat.toDigits 10 n ++ rest) = n := by
  rw [leadingNat, takeWhile_isDigit_append (fun c => isDigit_of_mem_toDigits) hrest,
    Nat.ofDigitChars_ten_toDigits]

/-- `atoi` on a text that starts with a digit. -/
theorem atoi_of_digit {c : Char} {s : List Char} (h : c.isDigit) :
    atoi (c :: s) = leadingNat (c :: s) := by
  have hns := digit_not_space h
  unfold atoi
  rw [List.dropWhile_cons_of_neg (by simp [hns])]
  split
  · next heq => cases heq; exact absurd h (by decide)
  · next heq => cases heq; exact absurd h (by decide)
  · rfl

/-- **Reading back a printed number.** -/
theorem atoi_fmtInt_append (n : ℤ) {rest : List Char}
    (hrest : ∀ c ∈ rest.head?, c.isDigit = false) : atoi (fmtInt n ++ rest) = n := by
  rcases lt_or_ge n 0 with hn | hn
  · rw [fmtInt_of_neg hn, List.cons_append, atoi,
      List.dropWhile_cons_of_neg (by decide)]
    simp only [leadingNat_toDigits_append _ hrest]
    omega
  · rw [fmtInt_of_nonneg hn]
    obtain ⟨c, s, hcs, hc⟩ := toDigits_cons n.natAbs
    have := leadingNat_toDigits_append n.natAbs hrest
    rw [hcs, List.cons_append] at this ⊢
    rw [atoi_of_digit hc, this]
    omega

@[simp] theorem atoi_fmtInt (n : ℤ) : atoi (fmtInt n) = n := by
  simpa using atoi_fmtInt_append n (show ∀ c ∈ ([] : List Char).head?, _ by simp)

theorem fmtInt_injective : Function.Injective fmtInt := by
  intro a b h
  rw [← atoi_fmtInt a, h, atoi_fmtInt]

/-! ## Lengths -/

theorem length_toDigits_le {n k : ℕ} (hk : 0 < k) (h : n < 10 ^ k) :
    (Nat.toDigits 10 n).length ≤ k :=
  (Nat.length_toDigits_le_iff (by norm_num) hk).mpr h

theorem length_fmtInt_le_of_nonneg {n : ℤ} {k : ℕ} (hk : 0 < k) (h0 : 0 ≤ n) (h : n < 10 ^ k) :
    (fmtInt n).length ≤ k := by
  rw [fmtInt_of_nonneg h0]
  refine length_toDigits_le hk ?_
  have : (n.natAbs : ℤ) < 10 ^ k := by rwa [Int.natCast_natAbs, abs_of_nonneg h0]
  exact_mod_cast this

theorem length_fmtInt_le_iff {n : ℤ} {k : ℕ} (hk : 0 < k) (h0 : 0 ≤ n) :
    (fmtInt n).length ≤ k ↔ n < 10 ^ k := by
  rw [fmtInt_of_nonneg h0, Nat.length_toDigits_le_iff (by norm_num) hk]
  have : (n.natAbs : ℤ) = n := Int.natAbs_of_nonneg h0
  rw [← this]
  exact_mod_cast Iff.rfl

theorem length_fmtInt_le {n : ℤ} {k : ℕ} (hk : 0 < k) (h0 : -10 ^ k < n) (h : n < 10 ^ k) :
    (fmtInt n).length ≤ k + 1 := by
  rcases lt_or_ge n 0 with hn | hn
  · rw [fmtInt_of_neg hn, List.length_cons]
    have : (n.natAbs : ℤ) < 10 ^ k := by
      rw [Int.natCast_natAbs, abs_of_neg hn]
      linarith
    have := length_toDigits_le hk (by exact_mod_cast this : n.natAbs < 10 ^ k)
    omega
  · exact (length_fmtInt_le_of_nonneg hk hn h).trans (by omega)

/-! ## Fields -/

/-- The text before the first `d`, and the text after it if there is a `d`. -/
def field (d : Char) : List Char → List Char × Option (List Char)
  | [] => ([], none)
  | c :: s => if c = d then ([], some s) else (c :: (field d s).1, (field d s).2)

theorem field_append {d : Char} {f : List Char} (hf : d ∉ f) (rest : List Char) :
    field d (f ++ d :: rest) = (f, some rest) := by
  induction f with
  | nil => simp [field]
  | cons c f ih =>
    rw [List.mem_cons, not_or] at hf
    rw [List.cons_append, field, if_neg (Ne.symm hf.1), ih hf.2]

end Nachos.Lib
