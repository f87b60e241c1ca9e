import Nachos.Network.Text

/-!
# `itoa`

`itoa(arr, size, val)` of `network/netcall.cc` (lines 3013-3044) looks for the
number of digits with `val / myexp(i) == 0` and then stores the digits from the
left, `48 + ((val-subval) / myexp(i))` each. It never stores a NUL: it clears
the `size` bytes first and relies on one of them staying clear.

* `itoa_natCast`: on a number with at most `size` digits the buffer holds its
  decimal text, followed by whatever lies behind the buffer when there are
  exactly `size` digits.
* `itoa_overflow`: a number with more digits than the buffer has bytes is stored
  beyond its end.
-/

namespace Nachos.Network

open Nachos.Lib

/-! ## Model -/

/-- `myexp(count)` (netcall.cc:3013): a product of `count` tens in 32 bits. -/
def myexp (count : ℕ) : ℤ := Int.bmod (10 ^ count) (2 ^ 32)

/-- The first loop of `itoa`: `max`, one less than the first `i` of `1 … 10` with
    `val / myexp(i) == 0`. Without such an `i` the variable stays unwritten. -/
def itoaMax (val : ℤ) : Option ℕ :=
  ((List.range' 1 10).find? fun i => val.tdiv (myexp i) = 0).map (· - 1)

/-- The second loop of `itoa`, for `i` down to `0`: the values of `dig`. -/
def itoaDigits (val : ℤ) : ℕ → ℤ → List ℤ
  | 0, subval => [48 + (val - subval).tdiv (myexp 0)]
  | i + 1, subval =>
    let dig := 48 + (val - subval).tdiv (myexp (i + 1))
    dig :: itoaDigits val i (subval + (dig - 48) * myexp (i + 1))

/-- `itoa(arr, size, val)` (netcall.cc:3021) and the C string that starts at
    `arr` afterwards; `tail` is the text behind the `size` bytes of `arr`. -/
def itoa (size : ℕ) (val : ℤ) (tail : Text) : Except Fault Text :=
  match itoaMax val with
  | none => .error .uninitialised
  | some max =>
    let arr := (itoaDigits val max 0).map fun dig => Char.ofNat dig.toNat
    if max + 1 < size then .ok arr
    else if max + 1 = size then .ok (arr ++ tail)
    else .error .outOfBounds

/-! ## Non-negative numbers -/

theorem myexp_eq {i : ℕ} (h : i ≤ 9) : myexp i = 10 ^ i := by
  interval_cases i <;> decide

/-- The last `i + 1` decimal digits of a number, leading zeros included. -/
def fixedDigits : ℕ → ℕ → Text
  | 0, n => [Nat.digitChar n]
  | i + 1, n => Nat.digitChar (n / 10 ^ (i + 1)) :: fixedDigits i (n % 10 ^ (i + 1))

theorem fixedDigits_succ (i n : ℕ) :
    fixedDigits (i + 1) n = fixedDigits i (n / 10) ++ [Nat.digitChar (n % 10)] := by
  induction i generalizing n with
  | zero => simp [fixedDigits]
  | succ i ih =>
    rw [fixedDigits, ih, fixedDigits, List.cons_append]
    have h1 : n / 10 ^ (i + 1 + 1) = n / 10 / 10 ^ (i + 1) := by
      rw [Nat.div_div_eq_div_mul, pow_succ' 10 (i + 1)]
    have h2 : n % 10 ^ (i + 1 + 1) / 10 = n / 10 % 10 ^ (i + 1) := by
      rw [pow_succ' 10 (i + 1), Nat.mod_mul_right_div_self]
    have h3 : n % 10 ^ (i + 1 + 1) % 10 = n % 10 :=
      Nat.mod_mod_of_dvd n (dvd_pow_self 10 (by omega))
    rw [h1, h2, h3]

/-- A number of exactly `i + 1` digits is printed as these digits. -/
theorem toDigits_eq_fixedDigits {i n : ℕ} (hlow : i = 0 ∨ 10 ^ i ≤ n) (hhigh : n < 10 ^ (i + 1)) :
    Nat.toDigits 10 n = fixedDigits i n := by
  induction i generalizing n with
  | zero => exact Nat.toDigits_of_lt_base (by simpa using hhigh)
  | succ i ih =>
    have hlow' : 10 ^ (i + 1) ≤ n := by simpa using hlow
    have hten : 10 ≤ n := le_trans (by
      calc 10 = 10 ^ 1 := by norm_num
        _ ≤ 10 ^ (i + 1) := Nat.pow_le_pow_right (by norm_num) (by omega)) hlow'
    rw [Nat.toDigits_of_base_le (by norm_num) hten, fixedDigits_succ, ih]
    · right
      rw [Nat.le_div_iff_mul_le (by norm_num), ← pow_succ]
      exact hlow'
    · rw [Nat.div_lt_iff_lt_mul (by norm_num), ← pow_succ]
      exact hhigh

theorem digitChar_eq_ofNat {d : ℕ} (h : d < 10) : Char.ofNat (48 + d) = Nat.digitChar d := by
  interval_cases d <;> decide

/-- The digit loop stores the decimal digits of what is left of the value. -/
theorem itoaDigits_natCast {val subval : ℤ} {i n : ℕ} (hi : i ≤ 9) (hn : val - subval = n)
    (hlt : n < 10 ^ (i + 1)) :
    (itoaDigits val i subval).map (fun dig => Char.ofNat dig.toNat) = fixedDigits i n := by
  induction i generalizing subval n with
  | zero =>
    have h10 : n < 10 := by simpa using hlt
    simp only [itoaDigits, List.map_cons, List.map_nil, fixedDigits, hn, myexp_eq (Nat.zero_le 9)]
    rw [pow_zero, Int.tdiv_one, show (48 + (n : ℤ)).toNat = 48 + n by omega, digitChar_eq_ofNat h10]
  | succ i ih =>
    have hq : n / 10 ^ (i + 1) < 10 := by
      rw [Nat.div_lt_iff_lt_mul (by positivity), ← pow_succ']
      exact hlt
    have hdiv : (val - subval).tdiv (myexp (i + 1)) = ((n / 10 ^ (i + 1) : ℕ) : ℤ) := by
      rw [hn, myexp_eq hi, Int.tdiv_eq_ediv_of_nonneg (by positivity)]
      push_cast
      rfl
    simp only [itoaDigits, List.map_cons, fixedDigits, hdiv]
    congr 1
    · rw [← digitChar_eq_ofNat hq]
      generalize n / 10 ^ (i + 1) = d
      rw [show (48 + (d : ℤ)).toNat = 48 + d by omega]
    · refine ih (by omega) ?_ (Nat.mod_lt _ (by positivity))
      have hmod := Nat.div_add_mod n (10 ^ (i + 1))
      rw [myexp_eq hi]
      have : ((10 ^ (i + 1) : ℕ) : ℤ) * ((n / 10 ^ (i + 1) : ℕ) : ℤ) +
          ((n % 10 ^ (i + 1) : ℕ) : ℤ) = (n : ℤ) := by exact_mod_cast hmod
      push_cast at this ⊢
      linarith

theorem tdiv_myexp_eq_zero {n i : ℕ} (hi : i ≤ 9) : (n : ℤ).tdiv (myexp i) = 0 ↔ n < 10 ^ i := by
  rw [myexp_eq hi, Int.tdiv_eq_ediv_of_nonneg (by positivity)]
  have h : (n : ℤ) / 10 ^ i = ((n / 10 ^ i : ℕ) : ℤ) := by push_cast; rfl
  rw [h, Int.natCast_eq_zero, Nat.div_eq_zero_iff]
  have : (10 : ℕ) ^ i ≠ 0 := by positivity
  tauto

/-- The first loop finds the number of digits. -/
theorem itoaMax_natCast {i n : ℕ} (hi : i ≤ 8) (hlow : i = 0 ∨ 10 ^ i ≤ n)
    (hhigh : n < 10 ^ (i + 1)) : itoaMax n = some i := by
  have hfind : (List.range' 1 10).find? (fun j => (n : ℤ).tdiv (myexp j) = 0) = some (i + 1) := by
    rw [List.find?_eq_some_iff_getElem]
    refine ⟨by simpa using (tdiv_myexp_eq_zero (by omega)).mpr hhigh, i, by simp; omega,
      by simp; omega, fun j hj => ?_⟩
    have hpow : 10 ^ (j + 1) ≤ n :=
      (Nat.pow_le_pow_right (by norm_num) (by omega)).trans (hlow.resolve_left (by omega))
    have hne := mt (tdiv_myexp_eq_zero (n := n) (i := j + 1) (by omega)).mp (by omega)
    simpa [Nat.add_comm 1 j] using hne
  rw [itoaMax, hfind]
  rfl

/-- Every number has some number of digits. -/
theorem exists_digit_count {n k : ℕ} (hk : 0 < k) (h : n < 10 ^ k) :
    ∃ i < k, (i = 0 ∨ 10 ^ i ≤ n) ∧ n < 10 ^ (i + 1) := by
  induction k with
  | zero => omega
  | succ k ih =>
    by_cases hlt : n < 10 ^ k ∧ 0 < k
    · obtain ⟨i, hi, h'⟩ := ih hlt.2 hlt.1
      exact ⟨i, by omega, h'⟩
    · refine ⟨k, by omega, ?_, h⟩
      by_cases hk0 : k = 0
      · exact Or.inl hk0
      · exact Or.inr (by by_contra hcon; exact hlt ⟨by omega, by omega⟩)

theorem length_fixedDigits (i n : ℕ) : (fixedDigits i n).length = i + 1 := by
  induction i generalizing n with
  | zero => rfl
  | succ i ih => rw [fixedDigits, List.length_cons, ih]

/-- **`itoa` on a number that fits.** -/
theorem itoa_natCast {size n : ℕ} (hs : 0 < size) (hs9 : size ≤ 9) (h : n < 10 ^ size)
    (tail : Text) :
    itoa size n tail =
      .ok (fmtInt n ++ if (fmtInt (n : ℤ)).length < size then [] else tail) := by
  obtain ⟨i, hi, hlow, hhigh⟩ := exists_digit_count hs h
  have hfmt : fmtInt (n : ℤ) = fixedDigits i n := by
    rw [fmtInt_of_nonneg (by omega), Int.natAbs_natCast, toDigits_eq_fixedDigits hlow hhigh]
  rw [itoa, itoaMax_natCast (by omega) hlow hhigh, hfmt, length_fixedDigits]
  simp only [itoaDigits_natCast (by omega : i ≤ 9) (show (n : ℤ) - 0 = n by simp) hhigh]
  split_ifs
  · rw [List.append_nil]
  · rfl
  · omega

/-- `itoa` on a number with fewer digits than the buffer has bytes. -/
theorem itoa_fits {size : ℕ} {v : ℤ} (hs : 1 < size) (hs9 : size ≤ 9) (h0 : 0 ≤ v)
    (h : v < 10 ^ (size - 1)) (tail : Text) : itoa size v tail = .ok (fmtInt v) := by
  obtain ⟨n, rfl⟩ := Int.eq_ofNat_of_zero_le h0
  have hn : n < 10 ^ (size - 1) := by exact_mod_cast h
  rw [itoa_natCast (by omega) hs9 (hn.trans (Nat.pow_lt_pow_right (by norm_num) (by omega)))]
  have hlen := length_fmtInt_le_of_nonneg (n := n) (k := size - 1) (by omega) (by omega)
    (by exact_mod_cast hn)
  rw [if_pos (by omega), List.append_nil]

/-- `itoa` on a number with more digits than the buffer has bytes. -/
theorem itoa_overflow {size n : ℕ} (h : 10 ^ size ≤ n) (h9 : n < 10 ^ 9) (tail : Text) :
    itoa size n tail = .error .outOfBounds := by
  obtain ⟨i, hi, hlow, hhigh⟩ := exists_digit_count (by norm_num) h9
  have hsize : size < i + 1 := (Nat.pow_lt_pow_iff_right (by norm_num)).mp (h.trans_lt hhigh)
  rw [itoa, itoaMax_natCast (by omega) hlow hhigh]
  simp only [if_neg (show ¬ i + 1 < size by omega), if_neg (show ¬ i + 1 = size by omega)]

/-- The number of a slot fits into a block of five bytes. -/
theorem itoa_slot {slot : ℕ} (h : slot < 100) (tail : Text) :
    itoa 5 slot tail = .ok (fmtInt slot) :=
  itoa_fits (by norm_num) (by norm_num) (by omega) (by norm_num; omega) tail

/-- The text that starts at a block of five bytes with a global id in it. Five digits
    leave no room for the NUL. -/
def idText (id : ℤ) (tail : Text) : Text :=
  fmtInt id ++ if (fmtInt id).length < 5 then [] else tail

/-- A global id that is not refused is printed into five bytes. -/
theorem itoa_globalId {id : ℤ} (h0 : 0 ≤ id) (h : id < 100000) (tail : Text) :
    itoa 5 id tail = .ok (idText id tail) := by
  obtain ⟨n, rfl⟩ := Int.eq_ofNat_of_zero_le h0
  exact itoa_natCast (by norm_num) (by norm_num) (by norm_num; omega) tail

end Nachos.Network
