import Mathlib.Data.BitVec
import Mathlib.Tactic.Ring

/-!
# The multiplication loop

`Mult` (`machine/mipssim.cc`): the bits of `a` are checked one at a time and a shifted `b` is added
in, in two words.

* `wide_multLoop`: the loop's invariant.
* `wide_mult_unsigned`, `wide_mult_signed`: what the two words are.
* `mult_exact`: they hold the whole product, unsigned or signed.
-/

namespace Nachos.Processor

/-- An `int` or an `unsigned int`. -/
abbrev Word := BitVec 32

/-- `SIGN_BIT`. -/
def SIGN_BIT : Word := 0x80000000

theorem and_signBit (x : Word) : x &&& SIGN_BIT = 0 ↔ x.msb = false := by
  have h := BitVec.and_twoPow x 31
  rw [show BitVec.twoPow 32 31 = SIGN_BIT by decide] at h
  rw [h, BitVec.msb_eq_getLsbD_last]
  cases x.getLsbD 31 <;> decide

@[simp] theorem toNat_zero_word : (0 : Word).toNat = 0 := rfl

@[simp] theorem toNat_one_word : (1 : Word).toNat = 1 := rfl

theorem and_one (x : Word) : (x &&& 1).toNat = x.toNat % 2 := by
  rw [BitVec.toNat_and]
  exact Nat.and_one_is_mod _

theorem and_one_eq_zero (x : Word) : x &&& 1 = 0 ↔ x.toNat % 2 = 0 := by
  rw [← and_one, ← BitVec.toNat_inj]
  rfl

theorem lt_two_of_and {x : Word} (h : x &&& 0xfffffffe = 0) : x.toNat < 2 := by
  have hx : x = x &&& 1 := by
    calc x = x &&& (0xfffffffe ||| 1) := by
          rw [show (0xfffffffe ||| 1 : Word) = BitVec.allOnes 32 by decide, BitVec.and_allOnes]
      _ = x &&& 1 := by rw [BitVec.and_or_distrib_left, h]; exact BitVec.zero_or
  rw [hx, and_one]
  omega

/-! ## Model -/

/-- The loop of `Mult`, with `n` iterations left. -/
def multLoop : ℕ → Word → (bHi bLo hi lo : Word) → Word × Word
  | 0, _, _, _, hi, lo => (hi, lo)
  | n + 1, a, bHi, bLo, hi, lo =>
    let bHi' := if bLo &&& 0x80000000 ≠ 0 then bHi <<< 1 ||| 1 else bHi <<< 1
    let bLo' := bLo <<< 1
    if a &&& 1 ≠ 0 then
      let lo' := lo + bLo
      let hi' := (if lo' < bLo then hi + 1 else hi) + bHi
      if a &&& 0xfffffffe = 0 then (hi', lo')
      else multLoop n (a.sshiftRight 1) bHi' bLo' hi' lo'
    else multLoop n (a.sshiftRight 1) bHi' bLo' hi lo

/-- The two's complement of a double word. -/
def negate (hi lo : Word) : Word × Word :=
  let lo' := ~~~lo + 1
  (if lo' = 0 then ~~~hi + 1 else ~~~hi, lo')

/-- `Mult`: the words for `*hiPtr` and `*loPtr`. -/
def Mult (a b : Word) (signedArith : Bool) : Word × Word :=
  if a = 0 ∨ b = 0 then (0, 0)
  else
    let negA := signedArith && a.slt 0
    let negB := signedArith && b.slt 0
    let a' := if negA then -a else a
    let b' := if negB then -b else b
    let (hi, lo) := multLoop 32 a' 0 b' 0 0
    if negA ^^ negB then negate hi lo else (hi, lo)

/-! ## Double words -/

/-- The double word `hi:lo`. -/
def wide (w : Word × Word) : BitVec 64 := BitVec.ofNat 64 (w.1.toNat * 2 ^ 32 + w.2.toNat)

theorem toNat_wide (w : Word × Word) : (wide w).toNat = w.1.toNat * 2 ^ 32 + w.2.toNat := by
  have h₁ := w.1.isLt
  have h₂ := w.2.isLt
  simp only [wide, BitVec.toNat_ofNat]
  omega

/-- The carry out of the low word is found by comparison. -/
theorem wide_add (hi lo bHi bLo : Word) :
    wide ((if lo + bLo < bLo then hi + 1 else hi) + bHi, lo + bLo) =
      wide (hi, lo) + wide (bHi, bLo) := by
  apply BitVec.eq_of_toNat_eq
  have h₁ := hi.isLt
  have h₂ := lo.isLt
  have h₃ := bHi.isLt
  have h₄ := bLo.isLt
  rw [BitVec.toNat_add, toNat_wide, toNat_wide, toNat_wide]
  simp only [BitVec.lt_def, BitVec.toNat_add]
  split
  · rw [BitVec.toNat_add, toNat_one_word]
    omega
  · omega

/-- The top bit of the low word moves into the high word. -/
theorem wide_shift (bHi bLo : Word) :
    wide (if bLo &&& 0x80000000 ≠ 0 then bHi <<< 1 ||| 1 else bHi <<< 1, bLo <<< 1) =
      2 * wide (bHi, bLo) := by
  apply BitVec.eq_of_toNat_eq
  have h₃ := bHi.isLt
  have h₄ := bLo.isLt
  have hmsb : (bLo &&& 0x80000000 = 0) ↔ bLo.toNat < 2 ^ 31 := by
    rw [show (0x80000000 : Word) = SIGN_BIT from rfl, and_signBit, BitVec.msb_eq_decide]
    simp
  have hor : (bHi <<< 1 ||| 1).toNat = (bHi <<< 1).toNat + 1 := by
    have heven : bHi <<< 1 &&& 1 = 0 := by
      rw [and_one_eq_zero, BitVec.toNat_shiftLeft, Nat.shiftLeft_eq]
      omega
    rw [← BitVec.add_eq_or_of_and_eq_zero _ _ heven, BitVec.toNat_add, BitVec.toNat_shiftLeft,
      Nat.shiftLeft_eq, toNat_one_word]
    omega
  have htwo : (2 : BitVec 64).toNat = 2 := rfl
  rw [BitVec.toNat_mul, toNat_wide, toNat_wide, htwo]
  split
  · rename_i h
    rw [ne_eq, hmsb] at h
    simp only [hor, BitVec.toNat_shiftLeft, Nat.shiftLeft_eq]
    omega
  · rename_i h
    rw [not_not, hmsb] at h
    simp only [BitVec.toNat_shiftLeft, Nat.shiftLeft_eq]
    omega

theorem wide_negate (hi lo : Word) : wide (negate hi lo) = -wide (hi, lo) := by
  apply BitVec.eq_of_toNat_eq
  have h₁ := hi.isLt
  have h₂ := lo.isLt
  rw [BitVec.toNat_neg, toNat_wide, toNat_wide]
  simp only [negate, ← BitVec.toNat_inj]
  split <;> rename_i h
  all_goals
    simp only [BitVec.toNat_add, BitVec.toNat_not, toNat_zero_word, toNat_one_word] at h ⊢
    omega

/-! ## The loop -/

/-- The bits still to check, after one shift. -/
theorem toNat_sshiftRight_mod {n : ℕ} (hn : n < 32) (a : Word) :
    (a.sshiftRight 1).toNat % 2 ^ n = a.toNat / 2 % 2 ^ n := by
  have hdvd : 2 ^ n ∣ 2 ^ 31 := Nat.pow_dvd_pow 2 (by omega)
  have hmod : (a.sshiftRight 1).toNat % 2 ^ 31 = a.toNat / 2 % 2 ^ 31 := by
    have ha := a.isLt
    rw [BitVec.toNat_sshiftRight]
    split
    · rw [Nat.shiftRight_eq_div_pow]
      omega
    · rw [Nat.shiftRight_eq_div_pow, Nat.pow_one]
  rw [← Nat.mod_mod_of_dvd _ hdvd, hmod, Nat.mod_mod_of_dvd _ hdvd]

/-- **The loop's invariant**: what is left to add is the product of the bits not yet checked. -/
theorem wide_multLoop {n : ℕ} (hn : n ≤ 32) (a bHi bLo hi lo : Word) :
    wide (multLoop n a bHi bLo hi lo) =
      wide (hi, lo) + BitVec.ofNat 64 (a.toNat % 2 ^ n) * wide (bHi, bLo) := by
  induction n generalizing a bHi bLo hi lo with
  | zero => simp [multLoop, Nat.mod_one]
  | succ n ih =>
    have hbits : BitVec.ofNat 64 (a.toNat % 2 ^ (n + 1)) =
        BitVec.ofNat 64 (a.toNat % 2) + 2 * BitVec.ofNat 64 (a.toNat / 2 % 2 ^ n) := by
      rw [Nat.pow_succ', Nat.mod_mul, BitVec.ofNat_add, BitVec.ofNat_mul]
      rfl
    rw [multLoop]
    by_cases h1 : a &&& 1 = 0
    · rw [if_neg (by simpa using h1), ih (by omega), wide_shift, toNat_sshiftRight_mod (by omega),
        hbits, (and_one_eq_zero a).1 h1, show BitVec.ofNat 64 0 = 0 from rfl]
      ring
    · have hodd : a.toNat % 2 = 1 := by
        rw [and_one_eq_zero] at h1
        omega
      rw [if_pos h1, hbits, hodd, show BitVec.ofNat 64 1 = 1 from rfl]
      by_cases h2 : a &&& 0xfffffffe = 0
      · have hlt := lt_two_of_and h2
        rw [if_pos h2, wide_add, Nat.div_eq_of_lt hlt, Nat.zero_mod,
          show BitVec.ofNat 64 0 = 0 from rfl]
        ring
      · rw [if_neg h2, ih (by omega), wide_shift, toNat_sshiftRight_mod (by omega), wide_add]
        ring

theorem wide_loop (a b : Word) :
    wide (multLoop 32 a 0 b 0 0) = BitVec.ofNat 64 (a.toNat * b.toNat) := by
  rw [wide_multLoop (le_refl _), Nat.mod_eq_of_lt a.isLt, BitVec.ofNat_mul]
  simp [wide]

/-! ## The product -/

/-- Unsigned operands. -/
theorem wide_mult_unsigned (a b : Word) :
    wide (Mult a b false) = BitVec.ofNat 64 (a.toNat * b.toNat) := by
  rw [Mult]
  split
  · rename_i h
    obtain rfl | rfl := h <;> simp [wide]
  · simpa using wide_loop a b

/-- The magnitude of a word, as `Mult` makes it positive. -/
theorem toNat_magnitude (a : Word) : (if a.slt 0 then -a else a).toNat = a.toInt.natAbs := by
  have ha := a.isLt
  have hs : (a.slt 0 = true) ↔ a.toInt < 0 := by simp [BitVec.slt]
  rw [BitVec.toInt_eq_toNat_cond] at hs ⊢
  by_cases h : 2 * a.toNat < 2 ^ 32
  · rw [if_pos h] at hs ⊢
    rw [if_neg (by rw [hs]; omega)]
    omega
  · rw [if_neg h] at hs ⊢
    rw [if_pos (by rw [hs]; omega), BitVec.toNat_neg]
    omega

/-- A word is its magnitude with its sign. -/
theorem toInt_eq_magnitude (a : Word) :
    a.toInt = if a.slt 0 then -(a.toInt.natAbs : ℤ) else a.toInt.natAbs := by
  have hs : (a.slt 0 = true) ↔ a.toInt < 0 := by simp [BitVec.slt]
  split <;> rename_i h <;> rw [hs] at h <;> omega

/-- Signed operands, the most negative number among them. -/
theorem wide_mult_signed (a b : Word) :
    wide (Mult a b true) = BitVec.ofInt 64 (a.toInt * b.toInt) := by
  rw [Mult]
  split
  · rename_i h
    obtain rfl | rfl := h <;> simp [wide]
  · have hloop := wide_loop (if a.slt 0 then -a else a) (if b.slt 0 then -b else b)
    rw [toNat_magnitude, toNat_magnitude] at hloop
    have hprod : BitVec.ofInt 64 (a.toInt * b.toInt) =
        if a.slt 0 ^^ b.slt 0 then -BitVec.ofNat 64 (a.toInt.natAbs * b.toInt.natAbs)
        else BitVec.ofNat 64 (a.toInt.natAbs * b.toInt.natAbs) := by
      rw [← BitVec.ofInt_natCast, ← BitVec.ofInt_neg, Nat.cast_mul]
      conv_lhs => rw [toInt_eq_magnitude a, toInt_eq_magnitude b]
      cases a.slt 0 <;> cases b.slt 0 <;> simp
    rw [hprod, ← hloop]
    simp only [Bool.true_and]
    split
    · exact wide_negate _ _
    · rfl

/-- The sign of a double word is the sign of its high word. -/
theorem toInt_wide (w : Word × Word) : (wide w).toInt = w.1.toInt * 2 ^ 32 + w.2.toNat := by
  have h₁ := w.1.isLt
  have h₂ := w.2.isLt
  rw [BitVec.toInt_eq_toNat_cond, BitVec.toInt_eq_toNat_cond, toNat_wide]
  split <;> split <;> omega

/-- The product of two words as numbers with a sign has a place in a double word: the largest one
    is that of the most negative number with itself. -/
theorem signed_product_fits (a b : Word) :
    (BitVec.ofInt 64 (a.toInt * b.toInt)).toInt = a.toInt * b.toInt := by
  have ha := BitVec.le_toInt a
  have ha' := BitVec.toInt_lt (x := a)
  have hb := BitVec.le_toInt b
  have hb' := BitVec.toInt_lt (x := b)
  have hab : (a.toInt * b.toInt).natAbs ≤ 2 ^ 31 * 2 ^ 31 := by
    rw [Int.natAbs_mul]
    exact Nat.mul_le_mul (by omega) (by omega)
  rw [BitVec.toInt_ofInt_eq_self (by norm_num)] <;> omega

/-- **Multiplication is exact**: the two words are the product of the operands as numbers without a
    sign, or as numbers with one. -/
theorem mult_exact (a b : Word) :
    (Mult a b false).1.toNat * 2 ^ 32 + (Mult a b false).2.toNat = a.toNat * b.toNat ∧
      (Mult a b true).1.toInt * 2 ^ 32 + (Mult a b true).2.toNat = a.toInt * b.toInt := by
  constructor
  · have hlt : a.toNat * b.toNat < 2 ^ 32 * 2 ^ 32 := Nat.mul_lt_mul'' a.isLt b.isLt
    rw [← toNat_wide, wide_mult_unsigned, BitVec.toNat_ofNat]
    exact Nat.mod_eq_of_lt hlt
  · rw [← toInt_wide, wide_mult_signed, signed_product_fits]

end Nachos.Processor
