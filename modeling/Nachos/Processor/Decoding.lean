import Nachos.Lib.R2000
import Nachos.Processor.OneInstruction

/-!
# Decoding

`Instruction::Decode` against the encoding of the R2000.

* `decode_mnemonic`: the `opCode` is that of the instruction the word encodes.
* `extra_of_decode`, `extra_shamt`, `extra_target`, `extra_imm`: what `extra` is.
-/

namespace Nachos.Processor

open Nachos.Lib
open Nachos.Lib.R2000 (Mnemonic)

/-! ## The fields -/

/-- A mask of `n` ones. -/
theorem toNat_mask {n : ℕ} (w : Word) {mask : Word} (hm : mask.toNat = 2 ^ n - 1) :
    (w &&& mask).toNat = w.toNat % 2 ^ n := by
  rw [BitVec.toNat_and, hm, Nat.and_two_pow_sub_one_eq_mod]

/-- The fields are masked out of the word. -/
theorem setWidth_field (w : Word) (k : ℕ) :
    ((w >>> k) &&& 0x1f).setWidth 5 = w.extractLsb' k 5 := by
  apply BitVec.eq_of_toNat_eq
  rw [BitVec.toNat_setWidth, toNat_mask (n := 5) _ rfl, BitVec.extractLsb'_toNat,
    BitVec.toNat_ushiftRight, Nat.mod_mod]

@[simp] theorem decode_rs (w : Word) : (Decode w).rs = R2000.rs w := setWidth_field w 21

@[simp] theorem decode_rt (w : Word) : (Decode w).rt = R2000.rt w := setWidth_field w 16

@[simp] theorem decode_rd (w : Word) : (Decode w).rd = R2000.rd w := setWidth_field w 11

theorem toNat_op (w : Word) : ((w >>> 26) &&& 0x3f).toNat = (R2000.op w).toNat := by
  rw [toNat_mask (n := 6) _ rfl, R2000.op, BitVec.extractLsb'_toNat,
    BitVec.toNat_ushiftRight]

theorem toNat_funct (w : Word) : (w &&& 0x3f).toNat = (R2000.funct w).toNat := by
  rw [toNat_mask (n := 6) _ rfl, R2000.funct, BitVec.extractLsb'_toNat,
    Nat.shiftRight_zero]

/-- `value & 0x1f0000` is the `rt` field in its place. -/
theorem and_rt (w : Word) : w &&& (0x1f0000 : Word) = (R2000.rt w).setWidth 32 <<< 16 := by
  have hmask : ∀ i < 32, (0x1f0000 : Word).getLsbD i = (decide (16 ≤ i) && decide (i < 21)) := by
    decide
  apply BitVec.eq_of_getLsbD_eq
  intro i hi
  rw [BitVec.getLsbD_and, hmask i hi, BitVec.getLsbD_shiftLeft, BitVec.getLsbD_setWidth, R2000.rt,
    BitVec.getLsbD_extractLsb']
  by_cases h : 16 ≤ i
  · rw [show 16 + (i - 16) = i by omega]
    by_cases h' : i < 21
    · simp [h, h', hi, show ¬i < 16 by omega, show i - 16 < 32 by omega, show i - 16 < 5 by omega]
    · simp [h', show ¬i - 16 < 5 by omega]
  · simp [h, show i < 16 by omega]

/-! ## The `extra` field -/

theorem extra_shamt (w : Word) : (decodeExtra w .RFMT).toNat = (R2000.shamt w).toNat := by
  rw [decodeExtra, toNat_mask (n := 5) _ rfl, R2000.shamt, BitVec.extractLsb'_toNat,
    BitVec.toNat_ushiftRight]

theorem extra_target (w : Word) : decodeExtra w .JFMT = (R2000.target w).setWidth 32 := by
  apply BitVec.eq_of_toNat_eq
  rw [decodeExtra, toNat_mask (n := 26) _ rfl, BitVec.toNat_setWidth, R2000.target,
    BitVec.extractLsb'_toNat, Nat.shiftRight_zero]
  omega

/-- Immediates are sign-extended. -/
theorem extra_imm (w : Word) : decodeExtra w .IFMT = (R2000.imm w).signExtend 32 := by
  have hlow : (w &&& 0xffff).toNat = (R2000.imm w).toNat := by
    rw [toNat_mask (n := 16) _ rfl, R2000.imm, BitVec.extractLsb'_toNat,
      Nat.shiftRight_zero]
  have hbit : (w &&& 0xffff) &&& 0x8000 ≠ 0 ↔ (R2000.imm w).msb = true := by
    have h := BitVec.and_twoPow (w &&& 0xffff) 15
    rw [show BitVec.twoPow 32 15 = 0x8000 by decide] at h
    rw [h, BitVec.msb_eq_getLsbD_last, R2000.imm, BitVec.getLsbD_extractLsb', BitVec.getLsbD_and,
      show (0xffff : Word).getLsbD 15 = true by decide]
    cases w.getLsbD 15 <;> simp
  have hor : ((w &&& 0xffff) ||| 0xffff0000) = (w &&& 0xffff) + 0xffff0000 := by
    refine (BitVec.add_eq_or_of_and_eq_zero _ _ ?_).symm
    rw [BitVec.and_assoc, show (0xffff &&& 0xffff0000 : Word) = 0 by decide]
    exact BitVec.and_zero
  apply BitVec.eq_of_toNat_eq
  have himm := (R2000.imm w).isLt
  rw [BitVec.toNat_signExtend, BitVec.toNat_setWidth]
  simp only [decodeExtra, hbit]
  split
  · rw [hor, BitVec.toNat_add, hlow, show (0xffff0000 : Word).toNat = 0xffff0000 from rfl]
    omega
  · rw [hlow]
    omega

theorem imm_mask (w : Word) :
    (R2000.imm w).signExtend 32 &&& 0xffff = (R2000.imm w).setWidth 32 := by
  apply BitVec.eq_of_toNat_eq
  have himm := (R2000.imm w).isLt
  rw [toNat_mask (n := 16) _ rfl, BitVec.toNat_signExtend, BitVec.toNat_setWidth]
  split <;> omega

/-! ## The `opCode` field -/

/-- The `opCode` of an instruction. -/
@[simp] def opCode : Mnemonic → OpCode
  | .add => .OP_ADD | .addi => .OP_ADDI | .addiu => .OP_ADDIU | .addu => .OP_ADDU
  | .and => .OP_AND | .andi => .OP_ANDI | .beq => .OP_BEQ | .bgez => .OP_BGEZ
  | .bgezal => .OP_BGEZAL | .bgtz => .OP_BGTZ | .blez => .OP_BLEZ | .bltz => .OP_BLTZ
  | .bltzal => .OP_BLTZAL | .bne => .OP_BNE | .div => .OP_DIV | .divu => .OP_DIVU | .j => .OP_J
  | .jal => .OP_JAL | .jalr => .OP_JALR | .jr => .OP_JR | .lui => .OP_LUI | .mfhi => .OP_MFHI
  | .mflo => .OP_MFLO | .mthi => .OP_MTHI | .mtlo => .OP_MTLO | .mult => .OP_MULT
  | .multu => .OP_MULTU | .nor => .OP_NOR | .or => .OP_OR | .ori => .OP_ORI | .sll => .OP_SLL
  | .sllv => .OP_SLLV | .slt => .OP_SLT | .slti => .OP_SLTI | .sltiu => .OP_SLTIU
  | .sltu => .OP_SLTU | .sra => .OP_SRA | .srav => .OP_SRAV | .srl => .OP_SRL | .srlv => .OP_SRLV
  | .sub => .OP_SUB | .subu => .OP_SUBU | .xor => .OP_XOR | .xori => .OP_XORI

/-- The instruction of an `opCode`. -/
def mnemonic : OpCode → Option Mnemonic
  | .OP_ADD => some .add | .OP_ADDI => some .addi | .OP_ADDIU => some .addiu
  | .OP_ADDU => some .addu | .OP_AND => some .and | .OP_ANDI => some .andi | .OP_BEQ => some .beq
  | .OP_BGEZ => some .bgez | .OP_BGEZAL => some .bgezal | .OP_BGTZ => some .bgtz
  | .OP_BLEZ => some .blez | .OP_BLTZ => some .bltz | .OP_BLTZAL => some .bltzal
  | .OP_BNE => some .bne | .OP_DIV => some .div | .OP_DIVU => some .divu | .OP_J => some .j
  | .OP_JAL => some .jal | .OP_JALR => some .jalr | .OP_JR => some .jr | .OP_LUI => some .lui
  | .OP_MFHI => some .mfhi | .OP_MFLO => some .mflo | .OP_MTHI => some .mthi
  | .OP_MTLO => some .mtlo | .OP_MULT => some .mult | .OP_MULTU => some .multu
  | .OP_NOR => some .nor | .OP_OR => some .or | .OP_ORI => some .ori | .OP_SLL => some .sll
  | .OP_SLLV => some .sllv | .OP_SLT => some .slt | .OP_SLTI => some .slti
  | .OP_SLTIU => some .sltiu | .OP_SLTU => some .sltu | .OP_SRA => some .sra
  | .OP_SRAV => some .srav | .OP_SRL => some .srl | .OP_SRLV => some .srlv | .OP_SUB => some .sub
  | .OP_SUBU => some .subu | .OP_XOR => some .xor | .OP_XORI => some .xori
  | _ => none

theorem mnemonic_eq_some_iff {c : OpCode} {k : Mnemonic} : mnemonic c = some k ↔ c = opCode k := by
  constructor
  · intro h
    cases c <;> simp only [mnemonic, reduceCtorEq, Option.some.injEq] at h <;> subst h <;> rfl
  · rintro rfl
    cases k <;> rfl

/-- The format of an instruction. -/
@[simp] def format : Mnemonic → Format
  | .j | .jal => .JFMT
  | .addi | .addiu | .andi | .ori | .xori | .lui | .slti | .sltiu
  | .beq | .bne | .blez | .bgtz | .bltz | .bgez | .bltzal | .bgezal => .IFMT
  | _ => .RFMT

theorem primary_mnemonic :
    ∀ n < 64, 2 ≤ n →
      R2000.primary n = mnemonic (opTable.getD n (.OP_RES, .IFMT)).1 ∧
      (opTable.getD n (.OP_RES, .IFMT)).1 ≠ .SPECIAL ∧
      (opTable.getD n (.OP_RES, .IFMT)).1 ≠ .BCOND := by
  decide

theorem special_mnemonic :
    ∀ n < 64, R2000.special n = mnemonic (specialTable.getD n .OP_RES) := by
  decide

theorem decodeOpCode_of_ne {c : OpCode} (hs : c ≠ .SPECIAL) (hb : c ≠ .BCOND) (w : Word) :
    decodeOpCode w c = c := by
  cases c <;> first | rfl | contradiction

/-- The branches on a condition are told apart by the `rt` field. -/
theorem bcond_mnemonic (w : Word) :
    R2000.bcond (R2000.rt w).toNat = mnemonic (decodeOpCode w .BCOND) := by
  have h : ∀ r : BitVec 5,
      R2000.bcond r.toNat = mnemonic (
        if r.setWidth 32 <<< 16 = (0 : Word) then .OP_BLTZ
        else if r.setWidth 32 <<< 16 = (0x10000 : Word) then .OP_BGEZ
        else if r.setWidth 32 <<< 16 = (0x100000 : Word) then .OP_BLTZAL
        else if r.setWidth 32 <<< 16 = (0x110000 : Word) then .OP_BGEZAL
        else .OP_UNIMP) := by
    decide +kernel
  simp only [decodeOpCode, and_rt]
  exact h _

/-- **`Decode` finds the instruction that the word encodes.** -/
theorem decode_mnemonic (w : Word) : R2000.decode w = mnemonic (Decode w).opCode := by
  have hlt := (R2000.op w).isLt
  simp only [R2000.decode, Decode, opInfo, toNat_op]
  match hn : (R2000.op w).toNat with
  | 0 =>
    rw [show decodeOpCode w (opTable.getD 0 (.OP_RES, .IFMT)).1 =
      specialTable.getD (w &&& 0x3f).toNat .OP_RES from rfl, toNat_funct]
    exact special_mnemonic _ (R2000.funct w).isLt
  | 1 => exact bcond_mnemonic w
  | n + 2 =>
    obtain ⟨hp, hs, hb⟩ := primary_mnemonic (n + 2) (by omega) (by omega)
    rw [decodeOpCode_of_ne hs hb]
    exact hp

/-- What `Decode` yields for an instruction of the R2000. -/
theorem opCode_of_decode {w : Word} {k : Mnemonic} (h : R2000.decode w = some k) :
    (Decode w).opCode = opCode k :=
  mnemonic_eq_some_iff.1 ((decode_mnemonic w).symm.trans h)

theorem format_of_decode {w : Word} {k : Mnemonic} (h : R2000.decode w = some k) :
    (opInfo w).2 = format k := by
  have hspecial : ∀ n < 64, ∀ k ∈ R2000.special n, format k = .RFMT := by decide
  have hbcond : ∀ n < 32, ∀ k ∈ R2000.bcond n, format k = .IFMT := by decide
  have hprimary : ∀ n < 64, 2 ≤ n → ∀ k ∈ R2000.primary n,
      (opTable.getD n (.OP_RES, .IFMT)).2 = format k := by decide
  have hlt := (R2000.op w).isLt
  simp only [R2000.decode] at h
  rw [opInfo, toNat_op]
  match hn : (R2000.op w).toNat with
  | 0 =>
    rw [hn] at h
    exact (hspecial _ (R2000.funct w).isLt k h).symm
  | 1 =>
    rw [hn] at h
    exact (hbcond _ (R2000.rt w).isLt k h).symm
  | n + 2 =>
    rw [hn] at h
    exact hprimary (n + 2) (by omega) (by omega) k h

theorem extra_of_decode {w : Word} {k : Mnemonic} (h : R2000.decode w = some k) :
    (Decode w).extra = decodeExtra w (format k) := by
  rw [← format_of_decode h]
  rfl

end Nachos.Processor
