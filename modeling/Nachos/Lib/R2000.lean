import Mathlib.Data.BitVec

/-!
# The MIPS R2000

The reference semantics of the instructions that do not access memory: the meaning of a word, what
its execution writes and where it goes, and the state after it. A branch takes effect after the
instruction in its delay slot, a load after the instruction that follows it. What the
architecture leaves open, `HI` and `LO` after a division by zero, is not prescribed.
-/

namespace Nachos.Lib.R2000

abbrev Reg := BitVec 5

/-! ## Encoding -/

/-- The arithmetic, logical, shift, compare, branch, jump, multiply, divide and `HI`/`LO`
    instructions. -/
inductive Mnemonic
  | add | addi | addiu | addu | and | andi | beq | bgez | bgezal | bgtz | blez | bltz | bltzal | bne
  | div | divu | j | jal | jalr | jr | lui | mfhi | mflo | mthi | mtlo | mult | multu | nor | or
  | ori | sll | sllv | slt | slti | sltiu | sltu | sra | srav | srl | srlv | sub | subu | xor | xori
  deriving DecidableEq, Repr

section Fields
variable (w : BitVec 32)

def op : BitVec 6 := w.extractLsb' 26 6
def rs : Reg := w.extractLsb' 21 5
def rt : Reg := w.extractLsb' 16 5
def rd : Reg := w.extractLsb' 11 5
def shamt : BitVec 5 := w.extractLsb' 6 5
def funct : BitVec 6 := w.extractLsb' 0 6
def target : BitVec 26 := w.extractLsb' 0 26

/-- The immediate operand, as it stands in the word. -/
def imm : BitVec 16 := w.extractLsb' 0 16

end Fields

/-- The instructions with `op = 0`. -/
def special : ℕ → Option Mnemonic
  | 0x00 => some .sll | 0x02 => some .srl | 0x03 => some .sra | 0x04 => some .sllv
  | 0x06 => some .srlv | 0x07 => some .srav | 0x08 => some .jr | 0x09 => some .jalr
  | 0x10 => some .mfhi | 0x11 => some .mthi | 0x12 => some .mflo | 0x13 => some .mtlo
  | 0x18 => some .mult | 0x19 => some .multu | 0x1a => some .div | 0x1b => some .divu
  | 0x20 => some .add | 0x21 => some .addu | 0x22 => some .sub | 0x23 => some .subu
  | 0x24 => some .and | 0x25 => some .or | 0x26 => some .xor | 0x27 => some .nor
  | 0x2a => some .slt | 0x2b => some .sltu
  | _ => none

/-- The instructions with `op = 1`. -/
def bcond : ℕ → Option Mnemonic
  | 0x00 => some .bltz | 0x01 => some .bgez | 0x10 => some .bltzal | 0x11 => some .bgezal
  | _ => none

/-- The other instructions. -/
def primary : ℕ → Option Mnemonic
  | 0x02 => some .j | 0x03 => some .jal
  | 0x04 => some .beq | 0x05 => some .bne | 0x06 => some .blez | 0x07 => some .bgtz
  | 0x08 => some .addi | 0x09 => some .addiu | 0x0a => some .slti | 0x0b => some .sltiu
  | 0x0c => some .andi | 0x0d => some .ori | 0x0e => some .xori | 0x0f => some .lui
  | _ => none

/-- The instruction a word encodes. -/
def decode (w : BitVec 32) : Option Mnemonic :=
  match (op w).toNat with
  | 0x00 => special (funct w).toNat
  | 0x01 => bcond (rt w).toNat
  | n => primary n

/-! ## States -/

/-- `pc` is the address of the instruction to execute, `nextPC` that of the one after it. -/
structure State where
  gpr : Reg → BitVec 32
  hi : BitVec 32
  lo : BitVec 32
  pc : BitVec 32
  nextPC : BitVec 32
  /-- The load of the instruction before. -/
  delayed : Option (Reg × BitVec 32)

/-- An operand: `R0` is zero, and a delayed load is not seen. -/
def State.get (s : State) (r : Reg) : BitVec 32 := if r = 0 then 0 else s.gpr r

/-- The registers with the delayed load done. -/
def State.settled (s : State) (r : Reg) : BitVec 32 :=
  match s.delayed with
  | some (r', v) => if r = r' then v else s.gpr r
  | none => s.gpr r

/-- What an instruction does: the register it writes, the values of `HI` and `LO` after it where
    they are prescribed, and where it goes if it is a branch that is taken. -/
structure Effect where
  write : Option (Reg × BitVec 32)
  hi : Option (BitVec 32)
  lo : Option (BitVec 32)
  target : Option (BitVec 32)

/-- A register after the instruction: the instruction's own write comes after the delayed load. -/
def Effect.gpr (e : Effect) (s : State) (r : Reg) : BitVec 32 :=
  if r = 0 then 0
  else match e.write with
    | some (r', v) => if r = r' then v else s.settled r
    | none => s.settled r

/-- `s'` is the state after an instruction that does `e`. -/
structure Prescribes (s : State) (e : Effect) (s' : State) : Prop where
  gpr : s'.gpr = e.gpr s
  hi : ∀ v, e.hi = some v → s'.hi = v
  lo : ∀ v, e.lo = some v → s'.lo = v
  pc : s'.pc = s.nextPC
  nextPC : s'.nextPC = e.target.getD (s.nextPC + 4)
  delayed : s'.delayed = none

/-- The state an exception handler sees: the instruction has done nothing, the load before it is
    finished. -/
def State.trapped (s : State) : State :=
  { s with gpr := fun r => if r = 0 then 0 else s.settled r, delayed := none }

/-! ## Execution -/

section Effects
variable (s : State)

/-- A register is written. -/
def writes (r : Reg) (v : BitVec 32) : Effect :=
  { write := some (r, v), hi := some s.hi, lo := some s.lo, target := none }

/-- `HI` and `LO` are written. -/
def writesHiLo (hi lo : Option (BitVec 32)) : Effect :=
  { write := none, hi := hi, lo := lo, target := none }

/-- The next instruction but one is at `a` if `taken`. -/
def branches (taken : Bool) (a : BitVec 32) : Effect :=
  { write := none, hi := some s.hi, lo := some s.lo, target := if taken then some a else none }

/-- The address after the delay slot goes into `r`. -/
def linking (e : Effect) (r : Reg) : Effect := { e with write := some (r, s.nextPC + 4) }

/-- The write of a result that may overflow. -/
def trapping (r : Reg) (x : ℤ) : Option Effect :=
  if -2 ^ 31 ≤ x ∧ x < 2 ^ 31 then some (writes s r (BitVec.ofInt 32 x)) else none

end Effects

/-- The two halves of a product. -/
def halves (p : BitVec 64) : Effect :=
  writesHiLo (some (p.extractLsb' 32 32)) (some (p.extractLsb' 0 32))

def flag (p : Bool) : BitVec 32 := if p then 1 else 0

/-- The effect of an instruction; `none` is the overflow exception. -/
@[simp] def exec (k : Mnemonic) (w : BitVec 32) (s : State) : Option Effect :=
  let a := s.get (rs w)
  let b := s.get (rt w)
  let signed := (imm w).signExtend 32
  let unsigned := (imm w).setWidth 32
  let branchTarget := s.nextPC + signed <<< 2
  let jumpTarget := (s.nextPC.extractLsb' 28 4 ++ target w ++ 0#2 : BitVec 32)
  match k with
  | .add => trapping s (rd w) (a.toInt + b.toInt)
  | .addi => trapping s (rt w) (a.toInt + signed.toInt)
  | .sub => trapping s (rd w) (a.toInt - b.toInt)
  | .addu => writes s (rd w) (a + b)
  | .addiu => writes s (rt w) (a + signed)
  | .subu => writes s (rd w) (a - b)
  | .and => writes s (rd w) (a &&& b)
  | .andi => writes s (rt w) (a &&& unsigned)
  | .or => writes s (rd w) (a ||| b)
  | .ori => writes s (rt w) (a ||| unsigned)
  | .xor => writes s (rd w) (a ^^^ b)
  | .xori => writes s (rt w) (a ^^^ unsigned)
  | .nor => writes s (rd w) (~~~(a ||| b))
  | .lui => writes s (rt w) (imm w ++ 0#16)
  | .sll => writes s (rd w) (b <<< (shamt w).toNat)
  | .sllv => writes s (rd w) (b <<< (a.toNat % 32))
  | .srl => writes s (rd w) (b >>> (shamt w).toNat)
  | .srlv => writes s (rd w) (b >>> (a.toNat % 32))
  | .sra => writes s (rd w) (b.sshiftRight (shamt w).toNat)
  | .srav => writes s (rd w) (b.sshiftRight (a.toNat % 32))
  | .slt => writes s (rd w) (flag (a.toInt < b.toInt))
  | .slti => writes s (rt w) (flag (a.toInt < signed.toInt))
  | .sltu => writes s (rd w) (flag (a.toNat < b.toNat))
  | .sltiu => writes s (rt w) (flag (a.toNat < signed.toNat))
  | .beq => branches s (a = b) branchTarget
  | .bne => branches s (a ≠ b) branchTarget
  | .blez => branches s (a.toInt ≤ 0) branchTarget
  | .bgtz => branches s (0 < a.toInt) branchTarget
  | .bltz => branches s (a.toInt < 0) branchTarget
  | .bgez => branches s (0 ≤ a.toInt) branchTarget
  | .bltzal => linking s (branches s (a.toInt < 0) branchTarget) 31
  | .bgezal => linking s (branches s (0 ≤ a.toInt) branchTarget) 31
  | .j => branches s true jumpTarget
  | .jal => linking s (branches s true jumpTarget) 31
  | .jr => branches s true a
  | .jalr => linking s (branches s true a) (rd w)
  | .mult => halves (BitVec.ofInt 64 (a.toInt * b.toInt))
  | .multu => halves (BitVec.ofNat 64 (a.toNat * b.toNat))
  | .div =>
    if b = 0 then writesHiLo none none
    else writesHiLo (some (BitVec.ofInt 32 (a.toInt.tmod b.toInt)))
      (some (BitVec.ofInt 32 (a.toInt.tdiv b.toInt)))
  | .divu =>
    if b = 0 then writesHiLo none none
    else writesHiLo (some (BitVec.ofNat 32 (a.toNat % b.toNat)))
      (some (BitVec.ofNat 32 (a.toNat / b.toNat)))
  | .mfhi => writes s (rd w) s.hi
  | .mflo => writes s (rd w) s.lo
  | .mthi => writesHiLo (some a) (some s.lo)
  | .mtlo => writesHiLo (some s.hi) (some a)

end Nachos.Lib.R2000
