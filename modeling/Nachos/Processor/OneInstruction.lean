import Nachos.Processor.Mult

/-!
# The simulated processor

`Instruction::Decode` and `Machine::OneInstruction` (`machine/mipssim.cc`) with the tables of
`mipssim.h`. The machine's registers are separate fields; `ReadMem` and `WriteMem` are a parameter.

* `zeroR0_execute`: `R0` is zero after every instruction.
-/

namespace Nachos.Processor

abbrev Reg := BitVec 5

/-! ## Decoding -/

/-- The values of the `opCode` field, and the two special values of `opTable`. -/
inductive OpCode
  | OP_ADD | OP_ADDI | OP_ADDIU | OP_ADDU | OP_AND | OP_ANDI | OP_BEQ | OP_BGEZ | OP_BGEZAL
  | OP_BGTZ | OP_BLEZ | OP_BLTZ | OP_BLTZAL | OP_BNE | OP_DIV | OP_DIVU | OP_J | OP_JAL | OP_JALR
  | OP_JR | OP_LB | OP_LBU | OP_LH | OP_LHU | OP_LUI | OP_LW | OP_LWL | OP_LWR | OP_MFHI | OP_MFLO
  | OP_MTHI | OP_MTLO | OP_MULT | OP_MULTU | OP_NOR | OP_OR | OP_ORI | OP_RFE | OP_SB | OP_SH
  | OP_SLL | OP_SLLV | OP_SLT | OP_SLTI | OP_SLTIU | OP_SLTU | OP_SRA | OP_SRAV | OP_SRL | OP_SRLV
  | OP_SUB | OP_SUBU | OP_SW | OP_SWL | OP_SWR | OP_XOR | OP_XORI | OP_SYSCALL | OP_UNIMP | OP_RES
  | SPECIAL | BCOND
  deriving DecidableEq, Repr

inductive Format
  | IFMT | JFMT | RFMT
  deriving DecidableEq, Repr

section Tables
open OpCode Format

/-- By bits 31:26 of the instruction. -/
def opTable : List (OpCode × Format) :=
  [(SPECIAL, RFMT), (BCOND, IFMT), (OP_J, JFMT), (OP_JAL, JFMT),
   (OP_BEQ, IFMT), (OP_BNE, IFMT), (OP_BLEZ, IFMT), (OP_BGTZ, IFMT),
   (OP_ADDI, IFMT), (OP_ADDIU, IFMT), (OP_SLTI, IFMT), (OP_SLTIU, IFMT),
   (OP_ANDI, IFMT), (OP_ORI, IFMT), (OP_XORI, IFMT), (OP_LUI, IFMT),
   (OP_UNIMP, IFMT), (OP_UNIMP, IFMT), (OP_UNIMP, IFMT), (OP_UNIMP, IFMT),
   (OP_RES, IFMT), (OP_RES, IFMT), (OP_RES, IFMT), (OP_RES, IFMT),
   (OP_RES, IFMT), (OP_RES, IFMT), (OP_RES, IFMT), (OP_RES, IFMT),
   (OP_RES, IFMT), (OP_RES, IFMT), (OP_RES, IFMT), (OP_RES, IFMT),
   (OP_LB, IFMT), (OP_LH, IFMT), (OP_LWL, IFMT), (OP_LW, IFMT),
   (OP_LBU, IFMT), (OP_LHU, IFMT), (OP_LWR, IFMT), (OP_RES, IFMT),
   (OP_SB, IFMT), (OP_SH, IFMT), (OP_SWL, IFMT), (OP_SW, IFMT),
   (OP_RES, IFMT), (OP_RES, IFMT), (OP_SWR, IFMT), (OP_RES, IFMT),
   (OP_UNIMP, IFMT), (OP_UNIMP, IFMT), (OP_UNIMP, IFMT), (OP_UNIMP, IFMT),
   (OP_RES, IFMT), (OP_RES, IFMT), (OP_RES, IFMT), (OP_RES, IFMT),
   (OP_UNIMP, IFMT), (OP_UNIMP, IFMT), (OP_UNIMP, IFMT), (OP_UNIMP, IFMT),
   (OP_RES, IFMT), (OP_RES, IFMT), (OP_RES, IFMT), (OP_RES, IFMT)]

/-- By the `funct` field of the `SPECIAL` instructions. -/
def specialTable : List OpCode :=
  [OP_SLL, OP_RES, OP_SRL, OP_SRA, OP_SLLV, OP_RES, OP_SRLV, OP_SRAV,
   OP_JR, OP_JALR, OP_RES, OP_RES, OP_SYSCALL, OP_UNIMP, OP_RES, OP_RES,
   OP_MFHI, OP_MTHI, OP_MFLO, OP_MTLO, OP_RES, OP_RES, OP_RES, OP_RES,
   OP_MULT, OP_MULTU, OP_DIV, OP_DIVU, OP_RES, OP_RES, OP_RES, OP_RES,
   OP_ADD, OP_ADDU, OP_SUB, OP_SUBU, OP_AND, OP_OR, OP_XOR, OP_NOR,
   OP_RES, OP_RES, OP_SLT, OP_SLTU, OP_RES, OP_RES, OP_RES, OP_RES,
   OP_RES, OP_RES, OP_RES, OP_RES, OP_RES, OP_RES, OP_RES, OP_RES,
   OP_RES, OP_RES, OP_RES, OP_RES, OP_RES, OP_RES, OP_RES, OP_RES]

end Tables

/-- `class Instruction`. -/
structure Instruction where
  value : Word
  opCode : OpCode
  rs : Reg
  rt : Reg
  rd : Reg
  extra : Word

/-- `opTable[(value >> 26) & 0x3f]`. -/
def opInfo (value : Word) : OpCode × Format :=
  opTable.getD ((value >>> 26) &&& 0x3f).toNat (.OP_RES, .IFMT)

/-- The `extra` field. -/
def decodeExtra (value : Word) : Format → Word
  | .IFMT =>
    let extra := value &&& 0xffff
    if extra &&& 0x8000 ≠ 0 then extra ||| 0xffff0000 else extra
  | .RFMT => (value >>> 6) &&& 0x1f
  | .JFMT => value &&& 0x3ffffff

/-- The `opCode` field. -/
def decodeOpCode (value : Word) : OpCode → OpCode
  | .SPECIAL => specialTable.getD (value &&& 0x3f).toNat .OP_RES
  | .BCOND =>
    let i := value &&& 0x1f0000
    if i = 0 then .OP_BLTZ
    else if i = 0x10000 then .OP_BGEZ
    else if i = 0x100000 then .OP_BLTZAL
    else if i = 0x110000 then .OP_BGEZAL
    else .OP_UNIMP
  | opCode => opCode

/-- `Instruction::Decode`. -/
def Decode (value : Word) : Instruction where
  value := value
  rs := ((value >>> 21) &&& 0x1f).setWidth 5
  rt := ((value >>> 16) &&& 0x1f).setWidth 5
  rd := ((value >>> 11) &&& 0x1f).setWidth 5
  extra := decodeExtra value (opInfo value).2
  opCode := decodeOpCode value (opInfo value).1

/-! ## The machine -/

/-- The exceptions that `OneInstruction` raises itself. -/
inductive Exception
  | SyscallException | AddressErrorException | OverflowException | IllegalInstrException
  deriving DecidableEq, Repr

/-- `class Machine`: the `registers` array as its parts, and a memory. -/
structure Machine (μ : Type*) where
  registers : Reg → Word
  hi : Word
  lo : Word
  pc : Word
  nextPC : Word
  prevPC : Word
  loadReg : Reg
  loadValue : Word
  badVAddr : Word
  memory : μ

/-- `ReadMem` and `WriteMem`: an error is the return value `FALSE`, with the machine as the
    handler of the exception leaves it. -/
structure Port (μ : Type*) where
  ReadMem : Machine μ → Word → ℕ → Except (Machine μ) (Word × μ)
  WriteMem : Machine μ → Word → ℕ → Word → Except (Machine μ) μ

/-- How an instruction ends. -/
inductive Outcome (μ : Type*)
  /-- The program counters have advanced. -/
  | done (m : Machine μ)
  /-- An exception is raised; `m` is the machine that the kernel's handler starts with. -/
  | exception (which : Exception) (m : Machine μ)
  /-- A memory access failed. -/
  | fault (m : Machine μ)
  | assertion
  /-- A division whose result is not an `int`: C++ does not define it. -/
  | undefined

namespace Machine
variable {μ : Type*} (m : Machine μ)

/-- `registers[r] = v`. -/
def set (r : Reg) (v : Word) : Machine μ :=
  { m with registers := fun x => if x = r then v else m.registers x }

/-- `Machine::DelayedLoad`. -/
def DelayedLoad (nextReg : Reg) (nextValue : Word) : Machine μ :=
  let m' := m.set m.loadReg m.loadValue
  { m' with loadReg := nextReg, loadValue := nextValue }.set 0 0

/-- `Machine::RaiseException`, up to the call of the handler. -/
def RaiseException (which : Exception) (badVAddr : Word) : Outcome μ :=
  .exception which ({ m with badVAddr := badVAddr }.DelayedLoad 0 0)

/-- The end of `OneInstruction`. -/
def advance (nextLoadReg : Reg) (nextLoadValue pcAfter : Word) : Outcome μ :=
  let m' := m.DelayedLoad nextLoadReg nextLoadValue
  .done { m' with prevPC := m'.pc, pc := m'.nextPC, nextPC := pcAfter }

end Machine

/-! ## `OneInstruction` -/

/-- `R31`. -/
def R31 : Reg := 31

def IndexToAddr (x : Word) : Word := x <<< 2

section OneInstruction
variable {μ : Type*} (port : Port μ) (m : Machine μ)

/-- A load: a failed read is left to the handler. -/
def load (tmp : Word) (size : ℕ) (nextLoadReg : Reg) (nextLoadValue : Word → Word)
    (pcAfter : Word) : Outcome μ :=
  match port.ReadMem m tmp size with
  | .error m' => .fault m'
  | .ok (value, mem) =>
    { m with memory := mem }.advance nextLoadReg (nextLoadValue value) pcAfter

/-- A store. -/
def store (addr : Word) (size : ℕ) (value pcAfter : Word) : Outcome μ :=
  match port.WriteMem m addr size value with
  | .error m' => .fault m'
  | .ok mem => { m with memory := mem }.advance 0 0 pcAfter

/-- The switch of `OneInstruction`, and what follows it. -/
def execute (i : Instruction) : Outcome μ :=
  let pcAfter := m.nextPC + 4
  let rs := m.registers i.rs
  let rt := m.registers i.rt
  let branch := m.nextPC + IndexToAddr i.extra
  let tmp := rs + i.extra
  match i.opCode with
  | .OP_ADD =>
    let sum := rs + rt
    if (rs ^^^ rt) &&& SIGN_BIT = 0 ∧ (rs ^^^ sum) &&& SIGN_BIT ≠ 0 then
      m.RaiseException .OverflowException 0
    else (m.set i.rd sum).advance 0 0 pcAfter
  | .OP_ADDI =>
    let sum := rs + i.extra
    if (rs ^^^ i.extra) &&& SIGN_BIT = 0 ∧ (i.extra ^^^ sum) &&& SIGN_BIT ≠ 0 then
      m.RaiseException .OverflowException 0
    else (m.set i.rt sum).advance 0 0 pcAfter
  | .OP_ADDIU => (m.set i.rt (rs + i.extra)).advance 0 0 pcAfter
  | .OP_ADDU => (m.set i.rd (rs + rt)).advance 0 0 pcAfter
  | .OP_AND => (m.set i.rd (rs &&& rt)).advance 0 0 pcAfter
  | .OP_ANDI => (m.set i.rt (rs &&& (i.extra &&& 0xffff))).advance 0 0 pcAfter
  | .OP_BEQ => m.advance 0 0 (if rs = rt then branch else pcAfter)
  | .OP_BGEZAL =>
    let m' := m.set R31 (m.nextPC + 4)
    m'.advance 0 0 (if m'.registers i.rs &&& SIGN_BIT = 0 then branch else pcAfter)
  | .OP_BGEZ => m.advance 0 0 (if rs &&& SIGN_BIT = 0 then branch else pcAfter)
  | .OP_BGTZ => m.advance 0 0 (if BitVec.slt 0 rs then branch else pcAfter)
  | .OP_BLEZ => m.advance 0 0 (if rs.sle 0 then branch else pcAfter)
  | .OP_BLTZAL =>
    let m' := m.set R31 (m.nextPC + 4)
    m'.advance 0 0 (if m'.registers i.rs &&& SIGN_BIT ≠ 0 then branch else pcAfter)
  | .OP_BLTZ => m.advance 0 0 (if rs &&& SIGN_BIT ≠ 0 then branch else pcAfter)
  | .OP_BNE => m.advance 0 0 (if rs ≠ rt then branch else pcAfter)
  | .OP_DIV =>
    if rt = 0 then { m with lo := 0, hi := 0 }.advance 0 0 pcAfter
    else if rs = 0x80000000 ∧ rt = -1 then .undefined
    else { m with lo := rs.sdiv rt, hi := rs.srem rt }.advance 0 0 pcAfter
  | .OP_DIVU =>
    if rt = 0 then { m with lo := 0, hi := 0 }.advance 0 0 pcAfter
    else { m with lo := rs / rt, hi := rs % rt }.advance 0 0 pcAfter
  | .OP_JAL =>
    (m.set R31 (m.nextPC + 4)).advance 0 0 (pcAfter &&& 0xf0000000 ||| IndexToAddr i.extra)
  | .OP_J => m.advance 0 0 (pcAfter &&& 0xf0000000 ||| IndexToAddr i.extra)
  | .OP_JALR =>
    let m' := m.set i.rd (m.nextPC + 4)
    m'.advance 0 0 (m'.registers i.rs)
  | .OP_JR => m.advance 0 0 rs
  | .OP_LB =>
    load port m tmp 1 i.rt
      (fun value => if value &&& 0x80 ≠ 0 then value ||| 0xffffff00 else value &&& 0xff) pcAfter
  | .OP_LBU => load port m tmp 1 i.rt (fun value => value &&& 0xff) pcAfter
  | .OP_LH =>
    if tmp &&& 0x1 ≠ 0 then m.RaiseException .AddressErrorException tmp
    else
      load port m tmp 2 i.rt
        (fun value => if value &&& 0x8000 ≠ 0 then value ||| 0xffff0000 else value &&& 0xffff)
        pcAfter
  | .OP_LHU =>
    if tmp &&& 0x1 ≠ 0 then m.RaiseException .AddressErrorException tmp
    else load port m tmp 2 i.rt (fun value => value &&& 0xffff) pcAfter
  | .OP_LUI => (m.set i.rt (i.extra <<< 16)).advance 0 0 pcAfter
  | .OP_LW =>
    if tmp &&& 0x3 ≠ 0 then m.RaiseException .AddressErrorException tmp
    else load port m tmp 4 i.rt (fun value => value) pcAfter
  | .OP_LWL =>
    if tmp &&& 0x3 ≠ 0 then .assertion
    else
      let old := if m.loadReg = i.rt then m.loadValue else rt
      load port m tmp 4 i.rt (fun value =>
        match (tmp &&& 0x3).toNat with
        | 0 => value
        | 1 => old &&& 0xff ||| value <<< 8
        | 2 => old &&& 0xffff ||| value <<< 16
        | _ => old &&& 0xffffff ||| value <<< 24) pcAfter
  | .OP_LWR =>
    if tmp &&& 0x3 ≠ 0 then .assertion
    else
      let old := if m.loadReg = i.rt then m.loadValue else rt
      load port m tmp 4 i.rt (fun value =>
        match (tmp &&& 0x3).toNat with
        | 0 => old &&& 0xffffff00 ||| (value.sshiftRight 24 &&& 0xff)
        | 1 => old &&& 0xffff0000 ||| (value.sshiftRight 16 &&& 0xffff)
        | 2 => old &&& 0xff000000 ||| (value.sshiftRight 8 &&& 0xffffff)
        | _ => value) pcAfter
  | .OP_MFHI => (m.set i.rd m.hi).advance 0 0 pcAfter
  | .OP_MFLO => (m.set i.rd m.lo).advance 0 0 pcAfter
  | .OP_MTHI => { m with hi := rs }.advance 0 0 pcAfter
  | .OP_MTLO => { m with lo := rs }.advance 0 0 pcAfter
  | .OP_MULT =>
    let (hi, lo) := Mult rs rt true
    { m with hi := hi, lo := lo }.advance 0 0 pcAfter
  | .OP_MULTU =>
    let (hi, lo) := Mult rs rt false
    { m with hi := hi, lo := lo }.advance 0 0 pcAfter
  | .OP_NOR => (m.set i.rd (~~~(rs ||| rt))).advance 0 0 pcAfter
  | .OP_OR => (m.set i.rd (rs ||| rs)).advance 0 0 pcAfter
  | .OP_ORI => (m.set i.rt (rs ||| (i.extra &&& 0xffff))).advance 0 0 pcAfter
  | .OP_SB => store port m tmp 1 rt pcAfter
  | .OP_SH => store port m tmp 2 rt pcAfter
  | .OP_SLL => (m.set i.rd (rt <<< i.extra.toNat)).advance 0 0 pcAfter
  | .OP_SLLV => (m.set i.rd (rt <<< (rs &&& 0x1f).toNat)).advance 0 0 pcAfter
  | .OP_SLT => (m.set i.rd (if rs.slt rt then 1 else 0)).advance 0 0 pcAfter
  | .OP_SLTI => (m.set i.rt (if rs.slt i.extra then 1 else 0)).advance 0 0 pcAfter
  | .OP_SLTIU => (m.set i.rt (if rs < i.extra then 1 else 0)).advance 0 0 pcAfter
  | .OP_SLTU => (m.set i.rd (if rs < rt then 1 else 0)).advance 0 0 pcAfter
  | .OP_SRA => (m.set i.rd (rt.sshiftRight i.extra.toNat)).advance 0 0 pcAfter
  | .OP_SRAV => (m.set i.rd (rt.sshiftRight (rs &&& 0x1f).toNat)).advance 0 0 pcAfter
  -- `tmp` is an `int`: the shift fills with the sign.
  | .OP_SRL => (m.set i.rd (rt.sshiftRight i.extra.toNat)).advance 0 0 pcAfter
  | .OP_SRLV => (m.set i.rd (rt.sshiftRight (rs &&& 0x1f).toNat)).advance 0 0 pcAfter
  | .OP_SUB =>
    let diff := rs - rt
    if (rs ^^^ rt) &&& SIGN_BIT ≠ 0 ∧ (rs ^^^ diff) &&& SIGN_BIT ≠ 0 then
      m.RaiseException .OverflowException 0
    else (m.set i.rd diff).advance 0 0 pcAfter
  | .OP_SUBU => (m.set i.rd (rs - rt)).advance 0 0 pcAfter
  | .OP_SW => store port m tmp 4 rt pcAfter
  | .OP_SWL =>
    if tmp &&& 0x3 ≠ 0 then .assertion
    else
      match port.ReadMem m (tmp &&& ~~~0x3) 4 with
      | .error m' => .fault m'
      | .ok (value, mem) =>
        store port { m with memory := mem } (tmp &&& ~~~0x3) 4
          (match (tmp &&& 0x3).toNat with
          | 0 => rt
          | 1 => value &&& 0xff000000 ||| (rt.sshiftRight 8 &&& 0xffffff)
          | 2 => value &&& 0xffff0000 ||| (rt.sshiftRight 16 &&& 0xffff)
          | _ => value &&& 0xffffff00 ||| (rt.sshiftRight 24 &&& 0xff)) pcAfter
  | .OP_SWR =>
    if tmp &&& 0x3 ≠ 0 then .assertion
    else
      match port.ReadMem m (tmp &&& ~~~0x3) 4 with
      | .error m' => .fault m'
      | .ok (value, mem) =>
        store port { m with memory := mem } (tmp &&& ~~~0x3) 4
          (match (tmp &&& 0x3).toNat with
          | 0 => value &&& 0xffffff ||| rt <<< 24
          | 1 => value &&& 0xffff ||| rt <<< 16
          | 2 => value &&& 0xff ||| rt <<< 8
          | _ => rt) pcAfter
  | .OP_SYSCALL => m.RaiseException .SyscallException 0
  | .OP_XOR => (m.set i.rd (rs ^^^ rt)).advance 0 0 pcAfter
  | .OP_XORI => (m.set i.rt (rs ^^^ (i.extra &&& 0xffff))).advance 0 0 pcAfter
  | .OP_RES | .OP_UNIMP => m.RaiseException .IllegalInstrException 0
  -- `ASSERT(FALSE)`
  | .OP_RFE | .SPECIAL | .BCOND => .assertion

/-- `Machine::OneInstruction`. -/
def OneInstruction : Outcome μ :=
  match port.ReadMem m m.pc 4 with
  | .error m' => .fault m'
  | .ok (raw, mem) => execute port { m with memory := mem } (Decode raw)

/-! ## `R0` -/

/-- `R0` is zero, for the next instruction and for the kernel. -/
def ZeroR0 : Outcome μ → Prop
  | .done m' | .exception _ m' => m'.registers 0 = 0
  | .fault _ | .assertion | .undefined => True

theorem zeroR0_load (tmp : Word) (size : ℕ) (r : Reg) (f : Word → Word) (a : Word) :
    ZeroR0 (load port m tmp size r f a) := by
  rw [load]
  split
  · trivial
  · rfl

theorem zeroR0_store (addr : Word) (size : ℕ) (v a : Word) :
    ZeroR0 (store port m addr size v a) := by
  rw [store]
  split
  · trivial
  · rfl

/-- **`R0` is zero after every instruction.** -/
theorem zeroR0_execute (i : Instruction) : ZeroR0 (execute port m i) := by
  unfold execute
  cases i.opCode <;> dsimp only
  all_goals
    repeat' first
      | rfl
      | trivial
      | apply zeroR0_load
      | apply zeroR0_store
      | split

end OneInstruction

end Nachos.Processor
